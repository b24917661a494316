import Realms.Proofs.Attainable

/-! Overflows. An exhaustion signal that reaches the boundary of a crossing becomes an overflow
there, and no other error is changed, so in a nest of boundaries whose bodies only propagate it is
the innermost one that turns the signal, and the others leave it alone. Main statement: no boundary
lets a signal out, and each answers with what its frame makes of the error of its body. -/

namespace Realms

variable {σ α β : Type} {rule : EntryRule} {s t : StackId} {fuel : Nat} {m m' : Machine σ}
  {e : Error}

namespace Error

theorem atBoundary_of_exhausted (h : e.isExhausted = true) (origin : Frame) :
    e.atBoundary origin = e.overflow origin := if_pos h

theorem atBoundary_of_not_exhausted (h : e.isExhausted = false) (origin : Frame) :
    e.atBoundary origin = e := if_neg (by simp [h])

@[simp] theorem isExhausted_atBoundary (e : Error) (origin : Frame) :
    (e.atBoundary origin).isExhausted = false := by
  cases h : e.isExhausted with
  | true => rw [atBoundary_of_exhausted h]; rfl
  | false => rw [atBoundary_of_not_exhausted h, h]

@[simp] theorem isExhausted_passing (e : Error) (frame : Frame) :
    (e.passing frame).isExhausted = e.isExhausted := rfl

@[simp] theorem trace_atBoundary (e : Error) (origin : Frame) :
    (e.atBoundary origin).trace = e.trace := by
  unfold atBoundary
  split <;> rfl

/-- What comes out of a boundary with the frame when its body ends with the error. -/
structure Crosses (e : Error) (frame : Frame) (e' : Error) : Prop where
  signal : e.isExhausted = true →
    e'.cause = .range Cause.overflowText ∧ e'.origin = some frame ∧ e'.trace = e.trace
  other : e.isExhausted = false →
    e'.cause = e.cause ∧ e'.origin = e.origin ∧ e'.trace = e.trace

theorem crosses_atBoundary (e : Error) (frame : Frame) : e.Crosses frame (e.atBoundary frame) where
  signal h := by rw [atBoundary_of_exhausted h]; exact ⟨rfl, rfl, rfl⟩
  other h := by rw [atBoundary_of_not_exhausted h]; exact ⟨rfl, rfl, rfl⟩

end Error

/-! ### Nests of boundaries -/

/-- Where an error comes out of a body: a crossing, or the call of a function. -/
inductive Boundary where
  | crossing (origin : Frame)
  | call (callee : Frame)

namespace Boundary

def frame : Boundary → Frame
  | crossing origin => origin
  | call callee => callee

/-- The frame that the trace grows by. -/
def passed? : Boundary → Option Frame
  | crossing _ => none
  | call callee => some callee

def out : Boundary → Error → Error
  | crossing origin, e => e.atBoundary origin
  | call callee, e => (e.atBoundary callee).passing callee

theorem isExhausted_out (b : Boundary) (e : Error) : (b.out e).isExhausted = false := by
  cases b <;> simp [out]

theorem trace_out (b : Boundary) (e : Error) :
    (b.out e).trace = e.trace ++ b.passed?.toList := by
  cases b <;> simp [out, passed?]

/-- The boundary that turns the signal. -/
theorem out_of_exhausted (b : Boundary) (h : e.isExhausted = true) :
    (b.out e).cause = .range Cause.overflowText ∧ (b.out e).origin = some b.frame := by
  cases b with
  | crossing origin => rw [out, Error.atBoundary_of_exhausted h]; exact ⟨rfl, rfl⟩
  | call callee => rw [out, Error.atBoundary_of_exhausted h]; exact ⟨rfl, rfl⟩

theorem out_of_not_exhausted (b : Boundary) (h : e.isExhausted = false) :
    (b.out e).cause = e.cause ∧ (b.out e).origin = e.origin := by
  cases b with
  | crossing origin => rw [out, Error.atBoundary_of_not_exhausted h]; exact ⟨rfl, rfl⟩
  | call callee => rw [out, Error.atBoundary_of_not_exhausted h]; exact ⟨rfl, rfl⟩

/-- What comes out of nested boundaries, the outermost first. -/
def outOf (bs : List Boundary) (e : Error) : Error := bs.foldr out e

theorem trace_outOf (bs : List Boundary) (e : Error) :
    (outOf bs e).trace = e.trace ++ bs.reverse.filterMap passed? := by
  induction bs with
  | nil => simp [outOf]
  | cons b bs ih =>
    rw [outOf, List.foldr_cons, trace_out]
    rw [outOf] at ih
    rw [ih, List.reverse_cons, List.filterMap_append, List.append_assoc]
    cases h : b.passed? <;> simp [h]

theorem outOf_of_not_exhausted (bs : List Boundary) (h : e.isExhausted = false) :
    (outOf bs e).isExhausted = false ∧ (outOf bs e).cause = e.cause ∧
      (outOf bs e).origin = e.origin := by
  induction bs with
  | nil => exact ⟨h, rfl, rfl⟩
  | cons b bs ih =>
    obtain ⟨hexhausted, hcause, horigin⟩ := ih
    have hout := b.out_of_not_exhausted hexhausted
    exact ⟨isExhausted_out _ _, hout.1.trans hcause, hout.2.trans horigin⟩

/-- The innermost boundary notes its frame, and the outer ones keep it. -/
theorem outOf_of_exhausted {bs : List Boundary} {b : Boundary} (hb : b ∈ bs.getLast?)
    (h : e.isExhausted = true) : (outOf bs e).cause = .range Cause.overflowText ∧
      (outOf bs e).origin = some b.frame := by
  obtain ⟨outer, rfl⟩ := List.getLast?_eq_some_iff.mp hb
  have houter : outOf (outer ++ [b]) e = outOf outer (b.out e) := List.foldr_append ..
  obtain ⟨-, hcause, horigin⟩ := outOf_of_not_exhausted outer (b.isExhausted_out e)
  rw [houter, hcause, horigin]
  exact b.out_of_exhausted h

end Boundary

/-- A program whose run comes to an error of a body inside it, which it only propagates, out through
the boundaries of that body, outermost first. What the program does before does not matter, nor what
it does after, as long as it ends with the error that came out. -/
inductive Propagates (rule : EntryRule) : {α : Type} → Nat → StackId → Machine σ →
    Program σ (Except Error α) → Error → List Boundary → Prop
  | raises {α : Type} {fuel : Nat} {s : StackId} {m m' : Machine σ}
      {p : Program σ (Except Error α)} {e : Error} :
      p.run rule fuel s m = (.done (.error e), m') → Propagates rule fuel s m p e []
  | before {α β : Type} {fuel : Nat} {s : StackId} {m m' : Machine σ} {p : Program σ β} {b : β}
      {k : β → Program σ (Except Error α)} {e : Error} {bs : List Boundary} :
      p.run rule fuel s m = (.done b, m') → Propagates rule fuel s m' (k b) e bs →
      Propagates rule fuel s m (p.bind k) e bs
  | after {α β : Type} {fuel : Nat} {s : StackId} {m : Machine σ}
      {p : Program σ (Except Error β)} {k : Except Error β → Program σ (Except Error α)}
      {e : Error} {bs : List Boundary} : Propagates rule fuel s m p e bs →
      (∀ e m, ∃ m', (k (.error e)).run rule fuel s m = (.done (.error e), m')) →
      Propagates rule fuel s m (p.bind k) e bs
  | elsewhere {α : Type} {fuel : Nat} {s t : StackId} {m : Machine σ}
      {p : Program σ (Except Error α)} {e : Error} {bs : List Boundary} :
      Propagates rule fuel t m p e bs → Propagates rule fuel s m (.on t p) e bs
  | crosses {α : Type} {fuel : Nat} {s : StackId} {m : Machine σ} {home : RealmId}
      {origin : Frame} {body : Program σ (Except Error α)} {scope : Scope} {store : Store}
      {e : Error} {bs : List Boundary} : m.store.enter? rule s home = some (.ok scope, store) →
      Propagates rule fuel s { m with store := store.beginCrossing scope } body e bs →
      Propagates rule fuel s m (.cross home origin body) e (.crossing origin :: bs)
  /-- The call is one too many. -/
  | exceeds {fuel : Nat} {s : StackId} {m : Machine σ} {o : ObjectId} {arguments : List Value}
      {object : Object} {f : Function} {scope : Scope} {store : Store} {e : Error} :
      m.store.object? o = some object → object.function? = some f →
      m.store.enter? rule s object.realm = some (.ok scope, store) →
      (store.beginCrossing scope).pushCall? s = some (.error e) →
      Propagates rule fuel s m (.call (.object o) arguments) e [.call object.frame]
  | calls {fuel : Nat} {s : StackId} {m : Machine σ} {o : ObjectId} {arguments : List Value}
      {object : Object} {f : Function} {scope : Scope} {store counted : Store}
      {body : CallContext → Program σ (Except Error Value)} {e : Error} {bs : List Boundary} :
      m.store.object? o = some object → object.function? = some f →
      m.store.enter? rule s object.realm = some (.ok scope, store) →
      (store.beginCrossing scope).pushCall? s = some (.ok counted) →
      m.code[f.code.index]? = some body →
      Propagates rule fuel s { m with store := counted } (body ⟨o, arguments⟩) e bs →
      Propagates rule (fuel + 1) s m (.call (.object o) arguments) e (.call object.frame :: bs)

theorem Propagates.run {p : Program σ (Except Error α)} {bs : List Boundary}
    (h : Propagates rule fuel s m p e bs) :
    ∃ last, p.run rule fuel s m = (.done (.error (Boundary.outOf bs e)), last) := by
  induction h with
  | raises hr => exact ⟨_, hr⟩
  | before hr _ ih =>
    obtain ⟨last, hlast⟩ := ih
    exact ⟨last, by rw [Program.run_bind, hr]; exact hlast⟩
  | after _ hk ih =>
    obtain ⟨last, hlast⟩ := ih
    obtain ⟨last', hlast'⟩ := hk _ last
    exact ⟨last', by rw [Program.run_bind, hlast]; exact hlast'⟩
  | elsewhere _ ih =>
    obtain ⟨last, hlast⟩ := ih
    exact ⟨last, by rw [Program.on_run, hlast]⟩
  | crosses he _ ih =>
    obtain ⟨last, hlast⟩ := ih
    exact ⟨_, (Program.cross_run ..).trans (Run.crossing_of_body he hlast)⟩
  | exceeds ho hf he hp =>
    exact ⟨_, (Program.call_run ..).trans (Run.calling_of_body ho hf he (Run.counted_refused hp))⟩
  | calls ho hf he hp hc _ ih =>
    obtain ⟨last, hlast⟩ := ih
    have hbody := Run.counted_of_body hp (Program.invocation_of_body hc hlast)
    exact ⟨_, (Program.call_run ..).trans (Run.calling_of_body ho hf he hbody)⟩

/-! ### Signals stay inside -/

theorem Outcome.of_map_error {outcome : Outcome (Except Error α)} {f : Error → Error}
    (h : outcome.map (·.mapError f) = .done (.error e)) :
    ∃ inner, outcome = .done (.error inner) ∧ f inner = e := by
  cases outcome with
  | done r =>
    cases r with
    | ok a => cases h
    | error inner => cases h; exact ⟨inner, rfl, rfl⟩
  | panicked | outOfFuel => cases h

theorem Run.crossing_isExhausted {home : RealmId} {origin : Frame}
    {body : Run σ (Except Error α)} (h : (crossing rule home origin body s m).1 =
      .done (.error e)) : e.isExhausted = false := by
  rcases crossing_cases home origin body (fun _ _ => []) with
    ⟨hr, -⟩ | ⟨e, he, hr, -⟩ | ⟨scope, store, outcome, last, -, -, hr, -⟩
  · rw [hr] at h
    cases h
  · rw [hr] at h
    cases h
    rw [(Store.enter?_error he).2]
    rfl
  · rw [hr] at h
    obtain ⟨inner, -, rfl⟩ := Outcome.of_map_error h
    exact inner.isExhausted_atBoundary origin

theorem Run.calling_isExhausted {invoke : Invocation σ} {callee : Value} {arguments : List Value}
    (h : (calling rule invoke callee arguments s m).1 = .done (.error e)) :
    e.isExhausted = false := by
  unfold calling at h
  split at h
  · split at h
    · cases h
    · split at h
      · cases h; rfl
      · obtain ⟨inner, hinner, rfl⟩ := Outcome.of_map_error h
        rw [Error.isExhausted_passing]
        exact crossing_isExhausted hinner
  · cases h; rfl

/-- No call and no crossing ends with a signal: what comes out is an overflow with its frame as the
origin, or else the error of the body. So the origin is that of the innermost boundary in a nest
that propagates. Only an overflow has an origin, as long as programs raise attainable errors. -/
theorem overflow_translated_once (rule : EntryRule) (fuel : Nat) (s : StackId) (m : Machine σ) :
    ((∀ callee arguments e, ((Program.call callee arguments).run rule fuel s m).1 =
        .done (.error e) → e.isExhausted = false) ∧
      (∀ {α : Type} home origin (body : Program σ (Except Error α)) e,
        ((Program.cross home origin body).run rule fuel s m).1 = .done (.error e) →
          e.isExhausted = false) ∧
      ∀ {α : Type} target (body : Program σ (Except Error α)) e,
        ((Program.crossTo target body).run rule fuel s m).1 = .done (.error e) →
          e.isExhausted = false) ∧
    ((∀ {α : Type} home origin (body : Program σ (Except Error α)) scope store e last,
        m.store.enter? rule s home = some (.ok scope, store) →
        body.run rule fuel s { m with store := store.beginCrossing scope } =
          (.done (.error e), last) →
        ∃ e', ((Program.cross home origin body).run rule fuel s m).1 = .done (.error e') ∧
          e.Crosses origin e') ∧
      (∀ {α : Type} target object (body : Program σ (Except Error α)) scope store e last,
        m.store.object? target = some object →
        m.store.enter? rule s object.realm = some (.ok scope, store) →
        body.run rule fuel s { m with store := store.beginCrossing scope } =
          (.done (.error e), last) →
        ∃ e', ((Program.crossTo target body).run rule fuel s m).1 = .done (.error e') ∧
          e.Crosses object.frame e') ∧
      ∀ o object f arguments scope store e last, m.store.object? o = some object →
        object.function? = some f →
        m.store.enter? rule s object.realm = some (.ok scope, store) →
        Run.counted (Program.invocation rule fuel f.code ⟨o, arguments⟩) s
          { m with store := store.beginCrossing scope } = (.done (.error e), last) →
        ∃ e', ((Program.call (.object o) arguments).run rule fuel s m).1 =
          .done (.error (e'.passing object.frame)) ∧ e.Crosses object.frame e') ∧
    (∀ {α : Type} (p : Program σ (Except Error α)) e bs, Propagates rule fuel s m p e bs →
      ∃ e', (p.run rule fuel s m).1 = .done (.error e') ∧
        e'.trace = e.trace ++ bs.reverse.filterMap Boundary.passed? ∧
        (e.isExhausted = true → ∀ b ∈ bs.getLast?,
          e'.cause = .range Cause.overflowText ∧ e'.origin = some b.frame) ∧
        (e.isExhausted = false → e'.cause = e.cause ∧ e'.origin = e.origin)) ∧
    (∀ e : Error, e.Attainable → e.origin.isSome → e.isOverflow = true) ∧
    ∀ {α : Type} (keeps : σ → Prop) Q (p : Program σ (Except Error α)), m.Honest keeps →
      p.Honest keeps (Error.Fair Q) → (p.run rule fuel s m).2.Honest keeps ∧
        ∀ e, (p.run rule fuel s m).1 = .done (.error e) → e.Attainable := by
  refine ⟨⟨?_, ?_, ?_⟩, ⟨?_, ?_, ?_⟩, ?_, fun e he => he.isOverflow_of_origin, ?_⟩
  · intro callee arguments e h
    rw [Program.call_run] at h
    exact Run.calling_isExhausted h
  · intro α home origin body e h
    rw [Program.cross_run] at h
    exact Run.crossing_isExhausted h
  · intro α target body e h
    cases ho : m.store.object? target with
    | none => rw [Program.crossTo_run, Run.reading_unknown ho] at h; cases h
    | some object =>
      rw [Program.crossTo_run_of_object ho, Program.cross_run] at h
      exact Run.crossing_isExhausted h
  · intro α home origin body scope store e last he hb
    rw [Program.cross_run, Run.crossing_of_body he hb]
    exact ⟨_, rfl, e.crosses_atBoundary origin⟩
  · intro α target object body scope store e last ho he hb
    rw [Program.crossTo_run_of_object ho, Program.cross_run, Run.crossing_of_body he hb]
    exact ⟨_, rfl, e.crosses_atBoundary object.frame⟩
  · intro o object f arguments scope store e last ho hf he hb
    rw [Program.call_run, Run.calling_of_body ho hf he hb]
    exact ⟨_, rfl, e.crosses_atBoundary object.frame⟩
  · intro α p e bs h
    obtain ⟨last, hlast⟩ := h.run
    exact ⟨_, congrArg Prod.fst hlast, Boundary.trace_outOf bs e,
      fun he b hb => Boundary.outOf_of_exhausted hb he,
      fun he => (Boundary.outOf_of_not_exhausted bs he).2⟩
  · intro α keeps Q p hm hp
    obtain ⟨hm', hanswer⟩ := p.run_upholds fuel hp hm
    exact ⟨hm', fun e he => hanswer _ he⟩

/-- Raises a signal inside two crossings. -/
def Program.signalling : Program σ (Except Error Unit) :=
  cross (.main ⟨0⟩) ⟨"outer", none⟩ (cross ⟨⟨0⟩, 1⟩ ⟨"inner", none⟩
    (.done (.error (.of (.exhausted 0)))))

/-- Saves the error that comes out of the crossings, and raises it again in a third. -/
def Program.resignalling : Program (Option Error) (Except Error Unit) :=
  .crossing (.main ⟨0⟩) ⟨"first", none⟩ signalling fun
    | .ok _ => .done (.ok ())
    | .error e => .remembering (some e) (cross (.main ⟨0⟩) ⟨"again", none⟩ (.recalling fun
      | some e => .done (.error e)
      | none => .done (.ok ())))

/-- A machine with room for one error. -/
def Machine.withoutError : Machine (Option Error) := .prepared .shortcut Program.twoRealms none

theorem signalling_translated :
    (∃ e, (Program.signalling.run .shortcut 0 ⟨0⟩ Machine.withoutError).1 = .done (.error e) ∧
      e.cause = .range Cause.overflowText ∧ e.origin = some ⟨"inner", none⟩) ∧
    ∀ e, (Program.resignalling.run .shortcut 0 ⟨0⟩ Machine.withoutError).1 = .done (.error e) →
      e.Attainable := by
  have hnest : Propagates .shortcut 0 ⟨0⟩ Machine.withoutError Program.signalling
      (.of (.exhausted 0)) [.crossing ⟨"outer", none⟩, .crossing ⟨"inner", none⟩] :=
    .crosses rfl (.crosses rfl (.raises rfl))
  have hm : Machine.withoutError.Honest (fun memory => ∀ e ∈ memory, e.Attainable) :=
    ⟨fun _ he => (by cases he), fun _ _ hi => (by cases hi)⟩
  have hp : Program.resignalling.Honest (fun memory => ∀ e ∈ memory, e.Attainable)
      (Error.Fair fun _ => True) := by
    refine ⟨fun _ => True, ⟨fun _ => True, ⟨fun _ => True, .of _, fun _ h => h⟩, fun _ h => h⟩, ?_⟩
    intro r hr
    cases r with
    | ok a => trivial
    | error e =>
      refine ⟨fun e' he' => ?_, fun _ => True, fun memory hmemory => ?_, fun _ h => h⟩
      · cases he'
        exact hr
      · cases memory with
        | none => trivial
        | some e => exact hmemory e rfl
  obtain ⟨-, -, hnests, -, hhonest⟩ :=
    overflow_translated_once .shortcut 0 ⟨0⟩ Machine.withoutError
  obtain ⟨e, he, -, horigin, -⟩ := hnests _ _ _ hnest
  obtain ⟨hcause, horigin⟩ := horigin rfl _ rfl
  exact ⟨⟨e, he, hcause, horigin⟩, (hhonest _ _ _ hm hp).2⟩

end Realms
