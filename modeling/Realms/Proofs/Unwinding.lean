import Realms.Proofs.Stage

/-! Traces of errors. An error grows by one frame for each call that it comes out of, and by none
for a crossing. Main statement: when an error leaves nested crossings and calls, each of which
answers with it, it keeps the trace that it was raised with, and the frames of the called functions
follow, innermost first; nothing changes if it is kept for a while and raised again. -/

namespace Realms

open Stage

variable {σ α β : Type} {rule : EntryRule} {s t : StackId} {fuel : Nat} {m m' : Machine σ}
  {e e' : Error} {bs bs' : List Boundary}

namespace Stage

variable {g : Stage σ α} {layer : Layer} {body : Stage σ (Except Error β)}

/-- The crossing or the call that a stage is about to make answers with an error. -/
inductive Fails (rule : EntryRule) : {α : Type} → Stage σ α → Error → Prop
  | crossing {α β : Type} {fuel : Nat} {s : StackId} {m : Machine σ} {home : RealmId}
      {origin : Frame} {body : Program σ (Except Error β)} {k : Except Error β → Program σ α}
      {e : Error} :
      (Run.crossing rule home origin (body.run rule fuel) s m).1 = .done (.error e) →
      Fails rule ⟨fuel, s, m, .crossing home origin body k⟩ e
  | calling {α : Type} {fuel : Nat} {s : StackId} {m : Machine σ} {callee : Value}
      {arguments : List Value} {k : Except Error Value → Program σ α} {e : Error} :
      (Run.calling rule (Program.invocation rule fuel) callee arguments s m).1 =
        .done (.error e) →
      Fails rule ⟨fuel, s, m, .calling callee arguments k⟩ e

/-- The call that a stage is about to make is refused before a body starts: the home realm of the
function is unknown, or the calls are exhausted. -/
inductive Refuses (rule : EntryRule) : {α : Type} → Stage σ α → Frame → Error → Prop
  | unknown {α : Type} {fuel : Nat} {s : StackId} {m : Machine σ} {o : ObjectId}
      {arguments : List Value} {k : Except Error Value → Program σ α} {object : Object}
      {f : Function} {e : Error} : m.store.object? o = some object → object.function? = some f →
      m.store.enter? rule s object.realm = some (.error e, m.store) →
      Refuses rule ⟨fuel, s, m, .calling (.object o) arguments k⟩ object.frame e
  | exhausted {α : Type} {fuel : Nat} {s : StackId} {m : Machine σ} {o : ObjectId}
      {arguments : List Value} {k : Except Error Value → Program σ α} {object : Object}
      {f : Function} {scope : Scope} {store : Store} {e : Error} :
      m.store.object? o = some object → object.function? = some f →
      m.store.enter? rule s object.realm = some (.ok scope, store) →
      (store.beginCrossing scope).pushCall? s = some (.error e) →
      Refuses rule ⟨fuel, s, m, .calling (.object o) arguments k⟩ object.frame e

/-- A stage is about to make a crossing into an unknown realm, or to call what is no function. -/
inductive Declines (rule : EntryRule) : {α : Type} → Stage σ α → Error → Prop
  | crossing {α β : Type} {fuel : Nat} {s : StackId} {m : Machine σ} {home : RealmId}
      {origin : Frame} {body : Program σ (Except Error β)} {k : Except Error β → Program σ α}
      {e : Error} : m.store.enter? rule s home = some (.error e, m.store) →
      Declines rule ⟨fuel, s, m, .crossing home origin body k⟩ e
  | calling {α : Type} {fuel : Nat} {s : StackId} {m : Machine σ} {callee : Value}
      {arguments : List Value} {k : Except Error Value → Program σ α} :
      (∀ o object, callee = .object o → m.store.object? o = some object →
        object.function? = none) →
      Declines rule ⟨fuel, s, m, .calling callee arguments k⟩
        (.notFunction (m.store.typeName callee))

/-- An error unwinds from where it is raised to the end of a body, through those boundaries,
outermost first: each body ends with the error that a crossing or a call made in it has answered. -/
inductive Unwinds (rule : EntryRule) : {α : Type} → Stage σ (Except Error α) → Error →
    List Boundary → Prop
  | raised {α : Type} {g : Stage σ (Except Error α)} {e : Error} :
      (g.run rule).1 = .done (.error e) → Unwinds rule g e []
  | refused {α β : Type} {g : Stage σ (Except Error α)} {call : Stage σ β} {callee : Frame}
      {e e' : Error} : Part rule g [] call → Refuses rule call callee e → Fails rule call e' →
      (g.run rule).1 = .done (.error e') → Unwinds rule g e [.call callee]
  | through {α β γ : Type} {g : Stage σ (Except Error α)} {g' : Stage σ β} {layer : Layer}
      {body : Stage σ (Except Error γ)} {e e' : Error} {bs : List Boundary} :
      Part rule g [] g' → Enters rule g' layer body → Unwinds rule body e bs → Fails rule g' e' →
      (g.run rule).1 = .done (.error e') → Unwinds rule g e (layer.boundary :: bs)

/-- The crossing or the call answers with what its boundary makes of the error of the body. -/
theorem Enters.fails (h : Enters rule g layer body) (hbody : (body.run rule).1 = .done (.error e)) :
    Fails rule g (layer.boundary.out e) := by
  cases h with
  | crossing he => exact .crossing (congrArg Prod.fst (Run.crossing_of_body he (Prod.ext hbody rfl)))
  | calling ho hf he hp hc =>
    have hcount := Run.counted_of_body hp (Program.invocation_of_body hc (Prod.ext hbody rfl))
    exact .calling (congrArg Prod.fst (Run.calling_of_body ho hf he hcount))

theorem Fails.unique (h : Fails rule g e) (h' : Fails rule g e') : e = e' := by
  cases h with
  | crossing hr =>
    cases h' with
    | crossing hr' =>
      rw [hr] at hr'
      cases hr'
      rfl
  | calling hr =>
    cases h' with
    | calling hr' =>
      rw [hr] at hr'
      cases hr'
      rfl

theorem Enters.error_eq (h : Enters rule g layer body) (hbody : (body.run rule).1 = .done (.error e))
    (hg : Fails rule g e') : e' = layer.boundary.out e :=
  hg.unique (h.fails hbody)

theorem Refuses.error_eq {callee : Frame} (h : Refuses rule g callee e) (hg : Fails rule g e') :
    e' = (Boundary.call callee).out e := by
  cases h with
  | unknown ho hf he =>
    cases hg with
    | calling hr =>
      simp only [Run.calling, ho, hf, Run.crossing, he] at hr
      cases hr
      obtain ⟨-, rfl⟩ := Store.enter?_error he
      rfl
  | exhausted ho hf he hp =>
    cases hg with
    | calling hr =>
      rw [Run.calling_of_body ho hf he (Run.counted_refused hp)] at hr
      cases hr
      rfl

theorem Unwinds.run {g : Stage σ (Except Error α)} (h : Unwinds rule g e bs) :
    (g.run rule).1 = .done (.error (Boundary.outOf bs e)) := by
  induction h with
  | raised hr => exact hr
  | refused _ href hfail hr => rw [hr, href.error_eq hfail]; rfl
  | through _ henter _ hfail hr ih => rw [hr, henter.error_eq ih hfail]; rfl

theorem Declines.trace_eq (h : Declines rule g e) : e.trace = [] := by
  cases h with
  | crossing he => rw [(Store.enter?_error he).2]; rfl
  | calling => rfl

theorem Refuses.trace_eq {callee : Frame} (h : Refuses rule g callee e) : e.trace = [] := by
  cases h with
  | unknown _ _ he => rw [(Store.enter?_error he).2]; rfl
  | exhausted _ _ _ hp =>
    obtain ⟨now, engine, -, -, -, rfl⟩ := Store.pushCall?_error hp
    rfl

/-- How a call comes to an error inside its crossing: it is one too many, or its body ends so. -/
theorem counted_failed {c : CodeId} {context : CallContext} {start : Store}
    (h : (Run.counted (Program.invocation rule fuel c context) s { m with store := start }).1 =
      .done (.error e)) : start.pushCall? s = some (.error e) ∨
      ∃ counted body fuel', fuel = fuel' + 1 ∧ start.pushCall? s = some (.ok counted) ∧
        m.code[c.index]? = some body ∧
        ((body context).run rule fuel' s { m with store := counted }).1 = .done (.error e) := by
  simp only [Run.counted] at h
  split at h
  · cases h
  · next hp => cases h; exact .inl hp
  · next counted hp =>
    refine .inr ?_
    cases fuel with
    | zero => cases h
    | succ fuel =>
      simp only [Program.invocation] at h
      split at h
      · cases h
      · next body hc =>
        refine ⟨counted, body, fuel, rfl, hp, hc, ?_⟩
        cases hr : (body context).run rule fuel s { m with store := counted } with
        | mk outcome last =>
        rw [show (body context).runWith rule (Program.invocation rule fuel) s
          { m with store := counted } = (outcome, last) from hr] at h
        cases outcome with
        | done r => cases h; rfl
        | panicked | outOfFuel => cases h

/-- An error that a crossing or a call answers is its own refusal, or what the boundary makes of the
error of the body. -/
theorem Fails.origin (h : Fails rule g e') : Declines rule g e' ∨
    (∃ callee e, Refuses rule g callee e) ∨
    ∃ (β : Type) (layer : Layer) (body : Stage σ (Except Error β)) (e : Error),
      Enters rule g layer body ∧ (body.run rule).1 = .done (.error e) := by
  cases h with
  | @crossing _ fuel s m home origin body _ _ hr =>
    rcases Run.crossing_cases home origin (body.run rule fuel) (fun _ _ => []) with
      ⟨hc, -⟩ | ⟨e, he, hc, -⟩ | ⟨scope, store, outcome, last, he, hbody, hc, -⟩
    · rw [hc] at hr
      cases hr
    · rw [hc] at hr
      cases hr
      exact .inl (.crossing he)
    · rw [hc] at hr
      obtain ⟨e, rfl, -⟩ := Outcome.of_map_error hr
      exact .inr (.inr ⟨_, _, _, e, .crossing he, congrArg Prod.fst hbody⟩)
  | @calling fuel s m callee arguments _ _ hr =>
    cases callee with
    | object o =>
      simp only [Run.calling] at hr
      split at hr
      · cases hr
      · next object ho =>
        split at hr
        · next hf =>
          cases hr
          refine .inl (.calling fun o' object' heq ho' => ?_)
          cases heq
          rw [ho] at ho'
          cases ho'
          exact hf
        · next f hf =>
          obtain ⟨e, hcross, -⟩ := Outcome.of_map_error hr
          rcases Run.crossing_cases object.realm object.frame
            (Run.counted (Program.invocation rule fuel f.code ⟨o, arguments⟩)) (fun _ _ => []) with
            ⟨hc, -⟩ | ⟨e, he, hc, -⟩ | ⟨scope, store, outcome, last, he, hbody, hc, -⟩
          · rw [hc] at hcross
            cases hcross
          · exact .inr (.inl ⟨_, e, .unknown ho hf he⟩)
          · rw [hc] at hcross
            obtain ⟨e, rfl, -⟩ := Outcome.of_map_error hcross
            rcases counted_failed (congrArg Prod.fst hbody) with
              hp | ⟨counted, body, fuel', rfl, hp, hcode, hbody⟩
            · exact .inr (.inl ⟨_, e, .exhausted ho hf he hp⟩)
            · exact .inr (.inr ⟨_, _, _, e, .calling ho hf he hp hcode, hbody⟩)
    | _ =>
      cases hr
      refine .inl (.calling fun _ _ heq => ?_)
      cases heq

/-- A single call passes the error of its body on. -/
theorem Unwinds.call {callee : Value} {arguments : List Value}
    (henter : Enters rule ⟨fuel, s, m, .call callee arguments⟩ layer body)
    (h : Unwinds rule body e bs) :
    Unwinds rule ⟨fuel, s, m, .call callee arguments⟩ e (layer.boundary :: bs) := by
  have hfail := henter.fails h.run
  refine .through (.here _) henter h hfail ?_
  cases hfail with
  | calling hr => exact (congrArg Prod.fst (Program.call_run callee arguments)).trans hr

end Stage

theorem Object.frame_of_function {object : Object} {f : Function} (hf : object.function? = some f) :
    object.frame = ⟨f.name, f.location⟩ := by
  simp only [frame, hf]

/-- An error that leaves nested boundaries has the trace that it was raised with, and then the name
and the location of each called function, innermost first. A call that is refused before a body
starts is a boundary too, unless the callee is no function; a crossing adds nothing. An error that
is kept and raised again grows on from the trace that it had. -/
theorem trace_of_unwinding (rule : EntryRule) :
    (∀ {α : Type} (g : Stage σ (Except Error α)) e bs, Unwinds rule g e bs →
      ∃ e', (g.run rule).1 = .done (.error e') ∧
        e'.trace = e.trace ++ bs.reverse.filterMap Boundary.passed?) ∧
    (∀ {α : Type} (g : Stage σ α) e', Fails rule g e' →
      (Declines rule g e' ∧ e'.trace = []) ∨
      (∃ callee e, Refuses rule g callee e ∧ e.trace = [] ∧ e'.trace = [callee]) ∨
      ∃ (β : Type) (layer : Layer) (body : Stage σ (Except Error β)) (e : Error),
        Enters rule g layer body ∧ (body.run rule).1 = .done (.error e) ∧
          e'.trace = e.trace ++ layer.boundary.passed?.toList) ∧
    (∀ {α β : Type} (g : Stage σ (Except Error α)) (g' : Stage σ (Except Error β)) e bs kept bs',
      Unwinds rule g e bs → (g.run rule).1 = .done (.error kept) → Unwinds rule g' kept bs' →
      ∃ e', (g'.run rule).1 = .done (.error e') ∧
        e'.trace = e.trace ++ bs.reverse.filterMap Boundary.passed? ++
          bs'.reverse.filterMap Boundary.passed?) ∧
    ∀ (object : Object) f, object.function? = some f → object.frame = ⟨f.name, f.location⟩ := by
  refine ⟨?_, ?_, ?_, fun object f => Object.frame_of_function⟩
  · intro α g e bs h
    exact ⟨_, h.run, Boundary.trace_outOf bs e⟩
  · intro α g e' h
    rcases h.origin with hdecline | ⟨callee, e, hrefuse⟩ | ⟨β, layer, body, e, henter, hbody⟩
    · exact .inl ⟨hdecline, hdecline.trace_eq⟩
    · refine .inr (.inl ⟨callee, e, hrefuse, hrefuse.trace_eq, ?_⟩)
      rw [hrefuse.error_eq h, Boundary.trace_out, hrefuse.trace_eq]
      rfl
    · refine .inr (.inr ⟨β, layer, body, e, henter, hbody, ?_⟩)
      rw [henter.error_eq hbody h, Boundary.trace_out]
  · intro α β g g' e bs kept bs' h hkept h'
    refine ⟨_, h'.run, ?_⟩
    have heq : kept = Boundary.outOf bs e := by
      rw [h.run] at hkept
      cases hkept
      rfl
    rw [Boundary.trace_outOf, heq, Boundary.trace_outOf]

/-- Raises the error that is kept, or a new one if none is. -/
def Program.raisingKept : CallContext → Program (Option Error) (Except Error Value) := fun _ =>
  .recalling fun
    | some e => .done (.error e)
    | none => .done (.error (.of (.message "lost")))

/-- A machine with a function that raises errors, and none of them kept. -/
def Machine.withRaiser : Machine (Option Error) :=
  .prepared .shortcut (do
    let _ ← Program.twoRealms
    Program.define ⟨⟨0⟩, 1⟩ "raiser" none Program.raisingKept) none

/-- The error of one call, raised again by a second one. -/
theorem trace_of_raising_again : ∃ kept e',
    ((Program.call (.object ⟨6⟩) []).run .shortcut 1 ⟨0⟩ Machine.withRaiser).1 =
      .done (.error kept) ∧
    ((Program.call (.object ⟨6⟩) []).run .shortcut 1 ⟨0⟩
      { Machine.withRaiser with memory := some kept }).1 = .done (.error e') ∧
    e'.trace = [⟨"raiser", none⟩, ⟨"raiser", none⟩] := by
  obtain ⟨object, f, scope, store, counted, ho, hf, he, hp, hc, hframe⟩ :
      ∃ object f scope store counted, Machine.withRaiser.store.object? ⟨6⟩ = some object ∧
        object.function? = some f ∧
        Machine.withRaiser.store.enter? .shortcut ⟨0⟩ object.realm = some (.ok scope, store) ∧
        (store.beginCrossing scope).pushCall? ⟨0⟩ = some (.ok counted) ∧
        Machine.withRaiser.code[f.code.index]? = some Program.raisingKept ∧
        object.frame = ⟨"raiser", none⟩ := ⟨_, _, _, _, _, rfl, rfl, rfl, rfl, rfl, rfl⟩
  have hfirst : Unwinds .shortcut ⟨1, ⟨0⟩, Machine.withRaiser, .call (.object ⟨6⟩) []⟩
      (.of (.message "lost")) [.call object.frame] :=
    .call (.calling ho hf he hp hc) (.raised rfl)
  have hagain (kept : Error) : Unwinds .shortcut
      ⟨1, ⟨0⟩, { Machine.withRaiser with memory := some kept }, .call (.object ⟨6⟩) []⟩
      kept [.call object.frame] :=
    .call (m := { Machine.withRaiser with memory := some kept }) (.calling ho hf he hp hc)
      (.raised rfl)
  obtain ⟨hunwind, -, hkept, -⟩ := trace_of_unwinding (σ := Option Error) .shortcut
  obtain ⟨kept, hrun, -⟩ := hunwind _ _ _ hfirst
  obtain ⟨e', hrun', htrace⟩ := hkept _ _ _ _ kept _ hfirst hrun (hagain kept)
  exact ⟨kept, e', hrun, hrun', by rw [htrace, hframe]; rfl⟩

end Realms
