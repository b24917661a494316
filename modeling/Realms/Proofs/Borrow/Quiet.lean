import Realms.Proofs.Borrow.Release

/-! Code that is run with nothing borrowed. Main statement: whatever the code of functions and of
foreign values does, and however deeply it uses the runtime again, nothing is borrowed when any of
it begins. A session ends as programs end, and never by a conflict, unless an engine was let go of
while a function in one of its realms owned a scope. -/

namespace Realms.Borrow

open Memory (Access Hold)
open Held

variable {σ α β : Type} {R : Prop}

/-- Nothing is borrowed, nor was anything when user code began. Where nothing is to be let go of
(`R`), no realm is lost. -/
structure Calm (R : Prop) (w : World σ) : Prop where
  holds : w.holds = .free
  starts : ∀ start ∈ w.starts, start.holds = .free
  retains : R → w.Retains

/-- Work that leaves a calm machine calm, and is refused no borrow unless a function of a lost realm
owns a scope. -/
def Quiet (R : Prop) (h : Held σ α) : Prop :=
  ∀ w, Calm R w → Calm R (h w).2 ∧ ((h w).1.Ordinary ∨ (h w).2.Burdened)

namespace Quiet

variable {h h' body : Held σ α} {k : α → Held σ β} {drop : Held σ Unit}

/-! ### Work put together -/

theorem of_eq (heq : ∀ w : World σ, w.holds = .free → h w = h' w) (hh' : Quiet R h') :
    Quiet R h := fun w hw => heq w hw.holds ▸ hh' w hw

theorem of_steady (hh : Steady h)
    (hend : ∀ w, w.holds = .free → ¬w.Burdened → (h w).1.Ordinary) : Quiet R h := by
  intro w hw
  obtain ⟨store, hlast⟩ := hh w
  rw [hlast]
  refine ⟨⟨hw.holds, hw.starts, hw.retains⟩, ?_⟩
  by_cases hburden : w.Burdened
  · exact .inr hburden
  · exact .inl (hend w hw.holds hburden)

theorem pure (a : α) : Quiet R (Pure.pure a : Held σ α) := fun _ hw => ⟨hw, .inl ⟨_, rfl⟩⟩

theorem panic (text : String) : Quiet R (Held.panic text : Held σ α) :=
  fun _ hw => ⟨hw, .inl ⟨_, rfl⟩⟩

theorem outOfFuel : Quiet R (Held.outOfFuel : Held σ α) := fun _ hw => ⟨hw, .inl ⟨_, rfl⟩⟩

theorem look (f : Store → Option α) : Quiet R (Held.look f : Held σ α) := by
  refine of_steady (.look f) fun w _ _ => ?_
  rw [Held.look]
  cases f w.store <;> exact ⟨_, rfl⟩

theorem change (f : Store → Option (α × Store)) : Quiet R (Held.change f : Held σ α) := by
  refine of_steady (.change f) fun w _ _ => ?_
  rw [Held.change]
  cases f w.store <;> exact ⟨_, rfl⟩

theorem remembered : Quiet R (Held.remembered : Held σ σ) := fun _ hw => ⟨hw, .inl ⟨_, rfl⟩⟩

theorem remember (memory : σ) : Quiet R (Held.remember memory) :=
  fun _ hw => ⟨⟨hw.holds, hw.starts, hw.retains⟩, .inl ⟨_, rfl⟩⟩

/-- User code may begin where nothing is borrowed. -/
theorem starting (code : UserCode) : Quiet R (Held.starting code : Held σ Unit) := by
  refine fun w hw => ⟨⟨hw.holds, fun start hstart => ?_, hw.retains⟩, .inl ⟨_, rfl⟩⟩
  obtain rfl | hstart := List.mem_cons.1 hstart
  · exact hw.holds
  · exact hw.starts start hstart

theorem bind (hh : Quiet R h) (hk : ∀ a, Quiet R (k a)) : Quiet R (h >>= k) := by
  intro w hw
  obtain ⟨hnext, hend⟩ := hh w hw
  simp only [Bind.bind, andThen]
  generalize h w = r at hnext hend ⊢
  obtain ⟨⟨a | _ | _⟩ | _ | _, next⟩ := r
  · exact hk a next hnext
  all_goals exact ⟨hnext, hend.imp_left (by rintro ⟨_, ⟨⟩⟩ <;> exact ⟨_, rfl⟩)⟩

/-- What is done when something is dropped must come to its end, for there is no way out of it. -/
theorem dropping (hdrop : Steady drop)
    (hdone : ∀ w, w.holds = .free → ¬w.Burdened → (drop w).1 = .ended (.done ()))
    (hbody : Quiet R body) : Quiet R (Held.dropping drop body) := by
  intro w hw
  obtain ⟨hnext, hend⟩ := hbody w hw
  simp only [Held.dropping]
  generalize body w = r at hnext hend ⊢
  obtain ⟨ending, next⟩ := r
  obtain ⟨store, hlast⟩ := hdrop next
  have hcalm : Calm R (drop next).2 := hlast ▸ ⟨hnext.holds, hnext.starts, hnext.retains⟩
  by_cases hburden : next.Burdened
  · have hstill : (drop next).2.Burdened := hlast ▸ hburden
    refine ⟨?_, .inr ?_⟩ <;> split <;> assumption
  · obtain ⟨outcome, rfl⟩ := hend.resolve_right hburden
    simp only [hdone next hnext.holds hburden]
    cases outcome <;> exact ⟨hcalm, .inl ⟨_, rfl⟩⟩

theorem guarding (hbody : Quiet R body) : Quiet R (Held.guarding body) := by
  intro w hw
  obtain ⟨hnext, hend⟩ := hbody w hw
  simp only [Held.guarding]
  generalize body w = r at hnext hend ⊢
  obtain ⟨⟨_ | _ | _⟩ | _ | _, next⟩ := r
  all_goals exact ⟨hnext, hend.imp_left (by rintro ⟨_, ⟨⟩⟩ <;> exact ⟨_, rfl⟩)⟩

theorem unwinding (hh : Quiet R h) : Quiet R (Held.unwinding h) := by
  intro w hw
  obtain ⟨hnext, hend⟩ := hh w hw
  simp only [Held.unwinding]
  generalize h w = r at hnext hend ⊢
  obtain ⟨_ | _ | _, next⟩ := r
  all_goals exact ⟨hnext, hend.imp_left (by rintro ⟨_, ⟨⟩⟩ <;> exact ⟨_, rfl⟩)⟩

theorem onto (s : StackId) (hbody : Quiet R body) : Quiet R (Held.onto s body) := by
  intro w hw
  obtain ⟨hlast, hend⟩ :=
    hbody { w with running := s :: w.running } ⟨hw.holds, hw.starts, hw.retains⟩
  exact ⟨⟨hlast.holds, hlast.starts, hlast.retains⟩, hend⟩

/-! ### Operations -/

section

variable {discard : RealmId → Held σ Unit} (hd : Discards discard)

include hd

theorem crossing (rule : EntryRule) (home : RealmId) (origin : Frame) (s : StackId)
    {body : Held σ (Except Error α)} (hbody : Quiet R body) :
    Quiet R (Borrow.crossing discard rule home origin s body) := by
  have henter : Quiet R (enter rule s home : Held σ _) :=
    of_eq (fun _ hw => enter_eq hw rule s home) (change _)
  refine henter.bind fun entered => ?_
  cases entered with
  | error e => exact pure _
  | ok scope =>
    refine (change _).bind fun _ => ?_
    refine (dropping (hd.steady_endCrossing scope) ?_ hbody).bind fun result => pure _
    exact fun w hfree hburden => hd.endCrossing_done hfree hburden scope

theorem letGo (r : Option RealmId) : Quiet R (Borrow.letGo discard r) :=
  of_steady (hd.steady_letGo r) fun _ _ hburden => ⟨_, congrArg Prod.fst (hd.letGo_done hburden r)⟩

theorem leave (i : ScopeId) : Quiet R (Borrow.leave discard i) :=
  of_steady (hd.steady_leave i) fun _ hfree hburden => hd.leave_ordinary hfree hburden i

theorem scoping (i : ScopeId) (hbody : Quiet R body) :
    Quiet R (Borrow.scoping discard i body) := by
  refine (guarding hbody).bind fun result => ?_
  cases result with
  | ok a => exact (leave hd i).bind fun _ => pure a
  | error text => exact (unwinding (leave hd i)).bind fun _ => panic text

theorem loseAll (hR : ¬R) (realms : List RealmId) : Quiet R (Borrow.loseAll discard realms) := by
  induction realms with
  | nil => exact pure ()
  | cons r rest ih =>
    have hlose : Quiet R (lose r : Held σ Unit) := fun w hw =>
      ⟨⟨hw.holds, hw.starts, fun hretains => absurd hretains hR⟩, .inl ⟨_, rfl⟩⟩
    exact hlose.bind fun _ => (letGo hd _).bind fun _ => ih

theorem forgetting (hR : ¬R) (e : EngineId) : Quiet R (Borrow.forgetting discard e) := by
  refine (look _).bind fun engine w hw => ?_
  split
  · exact ⟨hw, .inl ⟨_, rfl⟩⟩
  · exact loseAll hd hR _ w hw

end

theorem entrusting (r : RealmId) (i : ScopeId) : Quiet R (Borrow.entrusting r i : Held σ Unit) :=
  fun _ hw => ⟨⟨hw.holds, hw.starts, hw.retains⟩, .inl ⟨_, rfl⟩⟩

theorem counted (s : StackId) {body : Held σ (Except Error Value)} (hbody : Quiet R body) :
    Quiet R (Borrow.counted s body) := by
  refine (change _).bind fun counting => ?_
  cases counting with
  | error e => exact pure _
  | ok =>
    exact hbody.bind fun result => (change _).bind fun _ => pure result

theorem refusing (callee : Value) : Quiet R (Borrow.refusing callee : Held σ (Except Error α)) :=
  (look _).bind fun _ => pure _

theorem defining (realm : RealmId) (name : String) (location : Option Location)
    {body : CallContext → Session σ (Except Error Value)}
    (hbody : R → ∀ context, (body context).Retains) :
    Quiet R (Borrow.defining realm name location body) := by
  intro w hw
  rw [Borrow.defining]
  split
  · exact ⟨hw, .inl ⟨_, rfl⟩⟩
  · exact ⟨⟨hw.holds, hw.starts, fun hR => (hw.retains hR).push (hbody hR) _⟩, .inl ⟨_, rfl⟩⟩

theorem reading (s : StackId) (r : Reading α) : Quiet R (Borrow.reading s r : Held σ α) :=
  of_eq (fun _ hw => reading_eq hw s r) (look _)

theorem noteQuestion (f : ForeignId) (q : Query) :
    Quiet R (Borrow.noteQuestion f q : Held σ Unit) :=
  of_eq (fun _ hw => holding_change (holds_free hw _)) (change _)

theorem noting (p : ProbeId) (s : StackId) (note : RealmId → σ → σ) :
    Quiet R (Borrow.noting p s note) :=
  of_eq (fun _ hw => noting_eq hw p s note)
    ((look _).bind fun _ => remembered.bind fun _ => remember _)

theorem seeing (p : ProbeId) : Quiet R (holding .read (.notes p) Held.remembered : Held σ σ) :=
  of_eq (fun _ hw => holding_eq (holds_free hw _) .remembered) remembered

/-! ### Questions -/

/-- A question, with what follows a yes and what follows a no. -/
theorem deciding {h : Held σ Bool} {yes no : Held σ α} (hh : Quiet R h) (hyes : Quiet R yes)
    (hno : Quiet R no) : Quiet R (do if ← h then yes else no) :=
  hh.bind fun answer => by cases answer <;> assumption

section

variable {ask : (q : Query) → Held σ (Answer q)} (hask : ∀ q, Quiet R (ask q))

include hask

theorem isObject : Quiet R (Borrow.isObject ask) := by
  refine (hask _).deciding (pure _) ?_
  refine (hask _).deciding (pure _) ?_
  refine (hask _).deciding (pure _) ?_
  exact (hask _).deciding (pure _) (pure _)

theorem isCallable : Quiet R (Borrow.isCallable ask) :=
  (isObject hask).deciding (hask _) (pure _)

theorem typeTag : Quiet R (Borrow.typeTag ask) := by
  refine (hask _).deciding (pure _) ?_
  refine (hask _).deciding (pure _) ?_
  refine (hask _).deciding (pure _) ?_
  refine (hask _).deciding (pure _) ?_
  exact (hask _).deciding (pure _) (pure _)

theorem readForeign (f : ForeignId) (name : String) : Quiet R (Borrow.readForeign ask f name) := by
  refine (isObject hask).deciding ((hask _).bind fun _ => pure _) ?_
  exact (hask _).deciding ((look _).bind fun _ => pure _) (pure _)

end

end Quiet

/-! ### Sessions -/

/-- Bodies and questions that are quiet, and realms that end quietly. -/
structure Level.Quiet (R : Prop) (l : Level σ) : Prop where
  invoke : ∀ c context s, Borrow.Quiet R (l.invoke c context s)
  consult : ∀ f q s, Borrow.Quiet R (l.consult f q s)
  discards : Discards l.discard

namespace Level.Quiet

variable {l : Level σ} (hl : l.Quiet R)

include hl

theorem acting (rule : EntryRule) (s : StackId) (a : Action α) :
    Borrow.Quiet R (Borrow.acting rule l s a) := by
  cases ha : asked? a with
  | none =>
    cases hleft : left? a with
    | none => exact .of_eq (fun _ hw => acting_eq hw rule l s ha hleft) (.change _)
    | some i =>
      cases a with
      | leave i => exact .leave hl.discards i
      | _ => cases hleft
  | some f =>
    have hask := fun q => hl.consult f q s
    cases a with
    | isObject v => cases v <;> cases ha; exact .isObject hask
    | isCallable v => cases v <;> cases ha; exact .isCallable hask
    | typeTag v => cases v <;> cases ha; exact .typeTag hask
    | read v name => cases v <;> cases ha; exact .readForeign hask f name
    | _ => cases ha

theorem calling (rule : EntryRule) (callee : Value) (arguments : List Value) (s : StackId) :
    Borrow.Quiet R (Borrow.calling rule l callee arguments s) := by
  cases callee with
  | object o =>
    refine (Quiet.look _).bind fun object => ?_
    cases object.function? with
    | none => exact .refusing _
    | some f =>
      refine (Quiet.crossing hl.discards rule _ _ s ?_).bind fun _ => .pure _
      exact .counted s (hl.invoke _ _ _)
  | _ => exact .refusing _

theorem heldWith (rule : EntryRule) {p : Session σ α} (hp : R → p.Retains) (s : StackId) :
    Borrow.Quiet R (p.heldWith rule l s) := by
  induction p generalizing s with
  | done a => exact .pure a
  | panic text => exact .panic text
  | recalling k ih => exact Quiet.remembered.bind fun m => ih m (fun hR => hp hR m) s
  | remembering memory k ih => exact (Quiet.remember memory).bind fun _ => ih hp s
  | reading r k ih =>
    exact (Quiet.reading s r).bind fun found => ih found (fun hR => hp hR found) s
  | acting a k ih =>
    exact (hl.acting rule s a).bind fun answer => ih answer (fun hR => hp hR answer) s
  | defining realm name location body k _ ih =>
    refine (Quiet.defining realm name location fun hR => (hp hR).1).bind fun o => ?_
    exact ih o (fun hR => (hp hR).2 o) s
  | calling callee arguments k ih =>
    refine (hl.calling rule callee arguments s).bind fun result => ?_
    exact ih result (fun hR => hp hR result) s
  | crossing home origin body k ihbody ih =>
    refine (Quiet.crossing hl.discards rule home origin s ?_).bind fun result => ?_
    · exact (Quiet.starting _).bind fun _ => ihbody (fun hR => (hp hR).1) s
    · exact ih result (fun hR => (hp hR).2 result) s
  | onStack t body k ihbody ih =>
    refine ((ihbody (fun hR => (hp hR).1) t).onto t).bind fun result => ?_
    exact ih result (fun hR => (hp hR).2 result) s
  | guarding body k ihbody ih =>
    refine (ihbody (fun hR => (hp hR).1) s).guarding.bind fun result => ?_
    exact ih result (fun hR => (hp hR).2 result) s
  | noting p note k ih => exact (Quiet.noting p s note).bind fun _ => ih hp s
  | seeing p k ih => exact (Quiet.seeing p).bind fun m => ih m (fun hR => hp hR m) s
  | scoping i body k ihbody ih =>
    refine (Quiet.scoping hl.discards i (ihbody (fun hR => (hp hR).1) s)).bind fun result => ?_
    exact ih result (fun hR => (hp hR).2 result) s
  | entrusting r i k ih => exact (Quiet.entrusting r i).bind fun _ => ih hp s
  | forgetting e k ih =>
    -- Only where something may be let go of.
    exact (Quiet.forgetting hl.discards hp e).bind fun _ => ih (fun hR => (hp hR).elim) s

theorem consulting {conduct : Conduct σ} (hconduct : R → ∀ f q, (conduct f q).Retains)
    (rule : EntryRule) (f : ForeignId) (q : Query) (s : StackId) :
    Borrow.Quiet R (Borrow.consulting conduct rule l f q s) := by
  refine (Quiet.starting _).bind fun _ => (Quiet.noteQuestion f q).bind fun _ => ?_
  exact hl.heldWith rule (fun hR => hconduct hR f q) s

theorem invoking (rule : EntryRule) (c : CodeId) (context : CallContext) (s : StackId) :
    Borrow.Quiet R (Borrow.invoking rule l c context s) := by
  intro w hw
  rw [Borrow.invoking]
  split
  · exact ⟨hw, .inl ⟨_, rfl⟩⟩
  next body hbody =>
    have hretains : R → (body context).Retains := fun hR =>
      (hw.retains hR).2 body (Array.mem_of_getElem? hbody) context
    exact (Quiet.starting (.body c)).bind (fun _ => hl.heldWith rule hretains s) w hw

end Level.Quiet

theorem level_quiet {conduct : Conduct σ} (hconduct : R → ∀ f q, (conduct f q).Retains)
    (rule : EntryRule) (fuel : Nat) : (level conduct rule fuel).Quiet R := by
  -- The code of a level runs with the level below it.
  induction fuel with
  | zero =>
    have hexhausted : (Level.exhausted : Level σ).Quiet R :=
      ⟨fun _ _ _ => .outOfFuel, fun _ _ _ => .outOfFuel, discards_exhausted⟩
    exact ⟨fun _ _ _ => .outOfFuel, hexhausted.consulting hconduct rule, discards_level ..⟩
  | succ fuel ih => exact ⟨ih.invoking rule, ih.consulting hconduct rule, discards_level ..⟩

/-- The code of functions and foreign values is run with nothing borrowed, and no borrow is refused,
neither on the way in nor on the way out of a panic, unless a function of a lost realm owns a scope.
No realm is lost where neither the session nor any other code lets go of an engine. -/
theorem held_quiet (conduct : Conduct σ) (hconduct : R → ∀ f q, (conduct f q).Retains)
    (rule : EntryRule) (fuel : Nat) (p : Session σ α) (hp : R → p.Retains) (s : StackId) :
    Quiet R (p.held conduct rule fuel s) :=
  ((level_quiet hconduct rule fuel).heldWith rule hp s).onto s

end Realms.Borrow
