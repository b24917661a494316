import Realms.Run

/-! What happens in a run, in order. The events of a run are read off the run itself: wherever it
goes on after an operation, so do they. They tell when a program is about to do something, when
realms and frames come and go, and in which machine each of it happens. -/

namespace Realms

inductive Event (σ : Type) where
  /-- A program on a stack is about to take its next step, or to end. -/
  | moment (s : StackId) (m : Machine σ)
  /-- A program has entered a scope. -/
  | opened (i : ScopeId) (scope : Scope) (before : Machine σ)
  /-- A program has ended a scope that was still open. -/
  | ended (i : ScopeId) (scope : Scope)
  /-- A crossing has entered its scope, and its body starts. -/
  | entered (scope : Scope) (before start : Machine σ)
  /-- A crossing is over: as it was made, as its body ended, and with its scope left. -/
  | exited (scope : Scope) (before last after : Machine σ)
  /-- A crossing was refused. -/
  | refused (s : StackId) (home : RealmId) (before after : Machine σ)
  /-- A call counts as in progress. -/
  | began (s : StackId)
  /-- The body of a function starts. -/
  | started (s : StackId) (code : CodeId) (context : CallContext) (start : Machine σ)
  /-- A call counts no longer. -/
  | finished (s : StackId)

variable {σ α β : Type}

theorem Outcome.map_eq_panicked {f : α → β} {outcome : Outcome α} {text : String} :
    outcome.map f = .panicked text ↔ outcome = .panicked text := by
  cases outcome <;> simp [Outcome.map]

theorem Outcome.map_eq_outOfFuel {f : α → β} {outcome : Outcome α} :
    outcome.map f = .outOfFuel ↔ outcome = .outOfFuel := by
  cases outcome <;> simp [Outcome.map]

theorem Outcome.andThen_outOfFuel {r : Outcome α × Machine σ}
    {run : α → Machine σ → Outcome β × Machine σ} (h : r.1 = .outOfFuel) :
    (Outcome.andThen r run).1 = .outOfFuel := by
  obtain ⟨outcome, m⟩ := r
  cases h
  rfl

/-- The events after an operation, if the run goes on there. -/
def Outcome.follow (r : Outcome α × Machine σ) (k : α → Machine σ → List (Event σ)) :
    List (Event σ) :=
  match r with
  | (.done a, m) => k a m
  | _ => []

/-- The events of a run, of any kind, from a machine. -/
abbrev Observed (σ : Type) := StackId → Machine σ → List (Event σ)

/-- What happens while the body of a function runs. -/
abbrev Observation (σ : Type) := CodeId → CallContext → Observed σ

namespace Run

def crossingEvents (rule : EntryRule) (home : RealmId) (body : Run σ (Except Error α))
    (events : Observed σ) : Observed σ := fun s m =>
  match m.store.enter? rule s home with
  | none => []
  | some (.error _, store) => [.refused s home m { m with store }]
  | some (.ok scope, store) =>
    let start := { m with store := store.beginCrossing scope }
    let last := (body s start).2
    let after := { last with store := last.store.endCrossing scope }
    .entered scope m start :: events s start ++ [.exited scope m last after]

def countedEvents (body : Run σ (Except Error Value)) (events : Observed σ) : Observed σ :=
  fun s m =>
    match m.store.pushCall? s with
    | some (.ok store) =>
      let m := { m with store }
      .began s :: events s m ++ Outcome.follow (body s m) fun _ _ => [.finished s]
    | _ => []

def callingEvents (rule : EntryRule) (invoke : Invocation σ) (observe : Observation σ)
    (callee : Value) (arguments : List Value) : Observed σ := fun s m =>
  match callee with
  | .object o =>
    match m.store.object? o with
    | none => []
    | some object =>
      match object.function? with
      | none => []
      | some f =>
        let body := counted (invoke f.code ⟨o, arguments⟩)
        let events := countedEvents (invoke f.code ⟨o, arguments⟩) (observe f.code ⟨o, arguments⟩)
        crossingEvents rule object.realm body events s m
  | _ => []

end Run

/-- What happens to the scopes of programs in an action. -/
def Action.events (a : Action α) (answer : α) (m : Machine σ) (store : Store) : List (Event σ) :=
  match a, answer with
  | .enter _, .ok i => (store.scope? i).toList.map fun scope => .opened i scope m
  | .leave i, _ => ((m.store.scope? i).filter (!·.finished)).toList.map fun scope => .ended i scope
  | _, _ => []

def Run.actingEvents (rule : EntryRule) (a : Action α) : Observed σ := fun s m =>
  match a.perform rule s m.store with
  | none => []
  | some (answer, store) => a.events answer m store

namespace Program

def eventsWith (rule : EntryRule) (invoke : Invocation σ) (observe : Observation σ) :
    {α : Type} → Program σ α → Observed σ
  | _, .done _, s, m => [.moment s m]
  | _, .panic _, s, m => [.moment s m]
  | _, .recalling k, s, m => .moment s m :: (k m.memory).eventsWith rule invoke observe s m
  | _, .remembering memory k, s, m =>
    .moment s m :: k.eventsWith rule invoke observe s { m with memory }
  | _, .reading r k, s, m =>
    .moment s m :: Outcome.follow (Run.reading r s m) fun a m =>
      (k a).eventsWith rule invoke observe s m
  | _, .acting a k, s, m =>
    .moment s m :: Run.actingEvents rule a s m ++ Outcome.follow (Run.acting rule a s m) fun b m =>
      (k b).eventsWith rule invoke observe s m
  | _, .defining realm name location body k, s, m =>
    .moment s m :: Outcome.follow (Run.defining realm name location body s m) fun o m =>
      (k o).eventsWith rule invoke observe s m
  | _, .calling callee arguments k, s, m =>
    .moment s m :: Run.callingEvents rule invoke observe callee arguments s m ++
      Outcome.follow (Run.calling rule invoke callee arguments s m) fun r m =>
        (k r).eventsWith rule invoke observe s m
  | _, .crossing home origin body k, s, m =>
    .moment s m :: Run.crossingEvents rule home (body.runWith rule invoke)
        (body.eventsWith rule invoke observe) s m ++
      Outcome.follow (Run.crossing rule home origin (body.runWith rule invoke) s m) fun r m =>
        (k r).eventsWith rule invoke observe s m
  | _, .onStack t body k, s, m =>
    .moment s m :: body.eventsWith rule invoke observe t m ++
      Outcome.follow (body.runWith rule invoke t m) fun r m =>
        (k r).eventsWith rule invoke observe s m
  | _, .guarding body k, s, m =>
    .moment s m :: body.eventsWith rule invoke observe s m ++
      Outcome.follow (Run.guarding (body.runWith rule invoke) s m) fun r m =>
        (k r).eventsWith rule invoke observe s m

/-- What happens in the bodies of functions when `fuel` more calls may be nested. -/
def observation (rule : EntryRule) : Nat → Observation σ
  | 0 => fun _ _ _ _ => []
  | fuel + 1 => fun c context s m =>
    match m.code[c.index]? with
    | none => []
    | some body => .started s c context m ::
      (body context).eventsWith rule (invocation rule fuel) (observation rule fuel) s m

/-- What happens in a run of a program. -/
def events (rule : EntryRule) (fuel : Nat) (p : Program σ α) : Observed σ :=
  p.eventsWith rule (invocation rule fuel) (observation rule fuel)

end Program

/-- The machines that come about when programs are run one after another on a new machine, each on
any stack and ended in any way, also in the midst of a run. -/
inductive Machine.Reachable (rule : EntryRule) : Machine σ → Prop
  | start (memory : σ) : Reachable rule ⟨.empty, #[], memory⟩
  | run {α : Type} {m : Machine σ} (fuel : Nat) (p : Program σ α) (s : StackId) :
      Reachable rule m → Reachable rule (p.run rule fuel s m).2
  | moment {α : Type} {m now : Machine σ} {t : StackId} (fuel : Nat) (p : Program σ α)
      (s : StackId) : Reachable rule m → .moment t now ∈ p.events rule fuel s m →
      Reachable rule now

/-- The machines that come about in this way, each with all the events since the start. -/
inductive Machine.After (rule : EntryRule) : List (Event σ) → Machine σ → Prop
  | start (memory : σ) : After rule [] ⟨.empty, #[], memory⟩
  | run {α : Type} {past : List (Event σ)} {m : Machine σ} (fuel : Nat) (p : Program σ α)
      (s : StackId) : After rule past m →
      After rule (past ++ p.events rule fuel s m) (p.run rule fuel s m).2
  | moment {α : Type} {past es es' : List (Event σ)} {m now : Machine σ} {t : StackId} (fuel : Nat)
      (p : Program σ α) (s : StackId) : After rule past m →
      p.events rule fuel s m = es ++ .moment t now :: es' → After rule (past ++ es) now

theorem Machine.After.reachable {past : List (Event σ)} {m : Machine σ}
    (h : m.After rule past) : m.Reachable rule := by
  induction h with
  | start memory => exact .start memory
  | run fuel p s _ ih => exact .run fuel p s ih
  | @moment _ _ _ _ _ _ t fuel p s _ hes ih =>
    refine .moment (t := t) fuel p s ih ?_
    rw [hes]
    exact List.mem_append_right _ List.mem_cons_self

instance Outcome.decidableEq [DecidableEq α] : DecidableEq (Outcome α)
  | .done a, .done b => decidable_of_iff (a = b) (by simp)
  | .panicked text, .panicked text' => decidable_of_iff (text = text') (by simp)
  | .outOfFuel, .outOfFuel => .isTrue rfl
  | .done _, .panicked _ | .done _, .outOfFuel | .panicked _, .done _ | .panicked _, .outOfFuel
  | .outOfFuel, .done _ | .outOfFuel, .panicked _ => .isFalse (by simp)

instance decidableEqExcept [DecidableEq α] [DecidableEq β] : DecidableEq (Except α β)
  | .ok a, .ok b => decidable_of_iff (a = b) (by simp)
  | .error e, .error e' => decidable_of_iff (e = e') (by simp)
  | .ok _, .error _ | .error _, .ok _ => .isFalse (by simp)

/-- A new machine with a program run on it. -/
def Machine.prepared (rule : EntryRule) (p : Program σ α) (memory : σ) : Machine σ :=
  (p.run rule 0 ⟨0⟩ ⟨.empty, #[], memory⟩).2

theorem Machine.prepared_reachable (rule : EntryRule) (p : Program σ α) (memory : σ) :
    (Machine.prepared rule p memory).Reachable rule :=
  .run 0 p ⟨0⟩ (.start memory)

theorem Machine.prepared_after (rule : EntryRule) (p : Program σ α) (memory : σ) :
    (Machine.prepared rule p memory).After rule (p.events rule 0 ⟨0⟩ ⟨.empty, #[], memory⟩) :=
  .run 0 p ⟨0⟩ (.start memory)

/-- An engine with a second realm, and a stack of it. -/
def Program.twoRealms : Program σ StackId := do
  let e ← act (.newEngine .standard)
  let _ ← act (.newRealm e "second")
  act (.newStack e)

/-- A machine with two realms, and the main one active on its stack. -/
def Machine.withTwoRealms : Machine Unit := .prepared .shortcut Program.twoRealms ()

/-! ### Properties along the events of a run -/

section

universe u

variable {τ : Type u} {step : τ → Event σ → τ} {P : τ → Event σ → Prop} {x : τ}
  {es es' : List (Event σ)}

/-- A property of each event together with what the events before it have come to. -/
def Along (step : τ → Event σ → τ) (P : τ → Event σ → Prop) : τ → List (Event σ) → Prop
  | _, [] => True
  | x, e :: es => P x e ∧ Along step P (step x e) es

theorem along_append :
    Along step P x (es ++ es') ↔ Along step P x es ∧ Along step P (es.foldl step x) es' := by
  induction es generalizing x with
  | nil => simp [Along]
  | cons e es ih => simp only [List.cons_append, Along, ih, and_assoc, List.foldl_cons]

theorem Along.at {e : Event σ} (h : Along step P x (es ++ e :: es')) : P (es.foldl step x) e :=
  (along_append.mp h).2.1

instance Along.decidable [∀ x e, Decidable (P x e)] :
    ∀ (x : τ) (es : List (Event σ)), Decidable (Along step P x es)
  | _, [] => .isTrue trivial
  | x, e :: es =>
    have := Along.decidable (step x e) es
    inferInstanceAs (Decidable (P x e ∧ Along step P (step x e) es))

end

end Realms
