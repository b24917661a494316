import Realms.Proofs.Event
import Realms.Proofs.Store.Sound

/-! The ways that a single operation of a program can go, each with the machine it leaves and the
events it makes. What is to hold of all runs is proved of an operation from these, way by way. -/

namespace Realms

variable {σ α : Type} {rule : EntryRule} {s : StackId} {m : Machine σ}

namespace Run

/-- An action is made on a handle that was never given out, or else it answers. -/
theorem acting_cases (a : Action α) :
    (acting rule a s m = (.panicked unknownHandle, m) ∧ actingEvents rule a s m = []) ∨
    ∃ answer store, a.perform rule s m.store = some (answer, store) ∧
      acting rule a s m = (.done answer, { m with store }) ∧
      actingEvents rule a s m = a.events answer m store := by
  unfold acting actingEvents
  cases h : a.perform rule s m.store with
  | none => exact .inl ⟨rfl, rfl⟩
  | some result => exact .inr ⟨result.1, result.2, rfl, rfl, rfl⟩

/-- A program enters a scope on an unknown stack, or is refused, or holds a new scope. -/
theorem entering_cases (home : RealmId) :
    (acting rule (.enter home) s m = (.panicked unknownHandle, m) ∧
      actingEvents rule (.enter home) s m = []) ∨
    (∃ e, acting rule (.enter home) s m = (.done (.error e), m) ∧
      actingEvents rule (.enter home) s m = []) ∨
    ∃ scope store, m.store.enter? rule s home = some (.ok scope, store) ∧
      acting rule (.enter home) s m =
        (.done (.ok ⟨store.scopes.size⟩), { m with store := store.addScope scope }) ∧
      actingEvents rule (.enter home) s m = [.opened ⟨store.scopes.size⟩ scope m] := by
  rcases acting_cases (.enter home) with ⟨hr, he⟩ | ⟨answer, store, h, hr, he⟩
  · exact .inl ⟨hr, he⟩
  · cases answer with
    | error e =>
      obtain ⟨rfl, -⟩ := Store.enter?_error (Store.enterScope?_error h)
      exact .inr (.inl ⟨e, hr, he⟩)
    | ok i =>
      obtain ⟨scope, entered, henter, rfl, rfl⟩ := Store.enterScope?_ok h
      have hscope : (entered.addScope scope).scope? ⟨entered.scopes.size⟩ = some scope := by
        rw [Store.scope?_addScope, if_pos rfl]
      refine .inr (.inr ⟨scope, entered, henter, hr, he.trans ?_⟩)
      simp only [Action.events, hscope, Option.toList_some, List.map_cons, List.map_nil]

theorem leaving_open {i : ScopeId} {scope : Scope} (h : m.store.scope? i = some scope)
    (hf : scope.finished = false) :
    acting rule (.leave i) s m = (.done (), { m with store := m.store.closeScope i scope }) ∧
      actingEvents rule (.leave i) s m = [.ended i scope] := by
  simp [acting, actingEvents, Action.perform, Store.leaveScope?, Store.closeScope, h, hf,
    Action.events]

/-- A program that leaves a scope ends it, unless it is unknown or has ended before. -/
theorem leaving_cases (i : ScopeId) :
    ((acting rule (.leave i) s m).2 = m ∧ actingEvents rule (.leave i) s m = []) ∨
    ∃ scope, m.store.scope? i = some scope ∧ scope.finished = false ∧
      acting rule (.leave i) s m = (.done (), { m with store := m.store.closeScope i scope }) ∧
      actingEvents rule (.leave i) s m = [.ended i scope] := by
  cases hscope : m.store.scope? i with
  | none =>
    refine .inl ?_
    simp [acting, actingEvents, Action.perform, Store.leaveScope?, hscope]
  | some scope =>
    cases hf : scope.finished with
    | true =>
      refine .inl ?_
      simp [acting, actingEvents, Action.perform, Store.leaveScope?, hscope, hf, Action.events]
    | false => exact .inr ⟨scope, rfl, hf, leaving_open hscope hf⟩

/-- A crossing is made on an unknown stack, or refused, or it runs its body in a scope of its own,
which it leaves however the body ends. -/
theorem crossing_cases (home : RealmId) (origin : Frame) (body : Run σ (Except Error α))
    (events : Observed σ) :
    (crossing rule home origin body s m = (.panicked unknownHandle, m) ∧
      crossingEvents rule home body events s m = []) ∨
    (∃ e, m.store.enter? rule s home = some (.error e, m.store) ∧
      crossing rule home origin body s m = (.done (.error e), m) ∧
      crossingEvents rule home body events s m = [.refused s home m m]) ∨
    ∃ scope store outcome last, m.store.enter? rule s home = some (.ok scope, store) ∧
      body s { m with store := store.beginCrossing scope } = (outcome, last) ∧
      crossing rule home origin body s m =
        (outcome.map (·.mapError (·.atBoundary origin)),
          { last with store := last.store.endCrossing scope }) ∧
      crossingEvents rule home body events s m =
        .entered scope m { m with store := store.beginCrossing scope } ::
          events s { m with store := store.beginCrossing scope } ++
          [.exited scope m last { last with store := last.store.endCrossing scope }] := by
  unfold crossing crossingEvents
  cases h : m.store.enter? rule s home with
  | none => exact .inl ⟨rfl, rfl⟩
  | some result =>
    obtain ⟨result, store⟩ := result
    cases result with
    | error e =>
      obtain ⟨rfl, -⟩ := Store.enter?_error h
      exact .inr (.inl ⟨e, rfl, rfl, rfl⟩)
    | ok scope => exact .inr (.inr ⟨scope, store, _, _, rfl, rfl, rfl, rfl⟩)

/-- A call does not begin to count, or its body answers and the count is taken back, or the body
does not answer and the call stays counted. -/
theorem counted_cases (body : Run σ (Except Error Value)) (events : Observed σ) :
    ((counted body s m).2 = m ∧ countedEvents body events s m = []) ∨
    (∃ store result last, m.store.pushCall? s = some (.ok store) ∧
      body s { m with store } = (.done result, last) ∧
      counted body s m = (.done result, { last with store := last.store.popCall s }) ∧
      countedEvents body events s m =
        .began s :: events s { m with store } ++ [.finished s]) ∨
    ∃ store outcome last, m.store.pushCall? s = some (.ok store) ∧
      body s { m with store } = (outcome, last) ∧ counted body s m = (outcome, last) ∧
      (∀ result, outcome ≠ .done result) ∧
      countedEvents body events s m = .began s :: events s { m with store } := by
  unfold counted countedEvents
  cases h : m.store.pushCall? s with
  | none => exact .inl ⟨rfl, rfl⟩
  | some result =>
    cases result with
    | error e => exact .inl ⟨rfl, rfl⟩
    | ok store =>
      simp only
      cases hbody : body s { m with store } with
      | mk outcome last =>
        cases outcome with
        | done result => exact .inr (.inl ⟨store, result, last, rfl, hbody, rfl, rfl⟩)
        | panicked | outOfFuel =>
          refine .inr (.inr ⟨store, _, last, rfl, hbody, rfl, by simp, ?_⟩)
          exact List.append_nil _

/-- A call of what is not a function object changes nothing. Any other one is a crossing into the
home realm of the function. -/
theorem calling_cases (invoke : Invocation σ) (observe : Observation σ) (callee : Value)
    (arguments : List Value) :
    ((calling rule invoke callee arguments s m).2 = m ∧
      callingEvents rule invoke observe callee arguments s m = []) ∨
    ∃ o object f, m.store.object? o = some object ∧ object.function? = some f ∧
      (calling rule invoke callee arguments s m).1 =
        (crossing rule object.realm object.frame (counted (invoke f.code ⟨o, arguments⟩)) s m).1.map
          (·.mapError (·.passing object.frame)) ∧
      (calling rule invoke callee arguments s m).2 =
        (crossing rule object.realm object.frame (counted (invoke f.code ⟨o, arguments⟩)) s m).2 ∧
      callingEvents rule invoke observe callee arguments s m =
        crossingEvents rule object.realm (counted (invoke f.code ⟨o, arguments⟩))
          (countedEvents (invoke f.code ⟨o, arguments⟩) (observe f.code ⟨o, arguments⟩)) s m := by
  cases callee with
  | object o =>
    simp only [calling, callingEvents]
    cases ho : m.store.object? o with
    | none => exact .inl ⟨rfl, rfl⟩
    | some object =>
      cases hf : object.function? with
      | none => exact .inl (by simp only [hf, refusing, and_self])
      | some f =>
        refine .inr ⟨o, object, f, ho, hf, ?_⟩
        simp only [hf, and_self]
  | _ => exact .inl ⟨rfl, rfl⟩

theorem reading_object {o : ObjectId} {object : Object} (ho : m.store.object? o = some object) :
    reading (.object o) s m = (.done object, m) := by
  simp only [reading, Reading.eval, ho]

theorem reading_unknown {o : ObjectId} (ho : m.store.object? o = none) :
    reading (.object o) s m = (.panicked unknownHandle, m) := by
  simp only [reading, Reading.eval, ho]

theorem guarding_machine (body : Run σ α) : (guarding body s m).2 = (body s m).2 := by
  unfold guarding
  split <;> simp [*]

theorem guarding_outOfFuel {body : Run σ α} :
    (guarding body s m).1 = .outOfFuel ↔ (body s m).1 = .outOfFuel := by
  unfold guarding
  split <;> simp [*]

/-- A guard answers unless the run is cut short. -/
theorem guarding_done {body : Run σ α} (h : (body s m).1 ≠ .outOfFuel) :
    ∃ r, guarding body s m = (.done r, (body s m).2) := by
  unfold guarding
  split
  · next a last hr => exact ⟨.ok a, by rw [hr]⟩
  · next text last hr => exact ⟨.error text, by rw [hr]⟩
  · next last hr => exact absurd (congrArg Prod.fst hr) h

/-! ### Operations whose body is known to end in some way -/

section

variable {home : RealmId} {origin : Frame} {scope : Scope} {store : Store}

/-- A crossing that is not refused. -/
theorem crossing_of_body {body : Run σ (Except Error α)} {outcome : Outcome (Except Error α)}
    {last : Machine σ} (he : m.store.enter? rule s home = some (.ok scope, store))
    (hb : body s { m with store := store.beginCrossing scope } = (outcome, last)) :
    crossing rule home origin body s m = (outcome.map (·.mapError (·.atBoundary origin)),
      { last with store := last.store.endCrossing scope }) := by
  simp only [crossing, he, hb]

theorem counted_refused {body : Run σ (Except Error Value)} {e : Error}
    (hp : m.store.pushCall? s = some (.error e)) : counted body s m = (.done (.error e), m) := by
  simp only [counted, hp]

theorem counted_of_body {body : Run σ (Except Error Value)} {result : Except Error Value}
    {last : Machine σ} {start : Store} (hp : start.pushCall? s = some (.ok store))
    (hb : body s { m with store } = (.done result, last)) :
    counted body s { m with store := start } =
      (.done result, { last with store := last.store.popCall s }) := by
  simp only [counted, hp, hb, Outcome.andThen]

/-- The call of a function whose crossing is not refused. -/
theorem calling_of_body {invoke : Invocation σ} {o : ObjectId} {object : Object} {f : Function}
    {arguments : List Value} {outcome : Outcome (Except Error Value)} {last : Machine σ}
    (ho : m.store.object? o = some object) (hf : object.function? = some f)
    (he : m.store.enter? rule s object.realm = some (.ok scope, store))
    (hb : counted (invoke f.code ⟨o, arguments⟩) s
      { m with store := store.beginCrossing scope } = (outcome, last)) :
    calling rule invoke (.object o) arguments s m =
      (outcome.map (·.mapError fun e => (e.atBoundary object.frame).passing object.frame),
        { last with store := last.store.endCrossing scope }) := by
  simp only [calling, ho, hf, crossing_of_body he hb]
  cases outcome with
  | done r => cases r <;> rfl
  | _ => rfl

end

end Run

theorem Outcome.andThen_done (r : Outcome α × Machine σ) :
    andThen r (fun a m => (.done a, m)) = r := by
  obtain ⟨outcome, last⟩ := r
  cases outcome <;> rfl

namespace Program

variable {fuel : Nat}

theorem run_bind {β : Type} (p : Program σ α) (f : α → Program σ β) :
    (p.bind f).run rule fuel s m =
      Outcome.andThen (p.run rule fuel s m) fun a m => (f a).run rule fuel s m :=
  runWith_bind ..

theorem on_run (t : StackId) (p : Program σ α) :
    (on t p).run rule fuel s m = p.run rule fuel t m :=
  Outcome.andThen_done _

theorem invocation_of_body {c : CodeId} {context : CallContext} {store : Store}
    {body : CallContext → Program σ (Except Error Value)}
    {r : Outcome (Except Error Value) × Machine σ} (hc : m.code[c.index]? = some body)
    (hr : (body context).run rule fuel s { m with store } = r) :
    invocation rule (fuel + 1) c context s { m with store } = r := by
  simp only [invocation, hc]
  exact hr

theorem call_run (callee : Value) (arguments : List Value) :
    (call callee arguments).run rule fuel s m =
      Run.calling rule (invocation rule fuel) callee arguments s m :=
  Outcome.andThen_done _

theorem call_events (callee : Value) (arguments : List Value) :
    (call callee arguments).events rule fuel s m =
      .moment s m :: Run.callingEvents rule (invocation rule fuel) (observation rule fuel) callee
        arguments s m ++ Outcome.follow
          (Run.calling rule (invocation rule fuel) callee arguments s m) fun _ m =>
            [.moment s m] := rfl

theorem cross_run (home : RealmId) (origin : Frame) (body : Program σ (Except Error α)) :
    (cross home origin body).run rule fuel s m =
      Run.crossing rule home origin (body.run rule fuel) s m :=
  Outcome.andThen_done _

/-- A crossing into the realm of an object looks the object up first. -/
theorem crossTo_run (target : ObjectId) (body : Program σ (Except Error α)) :
    (crossTo target body).run rule fuel s m =
      Outcome.andThen (Run.reading (.object target) s m) fun object m =>
        (cross object.realm object.frame body).run rule fuel s m := rfl

theorem crossTo_run_of_object {target : ObjectId} {object : Object}
    (ho : m.store.object? target = some object) (body : Program σ (Except Error α)) :
    (crossTo target body).run rule fuel s m =
      (cross object.realm object.frame body).run rule fuel s m := by
  rw [crossTo_run, Run.reading_object ho]
  rfl

end Program

end Realms
