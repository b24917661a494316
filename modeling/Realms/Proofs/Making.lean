import Realms.Proofs.Inversion

/-! The realms that a run makes. They are read off the run: each request for a new realm that is
granted, with the engine that it was made to. Main statement: the realms of an engine after a run
are those from before and then the ones that the run made there, in order. -/

namespace Realms

variable {σ α β : Type} {rule : EntryRule} {s t : StackId} {m m' m'' : Machine σ} {e : EngineId}
  {st st' : Store}

/-! ### What a run makes -/

/-- Realms, in the order in which they were made, with the engines that they were asked of. -/
abbrev Made := List (EngineId × Realm)

/-- The realm that an action was granted. -/
def Action.made : Action α → α → Made
  | .newRealm e _, .ok realm => [(e, realm)]
  | _, _ => []

def Outcome.followMade (r : Outcome α × Machine σ) (k : α → Machine σ → Made) : Made :=
  match r with
  | (.done a, m) => k a m
  | _ => []

namespace Run

def actingMade (rule : EntryRule) (a : Action α) (s : StackId) (m : Machine σ) : Made :=
  match a.perform rule s m.store with
  | none => []
  | some (answer, _) => a.made answer

def crossingMade (rule : EntryRule) (home : RealmId) (made : StackId → Machine σ → Made)
    (s : StackId) (m : Machine σ) : Made :=
  match m.store.enter? rule s home with
  | some (.ok scope, store) => made s { m with store := store.beginCrossing scope }
  | _ => []

def countedMade (made : StackId → Machine σ → Made) (s : StackId) (m : Machine σ) : Made :=
  match m.store.pushCall? s with
  | some (.ok store) => made s { m with store }
  | _ => []

def callingMade (rule : EntryRule) (made : CodeId → CallContext → StackId → Machine σ → Made)
    (callee : Value) (arguments : List Value) (s : StackId) (m : Machine σ) : Made :=
  match callee with
  | .object o =>
    match m.store.object? o with
    | none => []
    | some object =>
      match object.function? with
      | none => []
      | some f => crossingMade rule object.realm (countedMade (made f.code ⟨o, arguments⟩)) s m
  | _ => []

end Run

namespace Program

def madeWith (rule : EntryRule) (invoke : Invocation σ)
    (made : CodeId → CallContext → StackId → Machine σ → Made) :
    {α : Type} → Program σ α → StackId → Machine σ → Made
  | _, .done _, _, _ => []
  | _, .panic _, _, _ => []
  | _, .recalling k, s, m => (k m.memory).madeWith rule invoke made s m
  | _, .remembering memory k, s, m => k.madeWith rule invoke made s { m with memory }
  | _, .reading r k, s, m =>
    Outcome.followMade (Run.reading r s m) fun a m => (k a).madeWith rule invoke made s m
  | _, .acting a k, s, m =>
    Run.actingMade rule a s m ++ Outcome.followMade (Run.acting rule a s m) fun b m =>
      (k b).madeWith rule invoke made s m
  | _, .defining realm name location body k, s, m =>
    Outcome.followMade (Run.defining realm name location body s m) fun o m =>
      (k o).madeWith rule invoke made s m
  | _, .calling callee arguments k, s, m =>
    Run.callingMade rule made callee arguments s m ++
      Outcome.followMade (Run.calling rule invoke callee arguments s m) fun r m =>
        (k r).madeWith rule invoke made s m
  | _, .crossing home origin body k, s, m =>
    Run.crossingMade rule home (body.madeWith rule invoke made) s m ++
      Outcome.followMade (Run.crossing rule home origin (body.runWith rule invoke) s m) fun r m =>
        (k r).madeWith rule invoke made s m
  | _, .onStack t body k, s, m =>
    body.madeWith rule invoke made t m ++
      Outcome.followMade (body.runWith rule invoke t m) fun r m =>
        (k r).madeWith rule invoke made s m
  | _, .guarding body k, s, m =>
    body.madeWith rule invoke made s m ++
      Outcome.followMade (Run.guarding (body.runWith rule invoke) s m) fun r m =>
        (k r).madeWith rule invoke made s m

/-- What the bodies of functions make when `fuel` more calls may be nested. -/
def invocationMade (rule : EntryRule) : Nat → CodeId → CallContext → StackId → Machine σ → Made
  | 0, _, _, _, _ => []
  | fuel + 1, c, context, s, m =>
    match m.code[c.index]? with
    | none => []
    | some body =>
      (body context).madeWith rule (invocation rule fuel) (invocationMade rule fuel) s m

/-- The realms that a run makes. -/
def made (rule : EntryRule) (fuel : Nat) (p : Program σ α) (s : StackId) (m : Machine σ) : Made :=
  p.madeWith rule (invocation rule fuel) (invocationMade rule fuel) s m

end Program

/-! ### Engines that stay as they are -/

namespace Store

@[simp] theorem engines_buildRealm (id : RealmId) (name : String) :
    (st.buildRealm id name).2.engines = st.engines := rfl

@[simp] theorem engines_restore (scope : Scope) : (st.restore scope).engines = st.engines := by
  unfold restore
  split <;> rfl

theorem enter?_engines {home : RealmId} {r : Except Error Scope}
    (h : st.enter? rule s home = some (r, st')) : st'.engines = st.engines := by
  obtain rfl | ⟨realm, rfl⟩ := enter?_eq h <;> rfl

theorem pushCall?_engines (h : st.pushCall? s = some (.ok st')) : st'.engines = st.engines := by
  simp only [pushCall?, Option.bind_eq_bind, Option.bind_eq_some_iff] at h
  obtain ⟨stack, -, engine, -, h⟩ := h
  split at h
  · cases h
  · cases h; rfl

theorem newObject?_engines {r : RealmId} {o : ObjectId} (h : st.newObject? r = some (o, st')) :
    st'.engines = st.engines := by
  simp only [newObject?, Option.bind_eq_bind, Option.bind_eq_some_iff] at h
  obtain ⟨realm, -, h⟩ := h
  cases h
  rfl

theorem setProperty?_engines {o : ObjectId} {name : String} {v : Value} {old : Option Value}
    (h : st.setProperty? o name v = some (old, st')) : st'.engines = st.engines := by
  simp only [setProperty?, Option.bind_eq_bind, Option.bind_eq_some_iff] at h
  obtain ⟨object, -, h⟩ := h
  cases h
  rfl

end Store

/-- Whether an action makes an engine or a realm. -/
def Action.founds : Action α → Bool
  | .newEngine _ | .newRealm _ _ => true
  | _ => false

theorem Action.engines_eq {a : Action α} {answer : α}
    (h : a.perform rule s st = some (answer, st')) (ha : a.founds = false) :
    st'.engines = st.engines := by
  cases a with
  | newEngine | newRealm => cases ha
  | newForeign | newString | newSymbol => cases h; rfl
  | newStack e =>
    simp only [perform, Store.newStack?, Option.bind_eq_bind, Option.bind_eq_some_iff] at h
    obtain ⟨engine, -, h⟩ := h
    cases h
    rfl
  | newObject r => exact Store.newObject?_engines h
  | newObjectHere =>
    simp only [perform, Store.newObjectOn?, Option.bind_eq_bind, Option.bind_eq_some_iff] at h
    obtain ⟨stack, -, h⟩ := h
    exact Store.newObject?_engines h
  | setProperty o name v => exact Store.setProperty?_engines h
  | setGlobal name v =>
    simp only [perform, Store.setGlobal?, Option.bind_eq_bind, Option.bind_eq_some_iff] at h
    obtain ⟨stack, -, ⟨old, store⟩, hset, h⟩ := h
    cases h
    exact Store.setProperty?_engines hset
  | isObject v => obtain ⟨_, rfl⟩ := Store.isObject?_noted h; rfl
  | isCallable v => obtain ⟨_, rfl⟩ := Store.isCallable?_noted h; rfl
  | typeTag v => obtain ⟨_, rfl⟩ := Store.typeTag?_noted h; rfl
  | read target name => obtain ⟨_, rfl⟩ := Store.read?_noted h; rfl
  | enter home =>
    cases answer with
    | error err => exact Store.enter?_engines (Store.enterScope?_error h)
    | ok i =>
      obtain ⟨scope, entered, he, -, rfl⟩ := Store.enterScope?_ok h
      exact (Store.enter?_engines he : entered.engines = st.engines)
  | leave i =>
    simp only [perform, Store.leaveScope?, Option.bind_eq_bind, Option.bind_eq_some_iff] at h
    obtain ⟨scope, -, h⟩ := h
    split at h
    · cases h; rfl
    · cases h; exact Store.engines_restore scope

/-! ### Registries grow by what is made -/

/-- The realms of an engine besides its main one. -/
def Store.secondary (st : Store) (e : EngineId) : List Realm :=
  (st.engine? e).elim [] (·.registry.realms.toList.tail)

/-- The realms that were asked of an engine. -/
def madeIn (e : EngineId) (made : Made) : List Realm :=
  (made.filter (·.1 = e)).map (·.2)

theorem madeIn_append (e : EngineId) (made made' : Made) :
    madeIn e (made ++ made') = madeIn e made ++ madeIn e made' := by
  rw [madeIn, List.filter_append, List.map_append]
  rfl

/-- Between two machines those realms were made, and no others. -/
def Machine.Makes (m : Machine σ) (made : Made) (m' : Machine σ) : Prop :=
  ∀ e, m'.store.secondary e = m.store.secondary e ++ madeIn e made

namespace Machine.Makes

theorem of_engines_eq (h : m'.store.engines = m.store.engines) : m.Makes [] m' := by
  intro e
  rw [Store.secondary, Store.engine?, h]
  exact (List.append_nil _).symm

theorem append {made made' : Made} (h : m.Makes made m') (h' : m'.Makes made' m'') :
    m.Makes (made ++ made') m'' := by
  intro e
  rw [h' e, h e, madeIn_append, List.append_assoc]

/-- Changes around a run that leave the engines alone. -/
theorem within {start last : Machine σ} {made : Made}
    (hstart : start.store.engines = m.store.engines) (h : start.Makes made last)
    (hlast : m'.store.engines = last.store.engines) : m.Makes made m' := by
  simpa using ((of_engines_eq hstart).append h).append (of_engines_eq hlast)

theorem follow {r : Outcome α × Machine σ} {made : Made} {k : α → Machine σ → Made}
    {run : α → Machine σ → Outcome β × Machine σ} (h : m.Makes made r.2)
    (hk : ∀ a (m' : Machine σ), m'.Makes (k a m') (run a m').2) :
    m.Makes (made ++ Outcome.followMade r k) (Outcome.andThen r run).2 := by
  obtain ⟨outcome, m'⟩ := r
  cases outcome with
  | done a => exact h.append (hk a m')
  | panicked | outOfFuel => simpa [Outcome.followMade, Outcome.andThen] using h

end Machine.Makes

theorem Store.newEngine_secondary (st : Store) (settings : Settings) (e : EngineId) :
    (st.newEngine settings).2.secondary e = st.secondary e := by
  have hengines : (st.newEngine settings).2.engines = st.engines.push
      ⟨settings, .single (st.buildRealm (.main ⟨st.engines.size⟩) settings.mainRealmName).1⟩ := rfl
  rw [secondary, engine?, hengines, Array.getElem?_push]
  split
  · next hnew => simp [secondary, engine?, hnew, Registry.single]
  · rfl

theorem Store.newRealm?_secondary {e : EngineId} {name : String} {answer : Except Error Realm}
    (h : st.newRealm? e name = some (answer, st')) (e' : EngineId) :
    st'.secondary e' = st.secondary e' ++ madeIn e' ((Action.newRealm e name).made answer) := by
  simp only [newRealm?, Option.bind_eq_bind, Option.bind_eq_some_iff] at h
  obtain ⟨engine, he, h⟩ := h
  have he' : st.engines[e.index]? = some engine := he
  split at h
  · cases h
    exact (List.append_nil _).symm
  · cases h
    obtain ⟨i⟩ := e
    obtain ⟨j⟩ := e'
    simp only [secondary, engine?, engines_buildRealm, Array.getElem?_modify, madeIn, Action.made]
    by_cases hij : i = j
    · subst hij
      have hne : engine.registry.realms.toList ≠ [] :=
        List.ne_nil_of_length_pos engine.registry.size_pos
      simp [he', Registry.add, List.tail_append_of_ne_nil hne]
    · simp [hij]

namespace Run

theorem acting_makes (a : Action α) : m.Makes (actingMade rule a s m) (acting rule a s m).2 := by
  unfold actingMade acting
  cases h : a.perform rule s m.store with
  | none => exact .of_engines_eq rfl
  | some result =>
    obtain ⟨answer, store⟩ := result
    cases a with
    | newEngine settings =>
      cases h
      exact fun e => (Store.newEngine_secondary m.store settings e).trans (List.append_nil _).symm
    | newRealm e name => exact Store.newRealm?_secondary h
    | _ => exact .of_engines_eq (Action.engines_eq h rfl)

theorem crossing_makes {home : RealmId} {origin : Frame} {body : Run σ (Except Error α)}
    {made : StackId → Machine σ → Made}
    (hb : ∀ m : Machine σ, m.Makes (made s m) (body s m).2) :
    m.Makes (crossingMade rule home made s m) (crossing rule home origin body s m).2 := by
  unfold crossingMade crossing
  cases he : m.store.enter? rule s home with
  | none => exact .of_engines_eq rfl
  | some result =>
    obtain ⟨result, store⟩ := result
    have hengines := Store.enter?_engines he
    cases result with
    | error e => exact .of_engines_eq hengines
    | ok scope => exact .within hengines (hb _) (Store.engines_restore scope)

theorem counted_makes {body : Run σ (Except Error Value)} {made : StackId → Machine σ → Made}
    (hb : ∀ m : Machine σ, m.Makes (made s m) (body s m).2) :
    m.Makes (countedMade made s m) (counted body s m).2 := by
  unfold countedMade counted
  cases hp : m.store.pushCall? s with
  | none => exact .of_engines_eq rfl
  | some result =>
    cases result with
    | error e => exact .of_engines_eq rfl
    | ok store =>
      have hbody := hb { m with store }
      simp only
      cases hr : body s { m with store } with
      | mk outcome last =>
      rw [hr] at hbody
      have hengines := Store.pushCall?_engines hp
      cases outcome with
      | done | panicked | outOfFuel => exact .within hengines hbody rfl

theorem calling_makes {invoke : Invocation σ}
    {made : CodeId → CallContext → StackId → Machine σ → Made} (callee : Value)
    (arguments : List Value)
    (hi : ∀ c context (m : Machine σ), m.Makes (made c context s m) (invoke c context s m).2) :
    m.Makes (callingMade rule made callee arguments s m)
      (calling rule invoke callee arguments s m).2 := by
  cases callee with
  | object o =>
    simp only [callingMade, calling]
    cases ho : m.store.object? o with
    | none => exact .of_engines_eq rfl
    | some object =>
      cases hf : object.function? with
      | none => simpa [hf, refusing] using .of_engines_eq rfl
      | some f =>
        simp only [hf]
        exact crossing_makes fun m => counted_makes fun m => hi f.code ⟨o, arguments⟩ m
  | _ => exact .of_engines_eq rfl

theorem defining_engines (realm : RealmId) (name : String) (location : Option Location)
    (body : CallContext → Program σ (Except Error Value)) :
    (defining realm name location body s m).2.store.engines = m.store.engines := by
  unfold defining Store.newFunction?
  cases m.store.realm? realm <;> rfl

end Run

namespace Program

theorem makes_with {invoke : Invocation σ}
    {made : CodeId → CallContext → StackId → Machine σ → Made}
    (hi : ∀ c context s (m : Machine σ), m.Makes (made c context s m) (invoke c context s m).2)
    (p : Program σ α) : m.Makes (p.madeWith rule invoke made s m) (p.runWith rule invoke s m).2 := by
  induction p generalizing s m with
  | done | panic => exact .of_engines_eq rfl
  | recalling k ih => exact ih _
  | remembering memory k ih => exact ih
  | reading r k ih =>
    have hread : m.Makes [] (Run.reading r s m).2 := by
      unfold Run.reading
      split <;> exact .of_engines_eq rfl
    exact hread.follow fun a m => ih a
  | acting a k ih => exact (Run.acting_makes a).follow fun b m => ih b
  | defining realm name location body k _ ih =>
    have hdefine : m.Makes [] (Run.defining realm name location body s m).2 :=
      .of_engines_eq (Run.defining_engines realm name location body)
    exact hdefine.follow fun o m => ih o
  | calling callee arguments k ih =>
    exact (Run.calling_makes callee arguments fun c context => hi c context s).follow fun r m => ih r
  | crossing home origin body k ihb ih =>
    exact (Run.crossing_makes fun m => ihb).follow fun r m => ih r
  | onStack t body k ihb ih => exact ihb.follow fun r m => ih r
  | guarding body k ihb ih =>
    refine Machine.Makes.follow ?_ fun r m => ih r
    rw [Run.guarding_machine]
    exact ihb

theorem invocation_makes (fuel : Nat) (c : CodeId) (context : CallContext) :
    m.Makes (invocationMade rule fuel c context s m) (invocation rule fuel c context s m).2 := by
  induction fuel generalizing c context s m with
  | zero => exact .of_engines_eq rfl
  | succ fuel ih =>
    simp only [invocationMade, invocation]
    cases m.code[c.index]? with
    | none => exact .of_engines_eq rfl
    | some body => exact (body context).makes_with fun c context s m => ih c context

/-- A run adds to each registry the realms that it makes there, in order. -/
theorem run_makes (fuel : Nat) (p : Program σ α) :
    m.Makes (p.made rule fuel s m) (p.run rule fuel s m).2 :=
  p.makes_with fun c context _ _ => invocation_makes fuel c context

end Program

end Realms
