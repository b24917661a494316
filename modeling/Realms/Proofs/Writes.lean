import Realms.Proofs.Stage
import Realms.Proofs.Store.Heap

/-! What a run does to the heap. Every operation of a program makes a single change there, and an
action names the one object that it writes to, if any. Main statement: up to each moment of a run
and up to its end the heap goes through such changes, and none of them writes to an object that the
stages of the run do not write to. -/

namespace Realms

variable {σ α β γ : Type} {rule : EntryRule} {s t : StackId} {fuel : Nat}
  {m m' last last' now : Machine σ} {st st' st'' : Store} {allowed : Store → ObjectId → Prop}

/-! ### Single actions -/

/-- The object that an action writes to. -/
def Action.target? (a : Action α) (s : StackId) (st : Store) : Option ObjectId :=
  match a with
  | .setProperty o _ _ => some o
  | .setGlobal _ _ => (st.stack? s).map (·.active.global)
  | _ => none

namespace Registry

theorem realm?_single {main r : Realm} {id : RealmId} :
    (single main).realm? id = some r ↔ id = .main main.id.engine ∧ r = main := by
  obtain ⟨e, i⟩ := id
  by_cases he : e = main.id.engine <;> cases i <;>
    simp [realm?, owns, single, RealmId.main, he, eq_comm]

theorem realm?_add_eq_some {g : Registry} {r r' : Realm} {id : RealmId} :
    (g.add r').realm? id = some r ↔ g.realm? id = some r ∨ id = g.nextId ∧ r = r' := by
  obtain ⟨e, i⟩ := id
  by_cases he : e = g.engine
  · by_cases hi : i = g.realms.size
    · subst hi
      simp [realm?, owns, add, nextId, he, eq_comm]
    · simp [realm?, owns, add, nextId, he, hi, Array.getElem?_push]
  · simp [realm?, owns, add, nextId, he]

end Registry

namespace Store

theorem enter?_objects {home : RealmId} {r : Except Error Scope}
    (h : st.enter? rule s home = some (r, st')) : st'.objects = st.objects := by
  obtain rfl | ⟨realm, rfl⟩ := enter?_eq h <;> rfl

theorem setProperty?_heapChange {o : ObjectId} {name : String} {v : Value} {old : Option Value}
    (h : st.setProperty? o name v = some (old, st')) : st.HeapChange (some o) st' := by
  simp only [setProperty?, Option.bind_eq_bind, Option.bind_eq_some_iff] at h
  obtain ⟨object, -, h⟩ := h
  cases h
  exact .written o name v rfl rfl

theorem newObject?_heapChange {r : RealmId} {o : ObjectId}
    (h : st.newObject? r = some (o, st')) : st.HeapChange none st' := by
  simp only [newObject?, Option.bind_eq_bind, Option.bind_eq_some_iff] at h
  obtain ⟨realm, hr, h⟩ := h
  cases h
  exact .placed hr (.inl rfl) rfl rfl

theorem newFunction?_heapChange {r : RealmId} {f : Function} {o : ObjectId}
    (h : st.newFunction? r f = some (o, st')) : st.HeapChange none st' := by
  simp only [newFunction?, Option.bind_eq_bind, Option.bind_eq_some_iff] at h
  obtain ⟨realm, hr, h⟩ := h
  cases h
  exact .placed hr (.inr rfl) rfl rfl

theorem newEngine_heapChange (hst : st.Grounded) (settings : Settings) :
    st.HeapChange none (st.newEngine settings).2 := by
  let main := (st.buildRealm (.main ⟨st.engines.size⟩) settings.mainRealmName).1
  have hengine (e : EngineId) : (st.newEngine settings).2.engine? e =
      if e.index = st.engines.size then some ⟨settings, .single main⟩ else st.engine? e := by
    have hengines : (st.newEngine settings).2.engines =
      st.engines.push ⟨settings, .single main⟩ := rfl
    rw [engine?, hengines, Array.getElem?_push]
    rfl
  refine .founded (.main ⟨st.engines.size⟩) settings.mainRealmName (fun e engine he => ?_)
    (fun id r => ?_) rfl
  · rw [hengine] at he
    split at he
    · next hnew =>
      cases he
      exact Registry.single_sound (congrArg (RealmId.main ∘ EngineId.mk) hnew.symm)
    · exact hst.registry e engine he
  · rw [realm?_eq_some, realm?_eq_some, hengine]
    obtain ⟨⟨e⟩, i⟩ := id
    by_cases hnew : e = st.engines.size
    · subst hnew
      simp [engine?, Registry.realm?_single, RealmId.main, main, buildRealm]
    · simp [hnew, RealmId.main]

theorem newRealm?_heapChange (hst : st.Grounded) {e : EngineId} {name : String}
    {answer : Except Error Realm} (h : st.newRealm? e name = some (answer, st')) :
    st.HeapChange none st' := by
  simp only [newRealm?, Option.bind_eq_bind, Option.bind_eq_some_iff] at h
  obtain ⟨engine, he, h⟩ := h
  split at h
  · cases h
    exact .quiet rfl rfl
  · let realm := (st.buildRealm engine.registry.nextId name).1
    have hengines : st'.engines = st.engines.modify e.index fun engine =>
      { engine with registry := engine.registry.add realm } := by cases h; rfl
    have hobjects : st'.objects = (st.buildRealm engine.registry.nextId name).2.objects := by
      cases h; rfl
    have hengine (e' : EngineId) : st'.engine? e' =
        if e = e' then some { engine with registry := engine.registry.add realm }
        else st.engine? e' := by
      obtain ⟨i⟩ := e
      obtain ⟨j⟩ := e'
      have he' : st.engines[i]? = some engine := he
      by_cases hij : i = j
      · subst hij
        simp [engine?, hengines, Array.getElem?_modify, he']
      · simp [engine?, hengines, Array.getElem?_modify, hij]
    have hsound := hst.registry e engine he
    refine .founded engine.registry.nextId name (fun e' engine' he' => ?_) (fun id r => ?_) hobjects
    · rw [hengine] at he'
      split at he'
      · next heq =>
        subst heq
        cases he'
        exact hsound.add rfl
      · exact hst.registry e' engine' he'
    · rw [realm?_eq_some, realm?_eq_some, hengine]
      split
      · next heq =>
        subst heq
        simp [he, Registry.realm?_add_eq_some, realm]
      · next hne =>
        have hid : id ≠ engine.registry.nextId := by
          rintro rfl
          exact hne hsound.engine.symm
        simp [hid]

end Store

/-- Whether an action leaves all objects as they are. -/
def Action.spares : Action α → Bool
  | .newEngine _ | .newRealm _ _ | .newObject _ | .newObjectHere | .setProperty _ _ _
  | .setGlobal _ _ => false
  | _ => true

theorem Action.objects_eq {a : Action α} {answer : α}
    (h : a.perform rule s st = some (answer, st')) (ha : a.spares = true) :
    st'.objects = st.objects := by
  cases a with
  | newEngine | newRealm | newObject | newObjectHere | setProperty | setGlobal => cases ha
  | newForeign | newString | newSymbol => cases h; rfl
  | newStack e =>
    simp only [perform, Store.newStack?, Option.bind_eq_bind, Option.bind_eq_some_iff] at h
    obtain ⟨engine, -, h⟩ := h
    cases h
    rfl
  | isObject v => obtain ⟨_, rfl⟩ := Store.isObject?_noted h; rfl
  | isCallable v => obtain ⟨_, rfl⟩ := Store.isCallable?_noted h; rfl
  | typeTag v => obtain ⟨_, rfl⟩ := Store.typeTag?_noted h; rfl
  | read target name => obtain ⟨_, rfl⟩ := Store.read?_noted h; rfl
  | enter home =>
    cases answer with
    | error err => exact Store.enter?_objects (Store.enterScope?_error h)
    | ok i =>
      obtain ⟨scope, entered, he, -, rfl⟩ := Store.enterScope?_ok h
      exact (Store.enter?_objects he : entered.objects = st.objects)
  | leave i =>
    simp only [perform, Store.leaveScope?, Option.bind_eq_bind, Option.bind_eq_some_iff] at h
    obtain ⟨scope, -, h⟩ := h
    split at h
    · cases h; rfl
    · cases h; exact Store.objects_restore _ scope

theorem Action.heapChange {a : Action α} {answer : α} (hst : st.Grounded)
    (h : a.perform rule s st = some (answer, st')) : st.HeapChange (a.target? s st) st' := by
  cases a with
  | newEngine settings => cases h; exact Store.newEngine_heapChange hst settings
  | newRealm e name => exact Store.newRealm?_heapChange hst h
  | newObject r => exact Store.newObject?_heapChange h
  | newObjectHere =>
    simp only [perform, Store.newObjectOn?, Option.bind_eq_bind, Option.bind_eq_some_iff] at h
    obtain ⟨stack, -, h⟩ := h
    exact Store.newObject?_heapChange h
  | setProperty o name v => exact Store.setProperty?_heapChange h
  | setGlobal name v =>
    simp only [perform, Store.setGlobal?, Option.bind_eq_bind, Option.bind_eq_some_iff] at h
    obtain ⟨stack, hs, ⟨old, store⟩, hset, h⟩ := h
    cases h
    rw [target?, hs]
    exact Store.setProperty?_heapChange hset
  | _ => exact .quiet (engines_eq h rfl) (objects_eq h rfl)

/-! ### Whole runs -/

/-- A heap becomes another by changes none of which writes to an object that is not allowed. -/
inductive Store.Evolves (allowed : Store → ObjectId → Prop) (st : Store) : Store → Prop
  | refl : Evolves allowed st st
  | step {st' st'' : Store} {target : Option ObjectId} : Evolves allowed st st' →
      (st'.Grounded → st'.HeapChange target st'') → (∀ o ∈ target, allowed st' o) →
      Evolves allowed st st''

namespace Store.Evolves

theorem trans (h : st.Evolves allowed st') (h' : st'.Evolves allowed st'') :
    st.Evolves allowed st'' := by
  induction h' with
  | refl => exact h
  | step _ hc ha ih => exact .step ih hc ha

theorem quiet (he : st'.engines = st.engines) (ho : st'.objects = st.objects) :
    st.Evolves allowed st' :=
  .step .refl (fun _ => .quiet he ho) nofun

end Store.Evolves

/-- The heap of a machine evolves up to each moment of a course and up to its end. -/
structure Machine.Carries (allowed : Store → ObjectId → Prop) (m : Machine σ)
    (es : List (Event σ)) (last : Machine σ) : Prop where
  last : m.store.Evolves allowed last.store
  moment : ∀ t now, .moment t now ∈ es → m.store.Evolves allowed now.store

namespace Machine.Carries

variable {es es' : List (Event σ)}

theorem silent (h : m.store.Evolves allowed last.store) (hes : ∀ t now, .moment t now ∉ es) :
    m.Carries allowed es last :=
  ⟨h, fun t now hnow => absurd hnow (hes t now)⟩

theorem nil (h : m.store.Evolves allowed last.store) : m.Carries allowed [] last :=
  silent h fun _ _ => List.not_mem_nil

theorem append (h : m.Carries allowed es m') (h' : m'.Carries allowed es' last) :
    m.Carries allowed (es ++ es') last where
  last := h.last.trans h'.last
  moment t now hnow := (List.mem_append.mp hnow).elim (h.moment t now) fun hnow =>
    h.last.trans (h'.moment t now hnow)

theorem next (h : m.Carries allowed es last) : m.Carries allowed (.moment s m :: es) last where
  last := h.last
  moment t now hnow := by
    obtain hnow | hnow := List.mem_cons.mp hnow
    · cases hnow
      exact .refl
    · exact h.moment t now hnow

/-- Around a body there may be changes that leave the heap alone, and events that are no moments. -/
theorem around {start : Machine σ} (h : start.Carries allowed es last)
    (hstart : m.store.Evolves allowed start.store) (hlast : last.store.Evolves allowed last'.store)
    (hes : ∀ t now, .moment t now ∈ es' → .moment t now ∈ es) :
    m.Carries allowed es' last' :=
  ⟨(hstart.trans h.last).trans hlast,
    fun t now hnow => hstart.trans (h.moment t now (hes t now hnow))⟩

theorem follow {r : Outcome β × Machine σ} {run : β → Machine σ → Outcome α × Machine σ}
    {events : β → Machine σ → List (Event σ)} (h : m.Carries allowed es r.2)
    (hk : ∀ b now, r = (.done b, now) → now.Carries allowed (events b now) (run b now).2) :
    m.Carries allowed (es ++ Outcome.follow r events) (Outcome.andThen r run).2 := by
  obtain ⟨outcome, m'⟩ := r
  cases outcome with
  | done b => exact h.append (hk b m' rfl)
  | panicked | outOfFuel => exact h.append (.nil .refl)

end Machine.Carries

namespace Run

open Machine

theorem acting_carries {a : Action α} (ha : ∀ o ∈ a.target? s m.store, allowed m.store o) :
    m.Carries allowed (actingEvents rule a s m) (acting rule a s m).2 := by
  refine .silent ?_ fun _ _ => Stage.acting_moment
  rcases acting_cases a with ⟨hr, -⟩ | ⟨answer, store, h, hr, -⟩
  · rw [hr]
    exact .refl
  · rw [hr]
    exact .step .refl (fun hm => Action.heapChange hm h) ha

theorem defining_carries (realm : RealmId) (name : String) (location : Option Location)
    (body : CallContext → Program σ (Except Error Value)) :
    m.Carries allowed [] (defining realm name location body s m).2 := by
  unfold defining
  split
  · exact .nil .refl
  · next o store h => exact .nil (.step .refl (fun _ => Store.newFunction?_heapChange h) nofun)

theorem crossing_carries {home : RealmId} {origin : Frame} {body : Run σ (Except Error α)}
    {events : Observed σ}
    (hb : ∀ scope store, m.store.enter? rule s home = some (.ok scope, store) →
      Carries allowed { m with store := store.beginCrossing scope }
        (events s { m with store := store.beginCrossing scope })
        (body s { m with store := store.beginCrossing scope }).2) :
    m.Carries allowed (crossingEvents rule home body events s m)
      (crossing rule home origin body s m).2 := by
  rcases crossing_cases home origin body events with ⟨hr, hes⟩ | ⟨e, -, hr, hes⟩ |
    ⟨scope, store, outcome, last, he, hbody, hr, hes⟩
  · rw [hr, hes]
    exact .nil .refl
  · rw [hr, hes]
    exact .silent .refl (by simp)
  · rw [hr, hes]
    have hrun := hb scope store he
    rw [hbody] at hrun
    have hstart : m.store.Evolves allowed (store.beginCrossing scope) :=
      .quiet (Store.enter?_engines he :) (Store.enter?_objects he :)
    exact hrun.around hstart
      (.quiet (Store.engines_restore scope) (Store.objects_restore _ scope)) (by simp)

theorem counted_carries {body : Run σ (Except Error Value)} {events : Observed σ}
    (hb : ∀ store, m.store.pushCall? s = some (.ok store) →
      Carries allowed { m with store } (events s { m with store }) (body s { m with store }).2) :
    m.Carries allowed (countedEvents body events s m) (counted body s m).2 := by
  have hpush {store : Store} (hp : m.store.pushCall? s = some (.ok store)) :
      m.store.Evolves allowed store := by
    obtain ⟨_, _, -, -, -, rfl⟩ := Store.pushCall?_ok hp
    exact .quiet rfl rfl
  rcases counted_cases body events with ⟨hr, hes⟩ |
    ⟨store, result, last, hp, hbody, hr, hes⟩ | ⟨store, outcome, last, hp, hbody, hr, -, hes⟩
  · rw [hr, hes]
    exact .nil .refl
  · rw [hr, hes]
    have hrun := hb store hp
    rw [hbody] at hrun
    exact hrun.around (hpush hp) (.quiet rfl rfl) (by simp)
  · rw [hr, hes]
    have hrun := hb store hp
    rw [hbody] at hrun
    exact hrun.around (hpush hp) .refl (by simp)

theorem calling_carries {invoke : Invocation σ} {observe : Observation σ} {callee : Value}
    {arguments : List Value}
    (hb : ∀ o object f scope store counted, callee = .object o → m.store.object? o = some object →
      object.function? = some f → m.store.enter? rule s object.realm = some (.ok scope, store) →
      (store.beginCrossing scope).pushCall? s = some (.ok counted) →
      Carries allowed { m with store := counted }
        (observe f.code ⟨o, arguments⟩ s { m with store := counted })
        (invoke f.code ⟨o, arguments⟩ s { m with store := counted }).2) :
    m.Carries allowed (callingEvents rule invoke observe callee arguments s m)
      (calling rule invoke callee arguments s m).2 := by
  cases callee with
  | object o =>
    simp only [callingEvents, calling]
    cases ho : m.store.object? o with
    | none => exact .nil .refl
    | some object =>
      cases hf : object.function? with
      | none =>
        simp only [hf]
        exact .nil .refl
      | some f =>
        simp only [hf]
        exact crossing_carries fun scope store he => counted_carries fun counted hp =>
          hb o object f scope store counted rfl ho hf he hp
  | _ => exact .nil .refl

end Run

namespace Stage

variable {g : Stage σ α} {g' : Stage σ β} {path : List Layer}

/-- Each object that a stage of the run writes to is one that may be written to then. -/
def WritesOnly (rule : EntryRule) (allowed : Store → ObjectId → Prop) (g : Stage σ α) : Prop :=
  ∀ (β γ : Type) (path : List Layer) (fuel : Nat) (s : StackId) (m : Machine σ) (a : Action γ)
    (k : γ → Program σ β), Part rule g path ⟨fuel, s, m, .acting a k⟩ →
      ∀ o ∈ a.target? s m.store, allowed m.store o

theorem WritesOnly.part (h : g.WritesOnly rule allowed) (hp : Part rule g path g') :
    g'.WritesOnly rule allowed :=
  fun β γ path' fuel s m a k hp' => h β γ (path ++ path') fuel s m a k (hp.trans hp')

theorem WritesOnly.opens {layers : List Layer} (h : g.WritesOnly rule allowed)
    (ho : Opens rule g layers g') : g'.WritesOnly rule allowed :=
  h.part (.inside ho (.here g'))

theorem WritesOnly.rest {p p' : Program σ α} (h : WritesOnly rule allowed ⟨fuel, s, m, p⟩)
    (hn : p.next? rule fuel s m = some (m', p')) : WritesOnly rule allowed ⟨fuel, s, m', p'⟩ :=
  h.part (.next hn (.here _))

end Stage

open Stage

namespace Program

theorem invocation_carries {c : CodeId} {context : CallContext}
    (hb : ∀ n (body : CallContext → Program σ (Except Error Value)), fuel = n + 1 →
      m.code[c.index]? = some body →
      m.Carries allowed ((body context).events rule n s m) ((body context).run rule n s m).2) :
    m.Carries allowed (observation rule fuel c context s m)
      (invocation rule fuel c context s m).2 := by
  cases fuel with
  | zero => exact .nil .refl
  | succ n =>
    simp only [invocation, observation]
    cases hc : m.code[c.index]? with
    | none => exact .nil .refl
    | some body => exact (hb n body rfl hc).around .refl .refl (by simp [events])

/-- A run changes the heap no more than by what its stages write. -/
theorem carries {α : Type} {p : Program σ α} (h : WritesOnly rule allowed ⟨fuel, s, m, p⟩) :
    m.Carries allowed (p.events rule fuel s m) (p.run rule fuel s m).2 := by
  induction fuel using Nat.strongRecOn generalizing α s m p with
  | ind fuel ihf =>
    induction p generalizing s m with
    | done | panic => exact (Machine.Carries.nil .refl).next
    | recalling k ih => exact (ih _ (h.rest rfl)).next
    | remembering memory k ih =>
      have hrest : m.Carries allowed (k.events rule fuel s { m with memory }) _ :=
        (ih (h.rest rfl)).around (.quiet rfl rfl) .refl fun _ _ hnow => hnow
      exact hrest.next
    | reading r k ih =>
      have hread : m.Carries allowed [] (Run.reading r s m).2 := by
        unfold Run.reading
        split <;> exact .nil .refl
      refine (hread.follow fun b now hr => ?_).next
      exact ih b (h.rest (congrArg (Outcome.next? · _) hr))
    | acting a k ih =>
      refine ((Run.acting_carries (h _ _ _ _ _ _ _ _ (.here _))).follow fun b now hr => ?_).next
      exact ih b (h.rest (congrArg (Outcome.next? · _) hr))
    | defining realm name location body k _ ih =>
      refine ((Run.defining_carries realm name location body).follow fun o now hr => ?_).next
      exact ih o (h.rest (congrArg (Outcome.next? · _) hr))
    | calling callee arguments k ih =>
      refine (Machine.Carries.follow (Run.calling_carries ?_) fun b now hr => ?_).next
      · rintro o object f scope store counted rfl ho hf he hp
        refine invocation_carries fun n body hn hc => ?_
        subst hn
        exact ihf n (Nat.lt_succ_self n) (h.opens (.enters (.calling ho hf he hp hc)))
      · exact ih b (h.rest (congrArg (Outcome.next? · _) hr))
    | crossing home origin body k ihb ih =>
      refine (Machine.Carries.follow (Run.crossing_carries fun scope store he => ?_)
        fun b now hr => ?_).next
      · exact ihb (h.opens (.enters (.crossing he)))
      · exact ih b (h.rest (congrArg (Outcome.next? · _) hr))
    | onStack t body k ihb ih =>
      refine ((ihb (h.opens .onStack)).follow fun b now hr => ?_).next
      exact ih b (h.rest (congrArg (Outcome.next? · _) hr))
    | guarding body k ihb ih =>
      refine (Machine.Carries.follow ?_ fun b now hr => ?_).next
      · rw [Run.guarding_machine]
        exact ihb (h.opens .guarding)
      · exact ih b (h.rest (congrArg (Outcome.next? · _) hr))

end Program

end Realms
