import Realms.Proofs.Store.Lookup

/-! The operations that have nothing to do with scopes and calls. Seen from engines, stacks and
scopes there are four kinds: one that makes an engine, one that makes a realm, one that makes a
stack, and the rest, which change none of them. -/

namespace Realms.Store

/-- The scopes of programs and of crossings are as they were. -/
structure SameScopes (st st' : Store) : Prop where
  scopes : st'.scopes = st.scopes
  underway : st'.underway = st.underway
  ended : st'.ended = st.ended

/-- Each object is still there, and keeps its realm and its class. -/
def KeepsObjects (st st' : Store) : Prop :=
  ∀ o object, st.object? o = some object → ∃ object', st'.object? o = some object' ∧
    object'.realm = object.realm ∧ object'.objectClass = object.objectClass

/-- What no such operation touches. -/
structure Untouched (st st' : Store) : Prop extends SameScopes st st' where
  objects : st.KeepsObjects st'

inductive Change (st : Store) : Store → Prop
  | quiet {st' : Store} : st'.engines = st.engines → st'.callStacks = st.callStacks →
      st.Untouched st' → Change st st'
  | engine {st' : Store} (settings : Settings) (main : Realm) : main.id = .main ⟨st.engines.size⟩ →
      st'.engines = st.engines.push ⟨settings, .single main⟩ → st'.callStacks = st.callStacks →
      st.Untouched st' → Change st st'
  | realm {st' : Store} {e : EngineId} {engine : Engine} (realm : Realm) :
      st.engine? e = some engine → realm.id = engine.registry.nextId →
      st'.engines = st.engines.modify e.index (fun engine =>
        { engine with registry := engine.registry.add realm }) →
      st'.callStacks = st.callStacks → st.Untouched st' → Change st st'
  | stack {st' : Store} {e : EngineId} {engine : Engine} : st.engine? e = some engine →
      st'.engines = st.engines → st'.callStacks = st.callStacks.push (.spawn engine.registry) →
      st.Untouched st' → Change st st'

variable {st st' st'' : Store}

theorem KeepsObjects.trans (h : st.KeepsObjects st') (h' : st'.KeepsObjects st'') :
    st.KeepsObjects st'' := by
  intro o object ho
  obtain ⟨object', ho', hrealm, hclass⟩ := h o object ho
  obtain ⟨object'', ho'', hrealm', hclass'⟩ := h' o object' ho'
  exact ⟨object'', ho'', hrealm'.trans hrealm, hclass'.trans hclass⟩

theorem keepsObjects_of_eq (h : st'.objects = st.objects) : st.KeepsObjects st' :=
  fun o object ho => ⟨object, by rwa [object?, h], rfl, rfl⟩

theorem addObject_keepsObjects (object : Object) : st.KeepsObjects (st.addObject object).2 := by
  intro o old ho
  have hlt := (Array.getElem?_eq_some_iff.mp ho).1
  refine ⟨old, ?_, rfl, rfl⟩
  rw [object?, addObject, Array.getElem?_push, if_neg (by omega)]
  exact ho

theorem buildRealm_keepsObjects (id : RealmId) (name : String) :
    st.KeepsObjects (st.buildRealm id name).2 :=
  (addObject_keepsObjects _).trans ((addObject_keepsObjects _).trans (addObject_keepsObjects _))

theorem setProperty_keepsObjects (o : ObjectId) (name : String) (v : Value) :
    st.KeepsObjects { st with objects := st.objects.modify o.index fun object =>
      { object with properties := object.properties.set name v } } := by
  intro i old hi
  have hi' : st.objects[i.index]? = some old := hi
  simp only [object?, Array.getElem?_modify, hi', Option.map_some]
  split <;> exact ⟨_, rfl, rfl, rfl⟩

/-- An operation that leaves the scopes and objects alone. -/
theorem Untouched.of_eq (hs : st.SameScopes st') (ho : st'.objects = st.objects) :
    st.Untouched st' :=
  ⟨hs, keepsObjects_of_eq ho⟩

theorem newEngine_change (settings : Settings) : st.Change (st.newEngine settings).2 :=
  .engine settings _ rfl rfl rfl
    ⟨⟨rfl, rfl, rfl⟩, buildRealm_keepsObjects (.main ⟨st.engines.size⟩) settings.mainRealmName⟩

theorem newRealm?_error {e : EngineId} {name : String} {err : Error}
    (h : st.newRealm? e name = some (.error err, st')) : st' = st ∧ err = .tooManyRealms := by
  simp only [newRealm?, Option.bind_eq_bind, Option.bind_eq_some_iff] at h
  obtain ⟨engine, -, h⟩ := h
  split at h
  · cases h; exact ⟨rfl, rfl⟩
  · cases h

theorem newRealm?_change {e : EngineId} {name : String} {answer : Except Error Realm}
    (h : st.newRealm? e name = some (answer, st')) : st.Change st' := by
  simp only [newRealm?, Option.bind_eq_bind, Option.bind_eq_some_iff] at h
  obtain ⟨engine, he, h⟩ := h
  split at h
  · cases h
    exact .quiet rfl rfl (.of_eq ⟨rfl, rfl, rfl⟩ rfl)
  · cases h
    exact .realm _ he rfl rfl rfl
      ⟨⟨rfl, rfl, rfl⟩, buildRealm_keepsObjects engine.registry.nextId name⟩

theorem newStack?_change {e : EngineId} {s : StackId} (h : st.newStack? e = some (s, st')) :
    st.Change st' := by
  simp only [newStack?, Option.bind_eq_bind, Option.bind_eq_some_iff] at h
  obtain ⟨engine, he, h⟩ := h
  cases h
  exact .stack he rfl rfl (.of_eq ⟨rfl, rfl, rfl⟩ rfl)

theorem newObject?_change {r : RealmId} {o : ObjectId} (h : st.newObject? r = some (o, st')) :
    st.Change st' := by
  simp only [newObject?, Option.bind_eq_bind, Option.bind_eq_some_iff] at h
  obtain ⟨realm, -, h⟩ := h
  cases h
  exact .quiet rfl rfl ⟨⟨rfl, rfl, rfl⟩, addObject_keepsObjects _⟩

theorem newObjectOn?_change {s : StackId} {o : ObjectId} (h : st.newObjectOn? s = some (o, st')) :
    st.Change st' := by
  simp only [newObjectOn?, Option.bind_eq_bind, Option.bind_eq_some_iff] at h
  obtain ⟨stack, -, h⟩ := h
  exact newObject?_change h

theorem newFunction?_change {r : RealmId} {f : Function} {o : ObjectId}
    (h : st.newFunction? r f = some (o, st')) : st.Change st' := by
  simp only [newFunction?, Option.bind_eq_bind, Option.bind_eq_some_iff] at h
  obtain ⟨realm, -, h⟩ := h
  cases h
  exact .quiet rfl rfl ⟨⟨rfl, rfl, rfl⟩, addObject_keepsObjects _⟩

theorem setProperty?_change {o : ObjectId} {name : String} {v : Value} {old : Option Value}
    (h : st.setProperty? o name v = some (old, st')) : st.Change st' := by
  simp only [setProperty?, Option.bind_eq_bind, Option.bind_eq_some_iff] at h
  obtain ⟨object, -, h⟩ := h
  cases h
  exact .quiet rfl rfl ⟨⟨rfl, rfl, rfl⟩, setProperty_keepsObjects o name v⟩

theorem setGlobal?_change {s : StackId} {name : String} {v : Value} {u : Unit}
    (h : st.setGlobal? s name v = some (u, st')) : st.Change st' := by
  simp only [setGlobal?, Option.bind_eq_bind, Option.bind_eq_some_iff] at h
  obtain ⟨stack, -, ⟨old, st''⟩, hset, h⟩ := h
  cases h
  exact setProperty?_change hset

/-- Nothing has changed but what is noted of foreign values. -/
def Noted (st st' : Store) : Prop := ∃ foreigns, st' = { st with foreigns }

theorem Noted.change (h : st.Noted st') : st.Change st' := by
  obtain ⟨foreigns, rfl⟩ := h
  exact .quiet rfl rfl (.of_eq ⟨rfl, rfl, rfl⟩ rfl)

theorem inquire?_noted {α : Type} {f : ForeignId} {inquiry : Foreign → Inquiry α} {a : α}
    (h : st.inquire? f inquiry = some (a, st')) : st.Noted st' := by
  simp only [inquire?, Option.bind_eq_bind, Option.bind_eq_some_iff] at h
  obtain ⟨foreign, -, h⟩ := h
  cases h
  exact ⟨_, rfl⟩

theorem isObject?_noted {v : Value} {b : Bool} (h : st.isObject? v = some (b, st')) :
    st.Noted st' := by
  cases v with
  | foreign f => exact inquire?_noted h
  | _ => cases h; exact ⟨_, rfl⟩

theorem isCallable?_noted {v : Value} {b : Bool} (h : st.isCallable? v = some (b, st')) :
    st.Noted st' := by
  cases v with
  | foreign f => exact inquire?_noted h
  | object o =>
    simp only [isCallable?, Option.bind_eq_bind, Option.bind_eq_some_iff] at h
    obtain ⟨object, -, h⟩ := h
    cases h
    exact ⟨_, rfl⟩
  | _ => cases h; exact ⟨_, rfl⟩

theorem typeTag?_noted {v : Value} {t : TypeTag} (h : st.typeTag? v = some (t, st')) :
    st.Noted st' := by
  cases v with
  | foreign f => exact inquire?_noted h
  | object o =>
    simp only [typeTag?, Option.bind_eq_bind, Option.bind_eq_some_iff] at h
    obtain ⟨object, -, h⟩ := h
    cases h
    exact ⟨_, rfl⟩
  | _ => cases h; exact ⟨_, rfl⟩

theorem read?_noted {v : Value} {name : String} {result : Except Error Value}
    (h : st.read? v name = some (result, st')) : st.Noted st' := by
  cases v with
  | foreign f => exact inquire?_noted h
  | object o =>
    simp only [read?, Option.bind_eq_bind, Option.bind_eq_some_iff] at h
    obtain ⟨object, -, h⟩ := h
    cases h
    exact ⟨_, rfl⟩
  | _ => cases h; exact ⟨_, rfl⟩

end Realms.Store
