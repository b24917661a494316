import Realms.Proofs.Making

/-! The heap. Objects are added and never removed, and nothing of them changes but their properties.
A realm comes with two roots and a global object, and any further object is put under one of the
roots of its realm. Main statement: a prototype chain therefore has at most three objects, all of
one realm, and ends in the object root there; a lookup goes along it and comes to an end. -/

namespace Realms

/-- An object as it was but for its properties. -/
structure Object.Same (object object' : Object) : Prop where
  realm : object'.realm = object.realm
  objectClass : object'.objectClass = object.objectClass
  prototype : object'.prototype = object.prototype

theorem Object.Same.refl (object : Object) : object.Same object := ⟨rfl, rfl, rfl⟩

theorem Object.Same.trans {object object' object'' : Object} (h : object.Same object')
    (h' : object'.Same object'') : object.Same object'' :=
  ⟨h'.realm.trans h.realm, h'.objectClass.trans h.objectClass, h'.prototype.trans h.prototype⟩

namespace Store

variable {st st' st'' : Store} {o p : ObjectId} {object : Object} {id : RealmId} {r : Realm}
  {name : String} {v v' : Option Value}

/-! ### Chains and lookups -/

/-- The objects on the prototype chain of an object, itself first. -/
inductive PrototypeChain (st : Store) : ObjectId → List ObjectId → Prop
  | root {o : ObjectId} {object : Object} : st.object? o = some object →
      object.prototype = none → PrototypeChain st o [o]
  | link {o p : ObjectId} {object : Object} {chain : List ObjectId} :
      st.object? o = some object → object.prototype = some p → PrototypeChain st p chain →
      PrototypeChain st o (o :: chain)

/-- A lookup that starts at an object, or at none. It goes on from prototype to prototype until an
object has the name as its own, or there is no further object. -/
inductive LooksUp (st : Store) (name : String) : Option ObjectId → Option Value → Prop
  | missing : LooksUp st name none none
  | own {o : ObjectId} {object : Object} {value : Value} : st.object? o = some object →
      object.properties.get? name = some value → LooksUp st name (some o) (some value)
  | inherited {o : ObjectId} {object : Object} {v : Option Value} : st.object? o = some object →
      object.properties.get? name = none → LooksUp st name object.prototype v →
      LooksUp st name (some o) v

theorem LooksUp.unique {start : Option ObjectId} (h : st.LooksUp name start v)
    (h' : st.LooksUp name start v') : v = v' := by
  induction h with
  | missing => cases h'; rfl
  | own ho hv =>
    cases h' with
    | own ho' hv' =>
      obtain rfl := Option.some.inj (ho.symm.trans ho')
      exact hv.symm.trans hv'
    | inherited ho' hv' =>
      obtain rfl := Option.some.inj (ho.symm.trans ho')
      rw [hv] at hv'
      cases hv'
  | inherited ho hv _ ih =>
    cases h' with
    | own ho' hv' =>
      obtain rfl := Option.some.inj (ho.symm.trans ho')
      rw [hv] at hv'
      cases hv'
    | inherited ho' _ h' =>
      obtain rfl := Option.some.inj (ho.symm.trans ho')
      exact ih h'

/-! ### The invariant -/

/-- An object is there, of that realm and with that prototype. -/
def Places (st : Store) (o : ObjectId) (id : RealmId) (prototype : Option ObjectId) : Prop :=
  ∃ object, st.object? o = some object ∧ object.realm = id ∧ object.prototype = prototype

/-- The three objects that a realm comes with. -/
structure Roots (st : Store) (id : RealmId) (r : Realm) : Prop where
  objectPrototype : st.Places r.objectPrototype id none
  functionPrototype : st.Places r.functionPrototype id (some r.objectPrototype)
  global : st.Places r.global id (some r.objectPrototype)

/-- An object is the object root of its realm, or a root there is its prototype. -/
structure Placed (st : Store) (o : ObjectId) (object : Object) : Prop where
  under : ∃ r, st.realm? object.realm = some r ∧ (o = r.objectPrototype ∨
    object.prototype = some r.objectPrototype ∨ object.prototype = some r.functionPrototype)
  older : ∀ p, object.prototype = some p → p.index < o.index

structure Grounded (st : Store) : Prop where
  registry : ∀ (e : EngineId) (engine : Engine), st.engine? e = some engine →
    engine.registry.Sound e
  roots : ∀ (id : RealmId) (r : Realm), st.realm? id = some r → st.Roots id r
  placed : ∀ (o : ObjectId) (object : Object), st.object? o = some object → st.Placed o object

/-- Each object is still there, and the same but for its properties. -/
def KeepsShapes (st st' : Store) : Prop :=
  ∀ o object, st.object? o = some object →
    ∃ object', st'.object? o = some object' ∧ object.Same object'

theorem KeepsShapes.trans (h : st.KeepsShapes st') (h' : st'.KeepsShapes st'') :
    st.KeepsShapes st'' := by
  intro o object ho
  obtain ⟨object', ho', hsame⟩ := h o object ho
  obtain ⟨object'', ho'', hsame'⟩ := h' o object' ho'
  exact ⟨object'', ho'', hsame.trans hsame'⟩

theorem Places.keep {prototype : Option ObjectId} (h : st.Places o id prototype)
    (hk : st.KeepsShapes st') : st'.Places o id prototype := by
  obtain ⟨object, ho, hid, hp⟩ := h
  obtain ⟨object', ho', hsame⟩ := hk o object ho
  exact ⟨object', ho', hsame.realm.trans hid, hsame.prototype.trans hp⟩

theorem Roots.keep (h : st.Roots id r) (hk : st.KeepsShapes st') : st'.Roots id r :=
  ⟨h.objectPrototype.keep hk, h.functionPrototype.keep hk, h.global.keep hk⟩

/-- The chain of an object leads to the object root of its realm, by way of the function root or
straight away. -/
theorem Grounded.chain (h : st.Grounded) (ho : st.object? o = some object) :
    ∃ r chain, st.realm? object.realm = some r ∧ st.PrototypeChain o chain ∧ chain.Nodup ∧
      chain.length ≤ 3 ∧ chain.getLast? = some r.objectPrototype ∧
      ∀ p ∈ chain, ∃ object', st.object? p = some object' ∧ object'.realm = object.realm := by
  obtain ⟨r, hr, hplace⟩ := (h.placed o object ho).under
  obtain ⟨⟨root, hroot, hrootRealm, hnone⟩, ⟨froot, hfroot, hfrootRealm, hsome⟩, -⟩ :=
    h.roots _ r hr
  have hfroot_ne : r.functionPrototype ≠ r.objectPrototype := by
    intro he
    rw [he, hroot] at hfroot
    cases hfroot
    rw [hnone] at hsome
    cases hsome
  have hend : st.PrototypeChain r.objectPrototype [r.objectPrototype] := .root hroot hnone
  obtain rfl | hp | hp := hplace
  · rw [hroot] at ho
    cases ho
    exact ⟨r, _, hr, hend, by simp, by simp, rfl, by simpa using ⟨_, hroot, rfl⟩⟩
  · have hne : o ≠ r.objectPrototype := by
      rintro rfl
      rw [hroot] at ho
      cases ho
      rw [hnone] at hp
      cases hp
    refine ⟨r, _, hr, .link ho hp hend, by simpa using hne, by simp, rfl, ?_⟩
    simpa using ⟨⟨object, ho, rfl⟩, root, hroot, hrootRealm⟩
  · have hne : o ≠ r.objectPrototype := by
      rintro rfl
      rw [hroot] at ho
      cases ho
      rw [hnone] at hp
      cases hp
    have hne' : o ≠ r.functionPrototype := by
      rintro rfl
      rw [hfroot] at ho
      cases ho
      rw [hsome] at hp
      exact hfroot_ne (Option.some.inj hp).symm
    refine ⟨r, _, hr, .link ho hp (.link hfroot hsome hend), ?_, by simp, rfl, ?_⟩
    · simpa using ⟨⟨hne', hne⟩, hfroot_ne⟩
    · simpa using ⟨⟨object, ho, rfl⟩, ⟨froot, hfroot, hfrootRealm⟩, root, hroot, hrootRealm⟩

theorem property?_own {value : Value} (ho : st.object? o = some object)
    (hv : object.properties.get? name = some value) : st.property? o name = some value := by
  rw [property?]
  simp [ho, hv]

theorem property?_root (ho : st.object? o = some object)
    (hv : object.properties.get? name = none) (hp : object.prototype = none) :
    st.property? o name = none := by
  rw [property?]
  simp [ho, hv, hp]

theorem Grounded.property?_inherited (h : st.Grounded) (ho : st.object? o = some object)
    (hv : object.properties.get? name = none) (hp : object.prototype = some p) :
    st.property? o name = st.property? p name := by
  rw [property?]
  simp [ho, hv, hp, (h.placed o object ho).older p hp]

/-- A lookup along a chain comes to an end, with the property that the store finds. -/
theorem PrototypeChain.looksUp {chain : List ObjectId} (h : st.PrototypeChain o chain)
    (hst : st.Grounded) (name : String) : st.LooksUp name (some o) (st.property? o name) := by
  induction h with
  | @root _ object ho hp =>
    cases hv : object.properties.get? name with
    | some value =>
      rw [property?_own ho hv]
      exact .own ho hv
    | none =>
      rw [property?_root ho hv hp]
      exact .inherited ho hv (hp ▸ .missing)
  | @link _ _ object _ ho hp _ ih =>
    cases hv : object.properties.get? name with
    | some value =>
      rw [property?_own ho hv]
      exact .own ho hv
    | none =>
      rw [hst.property?_inherited ho hv hp]
      exact .inherited ho hv (hp ▸ ih)

/-! ### What operations do to the heap -/

/-- An operation leaves objects and realms as they are, or writes a property of the given object, or
puts an object under a root of its realm, or makes a realm. -/
inductive HeapChange (st : Store) : Option ObjectId → Store → Prop
  | quiet {st' : Store} : st'.engines = st.engines → st'.objects = st.objects →
      HeapChange st none st'
  | written {st' : Store} (o : ObjectId) (name : String) (value : Value) :
      st'.engines = st.engines → st'.objects = (st.objects.modify o.index fun object =>
        { object with properties := object.properties.set name value }) →
      HeapChange st (some o) st'
  | placed {st' : Store} {object : Object} {r : Realm} : st.realm? object.realm = some r →
      object.prototype = some r.objectPrototype ∨ object.prototype = some r.functionPrototype →
      st'.engines = st.engines → st'.objects = st.objects.push object → HeapChange st none st'
  | founded {st' : Store} (id : RealmId) (name : String) :
      (∀ e engine, st'.engine? e = some engine → engine.registry.Sound e) →
      (∀ id' r, st'.realm? id' = some r ↔
        st.realm? id' = some r ∨ id' = id ∧ r = (st.buildRealm id name).1) →
      st'.objects = (st.buildRealm id name).2.objects → HeapChange st none st'

theorem realm?_of_engines (h : st'.engines = st.engines) (id : RealmId) :
    st'.realm? id = st.realm? id := by
  rw [realm?, engine?, h]
  rfl

theorem engine?_of_engines (h : st'.engines = st.engines) (e : EngineId) :
    st'.engine? e = st.engine? e := by
  rw [engine?, h]
  rfl

theorem object?_of_push (h : st'.objects = st.objects.push object) (o : ObjectId) :
    st'.object? o = if o.index = st.objects.size then some object else st.object? o := by
  rw [object?, h, Array.getElem?_push]
  rfl

theorem object?_lt (h : st.object? o = some object) : o.index < st.objects.size :=
  (Array.getElem?_eq_some_iff.mp h).1

/-- A store stays grounded when its objects keep their shapes and what is new is in its place. -/
theorem Grounded.grow (h : st.Grounded) (hk : st.KeepsShapes st')
    (hregistry : ∀ e engine, st'.engine? e = some engine → engine.registry.Sound e)
    (hrealms : ∀ id r, st.realm? id = some r → st'.realm? id = some r)
    (hroots : ∀ id r, st'.realm? id = some r → st.realm? id = some r ∨ st'.Roots id r)
    (hobjects : ∀ o object, st'.object? o = some object →
      (∃ old, st.object? o = some old ∧ old.Same object) ∨ st'.Placed o object) :
    st'.Grounded where
  registry := hregistry
  roots id r hr := (hroots id r hr).elim (fun hold => (h.roots id r hold).keep hk) fun hnew => hnew
  placed o object ho := by
    obtain ⟨old, hold, hsame⟩ | hplaced := hobjects o object ho
    · obtain ⟨⟨r, hr, hunder⟩, holder⟩ := h.placed o old hold
      refine ⟨⟨r, ?_, ?_⟩, ?_⟩
      · rw [hsame.realm]
        exact hrealms _ r hr
      · rwa [hsame.prototype]
      · rwa [hsame.prototype]
    · exact hplaced

theorem Grounded.grow_of_engines (h : st.Grounded) (he : st'.engines = st.engines)
    (hk : st.KeepsShapes st') (hobjects : ∀ o object, st'.object? o = some object →
      (∃ old, st.object? o = some old ∧ old.Same object) ∨ st'.Placed o object) :
    st'.Grounded := by
  refine h.grow hk (fun e engine hengine => ?_) (fun id r hr => ?_) (fun id r hr => ?_) hobjects
  · exact h.registry e engine (by rwa [engine?_of_engines he] at hengine)
  · rwa [realm?_of_engines he]
  · exact .inl (by rwa [realm?_of_engines he] at hr)

theorem KeepsShapes.of_object? (h : ∀ o object, st.object? o = some object →
    st'.object? o = some object) : st.KeepsShapes st' :=
  fun o object ho => ⟨object, h o object ho, .refl object⟩

/-- A new object under a root of its realm. -/
theorem Grounded.push (h : st.Grounded) (hr : st.realm? object.realm = some r)
    (hp : object.prototype = some r.objectPrototype ∨ object.prototype = some r.functionPrototype)
    (he : st'.engines = st.engines) (ho : st'.objects = st.objects.push object) :
    st'.Grounded ∧ st.KeepsShapes st' := by
  have hk : st.KeepsShapes st' := .of_object? fun o old hold => by
    rw [object?_of_push ho, if_neg (Nat.ne_of_lt (object?_lt hold)), hold]
  obtain ⟨⟨root, hroot, -⟩, ⟨froot, hfroot, -⟩, -⟩ := h.roots _ r hr
  refine ⟨h.grow_of_engines he hk fun o object' ho' => ?_, hk⟩
  · rw [object?_of_push ho] at ho'
    split at ho'
    · next hi =>
      cases ho'
      refine .inr ⟨⟨r, by rwa [realm?_of_engines he], .inr hp⟩, fun p hp' => ?_⟩
      rw [hi]
      obtain hp | hp := hp
      · obtain rfl := Option.some.inj (hp.symm.trans hp')
        exact object?_lt hroot
      · obtain rfl := Option.some.inj (hp.symm.trans hp')
        exact object?_lt hfroot
    · exact .inl ⟨object', ho', .refl object'⟩

/-- A property that is written leaves each object the same. -/
theorem Grounded.write (h : st.Grounded) {value : Value} (he : st'.engines = st.engines)
    (ho : st'.objects = (st.objects.modify o.index fun object =>
      { object with properties := object.properties.set name value })) :
    st'.Grounded ∧ st.KeepsShapes st' := by
  have hobject (i : ObjectId) : st'.object? i = if o = i then (st.object? i).map (fun object =>
      { object with properties := object.properties.set name value }) else st.object? i := by
    obtain ⟨n⟩ := o
    obtain ⟨k⟩ := i
    by_cases hnk : n = k <;> simp [object?, ho, Array.getElem?_modify, hnk]
  have hk : st.KeepsShapes st' := by
    intro i old hold
    rw [hobject, hold]
    split <;> exact ⟨_, rfl, rfl, rfl, rfl⟩
  refine ⟨h.grow_of_engines he hk fun i object' hi => ?_, hk⟩
  · rw [hobject] at hi
    split at hi
    · obtain ⟨old, hold, rfl⟩ := Option.map_eq_some_iff.mp hi
      exact .inl ⟨old, hold, rfl, rfl, rfl⟩
    · exact .inl ⟨object', hi, .refl object'⟩

/-- The objects after a realm is made: the ones from before, and the three that it comes with. -/
theorem object?_of_buildRealm (h : st'.objects = (st.buildRealm id name).2.objects) (o : ObjectId) :
    st'.object? o =
      if o.index = st.objects.size then some ⟨id, .ordinary, none, .empty⟩
      else if o.index = st.objects.size + 1 then
        some ⟨id, .ordinary, some ⟨st.objects.size⟩, .empty⟩
      else if o.index = st.objects.size + 2 then
        some ⟨id, .global, some ⟨st.objects.size⟩, .empty⟩
      else st.object? o := by
  rw [object?, h]
  simp only [buildRealm, addObject, Array.getElem?_push, Array.size_push]
  by_cases h₂ : o.index = st.objects.size + 2
  · simp [h₂]
  by_cases h₁ : o.index = st.objects.size + 1
  · simp [h₁]
  · simp only [if_neg h₂, if_neg h₁]
    rfl

theorem Grounded.found (h : st.Grounded)
    (hregistry : ∀ e engine, st'.engine? e = some engine → engine.registry.Sound e)
    (hrealms : ∀ id' r, st'.realm? id' = some r ↔
      st.realm? id' = some r ∨ id' = id ∧ r = (st.buildRealm id name).1)
    (ho : st'.objects = (st.buildRealm id name).2.objects) :
    st'.Grounded ∧ st.KeepsShapes st' := by
  have hk : st.KeepsShapes st' := .of_object? fun o old hold => by
    have hlt := object?_lt hold
    rw [object?_of_buildRealm ho, if_neg (by omega), if_neg (by omega), if_neg (by omega), hold]
  have hroots : st'.Roots id (st.buildRealm id name).1 := by
    refine ⟨⟨⟨id, .ordinary, none, .empty⟩, ?_, rfl, rfl⟩,
      ⟨⟨id, .ordinary, some ⟨st.objects.size⟩, .empty⟩, ?_, rfl, rfl⟩,
      ⟨⟨id, .global, some ⟨st.objects.size⟩, .empty⟩, ?_, rfl, rfl⟩⟩
    all_goals
      rw [object?_of_buildRealm ho]
      simp [buildRealm, addObject]
    omega
  have hnew : st'.realm? id = some (st.buildRealm id name).1 := (hrealms _ _).mpr (.inr ⟨rfl, rfl⟩)
  refine ⟨h.grow hk hregistry (fun id' r hr => (hrealms id' r).mpr (.inl hr)) (fun id' r hr => ?_)
    fun o object hobject => ?_, hk⟩
  · obtain hold | ⟨rfl, rfl⟩ := (hrealms id' r).mp hr
    · exact .inl hold
    · exact .inr hroots
  · rw [object?_of_buildRealm ho] at hobject
    split at hobject
    · next hi =>
      cases hobject
      refine .inr ⟨⟨_, hnew, .inl (congrArg ObjectId.mk hi)⟩, fun p hp => ?_⟩
      cases hp
    split at hobject
    · next hi =>
      cases hobject
      refine .inr ⟨⟨_, hnew, .inr (.inl rfl)⟩, fun p hp => ?_⟩
      cases hp
      simp [hi]
    split at hobject
    · next hi =>
      cases hobject
      refine .inr ⟨⟨_, hnew, .inr (.inl rfl)⟩, fun p hp => ?_⟩
      cases hp
      simp [hi]
    · exact .inl ⟨object, hobject, .refl object⟩

section

variable {target : Option ObjectId}

theorem HeapChange.grounded (h : st.HeapChange target st') (hst : st.Grounded) :
    st'.Grounded ∧ st.KeepsShapes st' := by
  cases h with
  | quiet he ho =>
    have hobject (o : ObjectId) : st'.object? o = st.object? o := by rw [object?, ho]; rfl
    have hk : st.KeepsShapes st' := .of_object? fun o object => by rw [hobject]; exact fun h => h
    refine ⟨hst.grow_of_engines he hk fun o object hobject' => ?_, hk⟩
    exact .inl ⟨object, (hobject o).symm.trans hobject', .refl object⟩
  | written o name value he ho => exact hst.write he ho
  | placed hr hp he ho => exact hst.push hr hp he ho
  | founded id name hregistry hrealms ho => exact hst.found hregistry hrealms ho

/-- An object that is not written to is as it was, with all its properties. -/
theorem HeapChange.object?_of_ne (h : st.HeapChange target st') (ho : st.object? o = some object)
    (hne : target ≠ some o) : st'.object? o = some object := by
  have hlt := object?_lt ho
  cases h with
  | quiet _ hobjects => rwa [object?, hobjects]
  | written o' name value _ hobjects =>
    have hne' : o'.index ≠ o.index := by
      obtain ⟨i⟩ := o
      obtain ⟨j⟩ := o'
      exact fun heq => hne (congrArg (some ∘ ObjectId.mk) heq)
    rw [object?, hobjects, Array.getElem?_modify, if_neg hne']
    exact ho
  | placed _ _ _ hobjects => rwa [object?_of_push hobjects, if_neg (Nat.ne_of_lt hlt)]
  | founded id name _ _ hobjects =>
    rw [object?_of_buildRealm hobjects, if_neg (by omega), if_neg (by omega), if_neg (by omega), ho]

end

end Store

end Realms
