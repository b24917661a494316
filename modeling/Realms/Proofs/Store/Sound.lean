import Realms.Proofs.Store.Change

/-! The invariant of a store. In every registry a realm stands at the position that its id names,
and more than one stand there once the registry has noted a second; a stack has a registered realm
of its own engine active, and so has it had at the entry of each of its scopes. Main statement: an
entry into a scope then leaves the home realm active, whether or not it takes the shortcut. -/

namespace Realms

/-- The realms of a registry are where their ids say. -/
structure Registry.Sound (g : Registry) (e : EngineId) : Prop where
  engine : g.engine = e
  ids : ∀ (i : Nat) (r : Realm), g.realms[i]? = some r → r.id = ⟨e, i⟩
  secondary : g.hasSecondary = true ↔ 1 < g.realms.size

namespace Registry

theorem single_sound {main : Realm} {e : EngineId} (h : main.id = .main e) :
    (single main).Sound e where
  engine := by rw [single, h]; rfl
  ids i r hr := by
    simp only [single, List.getElem?_toArray, List.getElem?_singleton] at hr
    split at hr
    · next hi => cases hr; rw [h, hi]; rfl
    · cases hr
  secondary := by simp [single]

theorem Sound.add {g : Registry} {e : EngineId} {r : Realm} (h : g.Sound e) (hr : r.id = g.nextId) :
    (g.add r).Sound e where
  engine := h.engine
  ids i r' hr' := by
    simp only [Registry.add, Array.getElem?_push] at hr'
    split at hr'
    · next hi => cases hr'; rw [hr, nextId, h.engine, hi]
    · exact h.ids i r' hr'
  secondary := by simp [Registry.add, g.size_pos]

theorem Sound.id_of_realm? {g : Registry} {e : EngineId} {id : RealmId} {r : Realm}
    (h : g.Sound e) (hr : g.realm? id = some r) : r.id = id ∧ id.engine = e := by
  simp only [realm?] at hr
  split at hr
  · next ho =>
    have he : id.engine = e := by simpa [owns, h.engine] using ho
    exact ⟨by rw [h.ids _ _ hr, ← he], he⟩
  · cases hr

/-- While no second realm has been made, all ids that resolve are one. -/
theorem Sound.unique {g : Registry} {e : EngineId} {id id' : RealmId} {r r' : Realm}
    (h : g.Sound e) (hs : g.hasSecondary = false) (hr : g.realm? id = some r)
    (hr' : g.realm? id' = some r') : r = r' := by
  have hsize : g.realms.size ≤ 1 := by
    have := h.secondary
    simp only [hs, Bool.false_eq_true, false_iff] at this
    omega
  have hzero {id : RealmId} {r : Realm} (hr : g.realm? id = some r) : g.realms[0]? = some r := by
    simp only [realm?] at hr
    split at hr
    · have hlt := (Array.getElem?_eq_some_iff.mp hr).1
      rwa [show id.index = 0 by omega] at hr
    · cases hr
  exact Option.some.inj ((hzero hr).symm.trans (hzero hr'))

theorem realm?_add {g : Registry} {r r' : Realm} {id : RealmId} (h : g.realm? id = some r) :
    (g.add r').realm? id = some r := by
  simp only [realm?] at h ⊢
  split at h
  · next ho =>
    have hlt := (Array.getElem?_eq_some_iff.mp h).1
    have ho' : (g.add r').owns id = true := ho
    rw [if_pos ho', add, Array.getElem?_push, if_neg (by omega), h]
  · cases h

end Registry

namespace Store

variable {st st' st'' : Store} {rule : EntryRule} {s : StackId} {home : RealmId} {r : Realm}

/-- A stack is there, and its engine has the realm. -/
def Registers (st : Store) (s : StackId) (r : Realm) : Prop :=
  ∃ stack, st.stack? s = some stack ∧ r.id.engine = stack.engine ∧ st.realm? r.id = some r

structure Sound (st : Store) : Prop where
  registry : ∀ (e : EngineId) (engine : Engine), st.engine? e = some engine →
    engine.registry.Sound e
  active : ∀ (s : StackId) (stack : Stack), st.stack? s = some stack → st.Registers s stack.active
  kept : ∀ (i : ScopeId) (scope : Scope) (r : Realm), st.scope? i = some scope →
    scope.previous = some r → st.Registers scope.stack r

/-- What later stores keep of a store: its realms, the settings of its engines, and the engines of
its stacks. -/
structure Extends (st st' : Store) : Prop where
  settings : ∀ (e : EngineId) (engine : Engine), st.engine? e = some engine →
    ∃ engine', st'.engine? e = some engine' ∧ engine'.settings = engine.settings
  realm : ∀ (id : RealmId) (r : Realm), st.realm? id = some r → st'.realm? id = some r
  stack : ∀ (s : StackId) (stack : Stack), st.stack? s = some stack →
    ∃ stack', st'.stack? s = some stack' ∧ stack'.engine = stack.engine

theorem Extends.refl (st : Store) : st.Extends st :=
  ⟨fun _ engine h => ⟨engine, h, rfl⟩, fun _ _ h => h, fun _ stack h => ⟨stack, h, rfl⟩⟩

theorem Extends.trans (h : st.Extends st') (h' : st'.Extends st'') : st.Extends st'' where
  settings e engine he := by
    obtain ⟨engine', he', hs⟩ := h.settings e engine he
    obtain ⟨engine'', he'', hs'⟩ := h'.settings e engine' he'
    exact ⟨engine'', he'', hs'.trans hs⟩
  realm id r hr := h'.realm id r (h.realm id r hr)
  stack s stack hs := by
    obtain ⟨stack', hs', he⟩ := h.stack s stack hs
    obtain ⟨stack'', hs'', he'⟩ := h'.stack s stack' hs'
    exact ⟨stack'', hs'', he'.trans he⟩

/-- The settings of a stack's engine stay as they are. -/
theorem Extends.engineOf? (h : st.Extends st') {now now' : Stack} {engine : Engine}
    (hs : st.stack? s = some now) (hs' : st'.stack? s = some now')
    (he : st.engine? now.engine = some engine) :
    ∃ engine', st'.engine? now'.engine = some engine' ∧ engine'.settings = engine.settings := by
  obtain ⟨now'', hnow'', hengine⟩ := h.stack s now hs
  obtain rfl : now' = now'' := Option.some.inj (hs'.symm.trans hnow'')
  rw [hengine]
  exact h.settings _ _ he

theorem extends_of_eq (he : st'.engines = st.engines) (hs : st'.callStacks = st.callStacks) :
    st.Extends st' where
  settings e engine h := ⟨engine, by rwa [engine?, he], rfl⟩
  realm id r h := by rwa [realm?, engine?, he]
  stack s stack h := ⟨stack, by rwa [stack?, hs], rfl⟩

theorem Registers.extend (h : st.Registers s r) (he : st.Extends st') : st'.Registers s r := by
  obtain ⟨stack, hs, hr, hrealm⟩ := h
  obtain ⟨stack', hs', hengine⟩ := he.stack s stack hs
  exact ⟨stack', hs', hr.trans hengine.symm, he.realm _ _ hrealm⟩

theorem realm?_eq_some {id : RealmId} : st.realm? id = some r ↔
    ∃ engine, st.engine? id.engine = some engine ∧ engine.registry.realm? id = some r := by
  simp only [realm?, Option.bind_eq_bind, Option.bind_eq_some_iff]

theorem Sound.id_of_realm? (h : st.Sound) {id : RealmId} (hr : st.realm? id = some r) :
    r.id = id := by
  obtain ⟨engine, he, hr⟩ := realm?_eq_some.mp hr
  exact ((h.registry _ _ he).id_of_realm? hr).1

/-- Registered realms with one id are one realm. -/
theorem Registers.eq_of_id {r' : Realm} {t : StackId} (h : st.Registers s r)
    (h' : st.Registers t r') (hid : r.id = r'.id) : r = r' := by
  obtain ⟨_, -, -, hr⟩ := h
  obtain ⟨_, -, -, hr'⟩ := h'
  rw [hid, hr'] at hr
  exact (Option.some.inj hr).symm

/-- A stack always has its engine. -/
theorem Sound.engineOf? (h : st.Sound) {now : Stack} (hs : st.stack? s = some now) :
    ∃ engine, st.engineOf? s = some engine ∧ st.engine? now.engine = some engine := by
  obtain ⟨now', hnow', he, hr⟩ := h.active s now hs
  obtain rfl : now = now' := Option.some.inj (hs.symm.trans hnow')
  obtain ⟨engine, hengine, -⟩ := realm?_eq_some.mp hr
  rw [he] at hengine
  exact ⟨engine, by simp [Store.engineOf?, hs, hengine], hengine⟩

/-- The realm of an id is active on a stack: the very one that the stack's engine has registered. -/
def HasActive (st : Store) (s : StackId) (home : RealmId) : Prop :=
  ∃ now engine, st.stack? s = some now ∧ st.engineOf? s = some engine ∧ now.active.id = home ∧
    engine.registry.realm? home = some now.active

theorem Sound.hasActive (h : st.Sound) {now : Stack}
    (hs : st.stack? s = some now) : st.HasActive s now.active.id := by
  obtain ⟨engine, hengine, he⟩ := h.engineOf? hs
  obtain ⟨now', hs', hid, hr⟩ := h.active s now hs
  obtain rfl : now = now' := Option.some.inj (hs.symm.trans hs')
  obtain ⟨engine', he', hr⟩ := Store.realm?_eq_some.mp hr
  rw [hid, he] at he'
  cases he'
  exact ⟨now, engine, hs, hengine, rfl, hr⟩

theorem empty_sound : Store.empty.Sound where
  registry e engine h := by simp [empty, engine?] at h
  active s stack h := by simp [empty, stack?] at h
  kept i scope r h := by simp [empty, scope?] at h

/-! ### Changes of a stack -/

theorem modifyStack_extends (f : Stack → Stack) (hf : ∀ stack, (f stack).engine = stack.engine) :
    st.Extends (st.modifyStack s f) where
  settings e engine h := ⟨engine, h, rfl⟩
  realm id r h := h
  stack t stack h := by
    rw [stack?_modifyStack]
    split
    · exact ⟨f stack, by rw [h]; rfl, hf stack⟩
    · exact ⟨stack, h, rfl⟩

theorem Sound.modifyStack (h : st.Sound) (f : Stack → Stack)
    (hf : ∀ stack, (f stack).engine = stack.engine)
    (ha : ∀ stack, st.stack? s = some stack → st.Registers s (f stack).active) :
    (st.modifyStack s f).Sound where
  registry := h.registry
  active t stack ht := by
    have hext : st.Extends (st.modifyStack s f) := modifyStack_extends f hf
    rw [stack?_modifyStack] at ht
    split at ht
    · next hst =>
      subst hst
      obtain ⟨stack', hs, rfl⟩ := Option.map_eq_some_iff.mp ht
      exact (ha stack' hs).extend hext
    · exact (h.active t stack ht).extend hext
  kept i scope r hi hr := (h.kept i scope r hi hr).extend (modifyStack_extends f hf)

theorem restore_extends (scope : Scope) : st.Extends (st.restore scope) := by
  unfold restore
  split
  · exact .refl st
  · exact modifyStack_extends _ fun _ => rfl

theorem Sound.restore (h : st.Sound) (scope : Scope)
    (hp : ∀ r, scope.previous = some r → st.Registers scope.stack r) :
    (st.restore scope).Sound := by
  unfold Store.restore
  split
  · exact h
  · next realm hprev =>
    exact h.modifyStack _ (fun _ => rfl) fun _ _ => hp realm hprev

/-! ### Scopes and calls -/

theorem enter?_error {err : Error} (h : st.enter? rule s home = some (.error err, st')) :
    st' = st ∧ err = .of (.unknownRealm home) := by
  simp only [enter?, Option.bind_eq_bind, Option.bind_eq_some_iff] at h
  obtain ⟨stack, -, engine, -, realm, -, h⟩ := h
  split at h
  · cases h; exact ⟨rfl, rfl⟩
  · split at h
    · cases h
    · split at h
      · cases h
      · split at h
        · cases h; exact ⟨rfl, rfl⟩
        · cases h

/-- What entering a scope comes to, on a stack that has one realm active and is to have another. -/
inductive Entry (st : Store) (s : StackId) (now : Stack) (realm : Realm) : Scope → Store → Prop
  | stays : now.active = realm → Entry st s now realm ⟨s, realm.id, none, false⟩ st
  | switches : now.active.id ≠ realm.id → Entry st s now realm ⟨s, realm.id, some now.active, false⟩
      (st.modifyStack s (·.activate realm))

/-- While a stack's engine has made no second realm, the realm of any of its ids is active. -/
theorem Sound.active_of_single (hst : st.Sound) {now : Stack} {engine : Engine}
    (hnow : st.stack? s = some now) (hengine : st.engine? now.engine = some engine)
    (hsingle : engine.registry.hasSecondary = false) (howns : engine.registry.owns home = true)
    (hr : st.realm? home = some r) : now.active = r := by
  have hg := hst.registry _ _ hengine
  have he : home.engine = now.engine := by simpa [Registry.owns, hg.engine] using howns
  obtain ⟨now', hnow', he', ha⟩ := hst.active s now hnow
  obtain rfl : now = now' := Option.some.inj (hnow.symm.trans hnow')
  obtain ⟨g, hg₁, ha⟩ := realm?_eq_some.mp ha
  obtain ⟨g', hg₂, hr⟩ := realm?_eq_some.mp hr
  rw [he', hengine] at hg₁
  rw [he, hengine] at hg₂
  cases hg₁
  cases hg₂
  exact hg.unique hsingle ha hr

theorem Sound.enter?_ok (hst : st.Sound) {scope : Scope}
    (h : st.enter? rule s home = some (.ok scope, st')) :
    ∃ now realm, st.stack? s = some now ∧ realm.id = home ∧ st.Registers s realm ∧
      Entry st s now realm scope st' := by
  simp only [enter?, Option.bind_eq_bind, Option.bind_eq_some_iff] at h
  obtain ⟨now, hnow, engine, hengine, realm, hrealm, h⟩ := h
  have hid := hst.id_of_realm? hrealm
  subst hid
  split at h
  · cases h
  · next howns =>
    have hg := hst.registry _ _ hengine
    have he : realm.id.engine = now.engine := by
      simpa [Registry.owns, hg.engine] using howns
    have hreg : st.Registers s realm := ⟨now, hnow, he, hrealm⟩
    refine ⟨now, realm, hnow, rfl, hreg, ?_⟩
    split at h
    · next hfast =>
      -- on the shortcut there is but one realm, so it is the active one
      cases h
      exact .stays (hst.active_of_single hnow hengine (by simpa using hfast.2)
        (by simpa using howns) hrealm)
    · split at h
      · next hsame =>
        cases h
        exact .stays ((hst.active s now hnow).eq_of_id hreg hsame)
      · next hdiff =>
        obtain ⟨g, hg₁, hr⟩ := realm?_eq_some.mp hrealm
        rw [he, hengine] at hg₁
        cases hg₁
        rw [hr] at h
        cases h
        exact .switches hdiff

/-- A realm of the stack's engine can be entered. -/
theorem Sound.enter?_registers (hst : st.Sound) {now : Stack} (hnow : st.stack? s = some now)
    (hr : st.Registers s r) : ∃ scope st', st.enter? rule s r.id = some (.ok scope, st') ∧
      Entry st s now r scope st' := by
  have hreg := hr
  obtain ⟨now', hnow', he, hrealm⟩ := hr
  obtain rfl : now = now' := Option.some.inj (hnow.symm.trans hnow')
  obtain ⟨engine, -, hengine⟩ := hst.engineOf? hnow
  have howns : engine.registry.owns r.id = true := by
    simp [Registry.owns, (hst.registry _ _ hengine).engine, he]
  obtain ⟨engine', hengine', hown⟩ := realm?_eq_some.mp hrealm
  rw [he, hengine] at hengine'
  cases hengine'
  have hok : ∃ scope st', st.enter? rule s r.id = some (.ok scope, st') := by
    simp only [enter?, hnow, hengine, hrealm, howns, hown, Option.bind_eq_bind, Option.bind_some,
      Bool.not_true, Bool.false_eq_true, if_false]
    split
    · exact ⟨_, _, rfl⟩
    · split <;> exact ⟨_, _, rfl⟩
  obtain ⟨scope, st', hok⟩ := hok
  obtain ⟨now', realm, hnow', hid, hrealm, hentry⟩ := hst.enter?_ok hok
  obtain rfl : now = now' := Option.some.inj (hnow.symm.trans hnow')
  obtain rfl := hrealm.eq_of_id hreg hid
  exact ⟨scope, st', hok, hentry⟩

theorem Entry.extends {now : Stack} {scope : Scope} (h : Entry st s now r scope st') :
    st.Extends st' := by
  cases h with
  | stays => exact .refl st
  | switches => exact modifyStack_extends _ fun _ => rfl

theorem Entry.sound {now : Stack} {scope : Scope} (h : Entry st s now r scope st')
    (hst : st.Sound) (hr : st.Registers s r) : st'.Sound := by
  cases h with
  | stays => exact hst
  | switches => exact hst.modifyStack _ (fun _ => rfl) fun _ _ => hr

theorem Entry.kept {now : Stack} {scope : Scope} (h : Entry st s now r scope st') (hst : st.Sound)
    (hnow : st.stack? s = some now) (r' : Realm) (hp : scope.previous = some r') :
    st.Registers scope.stack r' := by
  cases h with
  | stays => cases hp
  | switches => cases hp; exact hst.active s now hnow

theorem Entry.active {now : Stack} {scope : Scope} (h : Entry st s now r scope st')
    (hnow : st.stack? s = some now) : ∃ now', st'.stack? s = some now' ∧ now'.active = r := by
  cases h with
  | stays ha => exact ⟨now, hnow, ha⟩
  | switches => exact ⟨now.activate r, by simp [hnow], rfl⟩

theorem Entry.scope_eq {now : Stack} {scope : Scope} (h : Entry st s now r scope st') :
    scope.stack = s ∧ scope.home = r.id ∧ scope.finished = false := by
  cases h <;> exact ⟨rfl, rfl, rfl⟩

theorem Entry.stack {now : Stack} {scope : Scope} (h : Entry st s now r scope st')
    (hnow : st.stack? s = some now) : st'.stack? s = some { now with
      active := r, switches := now.switches + if now.active.id = r.id then 0 else 1 } := by
  cases h with
  | stays ha => rw [hnow, if_pos (congrArg Realm.id ha), ← ha, Nat.add_zero]
  | switches hne => rw [stack?_modifyStack, if_pos rfl, hnow, if_neg hne]; rfl

/-- What a crossing puts back: the realm that it replaced, or else nothing. -/
theorem Entry.previous_eq {now : Stack} {scope : Scope} (h : Entry st s now r scope st') :
    scope.previous = if now.active.id = scope.home then none else some now.active := by
  cases h with
  | stays ha => rw [if_pos (congrArg Realm.id ha)]
  | switches hne => rw [if_neg hne]

theorem Entry.sameScopes {now : Stack} {scope : Scope} (h : Entry st s now r scope st') :
    st.SameScopes st' := by
  cases h <;> exact ⟨rfl, rfl, rfl⟩

theorem Sound.addScope (h : st.Sound) (scope : Scope)
    (hp : ∀ r, scope.previous = some r → st.Registers scope.stack r) :
    (st.addScope scope).Sound where
  registry := h.registry
  active := h.active
  kept i scope' r hi hr := by
    rw [scope?_addScope] at hi
    split at hi
    · cases hi; exact hp r hr
    · exact h.kept i scope' r hi hr

theorem addScope_extends (scope : Scope) : st.Extends (st.addScope scope) := extends_of_eq rfl rfl

theorem Sound.closeScope (h : st.Sound) {i : ScopeId} {scope : Scope}
    (hi : st.scope? i = some scope) : (st.closeScope i scope).Sound := by
  have hfinish : Store.Sound { st with scopes := st.scopes.modify i.index Scope.finish } :=
    { registry := h.registry
      active := h.active
      kept := fun j scope' r hj hr => by
        have hj' : ((st.scopes.modify i.index Scope.finish)[j.index]?) = some scope' := hj
        rw [Array.getElem?_modify] at hj'
        split at hj'
        · obtain ⟨scope'', hs, rfl⟩ := Option.map_eq_some_iff.mp hj'
          exact h.kept j scope'' r hs hr
        · exact h.kept j scope' r hj' hr }
  exact hfinish.restore scope (h.kept i scope · hi)

theorem closeScope_extends (i : ScopeId) (scope : Scope) : st.Extends (st.closeScope i scope) := by
  rw [closeScope]
  refine .trans ?_ (restore_extends scope)
  exact extends_of_eq rfl rfl

theorem Sound.beginCrossing (h : st.Sound) (scope : Scope) : (st.beginCrossing scope).Sound :=
  ⟨h.registry, h.active, h.kept⟩

theorem beginCrossing_extends (scope : Scope) : st.Extends (st.beginCrossing scope) :=
  extends_of_eq rfl rfl

theorem Sound.endCrossing (h : st.Sound) (scope : Scope)
    (hp : ∀ r, scope.previous = some r → st.Registers scope.stack r) :
    (st.endCrossing scope).Sound := by
  have hlists : Store.Sound { st with
      underway := st.underway.tail, ended := scope.finish :: st.ended } :=
    ⟨h.registry, h.active, h.kept⟩
  exact hlists.restore scope hp

theorem endCrossing_extends (scope : Scope) : st.Extends (st.endCrossing scope) := by
  rw [endCrossing]
  refine .trans ?_ (restore_extends scope)
  exact extends_of_eq rfl rfl

theorem pushCall?_ok (h : st.pushCall? s = some (.ok st')) :
    ∃ now engine, st.stack? s = some now ∧ st.engine? now.engine = some engine ∧
      now.depth < engine.settings.maxCallDepth ∧
      st' = st.modifyStack s fun stack => { stack with depth := stack.depth + 1 } := by
  simp only [pushCall?, Option.bind_eq_bind, Option.bind_eq_some_iff] at h
  obtain ⟨now, hnow, engine, hengine, h⟩ := h
  split at h
  · cases h
  · next hd => cases h; exact ⟨now, engine, hnow, hengine, by omega, rfl⟩

theorem pushCall?_error {err : Error} (h : st.pushCall? s = some (.error err)) :
    ∃ now engine, st.stack? s = some now ∧ st.engine? now.engine = some engine ∧
      engine.settings.maxCallDepth ≤ now.depth ∧ err = .of (.exhausted now.depth) := by
  simp only [pushCall?, Option.bind_eq_bind, Option.bind_eq_some_iff] at h
  obtain ⟨now, hnow, engine, hengine, h⟩ := h
  split at h
  · next hd => cases h; exact ⟨now, engine, hnow, hengine, hd, rfl⟩
  · cases h

theorem pushCall?_refused {now : Stack} {engine : Engine} (hs : st.stack? s = some now)
    (he : st.engine? now.engine = some engine) :
    (st.pushCall? s = some (.error (.of (.exhausted now.depth)))) ↔
      engine.settings.maxCallDepth ≤ now.depth := by
  simp only [pushCall?, hs, he, Option.bind_eq_bind, Option.bind_some]
  split <;> simp [*]

theorem pushCall?_room {now : Stack} {engine : Engine} (hs : st.stack? s = some now)
    (he : st.engine? now.engine = some engine) (hd : now.depth < engine.settings.maxCallDepth) :
    st.pushCall? s =
      some (.ok (st.modifyStack s fun stack => { stack with depth := stack.depth + 1 })) := by
  simp [pushCall?, hs, he, Nat.not_le.mpr hd]

theorem Sound.pushCall (h : st.Sound) (hp : st.pushCall? s = some (.ok st')) : st'.Sound := by
  obtain ⟨now, engine, -, -, -, rfl⟩ := pushCall?_ok hp
  exact h.modifyStack _ (fun _ => rfl) fun stack hs => h.active s stack hs

theorem pushCall_extends (hp : st.pushCall? s = some (.ok st')) : st.Extends st' := by
  obtain ⟨now, engine, -, -, -, rfl⟩ := pushCall?_ok hp
  exact modifyStack_extends _ fun _ => rfl

theorem Sound.popCall (h : st.Sound) : (st.popCall s).Sound :=
  h.modifyStack _ (fun _ => rfl) fun stack hs => h.active s stack hs

theorem popCall_extends : st.Extends (st.popCall s) := modifyStack_extends _ fun _ => rfl

/-! ### All other changes -/

theorem Change.stack_eq (h : st.Change st') {t : StackId} {stack : Stack}
    (ht : st.stack? t = some stack) : st'.stack? t = some stack := by
  cases h with
  | quiet _ hs _ | engine _ _ _ _ hs _ | realm _ _ _ _ hs _ => rwa [Store.stack?, hs]
  | stack _ _ hs _ =>
    have hlt := (Array.getElem?_eq_some_iff.mp ht).1
    rw [Store.stack?, hs, Array.getElem?_push, if_neg (by omega)]
    exact ht

theorem Change.extends (h : st.Change st') : st.Extends st' := by
  have hstack (s : StackId) (stack : Stack) (hs : st.stack? s = some stack) :
      ∃ stack', st'.stack? s = some stack' ∧ stack'.engine = stack.engine :=
    ⟨stack, h.stack_eq hs, rfl⟩
  cases h with
  | quiet he hs hi => exact extends_of_eq he hs
  | engine settings main hid he hs hi =>
    have hold {e : EngineId} {engine : Engine} (h : st.engine? e = some engine) :
        st'.engine? e = some engine := by
      have hlt := (Array.getElem?_eq_some_iff.mp h).1
      rw [engine?, he, Array.getElem?_push, if_neg (by omega)]
      exact h
    exact
      { settings := fun e engine h => ⟨engine, hold h, rfl⟩
        realm := fun id r h => by
          obtain ⟨engine, heng, hr⟩ := realm?_eq_some.mp h
          exact realm?_eq_some.mpr ⟨engine, hold heng, hr⟩
        stack := hstack }
  | @realm e engine realm heng hid he hs hi =>
    have hold {e' : EngineId} {old : Engine} (h : st.engine? e' = some old) :
        ∃ new, st'.engine? e' = some new ∧ new.settings = old.settings ∧
          ∀ id r, old.registry.realm? id = some r → new.registry.realm? id = some r := by
      have h' : st.engines[e'.index]? = some old := h
      rw [engine?, he, Array.getElem?_modify, h']
      split
      · exact ⟨_, rfl, rfl, fun id r hr => Registry.realm?_add hr⟩
      · exact ⟨old, rfl, rfl, fun _ _ hr => hr⟩
    exact
      { settings := fun e' old h => by
          obtain ⟨new, hnew, hset, -⟩ := hold h
          exact ⟨new, hnew, hset⟩
        realm := fun id r h => by
          obtain ⟨old, hold', hr⟩ := realm?_eq_some.mp h
          obtain ⟨new, hnew, -, hkeep⟩ := hold hold'
          exact realm?_eq_some.mpr ⟨new, hnew, hkeep id r hr⟩
        stack := hstack }
  | stack heng he hs hi =>
    exact
      { settings := fun e engine h => ⟨engine, by rwa [engine?, he], rfl⟩
        realm := fun id r h => by rwa [realm?, engine?, he]
        stack := hstack }

/-- A stack after a change is as it was, or a new one. -/
theorem Change.stack? (h : st.Change st') {t : StackId} {stack : Stack}
    (ht : st'.stack? t = some stack) : st.stack? t = some stack ∨ t.index = st.callStacks.size ∧
      ∃ e engine, st.engine? e = some engine ∧ st'.engine? e = some engine ∧
        stack = .spawn engine.registry := by
  cases h with
  | quiet _ hs _ | engine _ _ _ _ hs _ | realm _ _ _ _ hs _ =>
    exact .inl (by rwa [Store.stack?, ← hs])
  | @stack e engine heng he hs hi =>
    rw [Store.stack?, hs, Array.getElem?_push] at ht
    split at ht
    · next htop =>
      cases ht
      exact .inr ⟨htop, e, engine, heng, by rwa [engine?, he], rfl⟩
    · exact .inl ht

theorem Change.untouched (h : st.Change st') : st.Untouched st' := by
  cases h with
  | quiet _ _ hi | engine _ _ _ _ _ hi | realm _ _ _ _ _ hi | stack _ _ _ hi => exact hi

theorem Change.scope? (h : st.Change st') (i : ScopeId) : st'.scope? i = st.scope? i := by
  rw [Store.scope?, h.untouched.scopes]
  rfl

theorem Change.registry (h : st.Change st') (hst : st.Sound) {e : EngineId} {engine : Engine}
    (he : st'.engine? e = some engine) : engine.registry.Sound e := by
  cases h with
  | quiet heq _ _ | stack _ heq _ _ =>
    exact hst.registry e engine (by rwa [engine?, ← heq])
  | engine settings main hid heq _ _ =>
    rw [engine?, heq, Array.getElem?_push] at he
    split at he
    · next htop =>
      cases he
      exact Registry.single_sound (by rw [hid, ← htop])
    · exact hst.registry e engine he
  | @realm e' old realm hold hid heq _ _ =>
    rw [engine?, heq, Array.getElem?_modify] at he
    split at he
    · next hsame =>
      obtain rfl : e' = e := by
        cases e'; cases e; exact congrArg EngineId.mk hsame
      have hold' : st.engines[e'.index]? = some old := hold
      rw [hold'] at he
      cases he
      exact (hst.registry _ _ hold).add hid
    · exact hst.registry e engine he

theorem spawn_registers {engine : Engine} {e : EngineId} (hst : st.Sound)
    (he : st.engine? e = some engine) : (Stack.spawn engine.registry).engine = e ∧
      (Stack.spawn engine.registry).active.id.engine = e ∧
      st.realm? (Stack.spawn engine.registry).active.id =
        some (Stack.spawn engine.registry).active := by
  have hg := hst.registry e engine he
  have hpos := engine.registry.size_pos
  have hmain : engine.registry.realms[0]? = some engine.registry.main :=
    Array.getElem?_eq_getElem hpos
  have hid := hg.ids 0 _ hmain
  refine ⟨hg.engine, by rw [Stack.spawn, hid], realm?_eq_some.mpr ⟨engine, ?_, ?_⟩⟩
  · rw [Stack.spawn, hid]
    exact he
  · rw [Stack.spawn, hid, Registry.realm?, if_pos (by simp [Registry.owns, hg.engine])]
    exact hmain

theorem Change.sound (h : st.Change st') (hst : st.Sound) : st'.Sound where
  registry e engine he := h.registry hst he
  active t stack ht := by
    obtain hold | ⟨-, e, engine, he, he', rfl⟩ := h.stack? ht
    · exact (hst.active t stack hold).extend h.extends
    · obtain ⟨hengine, hid, hr⟩ := spawn_registers hst he
      exact ⟨_, ht, hid.trans hengine.symm, h.extends.realm _ _ hr⟩
  kept i scope r hi hr := by
    rw [h.scope?] at hi
    exact (hst.kept i scope r hi hr).extend h.extends

end Store

end Realms
