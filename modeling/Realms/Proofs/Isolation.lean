import Realms.Proofs.Recursion
import Realms.Proofs.Writes

/-! Isolation of realms. Main statement: in a heap that comes about by programs, a prototype chain
stays in the realm of its object and is short, so each lookup ends; an object is always of the same
realm and class and under the same prototype. A run that writes to objects of one realm only
therefore leaves all that can be looked up in any other realm as it is. -/

namespace Realms

variable {σ α : Type} {rule : EntryRule} {s : StackId} {fuel : Nat} {m m' : Machine σ}
  {st st' : Store} {allowed : Store → ObjectId → Prop} {o : ObjectId} {object : Object}
  {id id' : RealmId} {name : String}

open Stage

/-! ### The heaps of machines -/

namespace Store

theorem empty_grounded : Store.empty.Grounded where
  registry e engine h := by simp [empty, engine?] at h
  roots id r h := by simp [empty, realm?, engine?] at h
  placed o object h := by simp [empty, object?] at h

theorem Evolves.grounded (h : st.Evolves allowed st') (hst : st.Grounded) :
    st'.Grounded ∧ st.KeepsShapes st' := by
  induction h with
  | refl => exact ⟨hst, .of_object? fun _ _ ho => ho⟩
  | step _ hc _ ih =>
    obtain ⟨hst', hk⟩ := ih
    obtain ⟨hst'', hk'⟩ := (hc hst').grounded hst'
    exact ⟨hst'', hk.trans hk'⟩

end Store

theorem Stage.writesOnly_any (g : Stage σ α) : g.WritesOnly rule fun _ _ => True :=
  fun _ _ _ _ _ _ _ _ _ _ _ => trivial

theorem Machine.Reachable.grounded (hm : m.Reachable rule) : m.store.Grounded := by
  induction hm with
  | start => exact Store.empty_grounded
  | run fuel p s _ ih => exact ((Program.carries (writesOnly_any _)).last.grounded ih).1
  | moment fuel p s _ hnow ih =>
    exact (((Program.carries (writesOnly_any _)).moment _ _ hnow).grounded ih).1

theorem Machine.Later.keepsShapes (h : m.Later rule m') (hm : m.store.Grounded) :
    m'.store.Grounded ∧ m.store.KeepsShapes m'.store := by
  induction h with
  | refl => exact ⟨hm, .of_object? fun _ _ ho => ho⟩
  | run fuel p s _ ih =>
    obtain ⟨hm', hk⟩ := ih
    obtain ⟨hlast, hk'⟩ := (Program.carries (writesOnly_any ⟨fuel, s, _, p⟩)).last.grounded hm'
    exact ⟨hlast, hk.trans hk'⟩
  | moment fuel p s _ hnow ih =>
    obtain ⟨hm', hk⟩ := ih
    obtain ⟨hnow, hk'⟩ :=
      ((Program.carries (writesOnly_any ⟨fuel, s, _, p⟩)).moment _ _ hnow).grounded hm'
    exact ⟨hnow, hk.trans hk'⟩

/-! ### What is left alone -/

namespace Store

/-- An object of that realm. -/
def OfRealm (id : RealmId) (st : Store) (o : ObjectId) : Prop :=
  ∃ object, st.object? o = some object ∧ object.realm = id

theorem Evolves.object?_eq (h : st.Evolves (OfRealm id) st') (hst : st.Grounded)
    (ho : st.object? o = some object) (hid : object.realm ≠ id) : st'.object? o = some object := by
  induction h with
  | refl => exact ho
  | step hbefore hc ha ih =>
    refine (hc (hbefore.grounded hst).1).object?_of_ne ih fun htarget => ?_
    obtain ⟨object', ho', hid'⟩ := ha o htarget
    obtain rfl := Option.some.inj (ih.symm.trans ho')
    exact hid hid'

theorem PrototypeChain.property?_eq {chain : List ObjectId} (h : st.PrototypeChain o chain)
    (hst : st.Grounded) (hst' : st'.Grounded)
    (hsame : ∀ p ∈ chain, ∀ object, st.object? p = some object → st'.object? p = some object) :
    st'.property? o name = st.property? o name := by
  induction h with
  | @root o object ho hp =>
    have ho' := hsame o List.mem_cons_self object ho
    cases hv : object.properties.get? name with
    | some value => rw [property?_own ho hv, property?_own ho' hv]
    | none => rw [property?_root ho hv hp, property?_root ho' hv hp]
  | @link o p object chain ho hp _ ih =>
    have ho' := hsame o List.mem_cons_self object ho
    cases hv : object.properties.get? name with
    | some value => rw [property?_own ho hv, property?_own ho' hv]
    | none =>
      rw [hst.property?_inherited ho hv hp, hst'.property?_inherited ho' hv hp]
      exact ih fun p hmem => hsame p (List.mem_cons_of_mem o hmem)

/-- All that can be looked up in a realm is the same: its objects with their own properties, the
properties that they inherit, and the globals wherever the realm is active. -/
structure SameIn (id : RealmId) (st st' : Store) : Prop where
  object : ∀ o object, st.object? o = some object → object.realm = id → st'.object? o = some object
  property : ∀ o object, st.object? o = some object → object.realm = id →
    ∀ name, st'.property? o name = st.property? o name
  global : ∀ s t now later, st.stack? s = some now → now.active.id = id →
    st'.stack? t = some later → later.active.id = id →
    ∀ name, st'.global? t name = st.global? s name

theorem Evolves.sameIn (h : st.Evolves (OfRealm id) st') (hid : id ≠ id') (hst : st.Grounded)
    (hsound : st.Sound) (hsound' : st'.Sound) (hext : st.Extends st') : st.SameIn id' st' := by
  have hobject (o : ObjectId) (object : Object) (ho : st.object? o = some object)
      (hr : object.realm = id') : st'.object? o = some object :=
    h.object?_eq hst ho fun hr' => hid (hr'.symm.trans hr)
  have hproperty (o : ObjectId) (object : Object) (ho : st.object? o = some object)
      (hr : object.realm = id') (name : String) : st'.property? o name = st.property? o name := by
    obtain ⟨-, chain, -, hchain, -, -, -, hrealm⟩ := hst.chain ho
    refine hchain.property?_eq hst (h.grounded hst).1 fun p hp object' ho' => ?_
    obtain ⟨found, hfound, hr'⟩ := hrealm p hp
    obtain rfl := Option.some.inj (hfound.symm.trans ho')
    exact hobject p found ho' (hr'.trans hr)
  refine ⟨hobject, hproperty, fun s t now later hnow hactive hlater hactive' name => ?_⟩
  obtain ⟨-, -, -, hr⟩ := hsound.active s now hnow
  obtain ⟨-, -, -, hr'⟩ := hsound'.active t later hlater
  rw [hactive] at hr
  rw [hactive'] at hr'
  have hsame : later.active = now.active :=
    Option.some.inj (hr'.symm.trans (hext.realm _ _ hr))
  obtain ⟨global, hglobal, hrealm, -⟩ := (hst.roots _ _ hr).global
  simp [global?, hnow, hlater, hsame, hproperty _ global hglobal hrealm]

end Store

/-- A prototype chain has at most three objects, none of them twice and all of one realm, and ends
in the object root of the realm, so that a lookup along it ends with what the store finds. No object
ever changes its realm, its class or its prototype. A run that writes only to objects of one realm
leaves everything in another realm as it is, at each moment and in the end. -/
theorem realms_isolated (hm : m.Reachable rule) :
    (∀ o object, m.store.object? o = some object →
      (∃ realm chain, m.store.realm? object.realm = some realm ∧ m.store.PrototypeChain o chain ∧
        chain.Nodup ∧ chain.length ≤ 3 ∧ chain.getLast? = some realm.objectPrototype ∧
        ∀ p ∈ chain, m.store.OfRealm object.realm p) ∧
      ∀ name v, m.store.LooksUp name (some o) v ↔ m.store.property? o name = v) ∧
    (∀ m', m.Later rule m' → m.store.KeepsShapes m'.store) ∧
    ∀ {α : Type} (fuel : Nat) (p : Program σ α) (s : StackId) (id id' : RealmId), id ≠ id' →
      WritesOnly rule (Store.OfRealm id) ⟨fuel, s, m, p⟩ →
      m.store.SameIn id' (p.run rule fuel s m).2.store ∧
      ∀ t now, .moment t now ∈ p.events rule fuel s m → m.store.SameIn id' now.store := by
  have hst := hm.grounded
  refine ⟨fun o object ho => ?_, fun m' hlater => (hlater.keepsShapes hst).2,
    fun fuel p s id id' hid hw => ?_⟩
  · obtain ⟨realm, chain, hr, hchain, hrest⟩ := hst.chain ho
    refine ⟨⟨realm, chain, hr, hchain, hrest⟩, fun name v => ⟨fun hv => ?_, fun hv => ?_⟩⟩
    · exact (hchain.looksUp hst name).unique hv
    · exact hv ▸ hchain.looksUp hst name
  · have hsame {m' : Machine σ} (hlater : m.Later rule m')
        (h : m.store.Evolves (Store.OfRealm id) m'.store) : m.store.SameIn id' m'.store := by
      obtain ⟨hsound', hgrows⟩ := hlater.grows hm.sound
      exact h.sameIn hid hst hm.sound hsound' hgrows.store
    have hcarries := Program.carries hw
    exact ⟨hsame (.run fuel p s .refl) hcarries.last,
      fun t now hnow => hsame (.moment fuel p s .refl hnow) (hcarries.moment t now hnow)⟩

namespace Stage

theorem writesOnly_done (a : α) : WritesOnly rule allowed ⟨fuel, s, m, .done a⟩ := by
  intro β γ path fuel' s' m' b k hp
  cases hp with
  | next hn => cases hn
  | inside ho => nomatch ho

theorem writesOnly_acting {β : Type} {a : Action β} {k : β → Program σ α}
    (ha : ∀ o ∈ a.target? s m.store, allowed m.store o)
    (hk : ∀ b last, Run.acting rule a s m = (.done b, last) →
      WritesOnly rule allowed ⟨fuel, s, last, k b⟩) :
    WritesOnly rule allowed ⟨fuel, s, m, .acting a k⟩ := by
  intro β γ path fuel' s' m' b k' hp
  cases hp with
  | here => exact ha
  | next hn hp =>
    obtain ⟨c, hr, rfl⟩ := Outcome.next?_eq_some.mp hn
    exact hk c _ hr _ _ _ _ _ _ _ _ hp
  | inside ho => nomatch ho

end Stage

/-- Writes to the object root and to the global object of the main realm. -/
def Program.writing : Program σ Unit := do
  let _ ← act (.setProperty ⟨0⟩ "inherited" .null)
  act (.setGlobal "answer" (.boolean true))

theorem second_realm_untouched : Machine.withTwoRealms.Reachable .shortcut ∧
    WritesOnly .shortcut (Store.OfRealm (.main ⟨0⟩))
      ⟨0, ⟨0⟩, Machine.withTwoRealms, Program.writing⟩ ∧
    (let last := (Program.writing.run .shortcut 0 ⟨0⟩ Machine.withTwoRealms).2
    last.store.global? ⟨0⟩ "answer" = some (.ok (.boolean true)) ∧
      last.store.global? ⟨0⟩ "inherited" = some (.ok .null) ∧
      last.store.property? ⟨5⟩ "inherited" =
        Machine.withTwoRealms.store.property? ⟨5⟩ "inherited") := by
  have hm : Machine.withTwoRealms.Reachable .shortcut := Machine.prepared_reachable ..
  have hw : WritesOnly .shortcut (Store.OfRealm (.main ⟨0⟩))
      ⟨0, ⟨0⟩, Machine.withTwoRealms, Program.writing⟩ := by
    refine writesOnly_acting ?_ fun b last hr => ?_
    · rintro _ ⟨⟩
      exact ⟨_, rfl, rfl⟩
    · cases hr
      refine writesOnly_acting ?_ fun _ _ _ => writesOnly_done _
      rintro _ ⟨⟩
      exact ⟨_, rfl, rfl⟩
  obtain ⟨-, -, hleft⟩ := realms_isolated hm
  obtain ⟨hlast, -⟩ := hleft 0 _ ⟨0⟩ (.main ⟨0⟩) ⟨⟨0⟩, 1⟩ (by decide) hw
  exact ⟨hm, hw, by decide +kernel, by decide +kernel, hlast.property _ _ rfl rfl "inherited"⟩

end Realms
