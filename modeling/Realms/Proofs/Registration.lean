import Realms.Proofs.Making
import Realms.Proofs.Recursion

/-! Registries. Ids, positions, the note of a second realm and the lookups all say the same of an
engine, whatever engines and realms were made in between; an engine is known by its id, so a copy of
it sees the same registry. Main statement: this holds on every machine, later machines keep each
realm where it is, and the realms of an engine are its main one and then those made there. -/

namespace Realms

variable {σ α : Type} {rule : EntryRule} {s : StackId} {m m' : Machine σ} {e : EngineId}
  {g : Registry} {id : RealmId} {r : Realm} {name : String} {st st' : Store}

namespace Registry

theorem main_eq (g : Registry) : g.realms[0]? = some g.main := Array.getElem?_eq_getElem g.size_pos

theorem Sound.owns_iff (h : g.Sound e) (id : RealmId) : g.owns id = true ↔ id.engine = e := by
  rw [owns, h.engine, decide_eq_true_iff]

theorem Sound.realm?_iff (h : g.Sound e) :
    g.realm? id = some r ↔ id.engine = e ∧ g.realms[id.index]? = some r := by
  rw [realm?]
  split
  · next ho => simp [(h.owns_iff id).mp ho]
  · next ho => simp [mt (h.owns_iff id).mpr ho]

theorem expect_eq_ok : g.expect id = .ok r ↔ g.realm? id = some r := by
  rw [expect]
  split
  · next r' hr => simp [hr]
  · next hr => simp [hr]

theorem expect_eq_error {err : Error} : g.expect id = .error err ↔
    g.realm? id = none ∧ err = .of (.unknownRealm id) := by
  rw [expect]
  split
  · next r hr => simp [hr]
  · next hr => simp [hr, eq_comm]

/-- The realm of a name is the one at the lowest position among those that have it. -/
theorem named?_eq_some : g.named? name = some r ↔ ∃ i : Nat, g.realms[i]? = some r ∧ r.name = name ∧
    ∀ (j : Nat) (r' : Realm), j < i → g.realms[j]? = some r' → r'.name ≠ name := by
  rw [named?, Array.find?_eq_some_iff_getElem]
  constructor
  · rintro ⟨hr, i, hi, rfl, hlow⟩
    refine ⟨i, Array.getElem?_eq_getElem hi, by simpa using hr, fun j r' hj hr' => ?_⟩
    obtain ⟨hj', rfl⟩ := Array.getElem?_eq_some_iff.mp hr'
    simpa using hlow j hj
  · rintro ⟨i, hr, hname, hlow⟩
    obtain ⟨hi, rfl⟩ := Array.getElem?_eq_some_iff.mp hr
    refine ⟨by simpa using hname, i, hi, rfl, fun j hj => ?_⟩
    have hj' := Array.getElem?_eq_getElem (Nat.lt_trans hj hi)
    simpa using hlow j _ hj hj'

theorem named?_eq_none : g.named? name = none ↔
    ∀ (i : Nat) (r : Realm), g.realms[i]? = some r → r.name ≠ name := by
  rw [named?, Array.find?_eq_none]
  constructor
  · intro h i r hr
    simpa using h r (Array.mem_of_getElem? hr)
  · intro h r hr
    obtain ⟨i, hi⟩ := Array.getElem?_of_mem hr
    simpa using h i r hi

/-- Ids, positions, the note of a second realm and the lookups of a registry agree. -/
structure InStep (g : Registry) (e : EngineId) : Prop where
  ids : ∀ (i : Nat) (r : Realm), g.realms[i]? = some r → r.id = ⟨e, i⟩
  main : g.realms[0]? = some g.main ∧ g.main.id = .main e
  secondary : g.hasSecondary = true ↔ 1 < g.count
  found : ∀ (i : Nat) (r : Realm), g.realms[i]? = some r →
    g.realm? r.id = some r ∧ g.expect r.id = .ok r
  missing : ∀ id, (∀ (i : Nat) (r : Realm), g.realms[i]? = some r → r.id ≠ id) →
    g.realm? id = none ∧ g.expect id = .error (.of (.unknownRealm id))
  named : ∀ name, (∀ r, g.named? name = some r ↔ ∃ i : Nat, g.realms[i]? = some r ∧ r.name = name ∧
    ∀ (j : Nat) (r' : Realm), j < i → g.realms[j]? = some r' → r'.name ≠ name) ∧
    (g.named? name = none ↔ ∀ (i : Nat) (r : Realm), g.realms[i]? = some r → r.name ≠ name)

theorem Sound.inStep (h : g.Sound e) : g.InStep e where
  ids := h.ids
  main := ⟨g.main_eq, h.ids 0 g.main g.main_eq⟩
  secondary := h.secondary
  found i r hr := by
    have hfound : g.realm? r.id = some r := by
      rw [h.realm?_iff, h.ids i r hr]
      exact ⟨rfl, hr⟩
    exact ⟨hfound, expect_eq_ok.mpr hfound⟩
  missing id hid := by
    have hnone : g.realm? id = none := by
      cases hr : g.realm? id with
      | none => rfl
      | some r => exact absurd (h.id_of_realm? hr).1 (hid _ r (h.realm?_iff.mp hr).2)
    exact ⟨hnone, expect_eq_error.mpr ⟨hnone, rfl⟩⟩
  named name := ⟨fun _ => named?_eq_some, named?_eq_none⟩

theorem toList_eq (g : Registry) : g.realms.toList = g.main :: g.realms.toList.tail := by
  have hmain : g.realms.toList[0]? = some g.main := by
    rw [Array.getElem?_toList]
    exact g.main_eq
  cases hl : g.realms.toList with
  | nil => rw [hl] at hmain; cases hmain
  | cons r rs => rw [hl] at hmain; cases hmain; rfl

end Registry

namespace Store

/-- The realms of an engine are its main one and the secondary ones. -/
theorem toList_secondary {engine : Engine} (he : st.engine? e = some engine) :
    engine.registry.realms.toList = engine.registry.main :: st.secondary e := by
  rw [secondary, he]
  exact engine.registry.toList_eq

/-- A request for a realm is granted at the next position, unless the registry is full. -/
theorem newRealm?_eq (st : Store) {engine : Engine} (he : st.engine? e = some engine)
    (hg : engine.registry.Sound e) (name : String) :
    if Registry.limit ≤ engine.registry.count then
      st.newRealm? e name = some (.error .tooManyRealms, st)
    else ∃ r st', st.newRealm? e name = some (.ok r, st') ∧ r.name = name ∧
      r.id = ⟨e, engine.registry.count⟩ := by
  split
  · next hfull => simp only [newRealm?, he, Option.bind_eq_bind, Option.bind_some, if_pos hfull]
  · next hroom =>
    simp only [newRealm?, he, Option.bind_eq_bind, Option.bind_some, if_neg hroom]
    exact ⟨_, _, rfl, rfl, congrArg (RealmId.mk · _) hg.engine⟩

/-- Realms with the same id are the same realm of the same engine. -/
theorem Sound.eq_of_id_eq (hst : st.Sound) {e' : EngineId} {engine engine' : Engine} {i j : Nat}
    {r r' : Realm} (he : st.engine? e = some engine) (he' : st.engine? e' = some engine')
    (hr : engine.registry.realms[i]? = some r) (hr' : engine'.registry.realms[j]? = some r')
    (hid : r.id = r'.id) : e = e' ∧ i = j ∧ r = r' := by
  rw [(hst.registry e engine he).ids i r hr, (hst.registry e' engine' he').ids j r' hr'] at hid
  cases hid
  rw [he] at he'
  cases he'
  rw [hr] at hr'
  cases hr'
  exact ⟨rfl, rfl, rfl⟩

/-- An engine owns the id of a realm if and only if the realm is found there. -/
theorem Sound.owns_iff_found (hst : st.Sound) {engine : Engine} (he : st.engine? e = some engine)
    (hr : st.realm? id = some r) :
    engine.registry.owns id = true ↔ engine.registry.realm? id = some r := by
  have hg := hst.registry e engine he
  rw [hg.owns_iff, hg.realm?_iff]
  refine ⟨fun hid => ⟨hid, ?_⟩, And.left⟩
  obtain ⟨engine', he', hr'⟩ := realm?_eq_some.mp hr
  rw [hid, he] at he'
  cases he'
  exact (hg.realm?_iff.mp hr').2

/-- Later stores keep the realms of an engine where they are. -/
theorem Extends.registry (h : st.Extends st') (hst : st.Sound) (hst' : st'.Sound) {engine : Engine}
    (he : st.engine? e = some engine) : ∃ engine', st'.engine? e = some engine' ∧
      ∀ (i : Nat) (r : Realm), engine.registry.realms[i]? = some r →
        engine'.registry.realms[i]? = some r := by
  obtain ⟨engine', he', -⟩ := h.settings e engine he
  refine ⟨engine', he', fun i r hr => ?_⟩
  have hrealm : st.realm? ⟨e, i⟩ = some r :=
    realm?_eq_some.mpr ⟨engine, he, (hst.registry e engine he).realm?_iff.mpr ⟨rfl, hr⟩⟩
  obtain ⟨engine'', he'', hr''⟩ := realm?_eq_some.mp (h.realm _ r hrealm)
  rw [he'] at he''
  cases he''
  exact ((hst'.registry e engine' he').realm?_iff.mp hr'').2

end Store

/-- On every machine the parts of each registry agree, and a request for one more realm is granted
at the next position unless the registry is full. Ids tell realms apart, and for an id that was
given out an engine owns it if and only if it finds it. Later machines have each realm where it was,
and the note of a second one; after a run the realms of an engine are its main one, the others from
before and those made in the run. -/
theorem registries_in_step (hm : m.Reachable rule) :
    (∀ e engine, m.store.engine? e = some engine → engine.registry.InStep e ∧ ∀ name,
      if Registry.limit ≤ engine.registry.count then
        m.store.newRealm? e name = some (.error .tooManyRealms, m.store)
      else ∃ r store, m.store.newRealm? e name = some (.ok r, store) ∧ r.name = name ∧
        r.id = ⟨e, engine.registry.count⟩) ∧
    (∀ e e' engine engine' (i j : Nat) r r', m.store.engine? e = some engine →
      m.store.engine? e' = some engine' → engine.registry.realms[i]? = some r →
      engine'.registry.realms[j]? = some r' → r.id = r'.id → e = e' ∧ i = j ∧ r = r') ∧
    (∀ e engine id r, m.store.engine? e = some engine → m.store.realm? id = some r →
      (engine.registry.owns id = true ↔ (engine.registry.realm? id).isSome) ∧
      (engine.registry.owns id = true ↔ engine.registry.realm? id = some r) ∧
      (engine.registry.owns id = true ↔ engine.registry.expect id = .ok r)) ∧
    (∀ m', m.Later rule m' → ∀ e engine, m.store.engine? e = some engine →
      ∃ engine', m'.store.engine? e = some engine' ∧
        (∀ (i : Nat) r, engine.registry.realms[i]? = some r →
          engine'.registry.realms[i]? = some r) ∧
        engine'.registry.main = engine.registry.main ∧
        (engine.registry.hasSecondary = true → engine'.registry.hasSecondary = true)) ∧
    ∀ {α : Type} (fuel : Nat) (s : StackId) (p : Program σ α) e engine,
      (p.run rule fuel s m).2.store.engine? e = some engine →
      engine.registry.realms.toList = engine.registry.main ::
        (m.store.secondary e ++ madeIn e (p.made rule fuel s m)) ∧
      engine.registry.count =
        1 + (m.store.secondary e).length + (madeIn e (p.made rule fuel s m)).length ∧
      (m.store.engine? e = none → m.store.secondary e = []) := by
  have hs := hm.sound
  refine ⟨fun e engine he => ?_, ?_, ?_, ?_, ?_⟩
  · have hg := hs.registry e engine he
    exact ⟨hg.inStep, m.store.newRealm?_eq he hg⟩
  · intro e e' engine engine' i j r r' he he'
    exact hs.eq_of_id_eq he he'
  · intro e engine id r he hr
    have hg := hs.registry e engine he
    have howns := hs.owns_iff_found he hr
    refine ⟨⟨fun ho => ?_, fun hfound => ?_⟩, howns, howns.trans Registry.expect_eq_ok.symm⟩
    · rw [howns.mp ho]
      rfl
    · obtain ⟨r', hr'⟩ := Option.isSome_iff_exists.mp hfound
      exact (hg.owns_iff id).mpr (hg.realm?_iff.mp hr').1
  · intro m' hlater e engine he
    obtain ⟨hs', hgrows⟩ := hlater.grows hs
    obtain ⟨engine', he', hkeep⟩ := hgrows.store.registry hs hs' he
    refine ⟨engine', he', hkeep, ?_, fun hsecond => ?_⟩
    · exact Option.some.inj (engine'.registry.main_eq.symm.trans (hkeep 0 _ engine.registry.main_eq))
    · have hsize := (hs.registry e engine he).secondary.mp hsecond
      have hone := hkeep 1 _ (Array.getElem?_eq_getElem hsize)
      exact (hs'.registry e engine' he').secondary.mpr (Array.getElem?_eq_some_iff.mp hone).1
  · intro α fuel s p e engine he
    have hlist := Store.toList_secondary he
    rw [p.run_makes fuel e] at hlist
    refine ⟨hlist, ?_, fun hnone => by rw [Store.secondary, hnone]; rfl⟩
    have hlength := congrArg List.length hlist
    rw [Array.length_toList, List.length_cons, List.length_append] at hlength
    rw [Registry.count, hlength]
    omega

/-- Two engines and three realms in turn, all of the same name. -/
def Program.founding : Program Unit Unit := do
  let e ← Program.act (.newEngine ⟨"main", 2⟩)
  let e' ← Program.act (.newEngine ⟨"main", 2⟩)
  let _ ← Program.act (.newRealm e "twin")
  let _ ← Program.act (.newRealm e' "twin")
  let _ ← Program.act (.newRealm e "twin")

def Machine.founded : Machine Unit := .prepared .shortcut .founding ()

/-- Of the realms of one name in the first engine the lowest is found, and the realm at the same
position in the second engine has another id, which the first does not know. -/
theorem founding_in_step : Machine.founded.Reachable .shortcut ∧
    ∃ engine engine' r r', Machine.founded.store.engine? ⟨0⟩ = some engine ∧
      Machine.founded.store.engine? ⟨1⟩ = some engine' ∧ engine.registry.count = 3 ∧
      engine.registry.realms[1]? = some r ∧ engine'.registry.realms[1]? = some r' ∧
      r.name = r'.name ∧ r.id ≠ r'.id ∧ engine.registry.named? "twin" = some r ∧
      engine.registry.expect r'.id = .error (.of (.unknownRealm r'.id)) := by
  have hm : Machine.founded.Reachable .shortcut := Machine.prepared_reachable ..
  obtain ⟨engine, engine', r, r', he, he', hr, hr', hname, hname', hmain⟩ :
      ∃ engine engine' r r', Machine.founded.store.engine? ⟨0⟩ = some engine ∧
        Machine.founded.store.engine? ⟨1⟩ = some engine' ∧
        engine.registry.realms[1]? = some r ∧ engine'.registry.realms[1]? = some r' ∧
        r.name = "twin" ∧ r'.name = "twin" ∧ engine.registry.main.name ≠ "twin" :=
    ⟨_, _, _, _, rfl, rfl, rfl, rfl, rfl, rfl, by decide⟩
  obtain ⟨hstep, hids, -⟩ := registries_in_step hm
  have hstart : Machine.Reachable .shortcut ⟨.empty, #[], ()⟩ := .start ()
  obtain ⟨-, -, -, -, hmade⟩ := registries_in_step hstart
  have hforeign (i : Nat) (r : Realm) (hr : engine.registry.realms[i]? = some r) : r.id ≠ r'.id :=
    fun hid => by obtain ⟨⟨⟩, -⟩ := hids _ _ _ _ _ _ _ _ he he' hr hr' hid
  refine ⟨hm, engine, engine', r, r', he, he', (hmade 0 ⟨0⟩ .founding ⟨0⟩ engine he).2.1, hr, hr',
    hname.trans hname'.symm, hforeign 1 r hr, ?_, ((hstep _ _ he).1.missing _ hforeign).2⟩
  refine (((hstep _ _ he).1.named "twin").1 r).mpr ⟨1, hr, hname, fun j r'' hj hr'' => ?_⟩
  obtain rfl : j = 0 := by omega
  rw [(hstep _ _ he).1.main.1] at hr''
  cases hr''
  exact hmain

end Realms
