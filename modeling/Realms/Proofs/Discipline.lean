import Realms.Proofs.Nested
import Realms.Proofs.Tidy
import Realms.Program.Sample

/-! Programs that end their scopes in turn. Main statement: in each run of such a program, however
its bodies end, every crossing and every scope gives the stack back the realm that it found, the
realm active at each moment is the home of the innermost crossing or scope, where new objects and
globals then belong, and the count of replacements grows by two for each entry that had to replace
a realm. -/

namespace Realms

variable {σ α : Type} {rule : EntryRule} {s : StackId} {m : Machine σ}

/-! ### The realm that a stack works in -/

/-- What a program makes on a stack belongs to a realm, and the globals it sees are those of that
realm. -/
structure Machine.ActsIn (m : Machine σ) (s : StackId) (realm : Realm) : Prop where
  registered : m.store.Registers s realm
  active : (m.store.stack? s).map (·.active) = some realm
  newObject : ∃ o store object, m.store.newObjectOn? s = some (o, store) ∧
    store.object? o = some object ∧ object.realm = realm.id ∧
    object.prototype = some realm.objectPrototype
  newFunction : ∀ (rule : EntryRule) (fuel : Nat) (name : String)
    (body : CallContext → Program σ (Except Error Value)), ∃ o m' object,
    (Program.defineHere name body).run rule fuel s m = (.done o, m') ∧
    m'.store.object? o = some object ∧ object.realm = realm.id ∧
    object.prototype = some realm.functionPrototype
  global : ∀ name, m.store.global? s name =
    some ((m.store.property? realm.global name).elim (.error (.notDefined name)) .ok)
  setGlobal : ∀ name v, m.store.setGlobal? s name v =
    (m.store.setProperty? realm.global name v).map fun r => ((), r.2)

theorem Store.object?_addObject (st : Store) (object : Object) :
    (st.addObject object).2.object? (st.addObject object).1 = some object := by
  simp [Store.addObject, Store.object?]

theorem Machine.actsIn_of_active {now : Stack} (hs : m.store.stack? s = some now)
    (hr : m.store.Registers s now.active) : m.ActsIn s now.active where
  registered := hr
  active := by rw [hs]; rfl
  newObject := by
    obtain ⟨_, -, -, hrealm⟩ := hr
    refine ⟨_, _, ⟨now.active.id, .ordinary, some now.active.objectPrototype, .empty⟩, ?_,
      Store.object?_addObject m.store _, rfl, rfl⟩
    simp only [Store.newObjectOn?, Store.newObject?, hs, hrealm, Option.bind_eq_bind,
      Option.bind_some]
  newFunction rule fuel name body := by
    obtain ⟨_, -, -, hrealm⟩ := hr
    let f : Object := ⟨now.active.id, .function ⟨name, none, ⟨m.code.size⟩⟩,
      some now.active.functionPrototype, .empty⟩
    refine ⟨_, ⟨(m.store.addObject f).2, m.code.push body, m.memory⟩, f, ?_,
      Store.object?_addObject m.store f, rfl, rfl⟩
    have hdefine : m.store.newFunction? now.active.id ⟨name, none, ⟨m.code.size⟩⟩ =
        some (m.store.addObject f) := by
      simp only [Store.newFunction?, hrealm, Option.bind_eq_bind, Option.bind_some, f]
    have hread : Run.reading .stack s m = (.done now, m) := by
      simp only [Run.reading, Reading.eval, hs]
    have hrun : (Program.defineHere name body).run rule fuel s m =
        Outcome.andThen (Run.reading .stack s m) fun now m =>
          Outcome.andThen (Run.defining now.active.id name none body s m) fun o m =>
            (.done o, m) := rfl
    rw [hrun, hread]
    simp only [Outcome.andThen, Run.defining, hdefine]
  global name := by
    simp only [Store.global?, hs, Option.bind_eq_bind, Option.bind_some]
    cases m.store.property? now.active.global name <;> rfl
  setGlobal name v := by
    simp only [Store.setGlobal?, hs, Option.bind_eq_bind, Option.bind_some]
    cases m.store.setProperty? now.active.global name v <;> rfl

/-! ### Disciplined runs -/

/-- Before a run that is to end its scopes in turn, nothing is on the nest. -/
theorem Store.nested_nil {st : Store} {now : Stack} (hs : st.stack? s = some now) :
    st.Nested s now.active.id now.switches [] where
  active := ⟨now, hs, rfl, rfl⟩
  linked := trivial
  kept := by simp
  distinct := .nil

/-- Registered realms are told apart by their ids, also later. -/
theorem Store.Sound.active_eq_of_id {st st' : Store} (h : st.Sound) (h' : st'.Sound)
    (he : st.Extends st') {now now' : Stack} (hs : st.stack? s = some now)
    (hs' : st'.stack? s = some now') (hid : now'.active.id = now.active.id) :
    now'.active = now.active :=
  (h'.active s now' hs').eq_of_id ((h.active s now hs).extend he) hid

namespace Program

variable {before : Stack}

/-- A run that ends its scopes in turn gives its stack back as it found it, and so does each
crossing in it. In between, the innermost scope says which realm is in use. -/
theorem disciplined_run (hm : m.Reachable rule) (hs : m.store.stack? s = some before) (fuel : Nat)
    (p : Program σ α) (hp : Disciplined s (p.events rule fuel s m)) :
    (∃ after, (p.run rule fuel s m).2.store.stack? s = some after ∧
      after.active = before.active ∧
      after.switches = before.switches + 2 * (p.events rule fuel s m).countP (Event.switches s)) ∧
    (∀ scope entry last exit, .exited scope entry last exit ∈ p.events rule fuel s m →
      scope.stack = s → ∃ now now', entry.store.stack? s = some now ∧
        exit.store.stack? s = some now' ∧ now'.active = now.active) ∧
    (∀ home entry exit, .refused s home entry exit ∈ p.events rule fuel s m → exit = entry) ∧
    (∀ es es' t now, p.events rule fuel s m = es ++ .moment t now :: es' → ∃ realm,
      realm.id = innermost before.active.id (enclosing s [] es) ∧ now.ActsIn s realm) := by
  have hcourse : Course rule s m (p.events rule fuel s m) (p.run rule fuel s m).2 :=
    p.course fuel hm.sound
  have hlaw := hcourse.lawful hm.sound
  obtain ⟨hsound, hext⟩ := hcourse.extends hm.sound
  obtain ⟨hfit, hn⟩ := hcourse.nested hm.sound (Store.nested_nil hs) hp.1
  rw [hp.2] at hn
  refine ⟨?_, ?_, ?_, ?_⟩
  · obtain ⟨after, hafter, hid, hcount⟩ := hn.active
    refine ⟨after, hafter, hm.sound.active_eq_of_id hsound hext hs hafter hid, ?_⟩
    simpa [pending] using hcount
  · intro scope entry last exit he hscope
    obtain ⟨es, es', hes⟩ := List.append_of_mem he
    rw [hes] at hfit
    obtain ⟨hentry, hexit⟩ := hfit.at hscope
    obtain ⟨now, hnow, hid⟩ := Option.map_eq_some_iff.mp hentry
    obtain ⟨now', hnow', hid'⟩ := Option.map_eq_some_iff.mp hexit
    have hlaw := hlaw _ he
    exact ⟨now, now', hnow, hnow', hlaw.1.active_eq_of_id hlaw.exited.1 hlaw.exited.2 hnow hnow'
      (hid'.trans hid.symm)⟩
  · intro home entry exit he
    exact hlaw _ he
  · intro es es' t now he
    rw [he] at hfit hlaw
    have hnow : now.store.Sound := hlaw (.moment t now) (by simp)
    obtain ⟨stack, hstack, hid⟩ := Option.map_eq_some_iff.mp hfit.at
    exact ⟨stack.active, hid, Machine.actsIn_of_active hstack (hnow.active s stack hstack)⟩

/-- A program that keeps its scope open is not of this kind. -/
example : ¬ Disciplined ⟨0⟩
    ((act (.enter ⟨⟨0⟩, 1⟩)).events .shortcut 0 ⟨0⟩ Machine.withTwoRealms) := by decide +kernel

/-- Crosses into a realm, and panics there in a scope of the other one; outside, the panic is
caught. -/
def detour (home other : RealmId) : Program σ (Except String (Except Error Unit)) :=
  guard (cross home ⟨"detour", none⟩ (holding other (.panic "lost" : Program σ _) .done))

theorem detour_tidy (home other : RealmId) : (detour home other : Program σ _).Tidy :=
  .guarding (.crossing _ _ (.holding _ (.panic _) .done) .done) .done

theorem disciplined_detour : Machine.withTwoRealms.Reachable .shortcut ∧
    Disciplined ⟨0⟩ ((detour ⟨⟨0⟩, 1⟩ (.main ⟨0⟩)).events .shortcut 0 ⟨0⟩ Machine.withTwoRealms) ∧
    ∃ before after, Machine.withTwoRealms.store.stack? ⟨0⟩ = some before ∧
      ((detour ⟨⟨0⟩, 1⟩ (.main ⟨0⟩)).run .shortcut 0 ⟨0⟩
        Machine.withTwoRealms).2.store.stack? ⟨0⟩ = some after ∧
      after.active = before.active ∧ after.switches = before.switches + 4 := by
  have hm : Machine.withTwoRealms.Reachable .shortcut := Machine.prepared_reachable ..
  have hs : (Machine.withTwoRealms.store.stack? ⟨0⟩).isSome := by decide +kernel
  obtain ⟨before, hs⟩ := Option.isSome_iff_exists.mp hs
  have hcode : TidyCode Machine.withTwoRealms.code := by
    intro i body hi
    cases hi
  have hd : Disciplined ⟨0⟩
      ((detour ⟨⟨0⟩, 1⟩ (.main ⟨0⟩)).events .shortcut 0 ⟨0⟩ Machine.withTwoRealms) :=
    (detour_tidy _ _).disciplined hcode 0 (by decide +kernel)
  obtain ⟨⟨after, hafter, hactive, hcount⟩, -⟩ := disciplined_run hm hs 0 _ hd
  have htwo : ((detour ⟨⟨0⟩, 1⟩ (.main ⟨0⟩)).events .shortcut 0 ⟨0⟩
      Machine.withTwoRealms).countP (Event.switches ⟨0⟩) = 2 := by decide +kernel
  exact ⟨hm, hd, before, after, hs, hafter, hactive, by rw [hcount, htwo]⟩

end Program

end Realms
