import Realms.Proofs.Chain
import Realms.Proofs.Course
import Realms.Program.Sample

/-! Functions that call themselves. A recursive function is the global of its name in its realm, and
as long as it is, it calls itself with its realm active, so it is the first of chains of any length.
Main statement: what a chain of calls answers, which of its bodies run, and how often the realm is
replaced meanwhile; a recursive function therefore overflows as soon as the room for calls is used
up, with as many frames of its own and one more. -/

namespace Realms

variable {σ α : Type} {rule : EntryRule} {s t : StackId} {m m' m'' : Machine σ}
  {es : List (Event σ)}

/-! ### What later machines keep -/

theorem Store.Entry.objects_eq {st st' : Store} {now : Stack} {realm : Realm} {scope : Scope}
    (h : st.Entry s now realm scope st') : st'.objects = st.objects := by
  cases h <;> rfl

structure Machine.Grows (m m' : Machine σ) : Prop where
  store : m.store.Extends m'.store
  objects : m.store.KeepsObjects m'.store
  code : ∀ (i : Nat) body, m.code[i]? = some body → m'.code[i]? = some body

namespace Machine.Grows

theorem refl (m : Machine σ) : m.Grows m :=
  ⟨.refl _, Store.keepsObjects_of_eq rfl, fun _ _ h => h⟩

theorem trans (h : m.Grows m') (h' : m'.Grows m'') : m.Grows m'' :=
  ⟨h.store.trans h'.store, h.objects.trans h'.objects,
    fun i body hi => h'.code i body (h.code i body hi)⟩

theorem of_objects {store : Store} (he : m.store.Extends store)
    (ho : store.objects = m.store.objects) : m.Grows { m with store } :=
  ⟨he, Store.keepsObjects_of_eq ho, fun _ _ h => h⟩

end Machine.Grows

/-- Machines grow along a course, up to each moment of it and up to its end. -/
theorem Course.grows (h : Course rule s m es m') (hm : m.store.Sound) :
    m.Grows m' ∧ ∀ t now, .moment t now ∈ es → m.Grows now := by
  induction h with
  | rest | started | refused => exact ⟨.refl _, by simp⟩
  | remembered => exact ⟨⟨.refl _, Store.keepsObjects_of_eq rfl, fun _ _ h => h⟩, by simp⟩
  | moment => exact ⟨.refl _, by simp +contextual [Machine.Grows.refl]⟩
  | append h _ ih ih' =>
    obtain ⟨hend, hmoment⟩ := ih hm
    obtain ⟨hend', hmoment'⟩ := ih' (h.sound hm)
    refine ⟨hend.trans hend', fun t now hnow => ?_⟩
    exact (List.mem_append.mp hnow).elim (hmoment t now) fun h => hend.trans (hmoment' t now h)
  | changed code hc hcode => exact ⟨⟨hc.extends, hc.untouched.objects, hcode⟩, by simp⟩
  | opened he =>
    obtain ⟨now, realm, hnow, rfl, hreg, hentry⟩ := hm.enter?_ok he
    exact ⟨.of_objects (hentry.extends.trans (Store.addScope_extends _)) hentry.objects_eq, by simp⟩
  | ended =>
    exact ⟨.of_objects (Store.closeScope_extends _ _) (Store.objects_restore _ _), by simp⟩
  | @crossed _ _ _ _ scope _ _ he _ ih =>
    obtain ⟨now, realm, hnow, rfl, hreg, hentry⟩ := hm.enter?_ok he
    have hstart := Machine.Grows.of_objects
      (hentry.extends.trans (Store.beginCrossing_extends scope)) hentry.objects_eq
    obtain ⟨hend, hmoment⟩ := ih ((hentry.sound hm hreg).beginCrossing _)
    refine ⟨(hstart.trans hend).trans (.of_objects (Store.endCrossing_extends _)
      (Store.objects_restore _ _)), fun t now hnow => hstart.trans (hmoment t now ?_)⟩
    simpa using hnow
  | abandoned hp _ ih =>
    obtain ⟨_, _, -, -, -, rfl⟩ := Store.pushCall?_ok hp
    have hstart := Machine.Grows.of_objects (Store.pushCall_extends hp) rfl
    obtain ⟨hend, hmoment⟩ := ih (hm.pushCall hp)
    refine ⟨hstart.trans hend, fun t now hnow => hstart.trans (hmoment t now ?_)⟩
    simpa using hnow
  | counted hp _ ih =>
    obtain ⟨_, _, -, -, -, rfl⟩ := Store.pushCall?_ok hp
    have hstart := Machine.Grows.of_objects (Store.pushCall_extends hp) rfl
    obtain ⟨hend, hmoment⟩ := ih (hm.pushCall hp)
    refine ⟨(hstart.trans hend).trans (.of_objects Store.popCall_extends rfl),
      fun t now hnow => hstart.trans (hmoment t now ?_)⟩
    simpa using hnow
  | onStack _ ih => exact ih hm

namespace Machine

/-- The machines that come about from a machine when programs are run on it, also in the midst of a
run. -/
inductive Later (rule : EntryRule) (m : Machine σ) : Machine σ → Prop
  | refl : Later rule m m
  | run {α : Type} {m' : Machine σ} (fuel : Nat) (p : Program σ α) (s : StackId) :
      Later rule m m' → Later rule m (p.run rule fuel s m').2
  | moment {α : Type} {m' now : Machine σ} {t : StackId} (fuel : Nat) (p : Program σ α)
      (s : StackId) : Later rule m m' → .moment t now ∈ p.events rule fuel s m' →
      Later rule m now

theorem Later.grows (h : m.Later rule m') (hm : m.store.Sound) :
    m'.store.Sound ∧ m.Grows m' := by
  induction h with
  | refl => exact ⟨hm, .refl m⟩
  | run fuel p s _ ih =>
    obtain ⟨hsound, hgrows⟩ := ih
    have hcourse : Course rule s _ _ _ := p.course fuel hsound
    exact ⟨hcourse.sound hsound, hgrows.trans (hcourse.grows hsound).1⟩
  | moment fuel p s _ hnow ih =>
    obtain ⟨hsound, hgrows⟩ := ih
    have hcourse : Course rule s _ _ _ := p.course fuel hsound
    exact ⟨hcourse.lawful hsound _ hnow, hgrows.trans ((hcourse.grows hsound).2 _ _ hnow)⟩

end Machine

/-! ### Recursive functions -/

/-- A function object of a realm that calls the global of its name. -/
def Machine.Recursive (m : Machine σ) (realm : RealmId) (name : String) (o : ObjectId) : Prop :=
  ∃ object i, m.store.object? o = some object ∧ object.realm = realm ∧
    object.objectClass = .function ⟨name, none, ⟨i⟩⟩ ∧
    m.code[i]? = some (Program.recursiveBody name)

theorem Machine.Recursive.grows {realm : RealmId} {name : String} {o : ObjectId}
    (h : m.Recursive realm name o) (hg : m.Grows m') : m'.Recursive realm name o := by
  obtain ⟨object, i, ho, hrealm, hclass, hi⟩ := h
  obtain ⟨object', ho', hrealm', hclass'⟩ := hg.objects o object ho
  exact ⟨object', i, ho', hrealm'.trans hrealm, hclass'.trans hclass, hg.code i _ hi⟩

theorem Store.property?_of_setProperty {st st' : Store} {o : ObjectId} {name : String} {v : Value}
    {old : Option Value} (h : st.setProperty? o name v = some (old, st')) :
    st'.property? o name = some v := by
  simp only [setProperty?, Option.bind_eq_bind, Option.bind_eq_some_iff] at h
  obtain ⟨object, ho, h⟩ := h
  cases h
  have ho' : st.objects[o.index]? = some object := ho
  rw [property?]
  simp [object?, Array.getElem?_modify, ho']

/-- Properties are read off the objects of a store alone. -/
theorem Store.property?_congr {st st' : Store} (h : st'.objects = st.objects) (o : ObjectId)
    (name : String) : st'.property? o name = st.property? o name := by
  have hobject (o : ObjectId) : st'.object? o = st.object? o := by rw [object?, h]; rfl
  fun_induction st.property? o name with
  | case1 o ho => rw [property?, hobject, ho]
  | case2 o object ho v hv => simp [property?, hobject, ho, hv]
  | case3 o object ho hp hv => simp [property?, hobject, ho, hv, hp]
  | case4 o object ho p hp hv hlt ih =>
    rw [property?, hobject, ho]
    simp [hv, hp, hlt, ih]
  | case5 o object ho p hp hv hlt =>
    rw [property?, hobject, ho]
    simp [hv, hp, hlt]

theorem Run.defining_recursive {realm : RealmId} {name : String} {o : ObjectId}
    (h : defining realm name none (Program.recursiveBody name) s m = (.done o, m')) :
    m'.Recursive realm name o := by
  unfold defining Store.newFunction? at h
  simp only [Option.bind_eq_bind] at h
  cases hr : m.store.realm? realm with
  | none => simp [hr] at h
  | some found =>
    simp only [hr, Option.bind_some] at h
    cases h
    exact ⟨_, m.code.size, Array.getElem?_push_size, rfl, rfl, Array.getElem?_push_size⟩

/-- The function that is made is recursive, and the global is set to it. -/
theorem Program.recursive_run {realm : Realm} {name : String} {o : ObjectId} {fuel : Nat}
    (h : (recursive realm name).run rule fuel s m = (.done o, m')) :
    m'.Recursive realm.id name o ∧ m'.store.property? realm.global name = some (.object o) := by
  have hrun : (recursive realm name).run rule fuel s m =
      Outcome.andThen (Run.defining realm.id name none (recursiveBody name) s m) fun o m =>
        Outcome.andThen (Run.acting rule (.setProperty realm.global name (.object o)) s m)
          fun _ m => (.done o, m) := rfl
  rw [hrun] at h
  rcases hdef : Run.defining realm.id name none (recursiveBody name) s m with ⟨outcome, defined⟩
  rw [hdef] at h
  cases outcome with
  | panicked | outOfFuel => cases h
  | done f =>
    have hrec := Run.defining_recursive hdef
    cases hset : defined.store.setProperty? realm.global name (.object f) with
    | none => simp [Outcome.andThen, Run.acting, Action.perform, hset] at h
    | some result =>
      simp only [Outcome.andThen, Run.acting, Action.perform, hset] at h
      cases h
      have hchange := Store.setProperty?_change hset
      exact ⟨hrec.grows ⟨hchange.extends, hchange.untouched.objects, fun _ _ h => h⟩,
        Store.property?_of_setProperty hset⟩

/-- A recursive function as a callee, where its home is registered. -/
theorem Machine.Recursive.callee {realm : Realm} {name : String} {o : ObjectId}
    (h : m.Recursive realm.id name o) (hr : m.store.Registers s realm)
    (arguments : List Value) : ∃ c : Callee σ, m.Holds s c ∧ c.id = o ∧ c.arguments = arguments ∧
      c.home = realm ∧ c.body = Program.recursiveBody name ∧ c.frame = ⟨name, none⟩ := by
  obtain ⟨object, i, ho, hrealm, hclass, hi⟩ := h
  have hf : object.function? = some ⟨name, none, ⟨i⟩⟩ := by rw [Object.function?, hclass]
  refine ⟨⟨o, arguments, object, _, realm, _⟩, ⟨ho, hf, hi, hrealm.symm, hr⟩, rfl, rfl, rfl, rfl,
    ?_⟩
  rw [Callee.frame, Object.frame, hf]

/-- As long as the global is the function, the body calls it. -/
theorem Program.recursiveBody_looks {realm : Realm} {name : String} {o : ObjectId}
    (hp : m.store.property? realm.global name = some (.object o)) (context : CallContext) :
    Looks m.store.objects s realm (recursiveBody name context : Program σ _)
      (call (.object o) []) := by
  refine .reading (b := .ok (.object o)) (fun st now hobjects hnow hactive => ?_) (.here _)
  simp [Reading.eval, Store.global?, hnow, hactive, Store.property?_congr hobjects, hp]

section

variable {c : Callee σ}

/-- A function that calls itself with no arguments makes chains of any length. -/
theorem Machine.Holds.chain (hc : m.Holds s c) (hl : ∀ context,
    (c.body context).Looks m.store.objects s c.home c.again.call) (n : Nat) :
    m.Chain s c (List.replicate n c.again) := by
  induction n generalizing c with
  | zero => exact .single hc
  | succ n ih =>
    have hagain : m.Holds s c.again := ⟨hc.object, hc.function, hc.code, hc.home, hc.registered⟩
    exact .link hc (hl _) (ih hagain hl)

theorem map_again {β : Type} (f : Callee σ → β) (hf : f c.again = f c) (n : Nat) :
    (c :: List.replicate n c.again).map f = List.replicate (n + 1) (f c) := by
  rw [List.map_cons, List.map_replicate, hf, List.replicate_succ]

theorem changes_replicate (r r' : RealmId) (n : Nat) :
    changes r (List.replicate (n + 1) r') = if r = r' then 0 else 1 := by
  have hrest (n : Nat) : changes r' (List.replicate n r') = 0 := by
    induction n with
    | zero => rfl
    | succ n ih => simp [List.replicate_succ, changes, ih]
  rw [List.replicate_succ, changes, hrest, Nat.add_zero]

/-- A function that calls itself uses the room up, and one call more. -/
theorem Machine.Holds.overflows (hc : m.Holds s c) (hl : ∀ context,
    (c.body context).Looks m.store.objects s c.home c.again.call) (hm : m.store.Sound)
    {now : Stack} {engine : Engine} (hnow : m.store.stack? s = some now)
    (hengine : m.store.engine? now.engine = some engine) {fuel room : Nat}
    (hroom : engine.settings.maxCallDepth - now.depth = room) (hfuel : room ≤ fuel) :
    c.call.Yields rule fuel s m
      (.error ⟨.range Cause.overflowText, some c.frame, List.replicate (room + 1) c.frame⟩)
      (List.replicate room c.id) (if now.active.id = c.home.id then 0 else 2) := by
  obtain ⟨l, hlast, hyields⟩ : ∃ l, _ ∧ c.call.Yields rule fuel s m _ _ _ :=
    (hc.chain hl room).overflows hm (.refl m) hnow hengine hroom (by simp) hfuel
  have hframe : some l.frame = some c.frame := by
    have hmap := congrArg (Option.map (·.frame)) hlast
    rw [← List.getElem?_map, map_again _ rfl, List.getElem?_replicate, if_pos (by omega)] at hmap
    exact hmap.symm
  have hdouble : 2 * (if now.active.id = c.home.id then 0 else 1) =
      if now.active.id = c.home.id then 0 else 2 := by split <;> rfl
  rwa [List.map_take, List.map_take, List.map_take, map_again _ rfl, map_again _ rfl,
    map_again _ rfl, List.take_replicate, List.take_replicate, List.take_replicate, hframe,
    Nat.min_self, Nat.min_eq_left (Nat.le_succ room), changes_replicate, hdouble] at hyields

end

/-- A chain of calls answers what its last function does if there is room for all of them. If not,
as many bodies run as there is room for, and the call of the next function overflows. The stack is
put back, and twice as often as the home changes along the calls was its realm replaced. A recursive
function that is still its global overflows in this way, wherever and whenever it is called. -/
theorem chain_of_calls (hm : m.Reachable rule) {now : Stack} {engine : Engine}
    (hnow : m.store.stack? s = some now) (hengine : m.store.engine? now.engine = some engine) :
    (∀ fuel c cs, m.Chain s c cs →
      (∀ v, (∀ l ∈ (c :: cs).getLast?,
          l.program.Looks m.store.objects s l.home (.done (.ok v))) →
        now.depth + (c :: cs).length ≤ engine.settings.maxCallDepth → (c :: cs).length ≤ fuel →
        c.call.Yields rule fuel s m (.ok v) ((c :: cs).map (·.id))
          (2 * changes now.active.id ((c :: cs).map (·.home.id)))) ∧
      ∀ room, engine.settings.maxCallDepth - now.depth = room → room < (c :: cs).length →
        room ≤ fuel → ∃ l e, (c :: cs)[room]? = some l ∧
          c.call.Yields rule fuel s m (.error e) (((c :: cs).take room).map (·.id))
            (2 * changes now.active.id (((c :: cs).take (room + 1)).map (·.home.id))) ∧
          e.cause = .range Cause.overflowText ∧ e.origin = some l.frame ∧
          e.trace = (((c :: cs).take (room + 1)).map (·.frame)).reverse) ∧
    ∀ (early : Machine σ) made (realm : Realm) name o t before, early.Reachable rule →
      early.store.realm? realm.id = some realm →
      (Program.recursive realm name).run rule before t early = (.done o, made) →
      made.Later rule m → m.store.property? realm.global name = some (.object o) →
      realm.id.engine = now.engine →
      ∀ fuel arguments room, engine.settings.maxCallDepth - now.depth = room → room ≤ fuel →
        ∃ e, (Program.call (.object o) arguments).Yields rule fuel s m (.error e)
            (List.replicate room o) (if now.active.id = realm.id then 0 else 2) ∧
          e.cause = .range Cause.overflowText ∧ e.origin = some ⟨name, none⟩ ∧
          e.trace = List.replicate (room + 1) ⟨name, none⟩ := by
  refine ⟨fun fuel c cs h => ⟨fun v hv hroom hfuel => ?_, fun room hroom hlong hfuel => ?_⟩, ?_⟩
  · exact h.answers hv hm.sound (.refl m) hnow hengine hroom hfuel
  · obtain ⟨l, hl, hyields⟩ := h.overflows hm.sound (.refl m) hnow hengine hroom hlong hfuel
    exact ⟨l, _, hl, hyields, rfl, rfl, rfl⟩
  · intro early made realm name o t before hearly hrealm hrun hlater hglobal he fuel arguments
      room hroom hfuel
    have hcourse : Course rule t early _ _ := (Program.recursive realm name).course before
      hearly.sound
    rw [hrun] at hcourse
    obtain ⟨hmade, hext⟩ := hcourse.extends hearly.sound
    obtain ⟨-, hgrows⟩ := hlater.grows hmade
    have hregistered : m.store.Registers s realm :=
      ⟨now, hnow, he, hgrows.store.realm _ _ (hext.realm _ _ hrealm)⟩
    have hrec := (Program.recursive_run hrun).1.grows hgrows
    obtain ⟨c, hc, rfl, rfl, rfl, hbody, hframe⟩ := hrec.callee hregistered arguments
    have hl (context : CallContext) :
        (c.body context).Looks m.store.objects s c.home c.again.call := by
      rw [hbody]
      exact Program.recursiveBody_looks hglobal context
    have hyields : c.call.Yields rule fuel s m _ _ _ :=
      hc.overflows hl hm.sound hnow hengine hroom hfuel
    rw [hframe] at hyields
    refine ⟨_, hyields, rfl, rfl, ?_⟩
    exact List.reverse_replicate ..

/-- The second realm of a new engine. -/
def Realm.second : Realm := ⟨⟨⟨0⟩, 1⟩, "second", ⟨5⟩, ⟨3⟩, ⟨4⟩⟩

/-- An engine with room for two calls, and two functions, the later of which calls the earlier in
another realm. -/
def Machine.chained : Machine Unit :=
  .prepared .shortcut (do
    let e ← Program.act (.newEngine ⟨"main", 2⟩)
    let _ ← Program.act (.newRealm e "second")
    let _ ← Program.act (.newStack e)
    let last ← Program.define ⟨e, 1⟩ "last" none fun _ => pure (.ok .null)
    Program.define (.main e) "first" none fun _ => Program.call (.object last) []) ()

/-- The same with a recursive function. -/
def Machine.looping : Machine Unit :=
  ((Program.recursive Realm.second "loop").run .shortcut 0 ⟨0⟩ Machine.chained).2

theorem looping_calls :
    (Program.call (.object ⟨7⟩) []).Yields .shortcut 2 ⟨0⟩ Machine.looping (.ok .null)
      [⟨7⟩, ⟨6⟩] 2 ∧
    ∃ e, (Program.call (.object ⟨8⟩) []).Yields .shortcut 2 ⟨0⟩ Machine.looping (.error e)
        [⟨8⟩, ⟨8⟩] 2 ∧
      e.cause = .range Cause.overflowText ∧ e.origin = some ⟨"loop", none⟩ ∧
      e.trace = List.replicate 3 ⟨"loop", none⟩ := by
  have hearly : Machine.chained.Reachable .shortcut := Machine.prepared_reachable ..
  have hm : Machine.looping.Reachable .shortcut :=
    hearly.run 0 (Program.recursive .second "loop") ⟨0⟩
  have hlast : Machine.looping.Holds ⟨0⟩ ⟨⟨6⟩, [], _, _, .second, _⟩ :=
    ⟨rfl, rfl, rfl, rfl, ⟨_, rfl, rfl, rfl⟩⟩
  have hfirst : Machine.looping.Holds ⟨0⟩ ⟨⟨7⟩, [], _, _, _, _⟩ :=
    ⟨rfl, rfl, rfl, rfl, ⟨_, rfl, rfl, rfl⟩⟩
  have hchain : Machine.looping.Chain ⟨0⟩ _ [_] := .link hfirst (.here _) (.single hlast)
  have hrun : (Program.recursive .second "loop").run .shortcut 0 ⟨0⟩ Machine.chained =
      (.done ⟨8⟩, Machine.looping) := rfl
  obtain ⟨hchains, hrecursive⟩ := chain_of_calls (s := ⟨0⟩) hm rfl rfl
  constructor
  · exact (hchains 2 _ _ hchain).1 .null (by rintro l ⟨⟩; exact .here _) (by decide) (by decide)
  · exact hrecursive _ _ .second "loop" ⟨8⟩ ⟨0⟩ 0 hearly rfl hrun .refl
      (Program.recursive_run hrun).2 rfl 2 [] 2 rfl (by decide)

end Realms
