import Realms.Proofs.Fuel
import Realms.Proofs.InProgress
import Realms.Proofs.Recursion

/-! Programs on a single stack. A call that is let in takes room on the stack as long as its body
runs, so bodies can be nested only as deep as the engine allows, whatever the functions do: they
may call themselves or one another, make further functions, and call again after an overflow. Main
statement: each run of such a program ends. If it were cut short, it would be at a call that is let
in although the bodies in progress have taken all the room. -/

namespace Realms

variable {σ α β : Type} {rule : EntryRule} {s t : StackId} {fuel : Nat} {m m' : Machine σ}

/-! ### Programs and functions that keep to a stack -/

/-- A program that, when it runs on a stack, works on no other one, and whose functions do not
either. -/
def Program.StaysOn (s : StackId) : {α : Type} → Program σ α → Prop
  | _, .done _ | _, .panic _ => True
  | _, .recalling k => ∀ memory, (k memory).StaysOn s
  | _, .remembering _ k => k.StaysOn s
  | _, .reading _ k => ∀ a, (k a).StaysOn s
  | _, .acting _ k => ∀ b, (k b).StaysOn s
  | _, .defining _ _ _ body k => (∀ c, (body c).StaysOn s) ∧ ∀ o, (k o).StaysOn s
  | _, .calling _ _ k => ∀ r, (k r).StaysOn s
  | _, .crossing _ _ body k => body.StaysOn s ∧ ∀ r, (k r).StaysOn s
  | _, .onStack t body k => t = s ∧ body.StaysOn s ∧ ∀ r, (k r).StaysOn s
  | _, .guarding body k => body.StaysOn s ∧ ∀ r, (k r).StaysOn s

/-- All functions keep to the stack. -/
def Machine.StaysOn (s : StackId) (m : Machine σ) : Prop :=
  ∀ (i : Nat) body, m.code[i]? = some body → ∀ c, (body c).StaysOn s

namespace Run

theorem reading_staysOn (r : Reading α) (hm : m.StaysOn s) : (reading r t m).2.StaysOn s := by
  unfold reading
  split <;> exact hm

theorem acting_staysOn (a : Action α) (hm : m.StaysOn s) : (acting rule a t m).2.StaysOn s := by
  unfold acting
  split <;> exact hm

theorem defining_staysOn {realm : RealmId} {name : String} {location : Option Location}
    {body : CallContext → Program σ (Except Error Value)} (hb : ∀ c, (body c).StaysOn s)
    (hm : m.StaysOn s) : (defining realm name location body t m).2.StaysOn s := by
  unfold defining
  split
  · exact hm
  · intro i old hi
    rw [Array.getElem?_push] at hi
    split at hi
    · cases hi
      exact hb
    · exact hm i old hi

theorem crossing_staysOn {home : RealmId} {origin : Frame} {body : Run σ (Except Error α)}
    (hb : ∀ m : Machine σ, m.StaysOn s → (body t m).2.StaysOn s) (hm : m.StaysOn s) :
    (crossing rule home origin body t m).2.StaysOn s := by
  unfold crossing
  split
  · exact hm
  · exact hm
  · exact hb _ hm

theorem counted_staysOn {body : Run σ (Except Error Value)}
    (hb : ∀ m : Machine σ, m.StaysOn s → (body t m).2.StaysOn s) (hm : m.StaysOn s) :
    (counted body t m).2.StaysOn s := by
  rcases counted_cases body (fun _ _ => []) with ⟨hr, -⟩ |
    ⟨store, result, last, -, hbody, hr, -⟩ | ⟨store, outcome, last, -, hbody, hr, -⟩
  · rwa [hr]
  all_goals
    have hlast := hb { m with store } hm
    rw [hbody] at hlast
    rw [hr]
    exact hlast

theorem calling_staysOn {invoke : Invocation σ} (callee : Value) (arguments : List Value)
    (hi : ∀ c context (m : Machine σ), m.StaysOn s → (invoke c context t m).2.StaysOn s)
    (hm : m.StaysOn s) : (calling rule invoke callee arguments t m).2.StaysOn s := by
  rcases calling_cases invoke (fun _ _ _ _ => []) callee arguments with
    ⟨hr, -⟩ | ⟨o, object, f, -, -, -, hr, -⟩
  · rwa [hr]
  · rw [hr]
    exact crossing_staysOn (fun m => counted_staysOn (hi _ _)) hm

end Run

theorem Outcome.andThen_staysOn {r : Outcome β × Machine σ}
    {k : β → Machine σ → Outcome α × Machine σ} (hr : r.2.StaysOn s)
    (hk : ∀ b m, m.StaysOn s → (k b m).2.StaysOn s) : (andThen r k).2.StaysOn s := by
  obtain ⟨outcome, m⟩ := r
  cases outcome with
  | done b => exact hk b m hr
  | panicked | outOfFuel => exact hr

theorem Outcome.next?_staysOn {r : Outcome β × Machine σ} {k : β → Program σ α}
    {p : Program σ α} (hr : r.2.StaysOn s) (hk : ∀ b, (k b).StaysOn s)
    (h : next? r k = some (m', p)) : m'.StaysOn s ∧ p.StaysOn s := by
  obtain ⟨b, rfl, rfl⟩ := next?_eq_some.mp h
  exact ⟨hr, hk b⟩

namespace Program

theorem runWith_staysOn {invoke : Invocation σ}
    (hi : ∀ c context t (m : Machine σ), m.StaysOn s → (invoke c context t m).2.StaysOn s)
    {p : Program σ α} (hp : p.StaysOn s) (hm : m.StaysOn s) :
    (p.runWith rule invoke t m).2.StaysOn s := by
  induction p generalizing t m with
  | done | panic => exact hm
  | recalling k ih => exact ih _ (hp _) hm
  | remembering memory k ih => exact ih hp hm
  | reading r k ih =>
    exact Outcome.andThen_staysOn (Run.reading_staysOn r hm) fun a m => ih a (hp a)
  | acting a k ih =>
    exact Outcome.andThen_staysOn (Run.acting_staysOn a hm) fun b m => ih b (hp b)
  | defining realm name location body k _ ih =>
    exact Outcome.andThen_staysOn (Run.defining_staysOn hp.1 hm) fun o m => ih o (hp.2 o)
  | calling callee arguments k ih =>
    exact Outcome.andThen_staysOn
      (Run.calling_staysOn callee arguments (fun c context => hi c context t) hm)
      fun r m => ih r (hp r)
  | crossing home origin body k ihb ih =>
    exact Outcome.andThen_staysOn (Run.crossing_staysOn (fun m => ihb hp.1) hm)
      fun r m => ih r (hp.2 r)
  | onStack u body k ihb ih =>
    exact Outcome.andThen_staysOn (ihb hp.2.1 hm) fun r m => ih r (hp.2.2 r)
  | guarding body k ihb ih =>
    refine Outcome.andThen_staysOn ?_ fun r m => ih r (hp.2 r)
    rw [Run.guarding_machine]
    exact ihb hp.1 hm

theorem invocation_staysOn (fuel : Nat) (c : CodeId) (context : CallContext) (t : StackId)
    (m : Machine σ) (hm : m.StaysOn s) : (invocation rule fuel c context t m).2.StaysOn s := by
  induction fuel generalizing c context t m with
  | zero => exact hm
  | succ fuel ih =>
    simp only [invocation]
    split
    · exact hm
    · next body hc => exact runWith_staysOn ih (hm _ _ hc _) hm

theorem run_staysOn {p : Program σ α} (hp : p.StaysOn s) (hm : m.StaysOn s) :
    (p.run rule fuel t m).2.StaysOn s :=
  runWith_staysOn (invocation_staysOn fuel) hp hm

/-- What is left of such a program is such a program, and so are the functions made meanwhile. -/
theorem StaysOn.next {p p' : Program σ α} (hp : p.StaysOn s) (hm : m.StaysOn s)
    (hn : p.next? rule fuel t m = some (m', p')) : m'.StaysOn s ∧ p'.StaysOn s := by
  cases p with
  | done | panic => cases hn
  | recalling k => cases hn; exact ⟨hm, hp _⟩
  | remembering memory k => cases hn; exact ⟨hm, hp⟩
  | reading r k => exact Outcome.next?_staysOn (Run.reading_staysOn r hm) hp hn
  | acting a k => exact Outcome.next?_staysOn (Run.acting_staysOn a hm) hp hn
  | defining realm name location body k =>
    exact Outcome.next?_staysOn (Run.defining_staysOn hp.1 hm) hp.2 hn
  | calling callee arguments k =>
    refine Outcome.next?_staysOn (Run.calling_staysOn callee arguments ?_ hm) hp hn
    exact fun c context => invocation_staysOn fuel c context t
  | crossing home origin body k =>
    exact Outcome.next?_staysOn (Run.crossing_staysOn (fun _ => run_staysOn hp.1) hm) hp.2 hn
  | onStack u body k => exact Outcome.next?_staysOn (run_staysOn hp.2.1 hm) hp.2.2 hn
  | guarding body k =>
    refine Outcome.next?_staysOn ?_ hp.2 hn
    rw [Run.guarding_machine]
    exact run_staysOn hp.1 hm

end Program

/-! ### Stages on a single stack -/

namespace Stage

variable {g : Stage σ α} {g' : Stage σ β} {path : List Layer} {engine : Engine}

/-- A stage on a stack that goes on there, whatever it calls. -/
structure Confined (s : StackId) (g : Stage σ α) : Prop where
  stack : g.stack = s
  program : g.program.StaysOn s
  code : g.machine.StaysOn s

theorem Confined.opens {layers : List Layer} (h : g.Confined s) (ho : Opens rule g layers g') :
    g'.Confined s ∧ ∀ layer ∈ layers, layer.stack = s := by
  obtain ⟨rfl, hp, hm⟩ := h
  cases ho with
  | onStack =>
    obtain ⟨rfl, hbody, -⟩ := hp
    exact ⟨⟨rfl, hbody, hm⟩, by simp⟩
  | guarding => exact ⟨⟨rfl, hp.1, hm⟩, by simp⟩
  | enters he =>
    cases he with
    | crossing => exact ⟨⟨rfl, hp.1, hm⟩, by simp⟩
    | calling ho hf he hcount hc => exact ⟨⟨rfl, hm _ _ hc _, hm⟩, by simp⟩

/-- All that a confined stage runs is on its stack. -/
theorem Confined.part (h : g.Confined s) (hp : Part rule g path g') :
    g'.Confined s ∧ ∀ layer ∈ path, layer.stack = s := by
  induction hp with
  | here => exact ⟨h, by simp⟩
  | next hn _ ih =>
    obtain ⟨hm, hprogram⟩ := h.program.next h.code hn
    exact ih ⟨h.stack, hprogram, hm⟩
  | inside ho _ ih =>
    obtain ⟨hbody, hlayers⟩ := h.opens ho
    obtain ⟨hlast, hpath⟩ := ih hbody
    refine ⟨hlast, fun layer hlayer => ?_⟩
    exact (List.mem_append.mp hlayer).elim (hlayers layer) (hpath layer)

/-- On a single stack each body in progress counts there. -/
theorem bodiesOn_of_stack (h : ∀ layer ∈ path, layer.stack = s) :
    bodiesOn s path = path.countP Layer.isCall := by
  refine List.countP_congr fun layer hlayer => ?_
  obtain ⟨t, boundary⟩ := layer
  obtain rfl : t = s := h _ hlayer
  cases boundary <;> simp [Layer.isCallOn, Layer.isCall]

/-- The bodies in progress at a part of a run that keeps to a stack are counted there. -/
theorem Confined.depthOn_le (h : g.Confined s) (hg : g.WellKept) (hp : Part rule g path g') :
    g.machine.depthOn s + path.countP Layer.isCall ≤ g'.machine.depthOn s := by
  rw [← bodiesOn_of_stack (h.part hp).2]
  exact (hp.wellKept hg).2 s

/-- The engine of a stack keeps its limit in all parts of a run. -/
theorem Part.engineOf? (hp : Part rule g path g') (hg : g.machine.store.Sound)
    (he : g.machine.store.engineOf? s = some engine) :
    ∃ engine', g'.machine.store.engineOf? s = some engine' ∧
      engine'.settings = engine.settings := by
  have hcourse : Course rule g.stack g.machine _ _ := g.program.course g.fuel hg
  have hgrows : g.machine.Grows g'.machine := (hcourse.grows hg).2 _ _ hp.moment
  obtain ⟨now, hnow, hengine⟩ := Store.engineOf?_eq_some.mp he
  obtain ⟨now', hnow', -⟩ := hgrows.store.stack s now hnow
  obtain ⟨engine', hengine', hsettings⟩ := hgrows.store.engineOf? hnow hnow' hengine
  exact ⟨engine', Store.engineOf?_eq_some.mpr ⟨now', hnow', hengine'⟩, hsettings⟩

/-- A call is let in below the limit only. -/
theorem CutShort.depthOn_lt (h : g.CutShort rule) (hg : g.machine.store.Sound)
    (he : g.machine.store.engineOf? g.stack = some engine) :
    g.machine.depthOn g.stack < engine.settings.maxCallDepth := by
  cases h with
  | @calling s m _ _ _ _ _ scope store counted ho hf hen hp =>
    obtain ⟨now, hnow, hengine⟩ := Store.engineOf?_eq_some.mp he
    obtain ⟨now', engine', hnow', hengine', hlt, -⟩ := Store.pushCall?_ok hp
    obtain ⟨_, _, -, -, -, hentry⟩ := hg.enter?_ok hen
    have hext := hentry.extends.trans (Store.beginCrossing_extends scope)
    obtain ⟨old, hold, hsettings⟩ := hext.engineOf? hnow hnow' hengine
    obtain rfl : old = engine' := Option.some.inj (hold.symm.trans hengine')
    have hdepth : m.store.depthOn s = now'.depth :=
      (Store.enter?_crossing_depthOn hen).symm.trans (Store.depthOn_of_stack? hnow')
    rw [← hsettings]
    exact Nat.lt_of_le_of_lt (Nat.le_of_eq hdepth) hlt

/-- With as many nested calls as there is room for, a run that keeps to a stack is not cut short. -/
theorem Confined.finishes (h : g.Confined s) (hg : g.WellKept)
    (he : g.machine.store.engineOf? s = some engine)
    (hfuel : engine.settings.maxCallDepth ≤ g.machine.depthOn s + g.fuel) :
    (g.run rule).1 ≠ .outOfFuel := by
  intro hout
  obtain ⟨β, path, g', hp, hcut, hpath⟩ := cutShort_of_outOfFuel hout
  have hcounted := h.depthOn_le hg hp
  obtain ⟨engine', he', hsettings⟩ := hp.engineOf? hg.sound he
  have hstack : g'.stack = s := (h.part hp).1.stack
  have hlt := hcut.depthOn_lt (hp.wellKept hg).1.sound (hstack ▸ he')
  rw [hstack, hsettings] at hlt
  omega

end Stage

open Stage

/-- A program all of which runs on one stack comes to an end, whatever its functions call, look up
or make, and whether or not they go on after an overflow. It is enough to follow calls as deep as
the engine allows: the run is the same if they are followed further. And all of the bodies that are
in progress at a time, together with the calls that the stack counted before, are within what the
engine allows. -/
theorem single_stack_terminates (hm : m.Reachable rule) (hcode : m.StaysOn s) {p : Program σ α}
    (hp : p.StaysOn s) {now : Stack} {engine : Engine} (hnow : m.store.stack? s = some now)
    (hengine : m.store.engine? now.engine = some engine) {room : Nat}
    (hroom : engine.settings.maxCallDepth - now.depth = room) :
    (p.run rule room s m).1 ≠ .outOfFuel ∧
    (∀ fuel, room ≤ fuel → p.run rule fuel s m = p.run rule room s m ∧
      p.events rule fuel s m = p.events rule room s m) ∧
    ∀ fuel (β : Type) path (g : Stage σ β), Part rule ⟨fuel, s, m, p⟩ path g →
      g.stack = s ∧ (∀ layer ∈ path, layer.stack = s) ∧
      now.depth + path.countP Layer.isCall ≤ engine.settings.maxCallDepth := by
  have hdepth : m.depthOn s = now.depth := Store.depthOn_of_stack? hnow
  have he : m.store.engineOf? s = some engine := Store.engineOf?_eq_some.mpr ⟨now, hnow, hengine⟩
  have hconfined (fuel : Nat) : Confined s ⟨fuel, s, m, p⟩ := ⟨rfl, hp, hcode⟩
  have hkept (fuel : Nat) : WellKept ⟨fuel, s, m, p⟩ := ⟨hm.sound, hm.bounded⟩
  have hends : (p.run rule room s m).1 ≠ .outOfFuel := by
    refine (hconfined room).finishes (hkept room) he ?_
    show engine.settings.maxCallDepth ≤ m.depthOn s + room
    omega
  refine ⟨hends, fun fuel hle => p.steady hle hends, fun fuel β path g hg => ?_⟩
  obtain ⟨hlast, hpath⟩ := (hconfined fuel).part hg
  refine ⟨hlast.stack, hpath, ?_⟩
  have hcounted : m.depthOn s + _ ≤ _ := (hconfined fuel).depthOn_le (hkept fuel) hg
  obtain ⟨engine', he', hsettings⟩ := hg.engineOf? hm.sound he
  have hbound : g.machine.depthOn s ≤ _ := (hg.wellKept (hkept fuel)).1.bounded s engine' he'
  rw [hsettings] at hbound
  omega

/-- Calls the global of the given name twice, whatever the first of the calls answers. -/
def Program.retryingBody (name : String) :
    CallContext → Program σ (Except Error Value) := fun _ => do
  match ← read (.global name) with
  | .ok f =>
    let _ ← call f []
    call f []
  | .error e => pure (.error e)

/-- An engine with room for two calls, and a function that calls itself again when a call of it has
failed. -/
def Program.retrying : Program σ Unit := do
  let e ← act (.newEngine ⟨"main", 2⟩)
  let _ ← act (.newStack e)
  let f ← define (.main e) "again" none (retryingBody "again")
  let _ ← act (.setProperty ⟨2⟩ "again" (.object f))

theorem Program.retryingBody_staysOn (name : String) (c : CallContext) :
    (retryingBody name c : Program σ _).StaysOn s := by
  intro found
  cases found with
  | ok f => exact fun _ _ => trivial
  | error e => trivial

theorem Program.retrying_staysOn : (retrying : Program σ Unit).StaysOn s :=
  fun _ _ => ⟨retryingBody_staysOn "again", fun _ _ => trivial⟩

def Machine.retrying : Machine Unit := .prepared .shortcut Program.retrying ()

theorem retrying_ends :
    ((Program.call (.object ⟨3⟩) []).run .shortcut 2 ⟨0⟩ Machine.retrying).1 =
      .done (.error ⟨.range Cause.overflowText, some ⟨"again", none⟩,
        List.replicate 3 ⟨"again", none⟩⟩) ∧
    (Program.call (.object ⟨3⟩) []).run .shortcut 1000 ⟨0⟩ Machine.retrying =
      (Program.call (.object ⟨3⟩) []).run .shortcut 2 ⟨0⟩ Machine.retrying := by
  have hm : Machine.retrying.Reachable .shortcut := Machine.prepared_reachable ..
  have hcode : Machine.retrying.StaysOn ⟨0⟩ :=
    Program.retrying.run_staysOn Program.retrying_staysOn nofun
  obtain ⟨-, hsame, -⟩ := single_stack_terminates (p := .call (.object ⟨3⟩) []) hm hcode
    (fun _ => trivial) rfl rfl rfl
  exact ⟨by decide +kernel, (hsame 1000 (by decide)).1⟩

end Realms
