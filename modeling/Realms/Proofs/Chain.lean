import Realms.Proofs.Inversion

/-! Chains of functions that each call the next and return what it returns. A call that finds room
starts its body one deeper and with the home realm active, and a call that finds none is an overflow
with its own frame; on the way back the stack is put back and the trace grows. Main statements, by
induction along a chain: it answers what its last function answers if there is room for all of its
calls, and if not, it overflows at the first one that finds none. -/

namespace Realms

variable {σ α : Type} {rule : EntryRule} {s : StackId} {m m' : Machine σ}

/-- The function whose body starts. -/
def Event.started? : Event σ → Option ObjectId
  | .started _ _ context _ => some context.function
  | _ => none

/-- A run answers. It has started the bodies of those functions, and leaves its stack as it was, but
for so many replacements of the active realm. -/
def Program.Yields (rule : EntryRule) (fuel : Nat) (s : StackId) (m : Machine σ)
    (p : Program σ α) (answer : α) (started : List ObjectId) (switches : Nat) : Prop :=
  ∃ now last, m.store.stack? s = some now ∧ p.run rule fuel s m = (.done answer, last) ∧
    (p.events rule fuel s m).filterMap Event.started? = started ∧
    last.store.stack? s = some { now with switches := now.switches + switches }

/-- A program that becomes another one after some readings, all of which are known as long as the
objects are those and that realm is active. -/
inductive Program.Looks (objects : Array Object) (s : StackId) (home : Realm) :
    Program σ α → Program σ α → Prop
  | here (p : Program σ α) : Looks objects s home p p
  | reading {β : Type} {r : Reading β} {b : β} {k : β → Program σ α} {p : Program σ α} :
      (∀ st now, st.objects = objects → st.stack? s = some now → now.active = home →
        r.eval s st = some b) → Looks objects s home (k b) p →
      Looks objects s home (.reading r k) p

theorem Program.reading_run {β : Type} {r : Reading β} {b : β} {k : β → Program σ α} {fuel : Nat}
    (hr : r.eval s m.store = some b) :
    (reading r k).run rule fuel s m = (k b).run rule fuel s m ∧
      (reading r k).events rule fuel s m = .moment s m :: (k b).events rule fuel s m := by
  have hread : Run.reading r s m = (.done b, m) := by simp only [Run.reading, hr]
  have hrun : (reading r k).run rule fuel s m =
      Outcome.andThen (Run.reading r s m) fun b m => (k b).run rule fuel s m := rfl
  have hevents : (reading r k).events rule fuel s m =
      .moment s m :: Outcome.follow (Run.reading r s m) fun b m =>
        (k b).events rule fuel s m := rfl
  rw [hrun, hevents, hread]
  exact ⟨rfl, rfl⟩

theorem Program.Looks.yields {p q : Program σ α} {now : Stack} {fuel n : Nat} {answer : α}
    {started : List ObjectId} (h : p.Looks m.store.objects s now.active q)
    (hnow : m.store.stack? s = some now) (hq : q.Yields rule fuel s m answer started n) :
    p.Yields rule fuel s m answer started n := by
  induction h with
  | here => exact hq
  | reading hr _ ih =>
    obtain ⟨now', last, hnow', hrun, hstarted, hlast⟩ := ih hq
    obtain ⟨hread, hevents⟩ := Program.reading_run (hr m.store now rfl hnow rfl)
    exact ⟨now', last, hnow', hread.trans hrun, by rw [hevents]; exact hstarted, hlast⟩

/-- A function of a machine, with what it is to be called with. -/
structure Callee (σ : Type) where
  id : ObjectId
  arguments : List Value
  object : Object
  function : Function
  home : Realm
  body : CallContext → Program σ (Except Error Value)

namespace Callee

def frame (c : Callee σ) : Frame := c.object.frame

def program (c : Callee σ) : Program σ (Except Error Value) := c.body ⟨c.id, c.arguments⟩

def call (c : Callee σ) : Program σ (Except Error Value) := .call (.object c.id) c.arguments

/-- The function, called with no arguments. -/
def again (c : Callee σ) : Callee σ := { c with arguments := [] }

end Callee

/-- The callee is there, and its home is a realm of the stack's engine. -/
structure Machine.Holds (m : Machine σ) (s : StackId) (c : Callee σ) : Prop where
  object : m.store.object? c.id = some c.object
  function : c.object.function? = some c.function
  code : m.code[c.function.code.index]? = some c.body
  home : c.home.id = c.object.realm
  registered : m.store.Registers s c.home

/-- A machine with the same objects and functions, and no less of the rest. -/
structure Machine.Alongside (m m' : Machine σ) : Prop where
  objects : m'.store.objects = m.store.objects
  code : m'.code = m.code
  kept : m.store.Extends m'.store

theorem Machine.Alongside.refl (m : Machine σ) : m.Alongside m := ⟨rfl, rfl, .refl _⟩

theorem Machine.Alongside.trans {m'' : Machine σ} (h : m.Alongside m') (h' : m'.Alongside m'') :
    m.Alongside m'' :=
  ⟨h'.objects.trans h.objects, h'.code.trans h.code, h.kept.trans h'.kept⟩

theorem Machine.Alongside.holds {c : Callee σ} (h : m.Alongside m') (hc : m.Holds s c) :
    m'.Holds s c where
  object := by rw [Store.object?, h.objects]; exact hc.object
  function := hc.function
  code := by rw [h.code]; exact hc.code
  home := hc.home
  registered := hc.registered.extend h.kept

/-- How often the realm changes in a sequence of realms. -/
def changes : RealmId → List RealmId → Nat
  | _, [] => 0
  | r, r' :: rs => (if r = r' then 0 else 1) + changes r' rs

/-! ### A single call -/

section

variable {c : Callee σ} {now : Stack} {engine : Engine}

theorem started_follow {r : Outcome α × Machine σ} {events : α → Machine σ → List (Event σ)}
    (h : ∀ a m, (events a m).filterMap Event.started? = []) :
    (Outcome.follow r events).filterMap Event.started? = [] := by
  obtain ⟨outcome, last⟩ := r
  cases outcome with
  | done a => exact h a last
  | panicked | outOfFuel => rfl

theorem Program.call_started {o : ObjectId} {object : Object} {f : Function}
    {arguments : List Value} {scope : Scope} {store : Store} {fuel : Nat}
    (ho : m.store.object? o = some object) (hf : object.function? = some f)
    (he : m.store.enter? rule s object.realm = some (.ok scope, store)) :
    ((call (.object o) arguments).events rule fuel s m).filterMap Event.started? =
      (Run.countedEvents (invocation rule fuel f.code ⟨o, arguments⟩)
        (observation rule fuel f.code ⟨o, arguments⟩) s
        { m with store := store.beginCrossing scope }).filterMap Event.started? := by
  rw [call_events, List.filterMap_append, started_follow fun _ _ => rfl]
  simp [Run.callingEvents, Run.crossingEvents, ho, hf, he, Event.started?, List.filterMap_cons]

theorem Run.counted_started {body : Run σ (Except Error Value)} {events : Observed σ}
    {start store : Store} (hp : start.pushCall? s = some (.ok store)) :
    (countedEvents body events s { m with store := start }).filterMap Event.started? =
      (events s { m with store }).filterMap Event.started? := by
  simp only [countedEvents, hp, List.cons_append, List.filterMap_cons, List.filterMap_append,
    Event.started?]
  rw [started_follow fun _ _ => rfl, List.append_nil]

theorem Program.observation_of_body {i : CodeId} {context : CallContext} {store : Store}
    {body : CallContext → Program σ (Except Error Value)} {fuel : Nat}
    (hc : m.code[i.index]? = some body) :
    observation rule (fuel + 1) i context s { m with store } =
      .started s i context { m with store } ::
        (body context).events rule fuel s { m with store } := by
  simp only [observation, hc]
  rfl

/-- What becomes of the stack between the entry and the exit of a crossing. -/
theorem Store.Entry.stack_after {st st' last : Store} {scope : Scope} {realm : Realm} {n : Nat}
    (h : st.Entry s now realm scope st') (hlast : last.stack? s = some { now with
      active := realm,
      switches := now.switches + (if now.active.id = realm.id then 0 else 1) + n }) :
    (last.endCrossing scope).stack? s = some { now with
      switches := now.switches + (2 * changes now.active.id [realm.id] + n) } := by
  rw [stack?_endCrossing, if_pos h.scope_eq.1, hlast, h.previous_eq, h.scope_eq.2.1]
  cases h with
  | stays ha => simp [Stack.restore, ha, changes]
  | switches hne =>
    simp [Stack.restore, Stack.activate, hne, changes]
    omega

/-- The crossing of a call is entered, with the home realm active and the limit as before. -/
theorem Machine.Holds.enters (hc : m.Holds s c) (hm : m.store.Sound)
    (hnow : m.store.stack? s = some now) (hengine : m.store.engine? now.engine = some engine)
    (rule : EntryRule) : ∃ scope store engine',
      m.store.enter? rule s c.object.realm = some (.ok scope, store) ∧
      m.store.Entry s now c.home scope store ∧
      m.store.Extends (store.beginCrossing scope) ∧
      (store.beginCrossing scope).stack? s = some { now with
        active := c.home,
        switches := now.switches + if now.active.id = c.home.id then 0 else 1 } ∧
      (store.beginCrossing scope).engine? now.engine = some engine' ∧
      engine'.settings = engine.settings := by
  obtain ⟨scope, store, he, hentry⟩ : ∃ scope store,
      m.store.enter? rule s c.home.id = some (.ok scope, store) ∧
      m.store.Entry s now c.home scope store := hm.enter?_registers hnow hc.registered
  rw [hc.home] at he
  have hstack : (store.beginCrossing scope).stack? s = _ := hentry.stack hnow
  have hext := hentry.extends.trans (Store.beginCrossing_extends scope)
  obtain ⟨engine', hengine', hsettings⟩ := hext.engineOf? hnow hstack hengine
  exact ⟨scope, store, engine', he, hentry, hext, hstack, hengine', hsettings⟩

/-- The call of a callee, given what becomes of the call in its crossing. -/
theorem Machine.Holds.call_run {scope : Scope} {store : Store} {fuel : Nat}
    {outcome : Outcome (Except Error Value)} {last : Machine σ} (hc : m.Holds s c)
    (he : m.store.enter? rule s c.object.realm = some (.ok scope, store))
    (hb : Run.counted (Program.invocation rule fuel c.function.code ⟨c.id, c.arguments⟩) s
      { m with store := store.beginCrossing scope } = (outcome, last)) :
    c.call.run rule fuel s m =
      (outcome.map (·.mapError fun e => (e.atBoundary c.frame).passing c.frame),
        { last with store := last.store.endCrossing scope }) :=
  (Program.call_run ..).trans (Run.calling_of_body hc.object hc.function he hb)

/-- A call that finds no room. -/
theorem Machine.Holds.refused (hc : m.Holds s c) (hm : m.store.Sound)
    (hnow : m.store.stack? s = some now) (hengine : m.store.engine? now.engine = some engine)
    (hfull : engine.settings.maxCallDepth ≤ now.depth) (fuel : Nat) :
    c.call.Yields rule fuel s m
      (.error ⟨.range Cause.overflowText, some c.frame, [c.frame]⟩) []
      (2 * changes now.active.id [c.home.id]) := by
  obtain ⟨scope, store, engine', he, hentry, -, hstack, hengine', hsettings⟩ :=
    hc.enters hm hnow hengine rule
  have hpush := (Store.pushCall?_refused hstack hengine').mpr (by rwa [hsettings])
  refine ⟨now, _, hnow, hc.call_run he (Run.counted_refused hpush), ?_, ?_⟩
  · refine (Program.call_started hc.object hc.function he).trans ?_
    simp only [Run.countedEvents, hpush, List.filterMap_nil]
  · exact hentry.stack_after (n := 0) hstack

/-- A call that finds room: where its body starts, and what the call makes of the answer. -/
theorem Machine.Holds.begins (hc : m.Holds s c) (hm : m.store.Sound)
    (hnow : m.store.stack? s = some now) (hengine : m.store.engine? now.engine = some engine)
    (hroom : now.depth < engine.settings.maxCallDepth) (rule : EntryRule) :
    ∃ start : Machine σ, start.store.Sound ∧ m.Alongside start ∧
      start.store.stack? s = some { now with
        active := c.home, depth := now.depth + 1,
        switches := now.switches + if now.active.id = c.home.id then 0 else 1 } ∧
      ∀ fuel answer started n, c.program.Yields rule fuel s start answer started n →
        c.call.Yields rule (fuel + 1) s m
          (answer.mapError fun e => (e.atBoundary c.frame).passing c.frame) (c.id :: started)
          (2 * changes now.active.id [c.home.id] + n) := by
  obtain ⟨scope, store, engine', he, hentry, hext, hstack, hengine', hsettings⟩ :=
    hc.enters hm hnow hengine rule
  have hpush := Store.pushCall?_room hstack hengine' (by rwa [hsettings])
  have hsound := (hentry.sound hm hc.registered).beginCrossing scope
  refine ⟨{ m with store := (store.beginCrossing scope).modifyStack s fun stack =>
    { stack with depth := stack.depth + 1 } }, hsound.pushCall hpush,
    ⟨?_, rfl, hext.trans (Store.pushCall_extends hpush)⟩, ?_, ?_⟩
  · cases hentry <;> rfl
  · rw [Store.stack?_modifyStack, if_pos rfl, hstack]
    rfl
  · rintro fuel answer started n ⟨now', last, hnow', hrun, hstarted, hlast⟩
    rw [Store.stack?_modifyStack, if_pos rfl, hstack] at hnow'
    cases hnow'
    have hbody := Run.counted_of_body hpush (Program.invocation_of_body hc.code hrun)
    refine ⟨now, _, hnow, hc.call_run he hbody, ?_, ?_⟩
    · refine (Program.call_started hc.object hc.function he).trans ?_
      rw [Run.counted_started hpush, Program.observation_of_body hc.code, List.filterMap_cons]
      exact congrArg _ hstarted
    · refine hentry.stack_after ?_
      rw [Store.popCall, Store.stack?_modifyStack, if_pos rfl, hlast]
      rfl

end

/-! ### Chains of calls -/

/-- Functions of a machine, each of which calls the next and returns what that returns. -/
inductive Machine.Chain (m : Machine σ) (s : StackId) : Callee σ → List (Callee σ) → Prop
  | single {c : Callee σ} : m.Holds s c → Chain m s c []
  | link {c next : Callee σ} {cs : List (Callee σ)} : m.Holds s c →
      c.program.Looks m.store.objects s c.home next.call → Chain m s next cs →
      Chain m s c (next :: cs)

theorem Program.done_yields {a : α} {now : Stack} {fuel : Nat}
    (hnow : m.store.stack? s = some now) :
    (done a : Program σ α).Yields rule fuel s m a [] 0 :=
  ⟨now, m, hnow, rfl, rfl, hnow⟩

section

variable {c : Callee σ} {cs : List (Callee σ)} {now : Stack} {engine : Engine} {fuel : Nat}

theorem changes_cons (r r' : RealmId) (rs : List RealmId) :
    changes r (r' :: rs) = changes r [r'] + changes r' rs := rfl

/-- One link of a chain: where its body starts, and what its call makes of the program that the body
becomes. The machine of the call is one alongside that of the chain. -/
theorem Machine.Holds.forwards {q : Program σ (Except Error Value)} (hc : m.Holds s c)
    (hlook : c.program.Looks m.store.objects s c.home q) (halong : m.Alongside m')
    (hm : m'.store.Sound) (hnow : m'.store.stack? s = some now)
    (hengine : m'.store.engine? now.engine = some engine)
    (hroom : now.depth < engine.settings.maxCallDepth) (rule : EntryRule) :
    ∃ start start' engine', m.Alongside start ∧ start.store.Sound ∧
      start.store.stack? s = some start' ∧ start'.active = c.home ∧
      start'.depth = now.depth + 1 ∧ start.store.engine? start'.engine = some engine' ∧
      engine'.settings = engine.settings ∧
      ∀ fuel answer started n, q.Yields rule fuel s start answer started n →
        c.call.Yields rule (fuel + 1) s m'
          (answer.mapError fun e => (e.atBoundary c.frame).passing c.frame) (c.id :: started)
          (2 * changes now.active.id [c.home.id] + n) := by
  obtain ⟨start, hsound, hstart, hstack, hcall⟩ :=
    (halong.holds hc).begins hm hnow hengine hroom rule
  obtain ⟨engine', hengine', hsettings⟩ := hstart.kept.engineOf? hnow hstack hengine
  have hall := halong.trans hstart
  rw [← hall.objects] at hlook
  exact ⟨start, _, engine', hall, hsound, hstack, rfl, rfl, hengine', hsettings,
    fun fuel answer started n h => hcall fuel answer started n (hlook.yields hstack h)⟩

/-- A chain that fits into the room. -/
theorem Machine.Chain.answers (h : m.Chain s c cs) {v : Value}
    (hv : ∀ l ∈ (c :: cs).getLast?,
      l.program.Looks m.store.objects s l.home (.done (.ok v)))
    (hm : m'.store.Sound) (halong : m.Alongside m') (hnow : m'.store.stack? s = some now)
    (hengine : m'.store.engine? now.engine = some engine)
    (hroom : now.depth + (c :: cs).length ≤ engine.settings.maxCallDepth)
    (hfuel : (c :: cs).length ≤ fuel) :
    c.call.Yields rule fuel s m' (.ok v) ((c :: cs).map (·.id))
      (2 * changes now.active.id ((c :: cs).map (·.home.id))) := by
  induction h generalizing m' now engine fuel with
  | @single c hc =>
    obtain ⟨fuel, rfl⟩ := Nat.exists_eq_add_of_le' hfuel
    obtain ⟨start, now', -, -, -, hstack, -, -, -, -, hcall⟩ :=
      hc.forwards (hv c rfl) halong hm hnow hengine hroom rule
    exact hcall fuel (.ok v) [] 0 (Program.done_yields hstack)
  | @link c next cs hc hlook _ ih =>
    simp only [List.length_cons] at hroom hfuel ih
    obtain ⟨fuel, rfl⟩ : ∃ n, fuel = n + 1 := ⟨fuel - 1, by omega⟩
    obtain ⟨start, now', engine', hstart, hsound, hstack, hactive, hdepth, hengine', hsettings,
      hcall⟩ := hc.forwards hlook halong hm hnow hengine (by omega) rule
    have hnext := ih (by simpa using hv) hsound hstart hstack hengine'
      (by rw [hsettings, hdepth]; omega) (Nat.le_of_succ_le_succ hfuel)
    have hyields := hcall fuel _ _ _ hnext
    rwa [hactive, ← Nat.mul_add, ← changes_cons] at hyields

/-- A chain that does not fit: the first function without room is `l`. -/
theorem Machine.Chain.overflows (h : m.Chain s c cs) (hm : m'.store.Sound)
    (halong : m.Alongside m') (hnow : m'.store.stack? s = some now)
    (hengine : m'.store.engine? now.engine = some engine) {room : Nat}
    (hroom : engine.settings.maxCallDepth - now.depth = room) (hlong : room < (c :: cs).length)
    (hfuel : room ≤ fuel) :
    ∃ l, (c :: cs)[room]? = some l ∧ c.call.Yields rule fuel s m'
      (.error ⟨.range Cause.overflowText, some l.frame, ((c :: cs).take (room + 1)).map (·.frame)⟩)
      (((c :: cs).take room).map (·.id))
      (2 * changes now.active.id (((c :: cs).take (room + 1)).map (·.home.id))) := by
  induction h generalizing m' now engine fuel room with
  | @single c hc =>
    obtain rfl : room = 0 := by simpa using hlong
    exact ⟨c, rfl, (halong.holds hc).refused hm hnow hengine (by omega) fuel⟩
  | @link c next cs hc hlook _ ih =>
    cases room with
    | zero => exact ⟨c, rfl, (halong.holds hc).refused hm hnow hengine (by omega) fuel⟩
    | succ room =>
      obtain ⟨fuel, rfl⟩ : ∃ n, fuel = n + 1 := ⟨fuel - 1, by omega⟩
      obtain ⟨start, now', engine', hstart, hsound, hstack, hactive, hdepth, hengine', hsettings,
        hcall⟩ := hc.forwards hlook halong hm hnow hengine (by omega) rule
      obtain ⟨l, hl, hnext⟩ := ih hsound hstart hstack hengine'
        (by rw [hsettings, hdepth]; omega) (Nat.lt_of_succ_lt_succ hlong)
        (Nat.le_of_succ_le_succ hfuel)
      have hyields := hcall fuel _ _ _ hnext
      rw [hactive, ← Nat.mul_add, ← changes_cons] at hyields
      exact ⟨l, hl, hyields⟩

end

end Realms
