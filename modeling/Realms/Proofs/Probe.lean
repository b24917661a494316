import Realms.Proofs.Course
import Realms.Program.Sample

/-! Where bodies run. A crossing that is not refused starts its body with the home realm active, and
so does a call. Main statement: what a probe has noted is therefore the sequence of the homes of the
probe functions whose bodies ran. That takes programs which leave the notes of the probe alone. -/

namespace Realms

variable {σ α β : Type} {rule : EntryRule} {s t : StackId} {m m' m'' : Machine σ}
  {view : σ → List RealmId} {note : RealmId → σ → σ} {probes : CodeId → Bool}
  {es es' : List (Event σ)}

/-- A program that leaves alone what a view shows of the memory. What the view showed when the
program last looked is known as long as no function can have run since. -/
def Program.Spares (view : σ → List RealmId) :
    {α : Type} → Option (List RealmId) → Program σ α → Prop
  | _, _, .done _ => True
  | _, _, .panic _ => True
  | _, _, .recalling k => ∀ memory, (k memory).Spares view (some (view memory))
  | _, known, .remembering memory k => known = some (view memory) ∧ k.Spares view known
  | _, known, .reading _ k => ∀ a, (k a).Spares view known
  | _, known, .acting _ k => ∀ b, (k b).Spares view known
  | _, known, .defining _ _ _ _ k => ∀ o, (k o).Spares view known
  | _, _, .calling _ _ k => ∀ r, (k r).Spares view none
  | _, known, .crossing _ _ body k => body.Spares view known ∧ ∀ r, (k r).Spares view none
  | _, known, .onStack _ body k => body.Spares view known ∧ ∀ r, (k r).Spares view none
  | _, known, .guarding body k => body.Spares view known ∧ ∀ r, (k r).Spares view none

/-- All functions are probes or leave the notes alone. -/
def Sparing (view : σ → List RealmId) (note : RealmId → σ → σ) (probes : CodeId → Bool)
    (code : Array (CallContext → Program σ (Except Error Value))) : Prop :=
  ∀ (i : Nat) body, code[i]? = some body →
    if probes ⟨i⟩ then body = Program.probeBody note else ∀ c, (body c).Spares view none

/-- The home of a probe function whose body starts. -/
def Event.probed? (probes : CodeId → Bool) : Event σ → Option RealmId
  | .started _ code context start =>
    if probes code then (start.store.object? context.function).map (·.realm) else none
  | _ => none

/-- Between two machines a view has gained the homes of the probe functions that ran. -/
def Sees (view : σ → List RealmId) (probes : CodeId → Bool) (m m' : Machine σ)
    (es : List (Event σ)) : Prop :=
  view m'.memory = view m.memory ++ es.filterMap (Event.probed? probes)

theorem Sees.append (h : Sees view probes m m' es) (h' : Sees view probes m' m'' es') :
    Sees view probes m m'' (es ++ es') := by
  rw [Sees, List.filterMap_append, ← List.append_assoc, ← h]
  exact h'

/-- Nothing to note, and nothing noted. -/
theorem Sees.of_quiet (hm : m'.memory = m.memory) (he : ∀ e ∈ es, e.probed? probes = none) :
    Sees view probes m m' es := by
  rw [Sees, hm, List.filterMap_eq_nil_iff.mpr he, List.append_nil]

theorem Course.sparing (h : Course rule s m es m') (hc : Sparing view note probes m'.code) :
    Sparing view note probes m.code :=
  fun i body hi => hc i body (h.code_mono i body hi)

/-- Where no function has been added, all are as they were. -/
theorem Course.sparing_of_size (h : Course rule s m es m') (hsize : m'.code.size = m.code.size)
    (hc : Sparing view note probes m.code) : Sparing view note probes m'.code := by
  intro i body hi
  have hlt := (Array.getElem?_eq_some_iff.mp hi).1
  have hold : m.code[i]? = some m.code[i] := Array.getElem?_eq_getElem (hsize ▸ hlt)
  obtain rfl : m.code[i] = body := Option.some.inj ((h.code_mono i _ hold).symm.trans hi)
  exact hc i _ hold

theorem Sees.follow {r : Outcome β × Machine σ} {events : β → Machine σ → List (Event σ)}
    {run : β → Machine σ → Outcome α × Machine σ} (hm : m.store.Sound) (hr : Course rule t m es r.2)
    (hc : ∀ a m', m'.store.Sound → Course rule s m' (events a m') (run a m').2)
    (hcode : Sparing view note probes (Outcome.andThen r run).2.code)
    (h : Sparing view note probes r.2.code → Sees view probes m r.2 es)
    (hk : ∀ a m', r = (.done a, m') → m'.store.Sound →
      Sparing view note probes (run a m').2.code →
      Sees view probes m' (run a m').2 (events a m')) :
    Sees view probes m (Outcome.andThen r run).2 (es ++ Outcome.follow r events) := by
  obtain ⟨outcome, m'⟩ := r
  cases outcome with
  | done a =>
    have hs := hr.sound hm
    exact (h ((hc a m' hs).sparing hcode)).append (hk a m' rfl hs hcode)
  | panicked | outOfFuel => simpa [Outcome.follow, Outcome.andThen] using h hcode

/-! ### Single operations -/

theorem Run.reading_memory (r : Reading α) : (Run.reading r s m).2.memory = m.memory := by
  unfold Run.reading
  split <;> rfl

theorem Run.acting_memory (a : Action α) : (Run.acting rule a s m).2.memory = m.memory := by
  unfold Run.acting
  split <;> rfl

theorem Run.defining_memory (realm : RealmId) (name : String) (location : Option Location)
    (body : CallContext → Program σ (Except Error Value)) :
    (Run.defining realm name location body s m).2.memory = m.memory := by
  unfold Run.defining
  split <;> rfl

theorem Action.events_quiet (a : Action α) (answer : α) (store : Store) :
    ∀ e ∈ a.events answer m store, e.probed? probes = none := by
  intro e he
  cases a with
  | enter home =>
    cases answer with
    | error => cases he
    | ok i =>
      obtain ⟨scope, -, rfl⟩ := List.mem_map.mp he
      rfl
  | leave i =>
    obtain ⟨scope, -, rfl⟩ := List.mem_map.mp he
    rfl
  | _ => cases he

theorem Run.acting_sees (a : Action α) :
    Sees view probes m (Run.acting rule a s m).2 (Run.actingEvents rule a s m) := by
  rcases Run.acting_cases a with ⟨hr, he⟩ | ⟨answer, store, -, hr, he⟩
  · rw [hr, he]
    exact .of_quiet rfl (by simp)
  · rw [hr, he]
    exact .of_quiet rfl (a.events_quiet answer store)

theorem Run.crossing_sees {home : RealmId} {origin : Frame} {body : Run σ (Except Error α)}
    {events : Observed σ}
    (hb : ∀ scope store, m.store.enter? rule s home = some (.ok scope, store) →
      Sparing view note probes (body s { m with store := store.beginCrossing scope }).2.code →
      Sees view probes { m with store := store.beginCrossing scope }
        (body s { m with store := store.beginCrossing scope }).2
        (events s { m with store := store.beginCrossing scope }))
    (hcode : Sparing view note probes (Run.crossing rule home origin body s m).2.code) :
    Sees view probes m (Run.crossing rule home origin body s m).2
      (Run.crossingEvents rule home body events s m) := by
  rcases Run.crossing_cases home origin body events with
    ⟨hr, he⟩ | ⟨e, -, hr, he⟩ | ⟨scope, store, outcome, last, h, hbody, hr, he⟩
  · rw [hr, he]
    exact .of_quiet rfl (by simp)
  · rw [hr, he]
    exact .of_quiet rfl (by simp [Event.probed?])
  · rw [hr] at hcode ⊢
    have hsees := hb scope store h (by rw [hbody]; exact hcode)
    rw [hbody] at hsees
    rw [he]
    simpa [Sees, Event.probed?, List.filterMap_cons] using hsees

theorem Run.counted_sees {body : Run σ (Except Error Value)} {events : Observed σ}
    (hb : ∀ store, m.store.pushCall? s = some (.ok store) →
      Sparing view note probes (body s { m with store }).2.code →
      Sees view probes { m with store } (body s { m with store }).2 (events s { m with store }))
    (hcode : Sparing view note probes (Run.counted body s m).2.code) :
    Sees view probes m (Run.counted body s m).2 (Run.countedEvents body events s m) := by
  rcases Run.counted_cases body events with ⟨hr, he⟩ |
    ⟨store, result, last, h, hbody, hr, he⟩ | ⟨store, outcome, last, h, hbody, hr, -, he⟩
  · rw [hr, he]
    exact .of_quiet rfl (by simp)
  · rw [hr] at hcode ⊢
    have hsees := hb store h (by rw [hbody]; exact hcode)
    rw [hbody] at hsees
    rw [he]
    simpa [Sees, Event.probed?, List.filterMap_cons] using hsees
  · rw [hr] at hcode ⊢
    have hsees := hb store h (by rw [hbody]; exact hcode)
    rw [hbody] at hsees
    rw [he]
    simpa [Sees, Event.probed?, List.filterMap_cons] using hsees

theorem Run.calling_sees {invoke : Invocation σ} {observe : Observation σ} {callee : Value}
    {arguments : List Value} (hm : m.store.Sound)
    (hi : ∀ c context s (m : Machine σ), m.store.Sound → m.store.AtHome s c context.function →
      Sparing view note probes (invoke c context s m).2.code →
      Sees view probes m (invoke c context s m).2 (observe c context s m))
    (hcode : Sparing view note probes (Run.calling rule invoke callee arguments s m).2.code) :
    Sees view probes m (Run.calling rule invoke callee arguments s m).2
      (Run.callingEvents rule invoke observe callee arguments s m) := by
  rcases Run.calling_cases invoke observe callee arguments with
    ⟨hr, he⟩ | ⟨o, object, f, ho, hf, -, hr, he⟩
  · rw [hr, he]
    exact .of_quiet rfl (by simp)
  · rw [hr] at hcode ⊢
    rw [he]
    refine Run.crossing_sees (fun scope store he hcode => ?_) hcode
    obtain ⟨now, realm, hnow, hid, hreg, hentry⟩ := hm.enter?_ok he
    have hstart := (hentry.sound hm hreg).beginCrossing scope
    refine Run.counted_sees (fun store' hp hcode => ?_) hcode
    exact hi _ _ _ _ (hstart.pushCall hp) (hentry.atHome hnow hid hp ho hf) hcode

namespace Program

theorem sees_with {invoke : Invocation σ} {observe : Observation σ}
    (hc : ∀ c context s (m : Machine σ), m.store.Sound → m.store.AtHome s c context.function →
      Course rule s m (observe c context s m) (invoke c context s m).2)
    (hi : ∀ c context s (m : Machine σ), m.store.Sound → m.store.AtHome s c context.function →
      Sparing view note probes (invoke c context s m).2.code →
      Sees view probes m (invoke c context s m).2 (observe c context s m))
    (p : Program σ α) {known : Option (List RealmId)} (hp : p.Spares view known)
    (hk : ∀ v, known = some v → view m.memory = v) (hm : m.store.Sound)
    (hcode : Sparing view note probes (p.runWith rule invoke s m).2.code) :
    Sees view probes m (p.runWith rule invoke s m).2 (p.eventsWith rule invoke observe s m) := by
  have hmoment (s : StackId) (m : Machine σ) : Sees view probes m m [.moment s m] :=
    .of_quiet rfl (by simp [Event.probed?])
  induction p generalizing s m known with
  | done | panic => exact hmoment s m
  | recalling k ih =>
    exact (hmoment s m).append (ih _ (hp m.memory) (fun _ h => Option.some.inj h) hm hcode)
  | remembering memory k ih =>
    have hsame : view memory = view m.memory := (hk _ hp.1).symm
    have hk' (v : List RealmId) (h : known = some v) : view memory = v := hsame.trans (hk v h)
    have hsees := ih (m := { m with memory }) hp.2 hk' hm hcode
    refine (hmoment s m).append ?_
    rwa [Sees, ← hsame]
  | reading r k ih =>
    have hsame : (Run.reading r s m).2.memory = m.memory := Run.reading_memory r
    refine (hmoment s m).append (.follow hm (Run.reading_course r)
      (fun a _ hm' => courseWith hc (k a) hm') hcode (fun _ => .of_quiet hsame (by simp)) ?_)
    intro a m' hr hm' hcode
    rw [hr] at hsame
    exact ih a (hp a) (fun v hv => hsame ▸ hk v hv) hm' hcode
  | acting a k ih =>
    have hsame : (Run.acting rule a s m).2.memory = m.memory := Run.acting_memory a
    refine (hmoment s m).append (.follow hm (Run.acting_course a)
      (fun b _ hm' => courseWith hc (k b) hm') hcode (fun _ => Run.acting_sees a) ?_)
    intro b m' hr hm' hcode
    rw [hr] at hsame
    exact ih b (hp b) (fun v hv => hsame ▸ hk v hv) hm' hcode
  | defining realm name location body k _ ih =>
    have hsame : (Run.defining realm name location body s m).2.memory = m.memory :=
      Run.defining_memory realm name location body
    refine (hmoment s m).append (.follow hm (Run.defining_course realm name location body)
      (fun o _ hm' => courseWith hc (k o) hm') hcode (fun _ => .of_quiet hsame (by simp)) ?_)
    intro o m' hr hm' hcode
    rw [hr] at hsame
    exact ih o (hp o) (fun v hv => hsame ▸ hk v hv) hm' hcode
  | calling callee arguments k ih =>
    refine (hmoment s m).append (.follow hm (Run.calling_course callee arguments hm hc)
      (fun r _ hm' => courseWith hc (k r) hm') hcode (Run.calling_sees hm hi) ?_)
    exact fun r m' _ hm' hcode => ih r (hp r) (by simp) hm' hcode
  | crossing home origin body k ihb ih =>
    refine (hmoment s m).append (.follow hm (Run.crossing_course origin hm ?_)
      (fun r _ hm' => courseWith hc (k r) hm') hcode (Run.crossing_sees ?_) ?_)
    · exact fun scope store now realm _ _ _ hs => courseWith hc body hs
    · intro scope store he hcode
      obtain ⟨now, realm, hnow, -, hreg, hentry⟩ := hm.enter?_ok he
      exact ihb hp.1 hk ((hentry.sound hm hreg).beginCrossing scope) hcode
    · exact fun r m' _ hm' hcode => ih r (hp.2 r) (by simp) hm' hcode
  | onStack t body k ihb ih =>
    refine (hmoment s m).append (.follow hm (courseWith hc body hm)
      (fun r _ hm' => courseWith hc (k r) hm') hcode (ihb hp.1 hk hm) ?_)
    exact fun r m' _ hm' hcode => ih r (hp.2 r) (by simp) hm' hcode
  | guarding body k ihb ih =>
    have hlast : (Run.guarding (body.runWith rule invoke) s m).2 =
        (body.runWith rule invoke s m).2 := Run.guarding_machine _
    refine (hmoment s m).append (.follow (t := s) hm (hlast ▸ courseWith hc body hm)
      (fun r _ hm' => courseWith hc (k r) hm') hcode ?_ ?_)
    · rw [hlast]
      exact ihb hp.1 hk hm
    · exact fun r m' _ hm' hcode => ih r (hp.2 r) (by simp) hm' hcode

/-- A probe notes the realm that is active, which is the home of its function. -/
theorem probeBody_sees {invoke : Invocation σ} {observe : Observation σ} {code : CodeId}
    {context : CallContext} (hnote : ∀ r memory, view (note r memory) = view memory ++ [r])
    (hprobe : probes code = true) (hh : m.store.AtHome s code context.function) :
    Sees view probes m ((probeBody note context).runWith rule invoke s m).2
      (.started s code context m ::
        (probeBody note context).eventsWith rule invoke observe s m) := by
  obtain ⟨object, f, now, ho, hf, -, hnow, hactive⟩ := hh
  have hread : Run.reading .stack s m = (.done now, m) := by
    simp only [Run.reading, Reading.eval, hnow]
  have hrun : (probeBody note context).runWith rule invoke s m =
      Outcome.andThen (Run.reading .stack s m) fun now m =>
        (.done (.ok .undefined), { m with memory := note now.active.id m.memory }) := rfl
  have hevents : (probeBody note context).eventsWith rule invoke observe s m =
      .moment s m :: Outcome.follow (Run.reading .stack s m) fun now m =>
        [.moment s m, .moment s m,
          .moment s { m with memory := note now.active.id m.memory }] := rfl
  rw [hrun, hevents, hread]
  simp [Sees, Outcome.andThen, Outcome.follow, Event.probed?, List.filterMap_cons, hprobe, ho,
    hnote, hactive]

theorem invocation_sees (hnote : ∀ r memory, view (note r memory) = view memory ++ [r])
    (fuel : Nat) (c : CodeId) (context : CallContext) (hm : m.store.Sound)
    (hh : m.store.AtHome s c context.function)
    (hcode : Sparing view note probes (invocation rule fuel c context s m).2.code) :
    Sees view probes m (invocation rule fuel c context s m).2
      (observation rule fuel c context s m) := by
  induction fuel generalizing c context s m with
  | zero => exact .of_quiet rfl (by simp [observation])
  | succ fuel ih =>
    have hcourse : Course rule s m _ _ := invocation_course (fuel + 1) c context hm hh
    have hbody := hcourse.sparing hcode c.index
    simp only [observation, invocation] at hcode ⊢
    cases hc : m.code[c.index]? with
    | none => exact .of_quiet rfl (by simp)
    | some body =>
      have hbody := hbody body hc
      simp only [hc] at hcode
      split at hbody
      · next hprobe =>
        subst hbody
        exact probeBody_sees hnote hprobe hh
      · next hprobe =>
        have hstart : Sees view probes m m [.started s c context m] :=
          .of_quiet rfl (by simp [Event.probed?, hprobe])
        refine hstart.append (sees_with ?_ ?_ (body context) (hbody context) (by simp) hm hcode)
        · exact fun c context _ _ => invocation_course fuel c context
        · exact fun c context _ _ hm hh hcode => ih c context hm hh hcode

end Program

/-! ### Where bodies start -/

theorem Store.Entry.hasActive {st st' : Store} {now : Stack} {realm : Realm} {scope : Scope}
    (h : st.Entry s now realm scope st') (hst : st.Sound) (hr : st.Registers s realm)
    (hs : st.stack? s = some now) : (st'.beginCrossing scope).HasActive s realm.id := by
  obtain ⟨now', hs', rfl⟩ := h.active hs
  exact ((h.sound hst hr).beginCrossing scope).hasActive hs'

/-- Each body starts with its home realm active, so a probe in it notes that realm. -/
theorem home_active_at_start (hm : m.Reachable rule) (fuel : Nat) (p : Program σ α) :
    (∀ home scope store, m.store.enter? rule s home = some (.ok scope, store) →
      scope.stack = s ∧ scope.home = home ∧ (store.beginCrossing scope).HasActive s home) ∧
    (∀ scope entry start, .entered scope entry start ∈ p.events rule fuel s m →
      start.store.HasActive scope.stack scope.home) ∧
    (∀ t code context start, .started t code context start ∈ p.events rule fuel s m →
      ∃ function, start.store.object? context.function = some function ∧
        start.store.HasActive t function.realm) ∧
    ∀ (view : σ → List RealmId) (note : RealmId → σ → σ) (probes : CodeId → Bool),
      (∀ r memory, view (note r memory) = view memory ++ [r]) → p.Spares view none →
      Sparing view note probes (p.run rule fuel s m).2.code →
      view (p.run rule fuel s m).2.memory =
        view m.memory ++ (p.events rule fuel s m).filterMap (Event.probed? probes) := by
  have hcourse : Course rule s m (p.events rule fuel s m) _ := p.course fuel hm.sound
  have hlaw := hcourse.lawful hm.sound
  refine ⟨?_, ?_, ?_, ?_⟩
  · intro home scope store he
    obtain ⟨now, realm, hnow, rfl, hreg, hentry⟩ := hm.sound.enter?_ok he
    exact ⟨hentry.scope_eq.1, hentry.scope_eq.2.1, hentry.hasActive hm.sound hreg hnow⟩
  · intro scope entry start he
    obtain ⟨hsound, now, realm, store, hnow, hreg, hentry, rfl⟩ := hlaw _ he
    rw [hentry.scope_eq.2.1]
    exact hentry.hasActive hsound hreg hnow
  · intro t code context start he
    obtain ⟨hsound, function, f, now, ho, -, -, hnow, hid⟩ := hlaw _ he
    exact ⟨function, ho, hid ▸ hsound.hasActive hnow⟩
  · intro view note probes hnote hp hcode
    apply Program.sees_with ?_ ?_ p hp (by simp) hm.sound hcode
    · exact fun c context _ _ => Program.invocation_course fuel c context
    · exact fun c context _ _ => Program.invocation_sees hnote fuel c context

/-- Probes in two realms, with one memory. -/
def Machine.withProbes : Machine (List RealmId) :=
  .prepared .shortcut (do
    let note := fun r seen => seen ++ [r]
    let _ ← Program.twoRealms
    let _ ← Program.define (.main ⟨0⟩) "first" none (Program.probeBody note)
    Program.define ⟨⟨0⟩, 1⟩ "second" none (Program.probeBody note)) []

/-- Keeps a scope of the second realm open, and calls the probes there. -/
def Program.probing : Program (List RealmId) (Except Error Value) := do
  let _ ← act (.enter ⟨⟨0⟩, 1⟩)
  let _ ← call (.object ⟨6⟩) []
  call (.object ⟨7⟩) []

theorem probing_sees_homes : Machine.withProbes.Reachable .shortcut ∧
    (Program.probing.run .shortcut 1 ⟨0⟩ Machine.withProbes).2.memory =
      [⟨⟨0⟩, 0⟩, ⟨⟨0⟩, 1⟩] := by
  have hm : Machine.withProbes.Reachable .shortcut := Machine.prepared_reachable ..
  obtain ⟨-, -, -, hsees⟩ := home_active_at_start (s := ⟨0⟩) hm 1 Program.probing
  have hprobes : Sparing id (fun r seen => seen ++ [r]) (fun _ => true)
      Machine.withProbes.code := by
    intro i body hi
    match i, hi with
    | 0, hi | 1, hi => exact (Option.some.inj hi).symm
  have hcourse : Course .shortcut ⟨0⟩ Machine.withProbes _ _ := Program.probing.course 1 hm.sound
  have hcode := hcourse.sparing_of_size (by decide +kernel) hprobes
  refine ⟨hm, (hsees id _ _ (fun _ _ => rfl) (fun _ _ _ => trivial) hcode).trans ?_⟩
  decide +kernel

end Realms
