import Realms.Proofs.Nested

/-! Entries into scopes with and without the shortcut. The shortcut is taken where the home is a
realm of the stack's engine and the engine has made no second one. On a sound store that realm is
then the active one, which is what the entry would have found out without the shortcut. Main
statement: a run and its events are the same under both rules, also when the first second realm is
made inside a body that was entered by the shortcut. -/

namespace Realms

variable {σ α β : Type} {s t : StackId} {m : Machine σ}

namespace Store

variable {st : Store} {home : RealmId}

/-- An entry into the realm would take the shortcut. -/
def TakesShortcut (st : Store) (s : StackId) (home : RealmId) : Prop :=
  ∃ now engine realm, st.stack? s = some now ∧ st.engine? now.engine = some engine ∧
    st.realm? home = some realm ∧ engine.registry.owns home = true ∧
    engine.registry.hasSecondary = false

theorem Sound.active_of_takesShortcut (hst : st.Sound) (h : st.TakesShortcut s home) :
    (st.stack? s).map (·.active.id) = some home := by
  obtain ⟨now, engine, realm, hnow, hengine, hr, howns, hsingle⟩ := h
  rw [hnow, Option.map_some, hst.active_of_single hnow hengine hsingle howns hr,
    hst.id_of_realm? hr]

/-- Elsewhere the rule makes no difference, on any store. -/
theorem enter?_of_not_takesShortcut (h : ¬ st.TakesShortcut s home) :
    st.enter? .direct s home = st.enter? .shortcut s home := by
  simp only [enter?, Option.bind_eq_bind]
  cases hnow : st.stack? s with
  | none => rfl
  | some now =>
    cases hengine : st.engine? now.engine with
    | none => simp [hengine]
    | some engine =>
      cases hr : st.realm? home with
      | none => simp
      | some realm =>
        cases howns : engine.registry.owns home with
        | false => simp [hengine, howns]
        | true =>
          cases hsecond : engine.registry.hasSecondary with
          | false => exact absurd ⟨now, engine, realm, hnow, hengine, hr, howns, hsecond⟩ h
          | true => simp [hengine, howns, hsecond]

theorem Sound.enter?_direct (hst : st.Sound) :
    st.enter? .direct s home = st.enter? .shortcut s home := by
  by_cases h : st.TakesShortcut s home
  · have hactive := hst.active_of_takesShortcut h
    obtain ⟨now, engine, realm, hnow, hengine, hr, howns, hsingle⟩ := h
    obtain ⟨now', hnow', rfl⟩ := Option.map_eq_some_iff.mp hactive
    obtain rfl : now = now' := Option.some.inj (hnow.symm.trans hnow')
    simp [enter?, hnow, hengine, hr, howns]
  · exact enter?_of_not_takesShortcut h

end Store

/-! ### Single operations -/

/-- Two runs from a machine come to the same, with the same events. -/
def Alike (run run' : Outcome α × Machine σ) (events events' : List (Event σ)) : Prop :=
  run' = run ∧ events' = events

namespace Run

theorem acting_alike (hm : m.store.Sound) (a : Action α) :
    Alike (acting .shortcut a s m) (acting .direct a s m) (actingEvents .shortcut a s m)
      (actingEvents .direct a s m) := by
  have hperform : a.perform .direct s m.store = a.perform .shortcut s m.store := by
    cases a with
    | enter home => simp only [Action.perform, Store.enterScope?, hm.enter?_direct]
    | _ => rfl
  simp only [Alike, acting, actingEvents, hperform, and_self]

theorem crossing_alike {home : RealmId} {origin : Frame} {body body' : Run σ (Except Error α)}
    {events events' : Observed σ} (hm : m.store.Sound)
    (hb : ∀ m : Machine σ, m.store.Sound →
      Alike (body s m) (body' s m) (events s m) (events' s m)) :
    Alike (crossing .shortcut home origin body s m) (crossing .direct home origin body' s m)
      (crossingEvents .shortcut home body events s m)
      (crossingEvents .direct home body' events' s m) := by
  unfold Alike crossing crossingEvents
  rw [hm.enter?_direct]
  cases he : m.store.enter? .shortcut s home with
  | none => exact ⟨rfl, rfl⟩
  | some result =>
    obtain ⟨result, store⟩ := result
    cases result with
    | error e => exact ⟨rfl, rfl⟩
    | ok scope =>
      obtain ⟨now, realm, hnow, rfl, hreg, hentry⟩ := hm.enter?_ok he
      obtain ⟨hr, hevents⟩ := hb { m with store := store.beginCrossing scope }
        ((hentry.sound hm hreg).beginCrossing scope)
      simp only [hr, hevents, and_self]

theorem counted_alike {body body' : Run σ (Except Error Value)} {events events' : Observed σ}
    (hm : m.store.Sound) (hb : ∀ m : Machine σ, m.store.Sound →
      Alike (body s m) (body' s m) (events s m) (events' s m)) :
    Alike (counted body s m) (counted body' s m) (countedEvents body events s m)
      (countedEvents body' events' s m) := by
  unfold Alike counted countedEvents
  cases hp : m.store.pushCall? s with
  | none => exact ⟨rfl, rfl⟩
  | some result =>
    cases result with
    | error e => exact ⟨rfl, rfl⟩
    | ok store =>
      obtain ⟨hr, hevents⟩ := hb { m with store } (hm.pushCall hp)
      simp only [hr, hevents, and_self]

theorem calling_alike {invoke invoke' : Invocation σ} {observe observe' : Observation σ}
    {callee : Value} {arguments : List Value} (hm : m.store.Sound)
    (hi : ∀ c context s (m : Machine σ), m.store.Sound →
      Alike (invoke c context s m) (invoke' c context s m) (observe c context s m)
        (observe' c context s m)) :
    Alike (calling .shortcut invoke callee arguments s m)
      (calling .direct invoke' callee arguments s m)
      (callingEvents .shortcut invoke observe callee arguments s m)
      (callingEvents .direct invoke' observe' callee arguments s m) := by
  cases callee with
  | object o =>
    unfold Alike calling callingEvents
    simp only
    cases ho : m.store.object? o with
    | none => exact ⟨rfl, rfl⟩
    | some object =>
      cases hf : object.function? with
      | none => simp only [hf, and_self]
      | some f =>
        have hcross : Alike (crossing .shortcut object.realm object.frame _ s m) _ _ _ :=
          crossing_alike hm fun m hm => counted_alike hm fun m hm => hi f.code ⟨o, arguments⟩ s m hm
        simp only [hf, hcross.1, hcross.2, and_self]
  | _ => exact ⟨rfl, rfl⟩

end Run

/-- What comes after two operations that are alike is alike if it is so from each sound machine. -/
theorem Alike.follow {r r' : Outcome β × Machine σ} {es es' : List (Event σ)}
    {run run' : β → Machine σ → Outcome α × Machine σ}
    {events events' : β → Machine σ → List (Event σ)} (h : Alike r r' es es')
    (hr : r.2.store.Sound) (hk : ∀ b (m : Machine σ), m.store.Sound →
      Alike (run b m) (run' b m) (events b m) (events' b m)) :
    Alike (Outcome.andThen r run) (Outcome.andThen r' run') (es ++ Outcome.follow r events)
      (es' ++ Outcome.follow r' events') := by
  obtain ⟨rfl, rfl⟩ := h
  obtain ⟨outcome, last⟩ := r'
  cases outcome with
  | done b =>
    obtain ⟨hrun, hevents⟩ := hk b last hr
    exact ⟨hrun, congrArg (es' ++ ·) hevents⟩
  | panicked | outOfFuel => exact ⟨rfl, rfl⟩

theorem Alike.cons {r r' : Outcome α × Machine σ} {es es' : List (Event σ)} (e : Event σ)
    (h : Alike r r' es es') : Alike r r' (e :: es) (e :: es') :=
  ⟨h.1, congrArg (e :: ·) h.2⟩

theorem Alike.guarding {body body' : Run σ α} {es es' : List (Event σ)}
    (h : Alike (body s m) (body' s m) es es') :
    Alike (Run.guarding body s m) (Run.guarding body' s m) es es' := by
  obtain ⟨hr, hes⟩ := h
  exact ⟨by simp only [Run.guarding, hr], hes⟩

/-! ### Whole runs -/

namespace Program

theorem alikeWith {invoke invoke' : Invocation σ} {observe observe' : Observation σ}
    (hc : ∀ c context s (m : Machine σ), m.store.Sound → m.store.AtHome s c context.function →
      Course .shortcut s m (observe c context s m) (invoke c context s m).2)
    (hi : ∀ c context s (m : Machine σ), m.store.Sound →
      Alike (invoke c context s m) (invoke' c context s m) (observe c context s m)
        (observe' c context s m))
    (p : Program σ α) (hm : m.store.Sound) :
    Alike (p.runWith .shortcut invoke s m) (p.runWith .direct invoke' s m)
      (p.eventsWith .shortcut invoke observe s m) (p.eventsWith .direct invoke' observe' s m) := by
  induction p generalizing s m with
  | done | panic => exact ⟨rfl, rfl⟩
  | recalling k ih => exact (ih m.memory hm).cons _
  | remembering memory k ih => exact (ih (m := { m with memory }) hm).cons _
  | reading r k ih =>
    have hread : Alike (Run.reading r s m) (Run.reading r s m) [] [] := ⟨rfl, rfl⟩
    have hcourse : Course .shortcut s m [] _ := Run.reading_course r
    exact (hread.follow (hcourse.sound hm) fun a m hm => ih a hm).cons _
  | acting a k ih =>
    exact ((Run.acting_alike hm a).follow ((Run.acting_course a).sound hm)
      fun b m hm => ih b hm).cons _
  | defining realm name location body k _ ih =>
    have hdefine : Alike (Run.defining realm name location body s m)
      (Run.defining realm name location body s m) [] [] := ⟨rfl, rfl⟩
    have hcourse : Course .shortcut s m [] _ := Run.defining_course realm name location body
    exact (hdefine.follow (hcourse.sound hm) fun o m hm => ih o hm).cons _
  | calling callee arguments k ih =>
    exact ((Run.calling_alike hm hi).follow ((Run.calling_course callee arguments hm hc).sound hm)
      fun r m hm => ih r hm).cons _
  | crossing home origin body k ihb ih =>
    have hcourse : Course .shortcut s m _ (Run.crossing .shortcut home origin _ s m).2 :=
      Run.crossing_course origin hm fun _ _ _ _ _ _ _ hs => courseWith hc body hs
    exact ((Run.crossing_alike hm fun m hm => ihb hm).follow (hcourse.sound hm)
      fun r m hm => ih r hm).cons _
  | onStack t body k ihb ih =>
    exact ((ihb hm).follow ((courseWith hc body hm).sound hm) fun r m hm => ih r hm).cons _
  | guarding body k ihb ih =>
    have hlast := (courseWith (s := s) hc body hm).sound hm
    rw [← Run.guarding_machine] at hlast
    exact ((ihb hm).guarding.follow hlast fun r m hm => ih r hm).cons _

theorem invocation_alike (fuel : Nat) (c : CodeId) (context : CallContext) (s : StackId)
    (m : Machine σ) (hm : m.store.Sound) :
    Alike (invocation .shortcut fuel c context s m) (invocation .direct fuel c context s m)
      (observation .shortcut fuel c context s m) (observation .direct fuel c context s m) := by
  induction fuel generalizing c context s m with
  | zero => exact ⟨rfl, rfl⟩
  | succ fuel ih =>
    simp only [invocation, observation]
    cases m.code[c.index]? with
    | none => exact ⟨rfl, rfl⟩
    | some body =>
      exact (alikeWith (fun c context _ _ => invocation_course fuel c context) ih (body context)
        hm).cons _

theorem run_alike (fuel : Nat) (p : Program σ α) (hm : m.store.Sound) :
    Alike (p.run .shortcut fuel s m) (p.run .direct fuel s m) (p.events .shortcut fuel s m)
      (p.events .direct fuel s m) :=
  p.alikeWith (fun c context _ _ => invocation_course fuel c context) (invocation_alike fuel) hm

end Program

namespace Machine

theorem Reachable.shortcut (h : m.Reachable .direct) : m.Reachable .shortcut := by
  induction h with
  | start memory => exact .start memory
  | run fuel p s _ ih =>
    rw [(p.run_alike fuel ih.sound).1]
    exact .run fuel p s ih
  | moment fuel p s _ hmem ih =>
    rw [(p.run_alike fuel ih.sound).2] at hmem
    exact .moment fuel p s ih hmem

theorem Reachable.direct (h : m.Reachable .shortcut) : m.Reachable .direct := by
  induction h with
  | start memory => exact .start memory
  | run fuel p s h ih =>
    rw [← (p.run_alike fuel h.sound).1]
    exact .run fuel p s ih
  | moment fuel p s h hmem ih =>
    rw [← (p.run_alike fuel h.sound).2] at hmem
    exact .moment fuel p s ih hmem

end Machine

/-- An entry by the shortcut found its home active. -/
def Event.FoundHome : Event σ → Prop
  | .opened _ scope before | .entered scope before _ =>
    before.store.TakesShortcut scope.stack scope.home →
      before.active? scope.stack = some scope.home
  | _ => True

theorem Event.Lawful.foundHome {e : Event σ} (h : e.Lawful) : e.FoundHome := by
  cases e with
  | opened | entered => exact h.1.active_of_takesShortcut
  | _ => trivial

/-- With and without the shortcut the same machines come about, and each run has the same outcome,
passes through the same machines and enters and ends the same scopes. Whatever realm a program
could enter by the shortcut is the active one. -/
theorem shortcut_unseen (m : Machine σ) :
    (m.Reachable .direct ↔ m.Reachable .shortcut) ∧
    (m.Reachable .shortcut → ∀ {α : Type} (fuel : Nat) (s : StackId) (p : Program σ α),
      p.run .direct fuel s m = p.run .shortcut fuel s m ∧
      p.events .direct fuel s m = p.events .shortcut fuel s m ∧
      (∀ e ∈ p.events .shortcut fuel s m, e.FoundHome) ∧
      ∀ t now, .moment t now ∈ p.events .shortcut fuel s m → ∀ u home,
        now.store.TakesShortcut u home → now.active? u = some home) := by
  refine ⟨⟨Machine.Reachable.shortcut, Machine.Reachable.direct⟩, ?_⟩
  intro hm α fuel s p
  obtain ⟨hrun, hevents⟩ := p.run_alike (s := s) fuel hm.sound
  have hcourse : Course .shortcut s m _ _ := p.course fuel hm.sound
  have hlaw := hcourse.lawful hm.sound
  refine ⟨hrun, hevents, fun e he => (hlaw e he).foundHome, ?_⟩
  intro t now hnow u home htakes
  exact Store.Sound.active_of_takesShortcut (hlaw _ hnow) htakes

/-- An engine that has only its main realm, and a stack of it. -/
def Machine.withOneRealm : Machine Unit :=
  .prepared .shortcut (do Program.act (.newStack (← Program.act (.newEngine .standard)))) ()

/-- Crosses into the active realm, makes another one there, and crosses into that. -/
def Program.outgrowing : Program σ (Except Error Unit) :=
  cross (.main ⟨0⟩) ⟨"outer", none⟩ do
    let _ ← act (.newRealm ⟨0⟩ "second")
    cross ⟨⟨0⟩, 1⟩ ⟨"inner", none⟩ (pure (.ok ()))

theorem outgrowing_alike : Machine.withOneRealm.Reachable .shortcut ∧
    Machine.withOneRealm.store.TakesShortcut ⟨0⟩ (.main ⟨0⟩) ∧
    Program.outgrowing.run .direct 0 ⟨0⟩ Machine.withOneRealm =
      Program.outgrowing.run .shortcut 0 ⟨0⟩ Machine.withOneRealm ∧
    (((Program.outgrowing.run .direct 0 ⟨0⟩ Machine.withOneRealm).2).store.stack? ⟨0⟩).map
      (·.switches) = some 2 := by
  have hm : Machine.withOneRealm.Reachable .shortcut := Machine.prepared_reachable ..
  refine ⟨hm, ⟨_, _, _, rfl, rfl, rfl, rfl, rfl⟩, ?_, by decide +kernel⟩
  exact ((shortcut_unseen _).2 hm 0 ⟨0⟩ Program.outgrowing).1

end Realms
