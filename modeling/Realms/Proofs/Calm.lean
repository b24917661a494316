import Realms.Proofs.InProgress

/-! Runs in which nothing panics. There each operation that answers gives the count of calls in
progress back as it found it, by induction over the programs that run. Main statement: the count is
the number of bodies in progress, at every stage and on every stack. -/

namespace Realms

variable {σ α β : Type} {rule : EntryRule} {s t u : StackId} {fuel : Nat} {m m' : Machine σ}

/-! ### Operations that answer -/

theorem Outcome.machine_of_next? {r : Outcome β × Machine σ} {k : β → Program σ α}
    {p : Program σ α} (h : next? r k = some (m', p)) : r.2 = m' := by
  obtain ⟨b, rfl, -⟩ := next?_eq_some.mp h
  rfl

namespace Run

theorem reading_depthOn (r : Reading α) : (reading r s m).2.depthOn u = m.depthOn u := by
  unfold reading
  split <;> rfl

theorem defining_depthOn (realm : RealmId) (name : String) (location : Option Location)
    (body : CallContext → Program σ (Except Error Value)) :
    (defining realm name location body s m).2.depthOn u = m.depthOn u := by
  unfold defining
  split
  · rfl
  · next o store h => exact (Store.newFunction?_change h).depthOn_eq

/-- No action changes the count, and so neither does entering or leaving a scope. -/
theorem acting_depthOn (a : Action α) : (acting rule a s m).2.depthOn u = m.depthOn u := by
  cases a with
  | enter home =>
    rcases entering_cases home with ⟨hr, -⟩ | ⟨e, hr, -⟩ | ⟨scope, store, h, hr, -⟩
    · rw [hr]
    · rw [hr]
    · rw [hr]
      exact (Store.depthOn_addScope scope).trans (Store.enter?_depthOn h)
  | leave i =>
    rcases leaving_cases i with ⟨hr, -⟩ | ⟨scope, -, -, hr, -⟩
    · rw [hr]
    · rw [hr]
      exact Store.depthOn_closeScope i scope
  | _ =>
    rcases acting_cases _ with ⟨hr, -⟩ | ⟨answer, store, h, hr, -⟩
    · rw [hr]
    · rw [hr]
      exact (Action.perform_change h rfl).depthOn_eq

theorem crossing_depthOn {home : RealmId} {origin : Frame} {body : Run σ (Except Error α)}
    {r : Except Error α}
    (hb : ∀ scope store r last, m.store.enter? rule s home = some (.ok scope, store) →
      body s { m with store := store.beginCrossing scope } = (.done r, last) →
      last.depthOn u = m.depthOn u)
    (h : crossing rule home origin body s m = (.done r, m')) : m'.depthOn u = m.depthOn u := by
  rcases crossing_cases home origin body (fun _ _ => []) with
    ⟨hr, -⟩ | ⟨e, -, hr, -⟩ | ⟨scope, store, outcome, last, he, hbody, hr, -⟩
  · rw [hr] at h
    cases h
  · rw [hr] at h
    cases h
    rfl
  · rw [hr] at h
    cases outcome with
    | done r =>
      cases h
      exact (Store.depthOn_endCrossing scope).trans (hb scope store r last he hbody)
    | panicked | outOfFuel => cases h

theorem counted_depthOn {body : Run σ (Except Error Value)} {r : Except Error Value}
    (hb : ∀ store r last, m.store.pushCall? s = some (.ok store) →
      body s { m with store } = (.done r, last) → last.depthOn u = store.depthOn u)
    (h : counted body s m = (.done r, m')) : m'.depthOn u = m.depthOn u := by
  rcases counted_cases body (fun _ _ => []) with ⟨hr, -⟩ |
    ⟨store, result, last, hp, hbody, hr, -⟩ | ⟨store, outcome, last, -, -, hr, hne, -⟩
  · rw [h] at hr
    rw [← hr]
  · rw [hr] at h
    cases h
    have hlast := hb store _ last hp hbody
    rw [Store.pushCall?_depthOn hp] at hlast
    refine Store.depthOn_popCall.trans ?_
    rw [show last.store.depthOn u = _ from hlast, Nat.add_sub_cancel]
    rfl
  · rw [hr] at h
    cases h
    exact absurd rfl (hne r)

theorem calling_depthOn {invoke : Invocation σ} {callee : Value} {arguments : List Value}
    {r : Except Error Value}
    (hb : ∀ o object f scope store counted r last, callee = .object o →
      m.store.object? o = some object → object.function? = some f →
      m.store.enter? rule s object.realm = some (.ok scope, store) →
      (store.beginCrossing scope).pushCall? s = some (.ok counted) →
      invoke f.code ⟨o, arguments⟩ s { m with store := counted } = (.done r, last) →
      last.depthOn u = counted.depthOn u)
    (h : calling rule invoke callee arguments s m = (.done r, m')) :
    m'.depthOn u = m.depthOn u := by
  cases callee with
  | object o =>
    simp only [calling] at h
    split at h
    · cases h
    · next object ho =>
      split at h
      · cases h
        rfl
      · next f hf =>
        cases hr : crossing rule object.realm object.frame (counted (invoke f.code ⟨o, arguments⟩))
          s m with
        | mk outcome last =>
        rw [hr] at h
        cases outcome with
        | done result =>
          cases h
          refine crossing_depthOn (fun scope store r last he hcount => ?_) hr
          refine (counted_depthOn (fun counted r last hp hbody => ?_) hcount).trans ?_
          · exact hb o object f scope store counted r last rfl ho hf he hp hbody
          · exact Store.enter?_crossing_depthOn he
        | panicked | outOfFuel => cases h
  | _ =>
    cases h
    rfl

end Run

namespace Stage

variable {g : Stage σ α} {g' : Stage σ β} {path : List Layer}

/-- If the run answers, it leaves the count of a stack as it was. -/
def Restores (rule : EntryRule) (u : StackId) (g : Stage σ α) : Prop :=
  ∀ a last, g.run rule = (.done a, last) → last.depthOn u = g.machine.depthOn u

/-- Nothing panics in the run, not even where a guard would catch it. -/
def Calm (rule : EntryRule) (g : Stage σ α) : Prop :=
  ∀ (β : Type) (path : List Layer) (g' : Stage σ β) (text : String), Part rule g path g' →
    (g'.run rule).1 ≠ .panicked text

theorem Calm.part (h : g.Calm rule) (hp : Part rule g path g') : g'.Calm rule :=
  fun β path' g'' text hp' => h β (path ++ path') g'' text (hp.trans hp')

theorem Calm.opens {layers : List Layer} (h : g.Calm rule) (ho : Opens rule g layers g') :
    g'.Calm rule :=
  h.part (.inside ho (.here g'))

theorem Calm.not_panicked (h : g.Calm rule) (text : String) : (g.run rule).1 ≠ .panicked text :=
  h α [] g text (.here g)

/-- An operation gives the count back if the bodies that it runs do and do not panic. -/
theorem next?_depthOn {p p' : Program σ α}
    (hb : ∀ (γ : Type) (layers : List Layer) (body : Stage σ γ),
      Opens rule ⟨fuel, s, m, p⟩ layers body → body.Calm rule ∧ body.Restores rule u)
    (h : p.next? rule fuel s m = some (m', p')) : m'.depthOn u = m.depthOn u := by
  cases p with
  | done | panic => cases h
  | recalling | remembering => cases h; rfl
  | reading r k =>
    rw [← Outcome.machine_of_next? h]
    exact Run.reading_depthOn r
  | acting a k =>
    rw [← Outcome.machine_of_next? h]
    exact Run.acting_depthOn a
  | defining realm name location body k =>
    rw [← Outcome.machine_of_next? h]
    exact Run.defining_depthOn realm name location body
  | calling callee arguments k =>
    obtain ⟨b, hr, -⟩ := Outcome.next?_eq_some.mp h
    refine Run.calling_depthOn
      (fun o object f scope store counted r last hcallee ho hf he hp hbody => ?_) hr
    subst hcallee
    cases fuel with
    | zero => cases hbody
    | succ fuel =>
      simp only [Program.invocation] at hbody
      split at hbody
      · cases hbody
      · next body hc =>
        exact (hb _ _ _ (.enters (.calling ho hf he hp hc))).2 r last hbody
  | crossing home origin body k =>
    obtain ⟨b, hr, -⟩ := Outcome.next?_eq_some.mp h
    refine Run.crossing_depthOn (fun scope store r last he hbody => ?_) hr
    refine ((hb _ _ _ (.enters (.crossing he))).2 r last hbody).trans ?_
    exact Store.enter?_crossing_depthOn he
  | onStack t body k =>
    obtain ⟨b, hr, -⟩ := Outcome.next?_eq_some.mp h
    exact (hb _ _ _ .onStack).2 b m' hr
  | guarding body k =>
    obtain ⟨b, hr, -⟩ := Outcome.next?_eq_some.mp h
    obtain ⟨hcalm, hrestores⟩ := hb _ _ _ .guarding
    unfold Run.guarding at hr
    split at hr
    · next a last heq => cases hr; exact hrestores a m' heq
    · next text last heq => exact absurd (congrArg Prod.fst heq) (hcalm.not_panicked text)
    · cases hr

theorem Calm.restores_of_operation {p : Program σ α} {k : β → Program σ α}
    (r : Outcome β × Machine σ) (h : Calm rule ⟨fuel, s, m, p⟩)
    (hn : p.next? rule fuel s m = Outcome.next? r k)
    (hr : p.run rule fuel s m = Outcome.andThen r fun b m => (k b).run rule fuel s m)
    (hb : ∀ (γ : Type) (layers : List Layer) (body : Stage σ γ),
      Opens rule ⟨fuel, s, m, p⟩ layers body → body.Calm rule → body.Restores rule u)
    (hk : ∀ b m', Calm rule ⟨fuel, s, m', k b⟩ → Restores rule u ⟨fuel, s, m', k b⟩) :
    Restores rule u ⟨fuel, s, m, p⟩ := by
  intro a last hlast
  rw [Stage.run, hr] at hlast
  obtain ⟨outcome, m'⟩ := r
  cases outcome with
  | done b =>
    have hrest : last.depthOn u = m'.depthOn u := hk b m' (h.part (.next hn (.here _))) a last hlast
    exact hrest.trans
      (next?_depthOn (fun γ layers body ho => ⟨h.opens ho, hb γ layers body ho (h.opens ho)⟩) hn)
  | panicked | outOfFuel => cases hlast

theorem Calm.restores {α : Type} {p : Program σ α} (h : Calm rule ⟨fuel, s, m, p⟩) :
    Restores rule u ⟨fuel, s, m, p⟩ := by
  induction fuel using Nat.strongRecOn generalizing α s m p with
  | ind fuel ihf =>
    induction p generalizing s m with
    | done a => intro b last hlast; cases hlast; rfl
    | panic text => intro b last hlast; cases hlast
    | recalling k ih =>
      exact h.restores_of_operation (.done m.memory, m) rfl rfl (fun _ _ _ ho _ => nomatch ho)
        fun b m' hk => ih b hk
    | remembering memory k ih =>
      exact h.restores_of_operation (.done (), { m with memory }) rfl rfl
        (fun _ _ _ ho _ => nomatch ho) fun b m' hk => ih hk
    | reading r k ih =>
      exact h.restores_of_operation _ rfl rfl (fun _ _ _ ho _ => nomatch ho) fun b _ hk => ih b hk
    | acting a k ih =>
      exact h.restores_of_operation _ rfl rfl (fun _ _ _ ho _ => nomatch ho) fun b _ hk => ih b hk
    | defining realm name location body k _ ih =>
      exact h.restores_of_operation _ rfl rfl (fun _ _ _ ho _ => nomatch ho) fun b _ hk => ih b hk
    | calling callee arguments k ih =>
      refine h.restores_of_operation _ rfl rfl (fun _ _ _ ho hbody => ?_) fun b _ hk => ih b hk
      obtain _ | _ | ⟨⟨_⟩ | ⟨_⟩⟩ := ho
      exact ihf _ (Nat.lt_succ_self _) hbody
    | crossing home origin body k ihb ih =>
      refine h.restores_of_operation _ rfl rfl (fun _ _ _ ho hbody => ?_) fun b _ hk => ih b hk
      obtain _ | _ | ⟨⟨_⟩ | ⟨_⟩⟩ := ho
      exact ihb hbody
    | onStack t body k ihb ih =>
      refine h.restores_of_operation _ rfl rfl (fun _ _ _ ho hbody => ?_) fun b _ hk => ih b hk
      obtain _ | _ | ⟨⟨_⟩ | ⟨_⟩⟩ := ho
      exact ihb hbody
    | guarding body k ihb ih =>
      refine h.restores_of_operation _ rfl rfl (fun _ _ _ ho hbody => ?_) fun b _ hk => ih b hk
      obtain _ | _ | ⟨⟨_⟩ | ⟨_⟩⟩ := ho
      exact ihb hbody

/-- Each whole operation in a run without panics gives the count back. -/
theorem Calm.next?_depthOn {p p' : Program σ α} (h : Calm rule ⟨fuel, s, m, p⟩)
    (hn : p.next? rule fuel s m = some (m', p')) : m'.depthOn u = m.depthOn u :=
  Stage.next?_depthOn (fun _ _ _ ho => ⟨h.opens ho, (h.opens ho).restores⟩) hn

theorem Calm.depthOn (h : g.Calm rule) (hp : Part rule g path g') (u : StackId) :
    g'.machine.depthOn u = g.machine.depthOn u + bodiesOn u path := by
  induction hp with
  | here => rfl
  | next hn _ ih => exact (ih (h.part (.next hn (.here _)))).trans (by rw [h.next?_depthOn hn])
  | inside ho _ ih =>
    rw [ih (h.opens ho), ho.depthOn u, bodiesOn_append, Nat.add_assoc]

end Stage

/-- The machines that come about when programs are run one after another on a new machine, and
nothing ever panics. -/
inductive Machine.Undisturbed (rule : EntryRule) : Machine σ → Prop
  | start (memory : σ) : Undisturbed rule ⟨.empty, #[], memory⟩
  | run {α : Type} {g : Stage σ α} {a : α} {m : Machine σ} : Undisturbed rule g.machine →
      g.Calm rule → g.run rule = (.done a, m) → Undisturbed rule m

theorem Machine.Undisturbed.depthOn_eq_zero (h : m.Undisturbed rule) (u : StackId) :
    m.depthOn u = 0 := by
  induction h with
  | start => rfl
  | run _ hcalm hr ih => exact (hcalm.restores _ _ hr).trans ih

/-! ### Bodies in progress -/

open Stage

/-- A crossing is refused, or its body starts and ends with the counts of the crossing. -/
theorem Program.cross_depthOn (home : RealmId) (origin : Frame)
    (body : Program σ (Except Error α)) : ((cross home origin body).run rule fuel s m).2 = m ∨
      ∃ start, Enters rule ⟨fuel, s, m, cross home origin body⟩ ⟨s, .crossing origin⟩
        ⟨fuel, s, start, body⟩ ∧
        ∀ u, start.depthOn u = m.depthOn u ∧
          ((cross home origin body).run rule fuel s m).2.depthOn u =
            (body.run rule fuel s start).2.depthOn u := by
  rw [cross_run]
  rcases Run.crossing_cases home origin (body.run rule fuel) (fun _ _ => []) with
    ⟨hr, -⟩ | ⟨e, -, hr, -⟩ | ⟨scope, store, outcome, last, he, hbody, hr, -⟩
  · exact .inl (by rw [hr])
  · exact .inl (by rw [hr])
  · refine .inr ⟨_, .crossing he, fun u => ⟨?_, ?_⟩⟩
    · exact Store.enter?_crossing_depthOn he
    · rw [hr, hbody]
      exact Store.depthOn_endCrossing scope

/-- In every run the count of a stack lies between the bodies in progress there and what its engine
allows. A call that ends finds itself counted, and neither crossings nor actions change the count.
Where nothing panics it is the number of bodies in progress, counted from a machine on, and each
whole operation leaves it as it was. -/
theorem depth_is_bodies_in_progress (hm : m.Reachable rule) (fuel : Nat) (s : StackId)
    (p : Program σ α) :
    (∀ t now, .moment t now ∈ p.events rule fuel s m ↔
      HasMoment rule ⟨fuel, s, m, p⟩ t now) ∧
    (∀ (β : Type) path (g : Stage σ β), Part rule ⟨fuel, s, m, p⟩ path g →
      (∀ u now, g.machine.store.stack? u = some now →
        ∃ engine, g.machine.store.engineOf? u = some engine ∧
          m.depthOn u + bodiesOn u path ≤ now.depth ∧
          now.depth ≤ engine.settings.maxCallDepth) ∧
      ∀ (γ : Type) layer (body : Stage σ (Except Error γ)), Enters rule g layer body → ∀ u,
        body.machine.depthOn u = g.machine.depthOn u + bodiesOn u [layer] ∧
        g.machine.depthOn u + bodiesOn u [layer] ≤ (body.run rule).2.depthOn u) ∧
    ((∀ {β : Type} home origin (body : Program σ (Except Error β)),
        ((Program.cross home origin body).run rule fuel s m).2 = m ∨
        ∃ start, Enters rule ⟨fuel, s, m, Program.cross home origin body⟩ ⟨s, .crossing origin⟩
          ⟨fuel, s, start, body⟩ ∧
          ∀ u, start.depthOn u = m.depthOn u ∧
            ((Program.cross home origin body).run rule fuel s m).2.depthOn u =
              (body.run rule fuel s start).2.depthOn u) ∧
      (∀ {β : Type} target object (body : Program σ (Except Error β)),
        m.store.object? target = some object →
        (Program.crossTo target body).run rule fuel s m =
          (Program.cross object.realm object.frame body).run rule fuel s m) ∧
      ∀ {β : Type} (a : Action β) u,
        ((Program.act a).run rule fuel s m).2.depthOn u = m.depthOn u) ∧
    (Calm rule ⟨fuel, s, m, p⟩ → ∀ (β : Type) path (g : Stage σ β),
      Part rule ⟨fuel, s, m, p⟩ path g → ∀ u,
        g.machine.depthOn u = m.depthOn u + bodiesOn u path ∧
        (∀ m' p', g.program.next? rule g.fuel g.stack g.machine = some (m', p') →
          m'.depthOn u = g.machine.depthOn u) ∧
        ∀ b last, g.run rule = (.done b, last) → last.depthOn u = g.machine.depthOn u) ∧
    (m.Undisturbed rule → ∀ u, m.depthOn u = 0) := by
  refine ⟨fun t now => moment_mem_events_iff (g := ⟨fuel, s, m, p⟩), ?_, ⟨?_, ?_, ?_⟩, ?_, ?_⟩
  · intro β path g hg
    obtain ⟨hkept, hle⟩ := hg.wellKept ⟨hm.sound, hm.bounded⟩
    constructor
    · intro u now hnow
      obtain ⟨engine, hengine, -⟩ := hkept.sound.engineOf? hnow
      have hdepth : g.machine.depthOn u = now.depth := Store.depthOn_of_stack? hnow
      exact ⟨engine, hengine, hdepth ▸ hle u, hdepth ▸ hkept.bounded u engine hengine⟩
    · intro γ layer body hbody u
      have hstart := hbody.depthOn u
      have hsound := (Opens.enters hbody).wellKept hkept |>.sound
      have hcourse : Course rule body.stack body.machine _ _ := body.program.course body.fuel hsound
      exact ⟨hstart, hstart ▸ hcourse.depthOn_le hsound u⟩
  · intro β home origin body
    exact Program.cross_depthOn home origin body
  · intro β target object body ho
    exact Program.crossTo_run_of_object ho body
  · intro β a u
    have hrun : (Program.act a).run rule fuel s m = Run.acting rule a s m := Outcome.andThen_done _
    rw [hrun]
    exact Run.acting_depthOn a
  · intro hcalm β path g hg u
    have hpart := hcalm.part hg
    exact ⟨hcalm.depthOn hg u, fun m' p' hn => hpart.next?_depthOn hn, hpart.restores⟩
  · intro hm u
    exact hm.depthOn_eq_zero u

theorem Stage.calm_done (a : α) : Calm rule ⟨fuel, s, m, .done a⟩ := by
  intro β path g text hg
  cases hg with
  | here => exact fun h => nomatch h
  | next hn => cases hn
  | inside ho => nomatch ho

/-- The call of a function is calm if its body is. -/
theorem Stage.calm_call {o : ObjectId} {arguments : List Value} {object : Object} {f : Function}
    {scope : Scope} {store counted : Store}
    {body : CallContext → Program σ (Except Error Value)} (ho : m.store.object? o = some object)
    (hf : object.function? = some f)
    (he : m.store.enter? rule s object.realm = some (.ok scope, store))
    (hp : (store.beginCrossing scope).pushCall? s = some (.ok counted))
    (hc : m.code[f.code.index]? = some body)
    (hbody : Calm rule ⟨fuel, s, { m with store := counted }, body ⟨o, arguments⟩⟩) :
    Calm rule ⟨fuel + 1, s, m, .call (.object o) arguments⟩ := by
  intro β path g text hg
  refine forall_part_call (P := fun g => (g.run rule).1 ≠ .panicked text) ho hf he hp hc ?_
    (fun m r => calm_done r _ [] _ text (.here _)) (fun path g hg => hbody _ path g text hg) hg
  intro h
  cases hr : (body ⟨o, arguments⟩).run rule fuel s { m with store := counted } with
  | mk outcome last =>
    have hcount : Run.counted (Program.invocation rule (fuel + 1) f.code ⟨o, arguments⟩) s
        { m with store := store.beginCrossing scope } = Outcome.andThen (outcome, last)
          fun result m => (.done result, { m with store := m.store.popCall s }) := by
      simp only [Run.counted, hp]
      rw [Program.invocation_of_body hc hr]
    have hcall := (Program.call_run (.object o) arguments).trans
      (Run.calling_of_body ho hf he hcount)
    cases outcome with
    | done | outOfFuel => cases (congrArg Prod.fst hcall).symm.trans h
    | panicked text => exact hbody.not_panicked text (congrArg Prod.fst hr)

/-- A machine with a function that answers, in the second realm. -/
def Machine.withAnswer : Machine Unit :=
  .prepared .shortcut (do
    let _ ← Program.twoRealms
    Program.define ⟨⟨0⟩, 1⟩ "answer" none fun _ => .done (.ok .null)) ()

theorem answering_body_counted : Machine.withAnswer.Reachable .shortcut ∧
    Calm .shortcut ⟨1, ⟨0⟩, Machine.withAnswer, .call (.object ⟨6⟩) []⟩ ∧
    ∃ path, ∃ body : Stage Unit (Except Error Value),
      Part .shortcut ⟨1, ⟨0⟩, Machine.withAnswer, .call (.object ⟨6⟩) []⟩ path body ∧
      bodiesOn ⟨0⟩ path = 1 ∧ body.machine.depthOn ⟨0⟩ = Machine.withAnswer.depthOn ⟨0⟩ + 1 := by
  have hm : Machine.withAnswer.Reachable .shortcut := Machine.prepared_reachable ..
  obtain ⟨object, f, scope, store, counted, body, ho, hf, he, hp, hc, hanswer⟩ :
      ∃ object f scope store counted body,
        Machine.withAnswer.store.object? ⟨6⟩ = some object ∧ object.function? = some f ∧
        Machine.withAnswer.store.enter? .shortcut ⟨0⟩ object.realm = some (.ok scope, store) ∧
        (store.beginCrossing scope).pushCall? ⟨0⟩ = some (.ok counted) ∧
        Machine.withAnswer.code[f.code.index]? = some body ∧
        body ⟨⟨6⟩, []⟩ = .done (.ok .null) := ⟨_, _, _, _, _, _, rfl, rfl, rfl, rfl, rfl, rfl⟩
  have hcalm : Calm .shortcut ⟨1, ⟨0⟩, Machine.withAnswer, .call (.object ⟨6⟩) []⟩ :=
    calm_call ho hf he hp hc (hanswer ▸ calm_done _)
  have hpart : Part .shortcut ⟨1, ⟨0⟩, Machine.withAnswer, .call (.object ⟨6⟩) []⟩
      [⟨⟨0⟩, .call object.frame⟩] ⟨0, ⟨0⟩, { Machine.withAnswer with store := counted }, _⟩ :=
    .inside (.enters (.calling ho hf he hp hc)) (.here _)
  obtain ⟨-, -, -, hcount, -⟩ := depth_is_bodies_in_progress hm 1 ⟨0⟩ (.call (.object ⟨6⟩) [])
  exact ⟨hm, hcalm, _, _, hpart, rfl, (hcount hcalm _ _ _ hpart ⟨0⟩).1⟩

end Realms
