import Realms.Proofs.Stage

/-! The bodies that are in progress. A body takes no call off the count of a stack that it has not
put on, however it ends, and no call is put on above the limit of the engine. Main statement: at
every stage of a run the count lies between the number of bodies in progress and that limit. -/

namespace Realms

variable {σ α β : Type} {rule : EntryRule} {s t u : StackId} {fuel : Nat} {m m' : Machine σ}
  {st st' : Store}

/-! ### The count of a stack -/

/-- The calls that a stack counts as in progress. -/
def Store.depthOn (st : Store) (s : StackId) : Nat := (st.stack? s).elim 0 (·.depth)

def Machine.depthOn (m : Machine σ) (s : StackId) : Nat := m.store.depthOn s

namespace Store

theorem depthOn_of_stack? {now : Stack} (h : st.stack? s = some now) : st.depthOn s = now.depth := by
  rw [depthOn, h]
  rfl

theorem depthOn_modifyStack {f : Stack → Stack} (hf : ∀ stack, (f stack).depth = stack.depth) :
    (st.modifyStack t f).depthOn u = st.depthOn u := by
  rw [depthOn, stack?_modifyStack]
  split
  · cases h : st.stack? u <;> simp [depthOn, h, hf]
  · rfl

@[simp] theorem depthOn_restore (scope : Scope) : (st.restore scope).depthOn u = st.depthOn u := by
  unfold restore
  split
  · rfl
  · exact depthOn_modifyStack fun _ => rfl

@[simp] theorem depthOn_beginCrossing (scope : Scope) :
    (st.beginCrossing scope).depthOn u = st.depthOn u := rfl

@[simp] theorem depthOn_endCrossing (scope : Scope) :
    (st.endCrossing scope).depthOn u = st.depthOn u :=
  depthOn_restore scope

@[simp] theorem depthOn_addScope (scope : Scope) : (st.addScope scope).depthOn u = st.depthOn u :=
  rfl

@[simp] theorem depthOn_closeScope (i : ScopeId) (scope : Scope) :
    (st.closeScope i scope).depthOn u = st.depthOn u :=
  depthOn_restore scope

/-- A new stack counts no calls, as if it had been there before. -/
theorem Change.depthOn_eq (h : st.Change st') : st'.depthOn u = st.depthOn u := by
  cases hu : st.stack? u with
  | some now => rw [depthOn_of_stack? hu, depthOn_of_stack? (h.stack_eq hu)]
  | none =>
    cases hu' : st'.stack? u with
    | none => simp [depthOn, hu, hu']
    | some now =>
      obtain hold | ⟨-, e, engine, -, -, rfl⟩ := h.stack? hu'
      · rw [hu] at hold
        cases hold
      · simp [depthOn, hu, hu', Stack.spawn]

theorem enter?_depthOn {home : RealmId} {r : Except Error Scope}
    (h : st.enter? rule s home = some (r, st')) : st'.depthOn u = st.depthOn u := by
  obtain rfl | ⟨realm, rfl⟩ := enter?_eq h
  · rfl
  · exact depthOn_modifyStack fun _ => rfl

/-- Entering a crossing leaves the count to the call that it may be for. -/
theorem enter?_crossing_depthOn {home : RealmId} {scope : Scope}
    (h : st.enter? rule s home = some (.ok scope, st')) :
    (st'.beginCrossing scope).depthOn u = st.depthOn u :=
  (depthOn_beginCrossing scope).trans (enter?_depthOn h)

theorem pushCall?_depthOn (h : st.pushCall? t = some (.ok st')) :
    st'.depthOn u = st.depthOn u + if t = u then 1 else 0 := by
  obtain ⟨now, engine, hnow, -, -, rfl⟩ := pushCall?_ok h
  rw [depthOn, stack?_modifyStack]
  split
  · next htu => subst htu; simp [depthOn, hnow]
  · rfl

theorem depthOn_popCall :
    (st.popCall t).depthOn u = st.depthOn u - if t = u then 1 else 0 := by
  rw [depthOn, popCall, stack?_modifyStack]
  split
  · cases h : st.stack? u <;> simp [depthOn, h]
  · rfl

/-- No stack counts more calls than its engine allows. -/
def Bounded (st : Store) : Prop :=
  ∀ s engine, st.engineOf? s = some engine → st.depthOn s ≤ engine.settings.maxCallDepth

theorem engineOf?_eq_some {engine : Engine} : st.engineOf? s = some engine ↔
    ∃ now, st.stack? s = some now ∧ st.engine? now.engine = some engine := by
  simp only [engineOf?, Option.bind_eq_bind, Option.bind_eq_some_iff]

/-- Stacks that were there keep their limit. -/
theorem Bounded.of_le (h : st.Bounded) (hst : st.Sound) (he : st.Extends st')
    (hd : ∀ u, st'.depthOn u ≤ st.depthOn u) : st'.Bounded := by
  intro s engine hs
  refine Nat.le_trans (hd s) ?_
  obtain ⟨now', hnow', hengine⟩ := engineOf?_eq_some.mp hs
  cases hnow : st.stack? s with
  | none => simp [depthOn, hnow]
  | some now =>
    obtain ⟨old, hold, hold'⟩ := hst.engineOf? hnow
    obtain ⟨engine', hengine', hsettings⟩ := he.engineOf? hnow hnow' hold'
    rw [hengine] at hengine'
    cases hengine'
    rw [hsettings]
    exact h s old hold

theorem Bounded.enterCrossing (h : st.Bounded) (hst : st.Sound) {home : RealmId} {scope : Scope}
    (he : st.enter? rule s home = some (.ok scope, st')) :
    (st'.beginCrossing scope).Sound ∧ (st'.beginCrossing scope).Bounded := by
  obtain ⟨now, realm, -, rfl, hreg, hentry⟩ := hst.enter?_ok he
  refine ⟨(hentry.sound hst hreg).beginCrossing scope, ?_⟩
  exact h.of_le hst (hentry.extends.trans (beginCrossing_extends scope))
    fun _ => Nat.le_of_eq (enter?_crossing_depthOn he)

theorem Bounded.pushCall (h : st.Bounded)
    (hp : st.pushCall? t = some (.ok st')) : st'.Bounded := by
  intro s engine hs
  rw [pushCall?_depthOn hp]
  split
  · next hts =>
    -- the limit is that of the engine that was asked
    subst hts
    obtain ⟨now, old, hnow, hold, hlt, -⟩ := pushCall?_ok hp
    obtain ⟨now', hnow', hengine⟩ := engineOf?_eq_some.mp hs
    obtain ⟨engine', hengine', hsettings⟩ := (pushCall_extends hp).engineOf? hnow hnow' hold
    rw [hengine] at hengine'
    cases hengine'
    rw [hsettings, depthOn_of_stack? hnow]
    omega
  · next hts =>
    have hall : st.engineOf? s = some engine := by
      obtain ⟨_, _, -, -, -, rfl⟩ := pushCall?_ok hp
      rwa [engineOf?, stack?_modifyStack, if_neg hts] at hs
    exact h s engine hall

end Store

theorem Course.bounded {es : List (Event σ)} (h : Course rule s m es m') (hm : m.store.Sound)
    (hb : m.store.Bounded) : m'.store.Bounded := by
  induction h with
  | rest | moment | remembered | started | refused => exact hb
  | append h _ ih ih' => exact ih' (h.sound hm) (ih hm hb)
  | changed _ hc _ => exact hb.of_le hm hc.extends fun _ => Nat.le_of_eq hc.depthOn_eq
  | @opened _ _ _ scope store he =>
    obtain ⟨now, realm, -, rfl, -, hentry⟩ := hm.enter?_ok he
    exact hb.of_le hm (hentry.extends.trans (Store.addScope_extends scope))
      fun _ => Nat.le_of_eq ((Store.depthOn_addScope scope).trans (Store.enter?_depthOn he))
  | @ended _ m i scope hi _ =>
    exact hb.of_le hm (Store.closeScope_extends i scope)
      fun _ => Nat.le_of_eq (Store.depthOn_closeScope ..)
  | @crossed _ m last _ scope store _ he hcourse ih =>
    obtain ⟨hstart, hbegin⟩ := hb.enterCrossing hm he
    exact (ih hstart hbegin).of_le (hcourse.sound hstart) (Store.endCrossing_extends scope)
      fun _ => Nat.le_of_eq (Store.depthOn_endCrossing scope)
  | abandoned hp _ ih => exact ih (hm.pushCall hp) (hb.pushCall hp)
  | @counted u _ last _ _ hp hcourse ih =>
    refine (ih (hm.pushCall hp) (hb.pushCall hp)).of_le (hcourse.sound (hm.pushCall hp))
      Store.popCall_extends fun t => ?_
    rw [Store.depthOn_popCall]
    exact Nat.sub_le _ _
  | onStack _ ih => exact ih hm hb

/-- However a run ends, it takes no call off that it has not put on. -/
theorem Course.depthOn_le {es : List (Event σ)} (h : Course rule s m es m') (hm : m.store.Sound)
    (u : StackId) : m.depthOn u ≤ m'.depthOn u := by
  cases hu : m.store.stack? u with
  | none => simp [Machine.depthOn, Store.depthOn, hu]
  | some now =>
    have hcounts : m.store.Counts u now.depth := ⟨now, hu, rfl⟩
    obtain ⟨-, hnet, after, hafter, hd⟩ := h.counts hm hcounts
    rw [Machine.depthOn, Machine.depthOn, Store.depthOn_of_stack? hu,
      Store.depthOn_of_stack? hafter]
    omega

/-! ### Stages of any run -/

theorem Outcome.course_of_next? {r : Outcome β × Machine σ} {k : β → Program σ α}
    {p : Program σ α} {es : List (Event σ)} (h : next? r k = some (m', p))
    (hc : Course rule s m es r.2) : ∃ es, Course rule s m es m' := by
  obtain ⟨b, rfl, -⟩ := next?_eq_some.mp h
  exact ⟨es, hc⟩

/-- What a program does before it goes on is a course. -/
theorem Program.next?_course {p p' : Program σ α} (hm : m.store.Sound)
    (h : p.next? rule fuel s m = some (m', p')) : ∃ es, Course rule s m es m' := by
  cases p with
  | done | panic => cases h
  | recalling k => cases h; exact ⟨_, .rest s m⟩
  | remembering memory k => cases h; exact ⟨_, .remembered s m memory⟩
  | reading r k => exact Outcome.course_of_next? h (Run.reading_course r)
  | acting a k => exact Outcome.course_of_next? h (Run.acting_course a)
  | defining realm name location body k =>
    exact Outcome.course_of_next? h (Run.defining_course realm name location body)
  | calling callee arguments k =>
    exact Outcome.course_of_next? h (Run.calling_course callee arguments hm
      fun c context _ _ => invocation_course fuel c context)
  | crossing home origin body k =>
    exact Outcome.course_of_next? h
      (Run.crossing_course origin hm fun _ _ _ _ _ _ _ hs => body.course fuel hs)
  | onStack t body k => exact Outcome.course_of_next? h (.onStack (body.course fuel hm))
  | guarding body k =>
    have hcourse : Course rule s m _ _ := body.course fuel hm
    exact Outcome.course_of_next? h (Run.guarding_machine (body.run rule fuel) ▸ hcourse)

namespace Stage

variable {g : Stage σ α} {g' : Stage σ β}

def Layer.isCallOn (u : StackId) : Layer → Bool
  | ⟨t, .call _⟩ => t = u
  | ⟨_, .crossing _⟩ => false

/-- The bodies of called functions among what is under way, on a stack. -/
def bodiesOn (u : StackId) (path : List Layer) : Nat := path.countP (·.isCallOn u)

theorem bodiesOn_append (u : StackId) (path path' : List Layer) :
    bodiesOn u (path ++ path') = bodiesOn u path + bodiesOn u path' :=
  List.countP_append

/-- The machine of a stage is sound, and no stack of it counts too many calls. -/
structure WellKept (g : Stage σ α) : Prop where
  sound : g.machine.store.Sound
  bounded : g.machine.store.Bounded

theorem Enters.depthOn {layer : Layer} {body : Stage σ (Except Error β)}
    (h : Enters rule g layer body) (u : StackId) :
    body.machine.depthOn u = g.machine.depthOn u + bodiesOn u [layer] := by
  cases h with
  | crossing he => exact Store.enter?_crossing_depthOn he
  | @calling _ s _ _ _ _ _ _ _ _ _ _ _ _ he hp =>
    have hpush := Store.pushCall?_depthOn (u := u) hp
    rw [Store.enter?_crossing_depthOn he] at hpush
    refine hpush.trans (congrArg _ ?_)
    by_cases hu : s = u <;> simp [bodiesOn, Layer.isCallOn, hu]

theorem Opens.depthOn {layers : List Layer} (h : Opens rule g layers g') (u : StackId) :
    g'.machine.depthOn u = g.machine.depthOn u + bodiesOn u layers := by
  cases h with
  | onStack | guarding => rfl
  | enters h => exact h.depthOn u

theorem Opens.wellKept {layers : List Layer} (h : Opens rule g layers g') (hg : g.WellKept) :
    g'.WellKept := by
  cases h with
  | onStack | guarding => exact ⟨hg.sound, hg.bounded⟩
  | enters h =>
    cases h with
    | crossing he =>
      obtain ⟨hs, hb⟩ := hg.bounded.enterCrossing hg.sound he
      exact ⟨hs, hb⟩
    | calling ho hf he hp hc =>
      obtain ⟨hs, hb⟩ := hg.bounded.enterCrossing hg.sound he
      exact ⟨hs.pushCall hp, hb.pushCall hp⟩

/-- Stages of a run stay well kept, and count the bodies that they lie in. -/
theorem Part.wellKept {path : List Layer} (h : Part rule g path g') (hg : g.WellKept) :
    g'.WellKept ∧ ∀ u, g.machine.depthOn u + bodiesOn u path ≤ g'.machine.depthOn u := by
  induction h with
  | here => exact ⟨hg, fun u => Nat.le_refl _⟩
  | next hn _ ih =>
    obtain ⟨es, hcourse⟩ := Program.next?_course hg.sound hn
    obtain ⟨hg', hle⟩ := ih ⟨hcourse.sound hg.sound, hcourse.bounded hg.sound hg.bounded⟩
    refine ⟨hg', fun u => ?_⟩
    exact Nat.le_trans (Nat.add_le_add_right (hcourse.depthOn_le hg.sound u) _) (hle u)
  | inside ho _ ih =>
    obtain ⟨hg', hle⟩ := ih (ho.wellKept hg)
    refine ⟨hg', fun u => ?_⟩
    have := hle u
    rw [ho.depthOn u] at this
    rw [bodiesOn_append]
    omega

end Stage

/-- Between runs, and in the midst of them, no stack counts more calls than its engine allows. -/
theorem Machine.Reachable.bounded (h : m.Reachable rule) : m.store.Bounded := by
  induction h with
  | start =>
    intro s engine hs
    simp [Store.engineOf?, Store.stack?, Store.empty] at hs
  | run fuel p s h ih =>
    have hcourse : Course rule s _ _ _ := p.course fuel h.sound
    exact hcourse.bounded h.sound ih
  | moment fuel p s h hnow ih =>
    obtain ⟨γ, path, fuel', q, hq⟩ := Stage.HasMoment.of_mem_events hnow
    exact (hq.wellKept ⟨h.sound, ih⟩).1.bounded

end Realms
