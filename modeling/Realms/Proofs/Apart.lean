import Realms.Proofs.Balance

/-! Stacks are apart from one another, although they share engines, and although a body on one may
drive another. What an event does it does to one stack: a scope belongs to the stack that it was
entered on, and a call is counted where it is made. Main statement: from one moment of a run to a
later one, a stack and its scopes stay as they are unless an event in between touches that stack;
and only a program that runs there touches it, or one that ends one of its scopes. -/

namespace Realms

variable {σ α β : Type} {rule : EntryRule} {s t : StackId} {m m' : Machine σ} {fuel : Nat}
  {e : Event σ} {es es' : List (Event σ)} {seen : List Store}

/-- Whether an event changes a stack or one of its scopes. -/
def Event.touches (t : StackId) : Event σ → Bool
  | .opened _ scope _ | .ended _ scope | .entered scope _ _ | .exited scope _ _ _ => scope.stack = t
  | .began s | .finished s => s = t
  | .moment _ _ | .refused _ _ _ _ | .started _ _ _ _ => false

namespace Store

variable {st st' st'' : Store} {scope : Scope} {i : ScopeId}

/-- A stack is as it was, and so are all scopes on it: those of programs, and those of the crossings
in progress and of the ones that have ended. -/
structure SameOn (t : StackId) (st st' : Store) : Prop where
  stack : ∀ now, st.stack? t = some now → st'.stack? t = some now
  scopes : ∀ i scope, scope.stack = t → (st'.scope? i = some scope ↔ st.scope? i = some scope)
  underway : st'.underway.filter (·.stack = t) = st.underway.filter (·.stack = t)
  ended : st'.ended.filter (·.stack = t) = st.ended.filter (·.stack = t)

namespace SameOn

theorem refl (t : StackId) (st : Store) : SameOn t st st :=
  ⟨fun _ h => h, fun _ _ _ => .rfl, rfl, rfl⟩

theorem trans (h : SameOn t st st') (h' : SameOn t st' st'') : SameOn t st st'' where
  stack now hnow := h'.stack now (h.stack now hnow)
  scopes i scope hs := (h'.scopes i scope hs).trans (h.scopes i scope hs)
  underway := h'.underway.trans h.underway
  ended := h'.ended.trans h.ended

theorem of_sameScopes (h : st.SameScopes st')
    (hs : ∀ now, st.stack? t = some now → st'.stack? t = some now) : SameOn t st st' where
  stack := hs
  scopes i scope _ := by rw [scope?, h.scopes]; rfl
  underway := by rw [h.underway]
  ended := by rw [h.ended]

end SameOn

theorem sameOn_modifyStack {f : Stack → Stack} (hne : s ≠ t) : SameOn t st (st.modifyStack s f) :=
  .of_sameScopes ⟨rfl, rfl, rfl⟩ fun now hnow => by rw [stack?_modifyStack, if_neg hne, hnow]

theorem Change.sameOn (h : st.Change st') : SameOn t st st' :=
  .of_sameScopes h.untouched.toSameScopes fun _ => h.stack_eq

theorem sameOn_restore (hne : scope.stack ≠ t) : SameOn t st (st.restore scope) := by
  unfold restore
  split
  · exact .refl t st
  · exact sameOn_modifyStack hne

/-- The scope of an entry is on the stack that enters, whose realms are all that it replaces. -/
theorem enter?_scope {home : RealmId} (h : st.enter? rule s home = some (.ok scope, st')) :
    scope.stack = s ∧ st.SameScopes st' ∧ (s ≠ t → SameOn t st st') := by
  have hstack : scope.stack = s := by
    simp only [enter?, Option.bind_eq_bind, Option.bind_eq_some_iff] at h
    obtain ⟨stack, -, engine, -, realm, -, h⟩ := h
    repeat' split at h
    all_goals cases h
    all_goals rfl
  obtain rfl | ⟨realm, rfl⟩ := enter?_eq h
  · exact ⟨hstack, ⟨rfl, rfl, rfl⟩, fun _ => .refl t st'⟩
  · exact ⟨hstack, ⟨rfl, rfl, rfl⟩, sameOn_modifyStack⟩

theorem sameOn_addScope (hne : scope.stack ≠ t) : SameOn t st (st.addScope scope) where
  stack _ h := h
  scopes i scope' hs := by
    rw [scope?_addScope]
    split
    · next hi =>
      -- the id is new, and the scope that it is given to is on another stack
      have hnone : st.scope? i = none := by
        rw [scope?, hi]
        exact Array.getElem?_eq_none (Nat.le_refl _)
      rw [hnone]
      constructor
      · rintro ⟨⟩
        exact absurd hs hne
      · intro h
        cases h
    · rfl
  underway := rfl
  ended := rfl

theorem sameOn_closeScope (hi : st.scope? i = some scope) (hne : scope.stack ≠ t) :
    SameOn t st (st.closeScope i scope) := by
  have hscopes : SameOn t st { st with scopes := st.scopes.modify i.index Scope.finish } :=
    { stack := fun _ h => h
      scopes := fun j scope' hs => by
        have hj := scope?_closeScope st i scope j
        rw [closeScope, scope?_restore] at hj
        rw [hj]
        split
        · next hij =>
          subst hij
          rw [hi]
          constructor
          · rintro ⟨⟩
            exact absurd hs hne
          · rintro ⟨⟩
            exact absurd hs hne
        · rfl
      underway := rfl
      ended := rfl }
  exact hscopes.trans (sameOn_restore hne)

theorem sameOn_beginCrossing (hne : scope.stack ≠ t) : SameOn t st (st.beginCrossing scope) where
  stack _ h := h
  scopes _ _ _ := .rfl
  underway := by rw [beginCrossing, List.filter_cons_of_neg (by simpa using hne)]
  ended := rfl

theorem sameOn_endCrossing {outer : List Scope} (hu : st.underway = scope :: outer)
    (hne : scope.stack ≠ t) : SameOn t st (st.endCrossing scope) := by
  have hlists : SameOn t st
      { st with underway := st.underway.tail, ended := scope.finish :: st.ended } :=
    { stack := fun _ h => h
      scopes := fun _ _ _ => .rfl
      underway := by rw [hu, List.tail_cons, List.filter_cons_of_neg (by simpa using hne)]
      ended := List.filter_cons_of_neg fun h => hne (of_decide_eq_true h) }
  exact hlists.trans (sameOn_restore hne)

theorem pushCall?_sameOn (h : st.pushCall? s = some (.ok st')) (hne : s ≠ t) :
    SameOn t st st' := by
  obtain ⟨now, engine, -, -, -, rfl⟩ := pushCall?_ok h
  exact sameOn_modifyStack hne

end Store

/-! ### Moments of a run -/

/-- Whatever crossings a course makes, it leaves them again. -/
theorem Course.underway_eq (h : Course rule s m es m') : m'.store.underway = m.store.underway := by
  induction h with
  | rest | moment | remembered | started | refused => rfl
  | append _ _ ih ih' => exact ih'.trans ih
  | changed _ hc _ => exact hc.untouched.underway
  | opened he => exact (Store.enter?_scope (t := s) he).2.1.underway
  | ended => exact Store.restore_sameScopes.underway
  | crossed he _ ih =>
    exact (Store.restore_sameScopes.underway.trans (congrArg List.tail ih)).trans
      (Store.enter?_scope (t := s) he).2.1.underway
  | abandoned hp _ ih | counted hp _ ih =>
    obtain ⟨_, _, -, -, -, rfl⟩ := Store.pushCall?_ok hp
    exact ih
  | onStack _ ih => exact ih

namespace Event

/-- The store at a moment. -/
def store? : Event σ → Option Store
  | .moment _ m => some m.store
  | _ => none

/-- The stores at the moments since a stack was touched last. -/
def since (t : StackId) (seen : List Store) (e : Event σ) : List Store :=
  if e.touches t then [] else e.store?.toList ++ seen

/-- A moment finds the stack as the moments since it was touched last did. -/
def Apart (t : StackId) (seen : List Store) (e : Event σ) : Prop :=
  ∀ now, e.store? = some now → ∀ st ∈ seen, st.SameOn t now

/-- An event that is no moment leaves a stack alone, or else is noted as touching it. -/
theorem sameOn_since {st st' : Store} (e : Event σ) (he : e.store? = none)
    (hseen : ∀ old ∈ seen, old.SameOn t st) (h : e.touches t = false → st.SameOn t st') :
    ∀ old ∈ e.since t seen, old.SameOn t st' := by
  rw [since, he]
  split
  · exact fun _ hold => nomatch hold
  · next ht => exact fun old hold => (hseen old hold).trans (h (Bool.eq_false_iff.mpr ht))

/-- While a stack is not touched, no moment is forgotten. -/
theorem mem_since {st : Store} (hes : ∀ e ∈ es, e.touches t = false) (hst : st ∈ seen) :
    st ∈ es.foldl (since t) seen := by
  induction es generalizing seen with
  | nil => exact hst
  | cons e es ih =>
    refine ih (fun e' he' => hes e' (List.mem_cons_of_mem _ he')) ?_
    rw [since, if_neg (Bool.eq_false_iff.mp (hes e List.mem_cons_self))]
    exact List.mem_append_right _ hst

end Event

/-- Each moment of a course finds a stack as the moments before did, up to the last event that
touched it; so does the end. -/
theorem Course.apart (h : Course rule s m es m') (hseen : ∀ st ∈ seen, st.SameOn t m.store) :
    Along (Event.since t) (Event.Apart t) seen es ∧
      ∀ st ∈ es.foldl (Event.since t) seen, st.SameOn t m'.store := by
  induction h generalizing seen with
  | rest | remembered => exact ⟨trivial, hseen⟩
  | append _ _ ih ih' =>
    obtain ⟨halong, hlast⟩ := ih hseen
    obtain ⟨halong', hlast'⟩ := ih' hlast
    exact ⟨along_append.mpr ⟨halong, halong'⟩, by rwa [List.foldl_append]⟩
  | moment s m =>
    refine ⟨⟨fun now hnow => ?_, trivial⟩, fun st hst => ?_⟩
    · cases hnow
      exact hseen
    · obtain rfl | hst := List.mem_cons.mp hst
      · exact .refl t _
      · exact hseen st hst
  | refused | started => exact ⟨⟨nofun, trivial⟩, hseen⟩
  | changed _ hc _ => exact ⟨trivial, fun st hst => (hseen st hst).trans hc.sameOn⟩
  | opened he =>
    refine ⟨⟨nofun, trivial⟩, Event.sameOn_since (.opened _ _ _) rfl hseen fun hne => ?_⟩
    obtain ⟨rfl, -, hsame⟩ := Store.enter?_scope (t := t) he
    have hne' := of_decide_eq_false hne
    exact (hsame hne').trans (Store.sameOn_addScope hne')
  | ended hi _ =>
    refine ⟨⟨nofun, trivial⟩, Event.sameOn_since (.ended _ _) rfl hseen fun hne => ?_⟩
    exact Store.sameOn_closeScope hi (of_decide_eq_false hne)
  | crossed he hbody ih =>
    obtain ⟨rfl, -, hsame⟩ := Store.enter?_scope (t := t) he
    obtain ⟨halong, hlast⟩ := ih <| Event.sameOn_since (.entered _ _ _) rfl hseen fun hne =>
      (hsame (of_decide_eq_false hne)).trans (Store.sameOn_beginCrossing (of_decide_eq_false hne))
    refine ⟨along_append.mpr ⟨⟨nofun, halong⟩, nofun, trivial⟩, ?_⟩
    rw [List.foldl_append]
    -- the body leaves its crossing innermost
    exact Event.sameOn_since (.exited _ _ _ _) rfl hlast fun hne =>
      Store.sameOn_endCrossing hbody.underway_eq (of_decide_eq_false hne)
  | abandoned hp _ ih =>
    obtain ⟨halong, hlast⟩ := ih <| Event.sameOn_since (.began _) rfl hseen fun hne =>
      Store.pushCall?_sameOn hp (of_decide_eq_false hne)
    exact ⟨⟨nofun, halong⟩, hlast⟩
  | counted hp _ ih =>
    obtain ⟨halong, hlast⟩ := ih <| Event.sameOn_since (.began _) rfl hseen fun hne =>
      Store.pushCall?_sameOn hp (of_decide_eq_false hne)
    refine ⟨along_append.mpr ⟨⟨nofun, halong⟩, nofun, trivial⟩, ?_⟩
    rw [List.foldl_append]
    exact Event.sameOn_since (.finished _) rfl hlast fun hne =>
      Store.sameOn_modifyStack (of_decide_eq_false hne)
  | onStack _ ih => exact ih hseen

/-- Between two moments of a course in which no event touches a stack, it stays as it is. -/
theorem Course.sameOn (h : Course rule s m es m') {before between after : List (Event σ)}
    {u v : StackId} {now later : Machine σ}
    (hes : es = before ++ .moment u now :: between ++ .moment v later :: after)
    (hbetween : ∀ e ∈ between, e.touches t = false) : now.store.SameOn t later.store := by
  have hnone : ∀ st ∈ ([] : List Store), st.SameOn t m.store := fun _ hold => nomatch hold
  obtain ⟨halong, -⟩ := h.apart hnone
  rw [hes] at halong
  refine halong.at _ rfl _ ?_
  rw [List.foldl_append, List.foldl_cons]
  exact Event.mem_since hbetween List.mem_cons_self

/-- A course that does not touch a stack leaves it as it is throughout. -/
theorem Course.sameOn_of_untouched (h : Course rule s m es m')
    (hes : ∀ e ∈ es, e.touches t = false) : m.store.SameOn t m'.store ∧
      ∀ u now, .moment u now ∈ es → m.store.SameOn t now.store := by
  have hstart : ∀ st ∈ [m.store], st.SameOn t m.store := by
    intro st hst
    obtain rfl := List.mem_singleton.mp hst
    exact .refl t m.store
  obtain ⟨halong, hlast⟩ := h.apart hstart
  refine ⟨hlast _ (Event.mem_since hes List.mem_cons_self), fun u now hnow => ?_⟩
  obtain ⟨before, after, rfl⟩ := List.append_of_mem hnow
  refine halong.at _ rfl _ (Event.mem_since (fun e he => ?_) List.mem_cons_self)
  exact hes e (List.mem_append_left _ he)

/-! ### Who touches a stack -/

/-- Events that touch a stack end a scope of it, or there is a moment of a program on it. -/
def Heralded (t : StackId) (es : List (Event σ)) : Prop :=
  ∀ e ∈ es, e.touches t = true → (∃ i scope, e = .ended i scope) ∨ ∃ now, .moment t now ∈ es

namespace Heralded

theorem nil (t : StackId) : Heralded t ([] : List (Event σ)) := fun _ he => nomatch he

theorem of_moment {now : Machine σ} (h : .moment t now ∈ es) : Heralded t es :=
  fun _ _ _ => .inr ⟨now, h⟩

theorem append (h : Heralded t es) (h' : Heralded t es') : Heralded t (es ++ es') := by
  intro e he ht
  obtain he | he := List.mem_append.mp he
  · exact (h e he ht).imp_right fun ⟨now, hnow⟩ => ⟨now, List.mem_append_left _ hnow⟩
  · exact (h' e he ht).imp_right fun ⟨now, hnow⟩ => ⟨now, List.mem_append_right _ hnow⟩

theorem singleton (h : e.touches t = true → ∃ i scope, e = .ended i scope) :
    Heralded t [e] := fun _ he ht => by
  obtain rfl := List.mem_singleton.mp he
  exact .inl (h ht)

theorem untouched (h : e.touches t = false) : Heralded t [e] :=
  singleton fun ht => absurd ht (Bool.eq_false_iff.mp h)

theorem follow {r : Outcome β × Machine σ} {events : β → Machine σ → List (Event σ)}
    (h : Heralded t es) (hk : ∀ b m, Heralded t (events b m)) :
    Heralded t (es ++ Outcome.follow r events) := by
  refine h.append ?_
  obtain ⟨outcome, m⟩ := r
  cases outcome with
  | done b => exact hk b m
  | panicked | outOfFuel => exact nil t

end Heralded

namespace Run

theorem acting_heralded (a : Action α) (hne : s ≠ t) :
    Heralded t (actingEvents rule a s m) := by
  cases a with
  | enter home =>
    rcases entering_cases home with ⟨-, he⟩ | ⟨e, -, he⟩ | ⟨scope, store, h, -, he⟩
    · exact he ▸ .nil t
    · exact he ▸ .nil t
    · obtain ⟨rfl, -⟩ := Store.enter?_scope (t := t) h
      exact he ▸ .untouched (decide_eq_false hne)
  | leave i =>
    rcases leaving_cases i with ⟨-, he⟩ | ⟨scope, -, -, -, he⟩
    · exact he ▸ .nil t
    · exact he ▸ .singleton fun _ => ⟨i, scope, rfl⟩
  | _ =>
    rcases acting_cases _ with ⟨-, he⟩ | ⟨answer, store, -, -, he⟩
    · exact he ▸ .nil t
    · exact he ▸ .nil t

theorem crossing_heralded {home : RealmId} {body : Run σ (Except Error α)} {events : Observed σ}
    (hne : s ≠ t) (hb : ∀ m, Heralded t (events s m)) :
    Heralded t (crossingEvents rule home body events s m) := by
  unfold crossingEvents
  split
  · exact .nil t
  · exact .untouched rfl
  · next scope store h =>
    obtain ⟨rfl, -⟩ := Store.enter?_scope (t := t) h
    refine ((Heralded.untouched ?_).append (hb _)).append (.untouched ?_)
    · exact decide_eq_false hne
    · exact decide_eq_false hne

theorem counted_heralded {body : Run σ (Except Error Value)} {events : Observed σ} (hne : s ≠ t)
    (hb : ∀ m, Heralded t (events s m)) : Heralded t (countedEvents body events s m) := by
  unfold countedEvents
  split
  · refine ((Heralded.untouched ?_).append (hb _)).follow fun _ _ => .untouched ?_
    · exact decide_eq_false hne
    · exact decide_eq_false hne
  · exact .nil t

theorem calling_heralded {invoke : Invocation σ} {observe : Observation σ} (callee : Value)
    (arguments : List Value) (hne : s ≠ t)
    (hb : ∀ c context (m : Machine σ), Heralded t (observe c context s m)) :
    Heralded t (callingEvents rule invoke observe callee arguments s m) := by
  rcases calling_cases invoke observe callee arguments with ⟨-, he⟩ | ⟨o, object, f, -, -, -, -, he⟩
  · exact he ▸ .nil t
  · exact he ▸ crossing_heralded hne fun m => counted_heralded hne fun m => hb _ _ m

end Run

namespace Program

theorem heraldedWith {invoke : Invocation σ} {observe : Observation σ}
    (hi : ∀ c context s (m : Machine σ), Heralded t (observe c context s m)) (p : Program σ α) :
    Heralded t (p.eventsWith rule invoke observe s m) := by
  induction p generalizing s m with
  | done | panic => exact .untouched rfl
  | recalling k ih => exact (Heralded.untouched rfl).append (ih m.memory)
  | remembering memory k ih => exact (Heralded.untouched rfl).append ih
  | reading r k ih => exact (Heralded.untouched rfl).follow fun a m => ih a
  | defining realm name location body k _ ih =>
    exact (Heralded.untouched rfl).follow fun o m => ih o
  | onStack u body k ihb ih =>
    exact ((Heralded.untouched rfl).append ihb).follow fun r m => ih r
  | guarding body k ihb ih =>
    exact ((Heralded.untouched rfl).append ihb).follow fun r m => ih r
  | acting a k ih =>
    by_cases hst : s = t
    · exact hst ▸ .of_moment List.mem_cons_self
    · exact ((Heralded.untouched rfl).append (Run.acting_heralded a hst)).follow fun b m => ih b
  | calling callee arguments k ih =>
    by_cases hst : s = t
    · exact hst ▸ .of_moment List.mem_cons_self
    · exact ((Heralded.untouched rfl).append
        (Run.calling_heralded callee arguments hst fun c context => hi c context s)).follow
          fun r m => ih r
  | crossing home origin body k ihb ih =>
    by_cases hst : s = t
    · exact hst ▸ .of_moment List.mem_cons_self
    · exact ((Heralded.untouched rfl).append (Run.crossing_heralded hst fun m => ihb)).follow
        fun r m => ih r

theorem observation_heralded (fuel : Nat) (c : CodeId) (context : CallContext) (s : StackId)
    (m : Machine σ) : Heralded t (observation rule fuel c context s m) := by
  induction fuel generalizing c context s m with
  | zero => exact .nil t
  | succ fuel ih =>
    simp only [observation]
    split
    · exact .nil t
    · exact (Heralded.untouched rfl).append (heraldedWith ih _)

/-- What touches a stack is the end of one of its scopes, or a program that runs there. -/
theorem heralded (fuel : Nat) (p : Program σ α) : Heralded t (p.events rule fuel s m) :=
  heraldedWith (observation_heralded fuel) p

end Program

/-! ### New stacks -/

/-- A new stack has the main realm of its engine active, and counts nothing yet. -/
theorem Store.Sound.newStack? {st : Store} (hst : st.Sound) {e : EngineId} {engine : Engine}
    (he : st.engine? e = some engine) : ∃ new now st', st.newStack? e = some (new, st') ∧
      st.stack? new = none ∧ st'.stack? new = some now ∧ now.engine = e ∧
      st.realm? (.main e) = some now.active ∧ now.switches = 0 ∧ now.depth = 0 := by
  obtain ⟨hengine, -, -⟩ := spawn_registers hst he
  have hg := hst.registry e engine he
  have hmain : engine.registry.realm? (.main e) = some engine.registry.main := by
    rw [Registry.realm?, if_pos (by simp [Registry.owns, RealmId.main, hg.engine])]
    exact Array.getElem?_eq_getElem engine.registry.size_pos
  have hnew : st.newStack? e = some (⟨st.callStacks.size⟩,
      { st with callStacks := st.callStacks.push (.spawn engine.registry) }) := by
    simp [Store.newStack?, he]
  refine ⟨_, .spawn engine.registry, _, hnew, ?_, ?_, hengine, ?_, rfl, rfl⟩
  · exact Array.getElem?_eq_none (Nat.le_refl _)
  · simp [Store.stack?]
  · exact realm?_eq_some.mpr ⟨engine, he, hmain⟩

/-- From one moment of a run to a later one, or to its end, a stack is as it was, with all scopes on
it, if no event in between touches it; panics and failures make no difference. A stack is touched
where a program runs on it, or ends one of its scopes. So a run that does neither leaves the stack
alone throughout. And a new stack starts in the main realm, whatever the others are at. -/
theorem stacks_apart (hm : m.Reachable rule) (fuel : Nat) (s t : StackId) (p : Program σ α) :
    (∀ before u now between v later after,
      p.events rule fuel s m ++ [.moment s (p.run rule fuel s m).2] =
        before ++ .moment u now :: between ++ .moment v later :: after →
      (∀ e ∈ between, e.touches t = false) → now.store.SameOn t later.store) ∧
    (∀ e ∈ p.events rule fuel s m, e.touches t = true →
      (∃ i scope, e = .ended i scope) ∨ ∃ now, .moment t now ∈ p.events rule fuel s m) ∧
    ((∀ now, .moment t now ∉ p.events rule fuel s m) →
      (∀ i scope, .ended i scope ∈ p.events rule fuel s m → scope.stack ≠ t) →
      m.store.SameOn t (p.run rule fuel s m).2.store ∧
        ∀ u now, .moment u now ∈ p.events rule fuel s m → m.store.SameOn t now.store) ∧
    ∀ e engine, m.store.engine? e = some engine → ∃ new now last,
      (Program.act (.newStack e)).run rule fuel s m = (.done new, last) ∧
      m.store.stack? new = none ∧ last.store.stack? new = some now ∧ now.engine = e ∧
      m.store.realm? (.main e) = some now.active ∧ now.switches = 0 ∧ now.depth = 0 := by
  have hcourse : Course rule s m _ _ := (p.course fuel hm.sound).append (.moment s _)
  refine ⟨fun _ _ _ _ _ _ _ hes => hcourse.sameOn hes, p.heralded fuel, fun hmoment hended => ?_,
    fun e engine he => ?_⟩
  · refine (p.course fuel hm.sound).sameOn_of_untouched fun e he => ?_
    refine Bool.eq_false_iff.mpr fun htouches => ?_
    obtain ⟨i, scope, rfl⟩ | ⟨now, hnow⟩ := p.heralded fuel e he htouches
    · exact hended i scope he (of_decide_eq_true htouches)
    · exact hmoment now hnow
  · obtain ⟨new, now, st, hnew, hnone, hnow, hengine, hmain, hcounts⟩ := hm.sound.newStack? he
    refine ⟨new, now, { m with store := st }, ?_, hnone, hnow, hengine, hmain, hcounts⟩
    refine (Outcome.andThen_done _).trans ?_
    simp only [Run.acting, Action.perform, hnew]

/-- Three stacks, the last one of another engine. A scope is open on the second stack. -/
def Machine.withThreeStacks : Machine Unit :=
  .prepared .shortcut (do
    let _ ← Program.twoRealms
    let _ ← Program.act (.newStack ⟨0⟩)
    let e ← Program.act (.newEngine .standard)
    let _ ← Program.act (.newStack e)
    Program.on ⟨1⟩ (Program.act (.enter ⟨⟨0⟩, 1⟩))) ()

/-- Panics in a crossing, after a body on the third stack has failed. -/
def Program.straddling : Program σ (Except String (Except Error Unit)) :=
  guard (cross ⟨⟨0⟩, 1⟩ ⟨"outer", none⟩ do
    let _ ← on ⟨2⟩ (cross (.main ⟨1⟩) ⟨"inner", none⟩
      (pure (.error (.of (.message "failed"))) : Program σ (Except Error Unit)))
    .panic "panicked")

theorem straddling_apart : Machine.withThreeStacks.Reachable .shortcut ∧
    (Machine.withThreeStacks.store.stack? ⟨1⟩).map (·.active.id) = some ⟨⟨0⟩, 1⟩ ∧
    Machine.withThreeStacks.store.SameOn ⟨1⟩
      (Program.straddling.run .shortcut 0 ⟨0⟩ Machine.withThreeStacks).2.store := by
  have hm : Machine.withThreeStacks.Reachable .shortcut := Machine.prepared_reachable ..
  have hbetween : ((Program.straddling.events .shortcut 0 ⟨0⟩ Machine.withThreeStacks).tail.all
      fun e => !e.touches ⟨1⟩) = true := by decide +kernel
  refine ⟨hm, by decide +kernel, ?_⟩
  refine (stacks_apart hm 0 ⟨0⟩ ⟨1⟩ Program.straddling).1 [] _ _ _ _ _ [] rfl fun e he => ?_
  simpa using List.all_eq_true.mp hbetween e he

end Realms
