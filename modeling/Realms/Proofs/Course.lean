import Realms.Proofs.Inversion

/-! What the events of a run and the machines before and after it have to do with each other, put
together from single steps and without the program that takes them. Main statement: each run of a
program on a sound store is such a course, however it ends. An invariant of all runs is then an
induction over courses, and so is a count of events. -/

namespace Realms

variable {σ α β : Type} {rule : EntryRule} {s : StackId} {m : Machine σ}

/-- A function of the given code is at home on a stack: its realm is the one that is active. -/
def Store.AtHome (st : Store) (s : StackId) (code : CodeId) (o : ObjectId) : Prop :=
  ∃ object f now, st.object? o = some object ∧ object.function? = some f ∧ f.code = code ∧
    st.stack? s = some now ∧ now.active.id = object.realm

inductive Course (rule : EntryRule) : StackId → Machine σ → List (Event σ) → Machine σ → Prop
  | rest (s : StackId) (m : Machine σ) : Course rule s m [] m
  | append {s : StackId} {m m' m'' : Machine σ} {es es' : List (Event σ)} :
      Course rule s m es m' → Course rule s m' es' m'' → Course rule s m (es ++ es') m''
  | moment (s : StackId) (m : Machine σ) : Course rule s m [.moment s m] m
  | remembered (s : StackId) (m : Machine σ) (memory : σ) : Course rule s m [] { m with memory }
  | changed {s : StackId} {m : Machine σ} {store : Store}
      (code : Array (CallContext → Program σ (Except Error Value))) : m.store.Change store →
      (∀ (i : Nat) body, m.code[i]? = some body → code[i]? = some body) →
      Course rule s m [] { m with store, code }
  | opened {s : StackId} {m : Machine σ} {home : RealmId} {scope : Scope} {store : Store} :
      m.store.enter? rule s home = some (.ok scope, store) →
      Course rule s m [.opened ⟨store.scopes.size⟩ scope m]
        { m with store := store.addScope scope }
  | ended {s : StackId} {m : Machine σ} {i : ScopeId} {scope : Scope} :
      m.store.scope? i = some scope → scope.finished = false →
      Course rule s m [.ended i scope] { m with store := m.store.closeScope i scope }
  | refused {s : StackId} {m : Machine σ} {home : RealmId} {e : Error} :
      m.store.enter? rule s home = some (.error e, m.store) →
      Course rule s m [.refused s home m m] m
  | crossed {s : StackId} {m last : Machine σ} {home : RealmId} {scope : Scope} {store : Store}
      {es : List (Event σ)} : m.store.enter? rule s home = some (.ok scope, store) →
      Course rule s { m with store := store.beginCrossing scope } es last →
      Course rule s m (.entered scope m { m with store := store.beginCrossing scope } :: es ++
        [.exited scope m last { last with store := last.store.endCrossing scope }])
        { last with store := last.store.endCrossing scope }
  | abandoned {s : StackId} {m last : Machine σ} {store : Store} {es : List (Event σ)} :
      m.store.pushCall? s = some (.ok store) → Course rule s { m with store } es last →
      Course rule s m (.began s :: es) last
  | counted {s : StackId} {m last : Machine σ} {store : Store} {es : List (Event σ)} :
      m.store.pushCall? s = some (.ok store) → Course rule s { m with store } es last →
      Course rule s m (.began s :: es ++ [.finished s])
        { last with store := last.store.popCall s }
  | started {s : StackId} {m : Machine σ} {code : CodeId} {context : CallContext} :
      m.store.AtHome s code context.function →
      Course rule s m [.started s code context m] m
  | onStack {s t : StackId} {m m' : Machine σ} {es : List (Event σ)} :
      Course rule t m es m' → Course rule s m es m'

theorem Course.extends {es : List (Event σ)} {m' : Machine σ} (h : Course rule s m es m')
    (hm : m.store.Sound) : m'.store.Sound ∧ m.store.Extends m'.store := by
  induction h with
  | rest | moment | remembered | started | refused => exact ⟨hm, .refl _⟩
  | append _ _ ih ih' =>
    obtain ⟨hs, he⟩ := ih hm
    obtain ⟨hs', he'⟩ := ih' hs
    exact ⟨hs', he.trans he'⟩
  | changed _ hc _ => exact ⟨hc.sound hm, hc.extends⟩
  | opened he =>
    obtain ⟨now, realm, hnow, rfl, hreg, hentry⟩ := hm.enter?_ok he
    refine ⟨(hentry.sound hm hreg).addScope _ fun r hr => ?_,
      hentry.extends.trans (Store.addScope_extends _)⟩
    exact (hentry.kept hm hnow r hr).extend hentry.extends
  | ended hi _ => exact ⟨hm.closeScope hi, Store.closeScope_extends _ _⟩
  | crossed he _ ih =>
    obtain ⟨now, realm, hnow, rfl, hreg, hentry⟩ := hm.enter?_ok he
    obtain ⟨hs, hbody⟩ := ih ((hentry.sound hm hreg).beginCrossing _)
    -- the realm put back was active at the entry, and stays registered while the body runs
    have hall := (hentry.extends.trans (Store.beginCrossing_extends _)).trans hbody
    refine ⟨hs.endCrossing _ fun r hr => ?_, hall.trans (Store.endCrossing_extends _)⟩
    exact (hentry.kept hm hnow r hr).extend hall
  | abandoned hp _ ih =>
    obtain ⟨hs, he⟩ := ih (hm.pushCall hp)
    exact ⟨hs, (Store.pushCall_extends hp).trans he⟩
  | counted hp _ ih =>
    obtain ⟨hs, he⟩ := ih (hm.pushCall hp)
    exact ⟨hs.popCall, ((Store.pushCall_extends hp).trans he).trans Store.popCall_extends⟩
  | onStack _ ih => exact ih hm

theorem Course.sound {es : List (Event σ)} {m' : Machine σ} (h : Course rule s m es m')
    (hm : m.store.Sound) : m'.store.Sound := (h.extends hm).1

/-- Bodies of functions are never lost or replaced. -/
theorem Course.code_mono {es : List (Event σ)} {m' : Machine σ} (h : Course rule s m es m')
    (i : Nat) (body : CallContext → Program σ (Except Error Value))
    (hi : m.code[i]? = some body) : m'.code[i]? = some body := by
  induction h with
  | rest | moment | remembered | started | refused | opened | ended => exact hi
  | append _ _ ih ih' => exact ih' (ih hi)
  | changed _ _ hcode => exact hcode i body hi
  | crossed _ _ ih | abandoned _ _ ih | counted _ _ ih | onStack _ ih => exact ih hi

theorem Course.next {es es' : List (Event σ)} {m' : Machine σ}
    (h : Course rule s m (es ++ es') m') : Course rule s m (.moment s m :: es ++ es') m' := by
  rw [List.cons_append, ← List.singleton_append]
  exact .append (.moment s m) h

theorem Course.follow {es : List (Event σ)} {r : Outcome α × Machine σ}
    {events : α → Machine σ → List (Event σ)} {run : α → Machine σ → Outcome β × Machine σ}
    (h : Course rule s m es r.2) (hm : m.store.Sound)
    (hk : ∀ a m', m'.store.Sound → Course rule s m' (events a m') (run a m').2) :
    Course rule s m (es ++ Outcome.follow r events) (Outcome.andThen r run).2 := by
  obtain ⟨outcome, m'⟩ := r
  cases outcome with
  | done a => exact h.append (hk a m' (h.sound hm))
  | panicked | outOfFuel => simpa [Outcome.follow, Outcome.andThen] using h

/-! ### The runs of programs -/

theorem Run.reading_course (r : Reading α) : Course rule s m [] (Run.reading r s m).2 := by
  unfold Run.reading
  split <;> exact .rest s m

theorem Run.defining_course (realm : RealmId) (name : String) (location : Option Location)
    (body : CallContext → Program σ (Except Error Value)) :
    Course rule s m [] (Run.defining realm name location body s m).2 := by
  unfold Run.defining
  split
  · exact .rest s m
  · next o store h =>
    refine .changed _ (Store.newFunction?_change h) fun i old hi => ?_
    have hlt := (Array.getElem?_eq_some_iff.mp hi).1
    rwa [Array.getElem?_push, if_neg (by omega)]

/-- A change that adds no code. -/
theorem Course.change {store : Store} (h : m.store.Change store) :
    Course rule s m [] { m with store } :=
  .changed m.code h fun _ _ hi => hi

/-- Whether an action enters or ends a scope. -/
def Action.holds : Action α → Bool
  | .enter _ | .leave _ => true
  | _ => false

theorem Action.perform_change {a : Action α} {answer : α} {st st' : Store}
    (h : a.perform rule s st = some (answer, st')) (ha : a.holds = false) : st.Change st' := by
  cases a with
  | newEngine settings => cases h; exact Store.newEngine_change settings
  | newRealm e name => exact Store.newRealm?_change h
  | newStack e => exact Store.newStack?_change h
  | newObject r => exact Store.newObject?_change h
  | newObjectHere => exact Store.newObjectOn?_change h
  | newForeign | newString | newSymbol => cases h; exact .quiet rfl rfl (.of_eq ⟨rfl, rfl, rfl⟩ rfl)
  | setProperty o name v => exact Store.setProperty?_change h
  | setGlobal name v => exact Store.setGlobal?_change h
  | isObject v => exact (Store.isObject?_noted h).change
  | isCallable v => exact (Store.isCallable?_noted h).change
  | typeTag v => exact (Store.typeTag?_noted h).change
  | read target name => exact (Store.read?_noted h).change
  | enter home => cases ha
  | leave i => cases ha

theorem Run.acting_course (a : Action α) :
    Course rule s m (Run.actingEvents rule a s m) (Run.acting rule a s m).2 := by
  cases a with
  | enter home =>
    rcases Run.entering_cases home with ⟨hr, he⟩ | ⟨e, hr, he⟩ | ⟨scope, store, h, hr, he⟩
    · rw [hr, he]
      exact .rest s m
    · rw [hr, he]
      exact .rest s m
    · rw [hr, he]
      exact .opened h
  | leave i =>
    rcases Run.leaving_cases i with ⟨hr, he⟩ | ⟨scope, hscope, hf, hr, he⟩
    · rw [hr, he]
      exact .rest s m
    · rw [hr, he]
      exact .ended hscope hf
  | _ =>
    rcases Run.acting_cases _ with ⟨hr, he⟩ | ⟨answer, store, h, hr, he⟩
    · rw [hr, he]
      exact .rest s m
    · rw [hr, he]
      exact .change (Action.perform_change h rfl)

theorem Run.crossing_course {home : RealmId} (origin : Frame) {body : Run σ (Except Error α)}
    {events : Observed σ} (hm : m.store.Sound)
    (hb : ∀ scope store now realm, m.store.Entry s now realm scope store → realm.id = home →
      m.store.stack? s = some now → (store.beginCrossing scope).Sound →
      Course rule s { m with store := store.beginCrossing scope }
        (events s { m with store := store.beginCrossing scope })
        (body s { m with store := store.beginCrossing scope }).2) :
    Course rule s m (Run.crossingEvents rule home body events s m)
      (Run.crossing rule home origin body s m).2 := by
  rcases Run.crossing_cases home origin body events with
    ⟨hr, he⟩ | ⟨e, h, hr, he⟩ | ⟨scope, store, outcome, last, h, hbody, hr, he⟩
  · rw [hr, he]
    exact .rest s m
  · rw [hr, he]
    exact .refused h
  · obtain ⟨now, realm, hnow, hid, hreg, hentry⟩ := hm.enter?_ok h
    have hcourse := hb scope store now realm hentry hid hnow
      ((hentry.sound hm hreg).beginCrossing scope)
    rw [hbody] at hcourse
    rw [hr, he]
    exact .crossed h hcourse

theorem Run.counted_course {body : Run σ (Except Error Value)} {events : Observed σ}
    (hb : ∀ store, m.store.pushCall? s = some (.ok store) →
      Course rule s { m with store } (events s { m with store }) (body s { m with store }).2) :
    Course rule s m (Run.countedEvents body events s m) (Run.counted body s m).2 := by
  rcases Run.counted_cases body events with ⟨hr, he⟩ |
    ⟨store, result, last, hp, hbody, hr, he⟩ | ⟨store, outcome, last, hp, hbody, hr, -, he⟩
  · rw [hr, he]
    exact .rest s m
  · have hcourse := hb store hp
    rw [hbody] at hcourse
    rw [hr, he]
    exact .counted hp hcourse
  · have hcourse := hb store hp
    rw [hbody] at hcourse
    rw [hr, he]
    exact .abandoned hp hcourse

/-- Neither the entry nor the count touches objects, and the entry has the home realm active. -/
theorem Store.Entry.atHome {st st' st'' : Store} {now : Stack} {realm : Realm} {scope : Scope}
    {o : ObjectId} {object : Object} {f : Function} (h : st.Entry s now realm scope st')
    (hnow : st.stack? s = some now) (hid : realm.id = object.realm)
    (hp : (st'.beginCrossing scope).pushCall? s = some (.ok st''))
    (ho : st.object? o = some object) (hf : object.function? = some f) :
    st''.AtHome s f.code o := by
  obtain ⟨now', hnow', hactive⟩ := h.active hnow
  obtain ⟨now'', engine, hnow'', -, -, rfl⟩ := Store.pushCall?_ok hp
  obtain rfl : now' = now'' := Option.some.inj (hnow'.symm.trans hnow'')
  refine ⟨object, f, { now' with depth := now'.depth + 1 }, ?_, hf, rfl, ?_, ?_⟩
  · cases h <;> exact ho
  · rw [Store.stack?_modifyStack, if_pos rfl, hnow'']
    rfl
  · exact (congrArg Realm.id hactive).trans hid

theorem Run.calling_course {invoke : Invocation σ} {observe : Observation σ} (callee : Value)
    (arguments : List Value) (hm : m.store.Sound)
    (hi : ∀ c context s (m : Machine σ), m.store.Sound → m.store.AtHome s c context.function →
      Course rule s m (observe c context s m) (invoke c context s m).2) :
    Course rule s m (Run.callingEvents rule invoke observe callee arguments s m)
      (Run.calling rule invoke callee arguments s m).2 := by
  rcases Run.calling_cases invoke observe callee arguments with
    ⟨hr, he⟩ | ⟨o, object, f, ho, hf, -, hr, he⟩
  · rw [hr, he]
    exact .rest s m
  · rw [hr, he]
    refine Run.crossing_course object.frame hm fun scope store now realm hentry hid hnow hs => ?_
    refine Run.counted_course fun store' hp => ?_
    exact hi _ _ _ _ (hs.pushCall hp) (hentry.atHome hnow hid hp ho hf)

namespace Program

theorem courseWith {invoke : Invocation σ} {observe : Observation σ}
    (hi : ∀ c context s (m : Machine σ), m.store.Sound → m.store.AtHome s c context.function →
      Course rule s m (observe c context s m) (invoke c context s m).2)
    (p : Program σ α) (hm : m.store.Sound) :
    Course rule s m (p.eventsWith rule invoke observe s m) (p.runWith rule invoke s m).2 := by
  induction p generalizing s m with
  | done | panic => exact .moment s m
  | recalling k ih => exact .append (.moment s m) (ih _ hm)
  | remembering memory k ih =>
    exact .append (.moment s m) (.append (.remembered s m memory) (ih hm))
  | reading r k ih =>
    exact .append (.moment s m) (.follow (Run.reading_course r) hm fun a _ => ih a)
  | acting a k ih => exact (Course.follow (Run.acting_course a) hm fun b _ => ih b).next
  | defining realm name location body k _ ih =>
    exact .append (.moment s m)
      (.follow (Run.defining_course realm name location body) hm fun o _ => ih o)
  | calling callee arguments k ih =>
    exact (Course.follow (Run.calling_course callee arguments hm hi) hm fun r _ => ih r).next
  | crossing home origin body k ihb ih =>
    refine (Course.follow (Run.crossing_course origin hm ?_) hm fun r _ => ih r).next
    exact fun _ _ _ _ _ _ _ hs => ihb hs
  | onStack t body k ihb ih =>
    exact (Course.follow (.onStack (ihb hm)) hm fun r _ => ih r).next
  | guarding body k ihb ih =>
    refine (Course.follow ?_ hm fun r _ => ih r).next
    rw [Run.guarding_machine]
    exact ihb hm

theorem invocation_course (fuel : Nat) (c : CodeId) (context : CallContext)
    (hm : m.store.Sound) (hh : m.store.AtHome s c context.function) :
    Course rule s m (observation rule fuel c context s m)
      (invocation rule fuel c context s m).2 := by
  induction fuel generalizing c context s m with
  | zero => exact .rest s m
  | succ fuel ih =>
    simp only [observation, invocation]
    cases m.code[c.index]? with
    | none => exact .rest s m
    | some body =>
      refine .append (.started hh) (courseWith ?_ (body context) hm)
      intro c context s m hm hh
      exact ih c context hm hh

/-- A run and its events are a course. -/
theorem course (fuel : Nat) (p : Program σ α) (hm : m.store.Sound) :
    Course rule s m (p.events rule fuel s m) (p.run rule fuel s m).2 :=
  p.courseWith (fun c context _ _ => invocation_course fuel c context) hm

end Program

/-! ### What each event says -/

/-- What an event says of the machines in it. -/
def Event.Lawful : Event σ → Prop
  | .moment _ m => m.store.Sound
  | .opened _ scope before => before.store.Sound ∧ ∃ now realm store,
    before.store.stack? scope.stack = some now ∧ before.store.Registers scope.stack realm ∧
      before.store.Entry scope.stack now realm scope store
  | .entered scope before start => before.store.Sound ∧ ∃ now realm store,
    before.store.stack? scope.stack = some now ∧ before.store.Registers scope.stack realm ∧
      before.store.Entry scope.stack now realm scope store ∧
      start = { before with store := store.beginCrossing scope }
  | .exited scope before last after => before.store.Sound ∧ last.store.Sound ∧
    before.store.Extends last.store ∧ (∃ now realm store,
      before.store.stack? scope.stack = some now ∧ before.store.Registers scope.stack realm ∧
      before.store.Entry scope.stack now realm scope store) ∧
      after = { last with store := last.store.endCrossing scope }
  | .refused _ _ before after => after = before
  | .started s code context start =>
    start.store.Sound ∧ start.store.AtHome s code context.function
  | .ended _ _ | .began _ | .finished _ => True

theorem Event.Lawful.exited {scope : Scope} {before last after : Machine σ}
    (h : (Event.exited scope before last after).Lawful) :
    after.store.Sound ∧ before.store.Extends after.store := by
  obtain ⟨hm, hlast, hext, ⟨now, realm, store, hnow, -, hentry⟩, rfl⟩ := h
  refine ⟨hlast.endCrossing _ fun r hr => ?_, hext.trans (Store.endCrossing_extends _)⟩
  exact (hentry.kept hm hnow r hr).extend hext

theorem Course.lawful {es : List (Event σ)} {m' : Machine σ} (h : Course rule s m es m')
    (hm : m.store.Sound) : ∀ e ∈ es, e.Lawful := by
  induction h with
  | rest | remembered | changed => simp
  | append h h' ih ih' =>
    intro e he
    exact (List.mem_append.mp he).elim (ih hm e) (ih' (h.sound hm) e)
  | moment => simpa [Event.Lawful] using hm
  | ended => simp [Event.Lawful]
  | refused => simp [Event.Lawful]
  | started hh => simpa [Event.Lawful] using ⟨hm, hh⟩
  | opened he =>
    obtain ⟨now, realm, hnow, rfl, hreg, hentry⟩ := hm.enter?_ok he
    obtain ⟨rfl, -, -⟩ := hentry.scope_eq
    intro e hmem
    obtain rfl := List.mem_singleton.mp hmem
    exact ⟨hm, now, realm, _, hnow, hreg, hentry⟩
  | crossed he hb ih =>
    obtain ⟨now, realm, hnow, rfl, hreg, hentry⟩ := hm.enter?_ok he
    obtain ⟨rfl, -, -⟩ := hentry.scope_eq
    have hstart := (hentry.sound hm hreg).beginCrossing
    obtain ⟨hlast, hbody⟩ := hb.extends (hstart _)
    have hall := (hentry.extends.trans (Store.beginCrossing_extends _)).trans hbody
    intro e hmem
    simp only [List.cons_append, List.mem_cons, List.mem_append, List.not_mem_nil, or_false] at hmem
    obtain rfl | hmem | rfl := hmem
    · exact ⟨hm, now, realm, _, hnow, hreg, hentry, rfl⟩
    · exact ih (hstart _) e hmem
    · exact ⟨hm, hlast, hall, ⟨now, realm, _, hnow, hreg, hentry⟩, rfl⟩
  | abandoned hp _ ih =>
    intro e he
    obtain rfl | he := List.mem_cons.mp he
    · trivial
    · exact ih (hm.pushCall hp) e he
  | counted hp _ ih =>
    intro e hmem
    simp only [List.cons_append, List.mem_cons, List.mem_append, List.not_mem_nil, or_false] at hmem
    obtain rfl | hmem | rfl := hmem
    · trivial
    · exact ih (hm.pushCall hp) e hmem
    · trivial
  | onStack _ ih => exact ih hm

namespace Machine

theorem Reachable.sound (h : m.Reachable rule) : m.store.Sound := by
  induction h with
  | start => exact Store.empty_sound
  | run fuel p s _ ih => exact (p.course fuel ih).sound ih
  | moment fuel p s _ hmem ih => exact (p.course fuel ih).lawful ih _ hmem

end Machine

end Realms
