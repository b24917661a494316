import Realms.Proofs.Course

/-! The count of calls in progress on a stack. Each call that began adds one and each call that
finished takes one off again; a panic takes nothing off. Main statement: after a caught panic the
count is up by the calls that began and did not finish, so a call that panics out of its body takes
room from all later calls. -/

namespace Realms

variable {σ α : Type} {rule : EntryRule} {s t : StackId} {d : Int} {st st' : Store}

/-- What an event adds to the count of calls in progress. -/
def Event.gain (s : StackId) : Event σ → Int
  | .began t => if t = s then 1 else 0
  | .finished t => if t = s then -1 else 0
  | _ => 0

/-- The calls of a stack that began, less those that finished. -/
def net (s : StackId) : List (Event σ) → Int
  | [] => 0
  | e :: es => e.gain s + net s es

@[simp] theorem net_nil : net s ([] : List (Event σ)) = 0 := rfl

@[simp] theorem net_cons (e : Event σ) (es : List (Event σ)) :
    net s (e :: es) = e.gain s + net s es := rfl

@[simp] theorem net_append (es es' : List (Event σ)) :
    net s (es ++ es') = net s es + net s es' := by
  induction es with
  | nil => simp
  | cons e es ih => rw [List.cons_append, net_cons, net_cons, ih, Int.add_assoc]

theorem foldl_gain (es : List (Event σ)) :
    es.foldl (fun d e => d + e.gain s) d = d + net s es := by
  induction es generalizing d with
  | nil => simp
  | cons e es ih => rw [List.foldl_cons, ih, net_cons, Int.add_assoc]

/-- A stack counts so many calls in progress. -/
def Store.Counts (st : Store) (s : StackId) (d : Int) : Prop :=
  ∃ now, st.stack? s = some now ∧ (now.depth : Int) = d

namespace Store.Counts

theorem nonneg (h : st.Counts s d) : 0 ≤ d := by
  obtain ⟨now, -, rfl⟩ := h
  omega

theorem of_stack?_eq (h : st.Counts s d) (hs : st'.stack? s = st.stack? s) : st'.Counts s d := by
  obtain ⟨now, hnow, hd⟩ := h
  exact ⟨now, hs.trans hnow, hd⟩

theorem modifyStack (h : st.Counts s d) (f : Stack → Stack)
    (hf : ∀ stack, (f stack).depth = stack.depth) : (st.modifyStack t f).Counts s d := by
  obtain ⟨now, hnow, hd⟩ := h
  rw [Counts, stack?_modifyStack, hnow]
  split
  · exact ⟨f now, rfl, by rw [hf, hd]⟩
  · exact ⟨now, rfl, hd⟩

theorem restore (h : st.Counts s d) (scope : Scope) : (st.restore scope).Counts s d := by
  unfold Store.restore
  split
  · exact h
  · exact h.modifyStack _ fun _ => rfl

theorem closeScope (h : st.Counts s d) {i : ScopeId} {scope : Scope} :
    (st.closeScope i scope).Counts s d := by
  have h' : Counts { st with scopes := st.scopes.modify i.index Scope.finish } s d := h
  exact h'.restore scope

theorem endCrossing (h : st.Counts s d) {scope : Scope} : (st.endCrossing scope).Counts s d := by
  have h' : Counts { st with underway := st.underway.tail, ended := scope.finish :: st.ended }
      s d := h
  exact h'.restore scope

theorem change (h : st.Counts s d) (hc : st.Change st') : st'.Counts s d := by
  obtain ⟨now, hnow, hd⟩ := h
  exact ⟨now, hc.stack_eq hnow, hd⟩

theorem entry (h : st.Counts s d) {now : Stack} {realm : Realm} {scope : Scope}
    (he : st.Entry t now realm scope st') : st'.Counts s d := by
  cases he with
  | stays => exact h
  | switches => exact h.modifyStack _ fun _ => rfl

theorem pushCall (h : st.Counts s d) (hp : st.pushCall? t = some (.ok st')) :
    st'.Counts s (d + if t = s then 1 else 0) := by
  obtain ⟨_, _, -, -, -, rfl⟩ := pushCall?_ok hp
  obtain ⟨now, hnow, hd⟩ := h
  rw [Counts, stack?_modifyStack, hnow]
  split
  · exact ⟨_, rfl, by push_cast; rw [hd]⟩
  · exact ⟨now, rfl, by rw [hd, Int.add_zero]⟩

/-- A count that is not zero goes down by one. -/
theorem popCall (h : st.Counts s d) (hd : t = s → 0 < d) :
    (st.popCall t).Counts s (d + if t = s then -1 else 0) := by
  obtain ⟨now, hnow, rfl⟩ := h
  rw [Counts, Store.popCall, stack?_modifyStack, hnow]
  split
  · next hts =>
    have := hd hts
    exact ⟨_, rfl, by simp only; omega⟩
  · exact ⟨now, rfl, by rw [Int.add_zero]⟩

end Store.Counts

/-- At each moment the count is what the events so far make it. -/
def Event.Tallies (s : StackId) (d : Int) : Event σ → Prop
  | .moment _ m => m.store.Counts s d
  | _ => True

/-- The count follows the events of a course, and at the end of it none is missing. -/
theorem Course.counts {m m' : Machine σ} {es : List (Event σ)} (h : Course rule t m es m')
    (hm : m.store.Sound) (hd : m.store.Counts s d) :
    Along (fun d e => d + e.gain s) (Event.Tallies s) d es ∧ 0 ≤ net s es ∧
      m'.store.Counts s (d + net s es) := by
  induction h generalizing d with
  | rest | remembered => simpa [Along] using hd
  | moment => simpa [Along, Event.Tallies, Event.gain] using hd
  | refused | started => simpa [Along, Event.Tallies, Event.gain] using hd
  | append h h' ih ih' =>
    obtain ⟨halong, hnet, hd'⟩ := ih hm hd
    obtain ⟨halong', hnet', hd''⟩ := ih' (h.sound hm) hd'
    refine ⟨along_append.mpr ⟨halong, by rwa [foldl_gain]⟩, ?_, ?_⟩
    · rw [net_append]; omega
    · rwa [net_append, ← Int.add_assoc]
  | changed code hc _ => simpa [Along] using hd.change hc
  | @opened _ _ _ scope store he =>
    obtain ⟨now, realm, -, rfl, -, hentry⟩ := hm.enter?_ok he
    have hd' : (store.addScope scope).Counts s d := (hd.entry hentry).of_stack?_eq rfl
    simpa [Along, Event.Tallies, Event.gain] using hd'
  | ended hi _ => simpa [Along, Event.Tallies, Event.gain] using hd.closeScope
  | @crossed _ _ _ _ scope store _ he _ ih =>
    obtain ⟨now, realm, -, rfl, hreg, hentry⟩ := hm.enter?_ok he
    have hd' : (store.beginCrossing scope).Counts s d := (hd.entry hentry).of_stack?_eq rfl
    obtain ⟨halong, hnet, hd''⟩ := ih ((hentry.sound hm hreg).beginCrossing scope) hd'
    simpa [Along, along_append, Event.Tallies, Event.gain] using ⟨halong, hnet, hd''.endCrossing⟩
  | @abandoned u _ _ _ _ hp _ ih =>
    obtain ⟨halong, hnet, hd'⟩ := ih (hm.pushCall hp) (hd.pushCall hp)
    rw [net_cons, Event.gain, ← Int.add_assoc]
    exact ⟨⟨trivial, halong⟩, by split <;> omega, hd'⟩
  | @counted u _ _ _ es hp _ ih =>
    obtain ⟨halong, hnet, hd'⟩ := ih (hm.pushCall hp) (hd.pushCall hp)
    have hpos := hd.nonneg
    have hlast := hd'.popCall (t := u) fun hu => by rw [if_pos hu]; omega
    have hsum : net s (.began u :: es ++ [.finished u]) = net s es := by
      simp only [net_append, net_cons, net_nil, Event.gain]
      split <;> omega
    rw [hsum]
    refine ⟨along_append.mpr ⟨⟨trivial, halong⟩, trivial, trivial⟩, hnet, ?_⟩
    rwa [show (d + if u = s then 1 else 0) + net s es + (if u = s then -1 else 0) = d + net s es by
      split <;> omega] at hlast
  | onStack _ ih => exact ih hm hd

/-! ### Calls that panic -/

/-- Either no call began on the stack, or one began that did not finish. -/
def Lossy (s : StackId) (es : List (Event σ)) : Prop :=
  .began s ∉ es ∧ net s es = 0 ∨ .began s ∈ es ∧ 0 < net s es

variable {m : Machine σ} {text : String}

theorem Lossy.net_eq_zero {es : List (Event σ)} (h : Lossy s es) :
    net s es = 0 ↔ .began s ∉ es := by
  obtain ⟨hb, hn⟩ | ⟨hb, hn⟩ := h
  · exact iff_of_true hn hb
  · exact iff_of_false (by omega) (by simpa using hb)

theorem Run.counted_lossy {body : Run σ (Except Error Value)} {events : Observed σ}
    (hb : ∀ store, m.store.pushCall? s = some (.ok store) → 0 ≤ net s (events s { m with store }))
    (hp : (Run.counted body s m).1 = .panicked text) :
    Lossy s (Run.countedEvents body events s m) := by
  rcases Run.counted_cases body events with ⟨-, he⟩ |
    ⟨store, result, last, -, -, hr, -⟩ | ⟨store, outcome, last, h, -, -, -, he⟩
  · rw [he]
    exact .inl ⟨by simp, rfl⟩
  · rw [hr] at hp
    cases hp
  · have hbody := hb store h
    rw [he]
    refine .inr ⟨List.mem_cons_self, ?_⟩
    rw [net_cons, Event.gain, if_pos rfl]
    omega

theorem Run.crossing_lossy {home : RealmId} {origin : Frame} {body : Run σ (Except Error α)}
    {events : Observed σ}
    (hb : ∀ scope store, m.store.enter? rule s home = some (.ok scope, store) →
      (body s { m with store := store.beginCrossing scope }).1 = .panicked text →
      Lossy s (events s { m with store := store.beginCrossing scope }))
    (hp : (Run.crossing rule home origin body s m).1 = .panicked text) :
    Lossy s (Run.crossingEvents rule home body events s m) := by
  rcases Run.crossing_cases home origin body events with
    ⟨-, he⟩ | ⟨e, -, -, he⟩ | ⟨scope, store, outcome, last, h, hbody, hr, he⟩
  · rw [he]
    exact .inl ⟨by simp, rfl⟩
  · rw [he]
    exact .inl ⟨by simp, rfl⟩
  · rw [hr] at hp
    have hlossy := hb scope store h (by rw [hbody]; exact Outcome.map_eq_panicked.mp hp)
    rw [he]
    simpa [Lossy, Event.gain] using hlossy

namespace Program

variable {callee : Value} {arguments : List Value} {fuel : Nat}

theorem guard_panicked {p : Program σ α} (h : (p.run rule fuel s m).1 = .panicked text) :
    (guard p).run rule fuel s m = (.done (.error text), (p.run rule fuel s m).2) := by
  have hrun : (guard p).run rule fuel s m =
      Outcome.andThen (Run.guarding (p.run rule fuel) s m) fun r m => (.done r, m) := rfl
  rw [hrun, Run.guarding]
  revert h
  generalize p.run rule fuel s m = r
  obtain ⟨outcome, last⟩ := r
  rintro rfl
  rfl

theorem calling_lossy (hm : m.store.Sound)
    (hp : (Run.calling rule (invocation rule fuel) callee arguments s m).1 = .panicked text) :
    Lossy s (Run.callingEvents rule (invocation rule fuel) (observation rule fuel) callee arguments
      s m) := by
  rcases Run.calling_cases (invocation rule fuel) (observation rule fuel) callee arguments with
    ⟨-, he⟩ | ⟨o, object, f, ho, hf, hr, -, he⟩
  · rw [he]
    exact .inl ⟨by simp, rfl⟩
  · rw [hr, Outcome.map_eq_panicked] at hp
    rw [he]
    refine Run.crossing_lossy (fun scope store he hp => ?_) hp
    obtain ⟨now, realm, hnow, hid, hreg, hentry⟩ := hm.enter?_ok he
    have hstart := (hentry.sound hm hreg).beginCrossing scope
    refine Run.counted_lossy (fun store' hpush => ?_) hp
    have hs := hstart.pushCall hpush
    obtain ⟨now', _, hnow', -, -, -⟩ := Store.pushCall?_ok hpush
    have hcourse : Course rule s { m with store := store' } _ _ :=
      invocation_course fuel f.code ⟨o, arguments⟩ hs (hentry.atHome hnow hid hpush ho hf)
    have hcounts : (store.beginCrossing scope).Counts s now'.depth := ⟨now', hnow', rfl⟩
    exact (hcourse.counts hs (hcounts.pushCall hpush)).2.1

theorem call_lossy (hm : m.store.Sound)
    (hp : ((call callee arguments).run rule fuel s m).1 = .panicked text) :
    Lossy s ((call callee arguments).events rule fuel s m) := by
  rw [call_run] at hp
  have hlossy := calling_lossy hm hp
  have hr : Run.calling rule (invocation rule fuel) callee arguments s m = (.panicked text, _) :=
    Prod.ext hp rfl
  rw [call_events, hr]
  simpa [Lossy, Event.gain, Outcome.follow] using hlossy

end Program

/-! ### The room that is left for calls -/

/-- A caught panic leaves the depth as it was exactly if the call had not begun to count. Otherwise
the call stays counted, and room for it is missing from then on. -/
theorem depth_after_panic {before : Stack} (hm : m.Reachable rule)
    (hs : m.store.stack? s = some before) (fuel : Nat) :
    (∀ callee arguments text,
      ((Program.call callee arguments).run rule fuel s m).1 = .panicked text →
      ∃ last after,
        (Program.guard (Program.call callee arguments)).run rule fuel s m =
          (.done (.error text), last) ∧
        last.store.stack? s = some after ∧
        (after.depth = before.depth ↔
          .began s ∉ (Program.call callee arguments).events rule fuel s m)) ∧
    ∀ {α : Type} (p : Program σ α), ∃ after engine,
      (p.run rule fuel s m).2.store.stack? s = some after ∧ m.store.engineOf? s = some engine ∧
      (after.depth : Int) = before.depth + net s (p.events rule fuel s m) ∧
      (∀ es es' t now, p.events rule fuel s m = es ++ .moment t now :: es' →
        ∃ stack, now.store.stack? s = some stack ∧
          (after.depth : Int) = stack.depth + net s es') ∧
      ((p.run rule fuel s m).2.store.pushCall? s =
          some (.error (.of (.exhausted after.depth))) ↔
        engine.settings.maxCallDepth ≤ before.depth + net s (p.events rule fuel s m)) := by
  have hcounts : m.store.Counts s before.depth := ⟨before, hs, rfl⟩
  constructor
  · intro callee arguments text hp
    have hcourse : Course rule s m _ _ := (Program.call callee arguments).course fuel hm.sound
    obtain ⟨-, -, after, hafter, hdepth⟩ := hcourse.counts hm.sound hcounts
    refine ⟨_, after, Program.guard_panicked hp, hafter, ?_⟩
    rw [← (Program.call_lossy hm.sound hp).net_eq_zero]
    omega
  · intro α p
    have hcourse : Course rule s m _ _ := p.course fuel hm.sound
    obtain ⟨hlong, -, after, hafter, hdepth⟩ := hcourse.counts hm.sound hcounts
    obtain ⟨engine, hengine, he⟩ := hm.sound.engineOf? hs
    obtain ⟨engine', he', hsettings⟩ := (hcourse.extends hm.sound).2.engineOf? hs hafter he
    refine ⟨after, engine, hafter, hengine, hdepth, ?_, ?_⟩
    · intro es es' t now hsplit
      rw [hsplit] at hlong hdepth
      obtain ⟨stack, hstack, hd⟩ := hlong.at
      refine ⟨stack, hstack, ?_⟩
      rw [foldl_gain] at hd
      rw [net_append, net_cons, show (Event.moment t now).gain s = 0 from rfl] at hdepth
      omega
    · rw [Store.pushCall?_refused hafter he', hsettings, ← hdepth]
      omega

/-- A machine with a stack and a function that panics. -/
def Machine.withBomb : Machine Unit :=
  .prepared .shortcut (do
    let _ ← Program.twoRealms
    Program.define (.main ⟨0⟩) "bomb" none fun _ => .panic "boom") ()

theorem depth_after_bomb : Machine.withBomb.Reachable .shortcut ∧
    ((Program.call (.object ⟨6⟩) []).run .shortcut 1 ⟨0⟩ Machine.withBomb).1 = .panicked "boom" ∧
    ∃ before last after, Machine.withBomb.store.stack? ⟨0⟩ = some before ∧
      (Program.guard (Program.call (.object ⟨6⟩) [])).run .shortcut 1 ⟨0⟩ Machine.withBomb =
        (.done (.error "boom"), last) ∧
      last.store.stack? ⟨0⟩ = some after ∧ (after.depth = before.depth ↔
        .began ⟨0⟩ ∉ (Program.call (.object ⟨6⟩) []).events .shortcut 1 ⟨0⟩ Machine.withBomb) := by
  have hm : Machine.withBomb.Reachable .shortcut := Machine.prepared_reachable ..
  have hp : ((Program.call (.object ⟨6⟩) []).run .shortcut 1 ⟨0⟩ Machine.withBomb).1 =
      .panicked "boom" := by decide +kernel
  have hs : (Machine.withBomb.store.stack? ⟨0⟩).isSome := by decide +kernel
  obtain ⟨before, hs⟩ := Option.isSome_iff_exists.mp hs
  obtain ⟨last, after, h⟩ := (depth_after_panic hm hs 1).1 (.object ⟨6⟩) [] "boom" hp
  exact ⟨hm, hp, before, last, after, hs, h⟩

/-- The caught panic of one call leaves the call counted. -/
theorem depth_not_restored : Machine.withBomb.Reachable .shortcut ∧
    ((Program.call (.object ⟨6⟩) []).run .shortcut 1 ⟨0⟩ Machine.withBomb).1 = .panicked "boom" ∧
    ((Program.guard (Program.call (.object ⟨6⟩) [])).run .shortcut 1 ⟨0⟩ Machine.withBomb).1 =
      .done (.error "boom") ∧
    (Machine.withBomb.store.stack? ⟨0⟩).map (·.depth) = some 0 ∧
    (((Program.guard (Program.call (.object ⟨6⟩) [])).run .shortcut 1 ⟨0⟩
      Machine.withBomb).2.store.stack? ⟨0⟩).map (·.depth) = some 1 :=
  ⟨Machine.prepared_reachable .., by decide +kernel, by decide +kernel, by decide +kernel,
    by decide +kernel⟩

end Realms
