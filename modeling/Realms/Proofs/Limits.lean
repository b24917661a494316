import Mathlib.Data.List.Forall2
import Realms.Proofs.InProgress
import Realms.Proofs.Raised

/-! Runs with more room for nested calls. The limit of an engine makes a difference where a call is
refused and nowhere else, since programs do not look at it here. Main statement: when no call is
refused in a run, the run with higher limits takes the same steps, comes to the same answer or
error, and passes through stores that are the same but for the limits. -/

namespace Realms

variable {σ α β : Type} {rule : EntryRule} {s : StackId} {fuel : Nat} {m m' : Machine σ}
  {st st' : Store}

namespace Machine.Raised

theorem withStore (h : m.Raised m') (hs : st.Raised st') :
    Machine.Raised { m with store := st } { m' with store := st' } :=
  ⟨hs, h.code, h.memory⟩

end Machine.Raised

/-- Two runs come to the same, by the same events, and leave a machine with higher limits in the
second case. -/
structure Abreast (r r' : Outcome α × Machine σ) (es es' : List (Event σ)) : Prop where
  outcome : r'.1 = r.1
  machine : r.2.Raised r'.2
  events : List.Forall₂ Event.Raised es es'

namespace Abreast

variable {r r' : Outcome β × Machine σ} {es es' : List (Event σ)}

theorem of_machine (outcome : Outcome α) (h : m.Raised m') :
    Abreast (outcome, m) (outcome, m') [] [] :=
  ⟨rfl, h, .nil⟩

theorem cons (h : Abreast r r' es es') {e e' : Event σ} (he : e.Raised e') :
    Abreast r r' (e :: es) (e' :: es') :=
  ⟨h.outcome, h.machine, .cons he h.events⟩

theorem follow {run run' : β → Machine σ → Outcome α × Machine σ}
    {events events' : β → Machine σ → List (Event σ)} (h : Abreast r r' es es')
    (hk : ∀ b now now', r = (.done b, now) → now.Raised now' →
      Abreast (run b now) (run' b now') (events b now) (events' b now')) :
    Abreast (Outcome.andThen r run) (Outcome.andThen r' run') (es ++ Outcome.follow r events)
      (es' ++ Outcome.follow r' events') := by
  obtain ⟨outcome, last⟩ := r
  obtain ⟨outcome', last'⟩ := r'
  obtain ⟨rfl, hlast, hes⟩ := h
  cases outcome' with
  | done b =>
    obtain ⟨hr, hm, hevents⟩ := hk b last last' rfl hlast
    exact ⟨hr, hm, List.rel_append hes hevents⟩
  | panicked | outOfFuel => exact ⟨rfl, hlast, List.rel_append hes .nil⟩

theorem guarding {body body' : Run σ α} (h : Abreast (body s m) (body' s m') es es') :
    Abreast (Run.guarding body s m) (Run.guarding body' s m') es es' := by
  obtain ⟨hr, hm, hes⟩ := h
  unfold Run.guarding
  cases hb : body s m with
  | mk outcome last =>
    cases hb' : body' s m' with
    | mk outcome' last' =>
      rw [hb, hb'] at hr hm
      obtain rfl : outcome' = outcome := hr
      cases outcome' <;> exact ⟨rfl, hm, hes⟩

end Abreast

/-! ### Single operations -/

namespace Run

theorem actingEvents_raised {a b : Action α} (ha : a.Raised b) {answer : α} (hm : m.Raised m')
    (hs : st.Raised st') :
    List.Forall₂ Event.Raised (a.events answer m st) (b.events answer m' st') := by
  cases ha with
  | newEngine => exact .nil
  | same =>
    cases a with
    | enter home =>
      cases answer with
      | error e => exact .nil
      | ok i =>
        simp only [Action.events, hs.scope?]
        cases st.scope? i with
        | none => exact .nil
        | some scope => exact .cons (.opened i scope hm) .nil
    | leave i =>
      simp only [Action.events, hm.store.scope?]
      cases (m.store.scope? i).filter (!·.finished) with
      | none => exact .nil
      | some scope => exact .cons (.ended i scope) .nil
    | _ => exact .nil

theorem acting_abreast {a b : Action α} (ha : a.Raised b) (hm : m.Raised m') :
    Abreast (acting rule a s m) (acting rule b s m') (actingEvents rule a s m)
      (actingEvents rule b s m') := by
  unfold acting actingEvents
  rcases rel_cases (ha.perform hm.store) with
    ⟨h, h'⟩ | ⟨⟨answer, next⟩, ⟨answer', next'⟩, h, h', rfl, hnext⟩
  · rw [h, h']
    exact .of_machine _ hm
  · rw [h, h']
    exact ⟨rfl, hm.withStore hnext, actingEvents_raised ha hm hnext⟩

theorem defining_abreast {realm : RealmId} {name : String} {location : Option Location}
    {body body' : CallContext → Program σ (Except Error Value)}
    (hb : ∀ c, (body c).Raised (body' c)) (hm : m.Raised m') :
    Abreast (defining realm name location body s m) (defining realm name location body' s m') []
      [] := by
  unfold defining
  rw [hm.code.size_eq]
  rcases rel_cases (hm.store.newFunction? realm ⟨name, location, ⟨m.code.size⟩⟩) with
    ⟨h, h'⟩ | ⟨⟨o, next⟩, ⟨o', next'⟩, h, h', rfl, hnext⟩
  · rw [h, h']
    exact .of_machine _ hm
  · rw [h, h']
    exact .of_machine _ ⟨hnext, hm.code.push hb, hm.memory⟩

theorem crossing_abreast {home : RealmId} {origin : Frame} {body body' : Run σ (Except Error α)}
    {events events' : Observed σ} (hm : m.Raised m')
    (hb : ∀ scope store start', m.store.enter? rule s home = some (.ok scope, store) →
      Machine.Raised { m with store := store.beginCrossing scope } start' →
      Abreast (body s { m with store := store.beginCrossing scope }) (body' s start')
        (events s { m with store := store.beginCrossing scope }) (events' s start')) :
    Abreast (crossing rule home origin body s m) (crossing rule home origin body' s m')
      (crossingEvents rule home body events s m) (crossingEvents rule home body' events' s m') := by
  unfold crossing crossingEvents
  rcases rel_cases (hm.store.enter? home) with
    ⟨h, h'⟩ | ⟨⟨result, next⟩, ⟨result', next'⟩, h, h', rfl, hnext⟩
  · rw [h, h']
    exact .of_machine _ hm
  · rw [h, h']
    cases result' with
    | error e =>
      have hafter := hm.withStore hnext
      exact ⟨rfl, hafter, .cons (.refused s home hm hafter) .nil⟩
    | ok scope =>
      have hstart := hm.withStore (hnext.beginCrossing scope)
      obtain ⟨houtcome, hlast, hevents⟩ := hb scope next _ h hstart
      have hafter := hlast.withStore (hlast.store.endCrossing scope)
      refine ⟨congrArg (Outcome.map _) houtcome, hafter, .cons (.entered scope hm hstart) ?_⟩
      exact List.rel_append hevents (.cons (.exited scope hm hlast hafter) .nil)

theorem counted_abreast {body body' : Run σ (Except Error Value)} {events events' : Observed σ}
    (hm : m.Raised m') (hp : ∀ e, m.store.pushCall? s ≠ some (.error e))
    (hb : ∀ counted start', m.store.pushCall? s = some (.ok counted) →
      Machine.Raised { m with store := counted } start' →
      Abreast (body s { m with store := counted }) (body' s start')
        (events s { m with store := counted }) (events' s start')) :
    Abreast (counted body s m) (counted body' s m') (countedEvents body events s m)
      (countedEvents body' events' s m') := by
  unfold counted countedEvents
  rcases rel_cases (hm.store.pushCall? s) with ⟨h, h'⟩ | ⟨result, result', h, h', hnext⟩
  · rw [h, h']
    exact .of_machine _ hm
  · cases result with
    | error e => exact absurd h (hp e)
    | ok counted =>
      obtain ⟨counted', rfl, hcounted⟩ := hnext counted rfl
      rw [h, h']
      refine ((hb counted _ h (hm.withStore hcounted)).cons (.began s)).follow ?_
      intro result now now' _ hnow
      refine ⟨rfl, hnow.withStore (hnow.store.modifyStack _), .cons (.finished s) .nil⟩

theorem calling_abreast {invoke invoke' : Invocation σ} {observe observe' : Observation σ}
    {callee : Value} {arguments : List Value} (hm : m.Raised m')
    (hp : ∀ o object f scope store e, callee = .object o → m.store.object? o = some object →
      object.function? = some f → m.store.enter? rule s object.realm = some (.ok scope, store) →
      (store.beginCrossing scope).pushCall? s ≠ some (.error e))
    (hb : ∀ o object f scope store counted start', callee = .object o →
      m.store.object? o = some object → object.function? = some f →
      m.store.enter? rule s object.realm = some (.ok scope, store) →
      (store.beginCrossing scope).pushCall? s = some (.ok counted) →
      Machine.Raised { m with store := counted } start' →
      Abreast (invoke f.code ⟨o, arguments⟩ s { m with store := counted })
        (invoke' f.code ⟨o, arguments⟩ s start')
        (observe f.code ⟨o, arguments⟩ s { m with store := counted })
        (observe' f.code ⟨o, arguments⟩ s start')) :
    Abreast (calling rule invoke callee arguments s m) (calling rule invoke' callee arguments s m')
      (callingEvents rule invoke observe callee arguments s m)
      (callingEvents rule invoke' observe' callee arguments s m') := by
  have hrefuse : Abreast (refusing callee s m : Outcome (Except Error Value) × Machine σ)
      (refusing callee s m') [] [] := by
    rw [refusing, refusing, hm.store.typeName]
    exact .of_machine _ hm
  cases callee with
  | object o =>
    simp only [calling, callingEvents, hm.store.object?]
    cases ho : m.store.object? o with
    | none => exact .of_machine _ hm
    | some object =>
      cases hf : object.function? with
      | none => simpa only [hf] using hrefuse
      | some f =>
        have hcross : Abreast (crossing rule object.realm object.frame _ s m) _ _ _ :=
          crossing_abreast hm fun scope store start' he hstart => counted_abreast hstart
            (fun e => hp o object f scope store e rfl ho hf he)
            fun counted start' hcount =>
              hb o object f scope store counted start' rfl ho hf he hcount
        simp only [hf]
        exact ⟨congrArg (Outcome.map _) hcross.outcome, hcross.machine, hcross.events⟩
  | _ => exact hrefuse

/-- What comes after a reading may be told of different limits. -/
theorem reading_abreast {r : Reading β} {run run' : β → Machine σ → Outcome α × Machine σ}
    {events events' : β → Machine σ → List (Event σ)} (hm : m.Raised m')
    (hk : ∀ a b, reading r s m = (.done a, m) → r.Raised a b →
      Abreast (run a m) (run' b m') (events a m) (events' b m')) :
    Abreast (Outcome.andThen (reading r s m) run) (Outcome.andThen (reading r s m') run')
      (Outcome.follow (reading r s m) events) (Outcome.follow (reading r s m') events') := by
  unfold reading at hk ⊢
  rcases rel_cases (r.eval_raised hm.store) with ⟨h, h'⟩ | ⟨a, b, h, h', hab⟩
  · rw [h, h']
    exact .of_machine _ hm
  · rw [h] at hk ⊢
    rw [h']
    exact hk a b rfl hab

end Run

/-! ### Whole runs -/

namespace Stage

variable {g : Stage σ α} {g' : Stage σ β} {path : List Layer}

/-- The stage is about to call a function, and there is no room for the call. -/
inductive Exhausts (rule : EntryRule) : {α : Type} → Stage σ α → Prop
  | calling {α : Type} {fuel : Nat} {s : StackId} {m : Machine σ} {o : ObjectId}
      {arguments : List Value} {k : Except Error Value → Program σ α} {object : Object}
      {f : Function} {scope : Scope} {store : Store} {e : Error} :
      m.store.object? o = some object → object.function? = some f →
      m.store.enter? rule s object.realm = some (.ok scope, store) →
      (store.beginCrossing scope).pushCall? s = some (.error e) →
      Exhausts rule ⟨fuel, s, m, .calling (.object o) arguments k⟩

/-- No call is refused in the run for want of room. -/
def Unrefused (rule : EntryRule) (g : Stage σ α) : Prop :=
  ∀ (β : Type) (path : List Layer) (g' : Stage σ β), Part rule g path g' → ¬ g'.Exhausts rule

theorem Unrefused.part (h : g.Unrefused rule) (hp : Part rule g path g') : g'.Unrefused rule :=
  fun β path' g'' hp' => h β (path ++ path') g'' (hp.trans hp')

theorem Unrefused.opens {layers : List Layer} (h : g.Unrefused rule) (ho : Opens rule g layers g') :
    g'.Unrefused rule :=
  h.part (.inside ho (.here g'))

theorem Unrefused.rest {p p' : Program σ α} (h : Unrefused rule ⟨fuel, s, m, p⟩)
    (hn : p.next? rule fuel s m = some (m', p')) : Unrefused rule ⟨fuel, s, m', p'⟩ :=
  h.part (.next hn (.here _))

end Stage

open Stage

namespace Program

theorem invocation_abreast {c : CodeId} {context : CallContext} (hm : m.Raised m')
    (hb : ∀ n (body body' : CallContext → Program σ (Except Error Value)), fuel = n + 1 →
      m.code[c.index]? = some body → (∀ c, (body c).Raised (body' c)) →
      Abreast ((body context).run rule n s m) ((body' context).run rule n s m')
        ((body context).events rule n s m) ((body' context).events rule n s m')) :
    Abreast (invocation rule fuel c context s m) (invocation rule fuel c context s m')
      (observation rule fuel c context s m) (observation rule fuel c context s m') := by
  cases fuel with
  | zero => exact .of_machine _ hm
  | succ n =>
    simp only [invocation, observation]
    rcases rel_cases (hm.code c.index) with ⟨h, h'⟩ | ⟨body, body', h, h', hbody⟩
    · rw [h, h']
      exact .of_machine _ hm
    · rw [h, h']
      exact (hb n body body' rfl h hbody).cons (.started s c context hm)

theorem Raised.abreast {α : Type} {p p' : Program σ α} (hp : p.Raised p') (hm : m.Raised m')
    (h : Unrefused rule ⟨fuel, s, m, p⟩) :
    Abreast (p.run rule fuel s m) (p'.run rule fuel s m') (p.events rule fuel s m)
      (p'.events rule fuel s m') := by
  induction fuel using Nat.strongRecOn generalizing α s m m' p p' with
  | ind fuel ihf =>
    induction hp generalizing s m m' with
    | done | panic => exact ⟨rfl, hm, .cons (.moment s hm) .nil⟩
    | @recalling _ k k' _ ih =>
      have hrest := (ih m.memory hm (h.rest rfl)).cons (.moment s hm)
      show Abreast _ ((k' m'.memory).run rule fuel s m') _
        (.moment s m' :: (k' m'.memory).events rule fuel s m')
      rw [hm.memory]
      exact hrest
    | remembering memory _ ih =>
      have hrest : Machine.Raised { m with memory } { m' with memory } := ⟨hm.store, hm.code, rfl⟩
      exact (ih hrest (h.rest rfl)).cons (.moment s hm)
    | reading r _ ih =>
      refine (Run.reading_abreast hm fun a b hr hab => ?_).cons (.moment s hm)
      exact ih a b hab hm (h.rest (congrArg (Outcome.next? · _) hr))
    | acting ha _ ih =>
      refine ((Run.acting_abreast ha hm).follow fun b now now' hr hnow => ?_).cons (.moment s hm)
      exact ih b hnow (h.rest (congrArg (Outcome.next? · _) hr))
    | defining realm name location hb _ _ ih =>
      refine ((Run.defining_abreast hb hm).follow fun o now now' hr hnow => ?_).cons (.moment s hm)
      exact ih o hnow (h.rest (congrArg (Outcome.next? · _) hr))
    | @calling _ callee arguments k k' _ ih =>
      refine (Abreast.follow (Run.calling_abreast hm ?_ ?_) fun b now now' hr hnow => ?_).cons
        (.moment s hm)
      · rintro o object f scope store e rfl ho hf he hcount
        exact h _ _ _ (.here _) (.calling ho hf he hcount)
      · rintro o object f scope store counted start' rfl ho hf he hcount hstart
        refine invocation_abreast hstart fun n body body' hn hc hbody => ?_
        subst hn
        exact ihf n (Nat.lt_succ_self n) (hbody _) hstart
          (h.opens (.enters (.calling ho hf he hcount hc)))
      · exact ih b hnow (h.rest (congrArg (Outcome.next? · _) hr))
    | crossing home origin _ _ ihb ih =>
      refine (Abreast.follow (Run.crossing_abreast hm ?_) fun b now now' hr hnow => ?_).cons
        (.moment s hm)
      · exact fun scope store start' he hstart => ihb hstart (h.opens (.enters (.crossing he)))
      · exact ih b hnow (h.rest (congrArg (Outcome.next? · _) hr))
    | onStack t _ _ ihb ih =>
      refine ((ihb hm (h.opens .onStack)).follow fun b now now' hr hnow => ?_).cons (.moment s hm)
      exact ih b hnow (h.rest (congrArg (Outcome.next? · _) hr))
    | guarding _ _ ihb ih =>
      refine ((ihb hm (h.opens .guarding)).guarding.follow fun b now now' hr hnow => ?_).cons
        (.moment s hm)
      exact ih b hnow (h.rest (congrArg (Outcome.next? · _) hr))

end Program

/-- Where no call is refused, higher limits make no difference to a program that takes no notice of
them: it takes the same steps, comes to the same value or to the same error with its origin and
trace, and finds and leaves the same objects, realms, stacks and scopes at each step. -/
theorem raised_limits_unseen {p p' : Program σ α} (hp : p.Raised p') (hm : m.Raised m') (fuel : Nat)
    (s : StackId) (h : Unrefused rule ⟨fuel, s, m, p⟩) :
    (p'.run rule fuel s m').1 = (p.run rule fuel s m).1 ∧
    (p.run rule fuel s m).2.Raised (p'.run rule fuel s m').2 ∧
    List.Forall₂ Event.Raised (p.events rule fuel s m) (p'.events rule fuel s m') := by
  obtain ⟨houtcome, hmachine, hevents⟩ := hp.abreast hm h
  exact ⟨houtcome, hmachine, hevents⟩

namespace Stage

theorem unrefused_done (a : α) : Unrefused rule ⟨fuel, s, m, .done a⟩ := by
  intro β path g hg
  cases hg with
  | here => nofun
  | next hn => cases hn
  | inside ho => nomatch ho

/-- The call of a function that has room is refused nowhere if nothing in its body is. -/
theorem unrefused_call {o : ObjectId} {arguments : List Value} {object : Object} {f : Function}
    {scope : Scope} {store counted : Store} {body : CallContext → Program σ (Except Error Value)}
    (ho : m.store.object? o = some object) (hf : object.function? = some f)
    (he : m.store.enter? rule s object.realm = some (.ok scope, store))
    (hp : (store.beginCrossing scope).pushCall? s = some (.ok counted))
    (hc : m.code[f.code.index]? = some body)
    (hbody : Unrefused rule ⟨fuel, s, { m with store := counted }, body ⟨o, arguments⟩⟩) :
    Unrefused rule ⟨fuel + 1, s, m, .call (.object o) arguments⟩ := by
  intro β path g hg
  refine forall_part_call (P := fun g => ¬ g.Exhausts rule) ho hf he hp hc ?_ (fun _ _ => nofun)
    (fun path g hg => hbody _ path g hg) hg
  rintro ⟨ho', hf', he', hp'⟩
  rw [ho] at ho'
  cases ho'
  rw [he] at he'
  cases he'
  rw [hp] at hp'
  cases hp'

end Stage

/-- An engine that allows so many nested calls, with a stack and a function that answers. -/
def Machine.withLimit (n : Nat) : Machine Unit :=
  .prepared .shortcut (do
    let e ← Program.act (.newEngine ⟨"main", n⟩)
    let _ ← Program.act (.newStack e)
    Program.define (.main e) "answer" none fun _ => .done (.ok .null)) ()

theorem Machine.withLimit_raised {n n' : Nat} (h : n ≤ n') :
    (Machine.withLimit n).Raised (Machine.withLimit n') where
  store :=
    { rest := rfl
      engines := Entrywise.push .empty ⟨⟨rfl, h⟩, rfl⟩ }
  code := Entrywise.push .empty fun _ => .done _
  memory := rfl

theorem single_call_under_raised_limit : (Machine.withLimit 1).Raised (Machine.withLimit 5) ∧
    Unrefused .shortcut ⟨1, ⟨0⟩, Machine.withLimit 1, .call (.object ⟨3⟩) []⟩ ∧
    ((Program.call (.object ⟨3⟩) []).run .shortcut 1 ⟨0⟩ (Machine.withLimit 5)).1 =
      ((Program.call (.object ⟨3⟩) []).run .shortcut 1 ⟨0⟩ (Machine.withLimit 1)).1 ∧
    ((Program.call (.object ⟨3⟩) []).run .shortcut 1 ⟨0⟩ (Machine.withLimit 1)).1 =
      .done (.ok .null) := by
  have hm : (Machine.withLimit 1).Raised (Machine.withLimit 5) :=
    Machine.withLimit_raised (by decide)
  obtain ⟨object, f, scope, store, counted, body, ho, hf, he, hp, hc, hanswer⟩ :
      ∃ object f scope store counted body,
        (Machine.withLimit 1).store.object? ⟨3⟩ = some object ∧ object.function? = some f ∧
        (Machine.withLimit 1).store.enter? .shortcut ⟨0⟩ object.realm = some (.ok scope, store) ∧
        (store.beginCrossing scope).pushCall? ⟨0⟩ = some (.ok counted) ∧
        (Machine.withLimit 1).code[f.code.index]? = some body ∧
        body ⟨⟨3⟩, []⟩ = .done (.ok .null) := ⟨_, _, _, _, _, _, rfl, rfl, rfl, rfl, rfl, rfl⟩
  have hfree : Unrefused .shortcut ⟨1, ⟨0⟩, Machine.withLimit 1, .call (.object ⟨3⟩) []⟩ :=
    unrefused_call ho hf he hp hc (hanswer ▸ unrefused_done _)
  have hcall : (Program.call (.object ⟨3⟩) [] : Program Unit _).Raised (.call (.object ⟨3⟩) []) :=
    .calling _ _ fun r => .done r
  exact ⟨hm, hfree, (raised_limits_unseen hcall hm 1 ⟨0⟩ hfree).1, rfl⟩

end Realms
