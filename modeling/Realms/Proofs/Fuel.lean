import Realms.Proofs.Shortcut
import Realms.Proofs.Stage

/-! The bound on nested calls under which a program is run. It is not part of the program: a run
that is not cut short by it is the same under any larger bound, event by event. Main statement: a
run is cut short only at a call that is let in when so many bodies are in progress. -/

namespace Realms

variable {σ α β : Type} {rule : EntryRule} {s : StackId} {m : Machine σ} {fuel fuel' : Nat}

/-! ### Larger bounds -/

/-- A run that is not cut short comes to the same as another one, with the same events. -/
def Steady (run run' : Outcome α × Machine σ) (events events' : List (Event σ)) : Prop :=
  run.1 ≠ .outOfFuel → Alike run run' events events'

namespace Steady

variable {r r' : Outcome β × Machine σ} {es es' : List (Event σ)}

theorem refl (r : Outcome α × Machine σ) (es : List (Event σ)) : Steady r r es es :=
  fun _ => ⟨rfl, rfl⟩

theorem cons (h : Steady r r' es es') (e : Event σ) : Steady r r' (e :: es) (e :: es') :=
  fun hfuel => (h hfuel).cons e

theorem follow {run run' : β → Machine σ → Outcome α × Machine σ}
    {events events' : β → Machine σ → List (Event σ)} (h : Steady r r' es es')
    (hk : ∀ b m, Steady (run b m) (run' b m) (events b m) (events' b m)) :
    Steady (Outcome.andThen r run) (Outcome.andThen r' run') (es ++ Outcome.follow r events)
      (es' ++ Outcome.follow r' events') := by
  intro hfuel
  obtain ⟨rfl, rfl⟩ := h fun hr => hfuel (Outcome.andThen_outOfFuel hr)
  obtain ⟨outcome, last⟩ := r'
  cases outcome with
  | done b =>
    obtain ⟨hrun, hevents⟩ := hk b last hfuel
    exact ⟨hrun, congrArg (es' ++ ·) hevents⟩
  | panicked | outOfFuel => exact ⟨rfl, rfl⟩

theorem guarding {body body' : Run σ α} (h : Steady (body s m) (body' s m) es es') :
    Steady (Run.guarding body s m) (Run.guarding body' s m) es es' :=
  fun hfuel => (h fun hb => hfuel (Run.guarding_outOfFuel.mpr hb)).guarding

end Steady

namespace Run

theorem crossing_steady {home : RealmId} {origin : Frame} {body body' : Run σ (Except Error α)}
    {events events' : Observed σ}
    (hb : ∀ m, Steady (body s m) (body' s m) (events s m) (events' s m)) :
    Steady (crossing rule home origin body s m) (crossing rule home origin body' s m)
      (crossingEvents rule home body events s m) (crossingEvents rule home body' events' s m) := by
  unfold crossing crossingEvents
  cases m.store.enter? rule s home with
  | none => exact .refl _ _
  | some result =>
    obtain ⟨result, store⟩ := result
    cases result with
    | error e => exact .refl _ _
    | ok scope =>
      intro hfuel
      obtain ⟨hr, hevents⟩ := hb { m with store := store.beginCrossing scope }
        fun h => hfuel (Outcome.map_eq_outOfFuel.mpr h)
      simp only [hr, hevents, Alike, and_self]

theorem counted_steady {body body' : Run σ (Except Error Value)} {events events' : Observed σ}
    (hb : ∀ m, Steady (body s m) (body' s m) (events s m) (events' s m)) :
    Steady (counted body s m) (counted body' s m) (countedEvents body events s m)
      (countedEvents body' events' s m) := by
  unfold counted countedEvents
  cases m.store.pushCall? s with
  | none => exact .refl _ _
  | some result =>
    cases result with
    | error e => exact .refl _ _
    | ok store => exact ((hb { m with store }).cons _).follow fun _ _ => .refl _ _

theorem calling_steady {invoke invoke' : Invocation σ} {observe observe' : Observation σ}
    {callee : Value} {arguments : List Value}
    (hi : ∀ c context (m : Machine σ), Steady (invoke c context s m) (invoke' c context s m)
      (observe c context s m) (observe' c context s m)) :
    Steady (calling rule invoke callee arguments s m) (calling rule invoke' callee arguments s m)
      (callingEvents rule invoke observe callee arguments s m)
      (callingEvents rule invoke' observe' callee arguments s m) := by
  cases callee with
  | object o =>
    simp only [calling, callingEvents]
    cases m.store.object? o with
    | none => exact .refl _ _
    | some object =>
      cases hf : object.function? with
      | none =>
        simp only [hf]
        exact .refl _ _
      | some f =>
        simp only [hf]
        intro hfuel
        have hcross : Steady (crossing rule object.realm object.frame _ s m) _ _ _ :=
          crossing_steady fun m => counted_steady fun m => hi f.code ⟨o, arguments⟩ m
        obtain ⟨hr, hevents⟩ := hcross fun h => hfuel (Outcome.map_eq_outOfFuel.mpr h)
        simp only [hr, hevents, Alike, and_self]
  | _ => exact .refl _ _

end Run

namespace Program

theorem steadyWith {invoke invoke' : Invocation σ} {observe observe' : Observation σ}
    (hi : ∀ c context s (m : Machine σ), Steady (invoke c context s m) (invoke' c context s m)
      (observe c context s m) (observe' c context s m)) (p : Program σ α) :
    Steady (p.runWith rule invoke s m) (p.runWith rule invoke' s m)
      (p.eventsWith rule invoke observe s m) (p.eventsWith rule invoke' observe' s m) := by
  induction p generalizing s m with
  | done | panic => exact .refl _ _
  | recalling k ih => exact (ih m.memory).cons _
  | remembering memory k ih => exact ih.cons _
  | reading r k ih => exact ((Steady.refl _ []).follow fun a m => ih a).cons _
  | acting a k ih => exact ((Steady.refl _ _).follow fun b m => ih b).cons _
  | defining realm name location body k _ ih =>
    exact ((Steady.refl _ []).follow fun o m => ih o).cons _
  | calling callee arguments k ih =>
    exact ((Run.calling_steady fun c context => hi c context s).follow fun r m => ih r).cons _
  | crossing home origin body k ihb ih =>
    exact ((Run.crossing_steady fun m => ihb).follow fun r m => ih r).cons _
  | onStack t body k ihb ih => exact (ihb.follow fun r m => ih r).cons _
  | guarding body k ihb ih => exact (ihb.guarding.follow fun r m => ih r).cons _

theorem invocation_steady (h : fuel ≤ fuel') (c : CodeId) (context : CallContext) (s : StackId)
    (m : Machine σ) :
    Steady (invocation rule fuel c context s m) (invocation rule fuel' c context s m)
      (observation rule fuel c context s m) (observation rule fuel' c context s m) := by
  induction fuel generalizing fuel' c context s m with
  | zero => exact fun hfuel => absurd rfl hfuel
  | succ n ih =>
    obtain ⟨n', rfl⟩ : ∃ n', fuel' = n' + 1 := ⟨fuel' - 1, by omega⟩
    simp only [invocation, observation]
    cases m.code[c.index]? with
    | none => exact .refl _ _
    | some body => exact (steadyWith (ih (by omega)) (body context)).cons _

/-- A run that is not cut short is the same when more calls may be nested. -/
theorem steady (h : fuel ≤ fuel') (p : Program σ α) :
    Steady (p.run rule fuel s m) (p.run rule fuel' s m) (p.events rule fuel s m)
      (p.events rule fuel' s m) :=
  p.steadyWith (invocation_steady h)

end Program

/-! ### Where a run is cut short -/

namespace Run

theorem reading_ne_outOfFuel (r : Reading α) : (reading r s m).1 ≠ .outOfFuel := by
  unfold reading
  split <;> nofun

theorem acting_ne_outOfFuel (a : Action α) : (acting rule a s m).1 ≠ .outOfFuel := by
  unfold acting
  split <;> nofun

theorem defining_ne_outOfFuel (realm : RealmId) (name : String) (location : Option Location)
    (body : CallContext → Program σ (Except Error Value)) :
    (defining realm name location body s m).1 ≠ .outOfFuel := by
  unfold defining
  split <;> nofun

theorem crossing_outOfFuel {home : RealmId} {origin : Frame} {body : Run σ (Except Error α)}
    (h : (crossing rule home origin body s m).1 = .outOfFuel) :
    ∃ scope store, m.store.enter? rule s home = some (.ok scope, store) ∧
      (body s { m with store := store.beginCrossing scope }).1 = .outOfFuel := by
  rcases crossing_cases home origin body (fun _ _ => []) with
    ⟨hr, -⟩ | ⟨e, -, hr, -⟩ | ⟨scope, store, outcome, last, he, hbody, hr, -⟩
  · rw [hr] at h
    cases h
  · rw [hr] at h
    cases h
  · rw [hr] at h
    exact ⟨scope, store, he, by rw [hbody]; exact Outcome.map_eq_outOfFuel.mp h⟩

theorem counted_outOfFuel {body : Run σ (Except Error Value)}
    (h : (counted body s m).1 = .outOfFuel) :
    ∃ store, m.store.pushCall? s = some (.ok store) ∧
      (body s { m with store }).1 = .outOfFuel := by
  unfold counted at h
  split at h
  · cases h
  · cases h
  · next store hp =>
    refine ⟨store, hp, ?_⟩
    cases hbody : body s { m with store } with
    | mk outcome last =>
      rw [hbody] at h
      cases outcome with
      | done | panicked => cases h
      | outOfFuel => rfl

theorem calling_outOfFuel {invoke : Invocation σ} {callee : Value} {arguments : List Value}
    (h : (calling rule invoke callee arguments s m).1 = .outOfFuel) :
    ∃ o object f scope store counted, callee = .object o ∧ m.store.object? o = some object ∧
      object.function? = some f ∧
      m.store.enter? rule s object.realm = some (.ok scope, store) ∧
      (store.beginCrossing scope).pushCall? s = some (.ok counted) ∧
      (invoke f.code ⟨o, arguments⟩ s { m with store := counted }).1 = .outOfFuel := by
  cases callee with
  | object o =>
    simp only [calling] at h
    split at h
    · cases h
    · next object ho =>
      split at h
      · cases h
      · next f hf =>
        obtain ⟨scope, store, he, h⟩ := crossing_outOfFuel (Outcome.map_eq_outOfFuel.mp h)
        obtain ⟨counted, hp, h⟩ := counted_outOfFuel h
        exact ⟨o, object, f, scope, store, counted, rfl, ho, hf, he, hp, h⟩
  | _ => cases h

end Run

namespace Stage

variable {g : Stage σ α} {g' : Stage σ β} {path : List Layer}

/-- The call that a stage is about to make is let in, but the bound is used up. -/
inductive CutShort (rule : EntryRule) : {α : Type} → Stage σ α → Prop
  | calling {α : Type} {s : StackId} {m : Machine σ} {o : ObjectId} {arguments : List Value}
      {k : Except Error Value → Program σ α} {object : Object} {f : Function} {scope : Scope}
      {store counted : Store} : m.store.object? o = some object → object.function? = some f →
      m.store.enter? rule s object.realm = some (.ok scope, store) →
      (store.beginCrossing scope).pushCall? s = some (.ok counted) →
      CutShort rule ⟨0, s, m, .calling (.object o) arguments k⟩

/-- The run is cut short at one of its stages. -/
def HasCut (rule : EntryRule) (g : Stage σ α) : Prop :=
  ∃ (β : Type) (path : List Layer) (g' : Stage σ β), Part rule g path g' ∧ g'.CutShort rule

theorem HasCut.inside {layers : List Layer} (ho : Opens rule g layers g') (h : g'.HasCut rule) :
    g.HasCut rule := by
  obtain ⟨γ, path, last, hpart, hcut⟩ := h
  exact ⟨γ, _, last, .inside ho hpart, hcut⟩

/-- A run is cut short in its first operation or in the program that goes on. -/
theorem hasCut_of_operation {p : Program σ α} {k : β → Program σ α} (r : Outcome β × Machine σ)
    (hn : p.next? rule fuel s m = Outcome.next? r k)
    (hop : r.1 = .outOfFuel → HasCut rule ⟨fuel, s, m, p⟩)
    (hk : ∀ b m', ((k b).run rule fuel s m').1 = .outOfFuel → HasCut rule ⟨fuel, s, m', k b⟩)
    (h : (Outcome.andThen r fun b m => (k b).run rule fuel s m).1 = .outOfFuel) :
    HasCut rule ⟨fuel, s, m, p⟩ := by
  obtain ⟨outcome, last⟩ := r
  cases outcome with
  | done b =>
    obtain ⟨γ, path, g', hpart, hcut⟩ := hk b last h
    exact ⟨γ, path, g', .next hn hpart, hcut⟩
  | panicked => cases h
  | outOfFuel => exact hop rfl

theorem HasCut.of_outOfFuel {α : Type} {p : Program σ α}
    (h : (p.run rule fuel s m).1 = .outOfFuel) : HasCut rule ⟨fuel, s, m, p⟩ := by
  -- the body of a function is no part of the program that calls it, but it has less fuel
  induction fuel using Nat.strongRecOn generalizing α s m p with
  | ind fuel ihf =>
    induction p generalizing s m with
    | done | panic => cases h
    | recalling k ih =>
      exact hasCut_of_operation (.done m.memory, m) rfl nofun (fun _ _ h => ih _ h) h
    | remembering memory k ih =>
      exact hasCut_of_operation (.done (), { m with memory }) rfl nofun (fun _ _ h => ih h) h
    | reading r k ih =>
      exact hasCut_of_operation _ rfl (absurd · (Run.reading_ne_outOfFuel r))
        (fun _ _ h => ih _ h) h
    | acting a k ih =>
      exact hasCut_of_operation _ rfl (absurd · (Run.acting_ne_outOfFuel a))
        (fun _ _ h => ih _ h) h
    | defining realm name location body k _ ih =>
      exact hasCut_of_operation _ rfl
        (absurd · (Run.defining_ne_outOfFuel realm name location body)) (fun _ _ h => ih _ h) h
    | calling callee arguments k ih =>
      refine hasCut_of_operation _ rfl (fun h => ?_) (fun _ _ h => ih _ h) h
      obtain ⟨o, object, f, scope, store, counted, rfl, ho, hf, he, hp, h⟩ :=
        Run.calling_outOfFuel h
      cases fuel with
      | zero => exact ⟨_, [], _, .here _, .calling ho hf he hp⟩
      | succ n =>
        simp only [Program.invocation] at h
        split at h
        · cases h
        · next body hc =>
          exact .inside (.enters (.calling ho hf he hp hc)) (ihf n (Nat.lt_succ_self n) h)
    | crossing home origin body k ihb ih =>
      refine hasCut_of_operation _ rfl (fun h => ?_) (fun _ _ h => ih _ h) h
      obtain ⟨scope, store, he, h⟩ := Run.crossing_outOfFuel h
      exact .inside (.enters (.crossing he)) (ihb h)
    | onStack t body k ihb ih =>
      exact hasCut_of_operation _ rfl (fun h => .inside .onStack (ihb h)) (fun _ _ h => ih _ h) h
    | guarding body k ihb ih =>
      refine hasCut_of_operation _ rfl (fun h => ?_) (fun _ _ h => ih _ h) h
      exact .inside .guarding (ihb (Run.guarding_outOfFuel.mp h))

/-- Whether the body of a called function is under way, on whichever stack. -/
def Layer.isCall : Layer → Bool
  | ⟨_, .call _⟩ => true
  | ⟨_, .crossing _⟩ => false

theorem Opens.fuel_eq {layers : List Layer} (h : Opens rule g layers g') :
    g'.fuel + layers.countP Layer.isCall = g.fuel := by
  cases h with
  | onStack | guarding => rfl
  | enters h => cases h <;> rfl

/-- What is left of the bound is short of it by the bodies in progress. -/
theorem Part.fuel_eq (h : Part rule g path g') : g'.fuel + path.countP Layer.isCall = g.fuel := by
  induction h with
  | here => rfl
  | next _ _ ih => exact ih
  | inside ho _ ih =>
    have hbody := ho.fuel_eq
    rw [List.countP_append]
    omega

/-- A run that is cut short has let in as many nested calls as the bound allows, and would let in
one more. -/
theorem cutShort_of_outOfFuel (h : (g.run rule).1 = .outOfFuel) :
    ∃ (β : Type) (path : List Layer) (g' : Stage σ β), Part rule g path g' ∧ g'.CutShort rule ∧
      path.countP Layer.isCall = g.fuel := by
  obtain ⟨β, path, g', hpart, hcut⟩ : g.HasCut rule := .of_outOfFuel h
  have hfuel := hpart.fuel_eq
  refine ⟨β, path, g', hpart, hcut, ?_⟩
  cases hcut
  exact (Nat.zero_add _).symm.trans hfuel

end Stage

end Realms
