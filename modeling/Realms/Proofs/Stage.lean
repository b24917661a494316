import Realms.Proofs.Depth
import Realms.Proofs.Overflow

/-! What a run is made of. A program that is about to go on is a stage of its run; so is a body that
is about to run inside it, and all that those become. Main statement: the stages of a run are its
moments, each with the crossings and calls that it lies in. -/

namespace Realms

variable {σ α β γ : Type} {rule : EntryRule} {s t : StackId} {fuel : Nat} {m m' now : Machine σ}

/-! ### The next step of a program -/

/-- Where a program goes on with the result of an operation. -/
def Outcome.next? (r : Outcome β × Machine σ) (k : β → Program σ α) :
    Option (Machine σ × Program σ α) :=
  match r with
  | (.done b, m) => some (m, k b)
  | _ => none

/-- The machine after the first operation of a program and what is then left of the program. There
is nothing left after the end, nor after an operation that does not answer. -/
def Program.next? (rule : EntryRule) (fuel : Nat) (s : StackId) (m : Machine σ) :
    Program σ α → Option (Machine σ × Program σ α)
  | .done _ | .panic _ => none
  | .recalling k => some (m, k m.memory)
  | .remembering memory k => some ({ m with memory }, k)
  | .reading r k => Outcome.next? (Run.reading r s m) k
  | .acting a k => Outcome.next? (Run.acting rule a s m) k
  | .defining realm name location body k =>
    Outcome.next? (Run.defining realm name location body s m) k
  | .calling callee arguments k =>
    Outcome.next? (Run.calling rule (invocation rule fuel) callee arguments s m) k
  | .crossing home origin body k =>
    Outcome.next? (Run.crossing rule home origin (body.run rule fuel) s m) k
  | .onStack t body k => Outcome.next? (body.run rule fuel t m) k
  | .guarding body k => Outcome.next? (Run.guarding (body.run rule fuel) s m) k

theorem Outcome.next?_eq_some {r : Outcome β × Machine σ} {k : β → Program σ α}
    {p : Program σ α} : next? r k = some (m', p) ↔ ∃ b, r = (.done b, m') ∧ k b = p := by
  obtain ⟨outcome, last⟩ := r
  cases outcome <;> simp [next?, and_assoc]

theorem Outcome.follow_of_next? {r : Outcome β × Machine σ} {k : β → Program σ α}
    {p : Program σ α} (h : next? r k = some (m', p)) :
    follow r (fun b m => (k b).events rule fuel s m) = p.events rule fuel s m' := by
  obtain ⟨b, rfl, rfl⟩ := next?_eq_some.mp h
  rfl

theorem Program.moment_mem_events (p : Program σ α) (fuel : Nat) :
    .moment s m ∈ p.events rule fuel s m := by
  cases p <;> exact List.mem_cons_self

theorem Program.events_of_next? {p p' : Program σ α} (h : p.next? rule fuel s m = some (m', p')) :
    ∃ es, p.events rule fuel s m = es ++ p'.events rule fuel s m' := by
  cases p with
  | done | panic => cases h
  | recalling | remembering => cases h; exact ⟨[_], rfl⟩
  | reading | defining => exact ⟨[_], congrArg (_ :: ·) (Outcome.follow_of_next? h)⟩
  | _ => exact ⟨_, congrArg (_ ++ ·) (Outcome.follow_of_next? h)⟩

/-! ### Stages -/

/-- A program that is about to go on. -/
structure Stage (σ α : Type) where
  fuel : Nat
  stack : StackId
  machine : Machine σ
  program : Program σ α

namespace Stage

variable {g : Stage σ α} {g' : Stage σ β} {g'' : Stage σ γ}

def run (rule : EntryRule) (g : Stage σ α) : Outcome α × Machine σ :=
  g.program.run rule g.fuel g.stack g.machine

def events (rule : EntryRule) (g : Stage σ α) : List (Event σ) :=
  g.program.events rule g.fuel g.stack g.machine

/-- A crossing or a call that is under way on a stack. -/
structure Layer where
  stack : StackId
  boundary : Boundary

/-- The crossing or call that a stage is about to make is let in, and its body is about to run. -/
inductive Enters (rule : EntryRule) : {α β : Type} → Stage σ α → Layer →
    Stage σ (Except Error β) → Prop
  | crossing {α β : Type} {fuel : Nat} {s : StackId} {m : Machine σ} {home : RealmId}
      {origin : Frame} {body : Program σ (Except Error β)} {k : Except Error β → Program σ α}
      {scope : Scope} {store : Store} : m.store.enter? rule s home = some (.ok scope, store) →
      Enters rule ⟨fuel, s, m, .crossing home origin body k⟩ ⟨s, .crossing origin⟩
        ⟨fuel, s, { m with store := store.beginCrossing scope }, body⟩
  | calling {α : Type} {fuel : Nat} {s : StackId} {m : Machine σ} {o : ObjectId}
      {arguments : List Value} {k : Except Error Value → Program σ α} {object : Object}
      {f : Function} {scope : Scope} {store counted : Store}
      {body : CallContext → Program σ (Except Error Value)} :
      m.store.object? o = some object → object.function? = some f →
      m.store.enter? rule s object.realm = some (.ok scope, store) →
      (store.beginCrossing scope).pushCall? s = some (.ok counted) →
      m.code[f.code.index]? = some body →
      Enters rule ⟨fuel + 1, s, m, .calling (.object o) arguments k⟩ ⟨s, .call object.frame⟩
        ⟨fuel, s, { m with store := counted }, body ⟨o, arguments⟩⟩

/-- The body that a stage is about to run, and what is entered on the way. -/
inductive Opens (rule : EntryRule) : {α β : Type} → Stage σ α → List Layer → Stage σ β → Prop
  | onStack {α β : Type} {fuel : Nat} {s t : StackId} {m : Machine σ} {body : Program σ β}
      {k : β → Program σ α} :
      Opens rule ⟨fuel, s, m, .onStack t body k⟩ [] ⟨fuel, t, m, body⟩
  | guarding {α β : Type} {fuel : Nat} {s : StackId} {m : Machine σ} {body : Program σ β}
      {k : Except String β → Program σ α} :
      Opens rule ⟨fuel, s, m, .guarding body k⟩ [] ⟨fuel, s, m, body⟩
  | enters {α β : Type} {g : Stage σ α} {layer : Layer} {body : Stage σ (Except Error β)} :
      Enters rule g layer body → Opens rule g [layer] body

/-- One stage is part of the run of another, inside those crossings and calls, outermost first. -/
inductive Part (rule : EntryRule) : {α β : Type} → Stage σ α → List Layer → Stage σ β → Prop
  | here {α : Type} (g : Stage σ α) : Part rule g [] g
  | next {α β : Type} {fuel : Nat} {s : StackId} {m m' : Machine σ} {p p' : Program σ α}
      {path : List Layer} {g : Stage σ β} : p.next? rule fuel s m = some (m', p') →
      Part rule ⟨fuel, s, m', p'⟩ path g → Part rule ⟨fuel, s, m, p⟩ path g
  | inside {α β γ : Type} {g : Stage σ α} {body : Stage σ γ} {layers path : List Layer}
      {g' : Stage σ β} : Opens rule g layers body → Part rule body path g' →
      Part rule g (layers ++ path) g'

theorem Part.trans {path path' : List Layer} (h : Part rule g path g')
    (h' : Part rule g' path' g'') : Part rule g (path ++ path') g'' := by
  induction h with
  | here => exact h'
  | next hn _ ih => exact .next hn (ih h')
  | inside ho _ ih =>
    rw [List.append_assoc]
    exact .inside ho (ih h')

/-- What holds of the call of a function, of its answer, and of all that its body is made of, holds
of all parts of the call. -/
theorem forall_part_call {P : {β : Type} → Stage σ β → Prop} {o : ObjectId} {arguments : List Value}
    {object : Object} {f : Function} {scope : Scope} {store counted : Store}
    {body : CallContext → Program σ (Except Error Value)} (ho : m.store.object? o = some object)
    (hf : object.function? = some f)
    (he : m.store.enter? rule s object.realm = some (.ok scope, store))
    (hp : (store.beginCrossing scope).pushCall? s = some (.ok counted))
    (hc : m.code[f.code.index]? = some body)
    (hcall : P ⟨fuel + 1, s, m, .call (.object o) arguments⟩)
    (hdone : ∀ m (r : Except Error Value), P ⟨fuel + 1, s, m, .done r⟩)
    (hbody : ∀ {β : Type} (path : List Layer) (g : Stage σ β),
      Part rule ⟨fuel, s, { m with store := counted }, body ⟨o, arguments⟩⟩ path g → P g)
    {β : Type} {path : List Layer} {g : Stage σ β}
    (hg : Part rule ⟨fuel + 1, s, m, .call (.object o) arguments⟩ path g) : P g := by
  cases hg with
  | here => exact hcall
  | next hn hg =>
    obtain ⟨r, -, rfl⟩ := Outcome.next?_eq_some.mp hn
    cases hg with
    | here => exact hdone _ r
    | next hn => cases hn
    | inside hopens => nomatch hopens
  | inside hopens hg =>
    obtain _ | _ | ⟨⟨_⟩ | ⟨ho', hf', he', hp', hc'⟩⟩ := hopens
    rw [ho] at ho'
    cases ho'
    rw [hf] at hf'
    cases hf'
    rw [he] at he'
    cases he'
    rw [hp] at hp'
    cases hp'
    rw [hc] at hc'
    cases hc'
    exact hbody _ g hg

/-! ### Stages and moments -/

theorem crossing_events {home : RealmId} {body : Run σ (Except Error α)} {events : Observed σ}
    {scope : Scope} {store : Store} (he : m.store.enter? rule s home = some (.ok scope, store)) :
    events s { m with store := store.beginCrossing scope } ⊆
      Run.crossingEvents rule home body events s m := by
  simp only [Run.crossingEvents, he]
  exact fun e h => List.mem_append_left _ (List.mem_cons_of_mem _ h)

theorem counted_events {body : Run σ (Except Error Value)} {events : Observed σ}
    {start store : Store} (hp : start.pushCall? s = some (.ok store)) :
    events s { m with store } ⊆ Run.countedEvents body events s { m with store := start } := by
  simp only [Run.countedEvents, hp]
  exact fun e h => List.mem_append_left _ (List.mem_cons_of_mem _ h)

theorem Opens.events {layers : List Layer} (h : Opens rule g layers g') :
    g'.events rule ⊆ g.events rule := by
  intro e he
  cases h with
  | onStack | guarding => exact List.mem_append_left _ (List.mem_cons_of_mem _ he)
  | enters h =>
    cases h with
    | crossing hen =>
      exact List.mem_append_left _ (List.mem_cons_of_mem _ (crossing_events hen he))
    | calling ho hf hen hp hc =>
      refine List.mem_append_left _ (List.mem_cons_of_mem _ ?_)
      simp only [Run.callingEvents, ho, hf]
      refine crossing_events hen (counted_events hp ?_)
      simp only [Program.observation, hc]
      exact List.mem_cons_of_mem _ he

/-- What happens in a part of a run happens in the run. -/
theorem Part.events {path : List Layer} (h : Part rule g path g') :
    g'.events rule ⊆ g.events rule := by
  induction h with
  | here => exact fun _ he => he
  | next hn _ ih =>
    obtain ⟨es, hes⟩ := Program.events_of_next? hn
    refine fun e he => ?_
    rw [Stage.events, hes]
    exact List.mem_append_right _ (ih he)
  | inside ho _ ih => exact fun e he => ho.events (ih he)

theorem Part.moment {path : List Layer} (h : Part rule g path g') :
    .moment g'.stack g'.machine ∈ g.events rule :=
  h.events (Program.moment_mem_events _ _)

/-- A moment of a run is a stage of it. -/
def HasMoment (rule : EntryRule) (g : Stage σ α) (t : StackId) (now : Machine σ) : Prop :=
  ∃ (β : Type) (path : List Layer) (fuel : Nat) (p : Program σ β),
    Part rule g path ⟨fuel, t, now, p⟩

theorem HasMoment.here (g : Stage σ α) : g.HasMoment rule g.stack g.machine :=
  ⟨α, [], g.fuel, g.program, .here g⟩

theorem HasMoment.inside {layers : List Layer} (ho : Opens rule g layers g')
    (h : g'.HasMoment rule t now) : g.HasMoment rule t now := by
  obtain ⟨γ, path, fuel, q, hq⟩ := h
  exact ⟨γ, _, fuel, q, .inside ho hq⟩

/-- The moments of a run are its start, those in its first operation, and those of the program that
goes on. -/
theorem hasMoment_of_operation {p : Program σ α} {k : β → Program σ α} (es : List (Event σ))
    (r : Outcome β × Machine σ) (hn : p.next? rule fuel s m = Outcome.next? r k)
    (hes : .moment t now ∈ es → HasMoment rule ⟨fuel, s, m, p⟩ t now)
    (hk : ∀ b m', .moment t now ∈ (k b).events rule fuel s m' →
      HasMoment rule ⟨fuel, s, m', k b⟩ t now)
    (h : .moment t now ∈ .moment s m :: es ++
      Outcome.follow r fun b m => (k b).events rule fuel s m) :
    HasMoment rule ⟨fuel, s, m, p⟩ t now := by
  obtain h | h := List.mem_append.mp h
  · obtain h | h := List.mem_cons.mp h
    · cases h
      exact .here _
    · exact hes h
  · obtain ⟨outcome, last⟩ := r
    cases outcome with
    | done b =>
      obtain ⟨γ, path, fuel', q, hq⟩ := hk b last h
      exact ⟨γ, path, fuel', q, .next hn hq⟩
    | panicked | outOfFuel => cases h

theorem acting_moment {a : Action α} : .moment t now ∉ Run.actingEvents rule a s m := by
  unfold Run.actingEvents
  split
  · exact List.not_mem_nil
  · next answer store _ =>
    cases a with
    | enter => cases answer <;> simp [Action.events]
    | _ => simp [Action.events]

theorem crossing_moment {home : RealmId} {body : Run σ (Except Error α)} {events : Observed σ}
    (h : .moment t now ∈ Run.crossingEvents rule home body events s m) :
    ∃ scope store, m.store.enter? rule s home = some (.ok scope, store) ∧
      .moment t now ∈ events s { m with store := store.beginCrossing scope } := by
  unfold Run.crossingEvents at h
  split at h
  · cases h
  · simp at h
  · next scope store he => exact ⟨scope, store, he, by simpa using h⟩

theorem counted_moment {body : Run σ (Except Error Value)} {events : Observed σ}
    (h : .moment t now ∈ Run.countedEvents body events s m) :
    ∃ store, m.store.pushCall? s = some (.ok store) ∧
      .moment t now ∈ events s { m with store } := by
  rcases Run.counted_cases body events with ⟨-, he⟩ |
    ⟨store, result, last, hp, -, -, he⟩ | ⟨store, outcome, last, hp, -, -, -, he⟩
  · rw [he] at h
    cases h
  · rw [he] at h
    exact ⟨store, hp, by simpa using h⟩
  · rw [he] at h
    exact ⟨store, hp, by simpa using h⟩

/-- The moments in a call are those in the body of the function. -/
theorem calling_moment {callee : Value} {arguments : List Value}
    {k : Except Error Value → Program σ α}
    (hbody : ∀ fuel', fuel' < fuel → ∀ s m (p : Program σ (Except Error Value)),
      .moment t now ∈ p.events rule fuel' s m → HasMoment rule ⟨fuel', s, m, p⟩ t now)
    (h : .moment t now ∈ Run.callingEvents rule (Program.invocation rule fuel)
      (Program.observation rule fuel) callee arguments s m) :
    HasMoment rule ⟨fuel, s, m, .calling callee arguments k⟩ t now := by
  cases callee with
  | object o =>
    simp only [Run.callingEvents] at h
    split at h
    · cases h
    · next object ho =>
      split at h
      · cases h
      · next f hf =>
        obtain ⟨scope, store, he, h⟩ := crossing_moment h
        obtain ⟨counted, hp, h⟩ := counted_moment h
        cases fuel with
        | zero => cases h
        | succ fuel =>
          simp only [Program.observation] at h
          split at h
          · cases h
          · next body hc =>
            have h' := (List.mem_cons.mp h).resolve_left (by simp)
            exact .inside (.enters (.calling ho hf he hp hc))
              (hbody fuel (Nat.lt_succ_self _) _ _ _ h')
  | _ => cases h

theorem HasMoment.of_mem_events {α : Type} {p : Program σ α}
    (h : .moment t now ∈ p.events rule fuel s m) : HasMoment rule ⟨fuel, s, m, p⟩ t now := by
  induction fuel using Nat.strongRecOn generalizing α s m p with
  | ind fuel ihf =>
    induction p generalizing s m with
    | done | panic =>
      cases List.mem_singleton.mp h
      exact .here _
    | recalling k ih =>
      exact hasMoment_of_operation [] (.done m.memory, m) rfl (absurd · List.not_mem_nil)
        (fun _ _ h => ih _ h) h
    | remembering memory k ih =>
      exact hasMoment_of_operation [] (.done (), { m with memory }) rfl
        (absurd · List.not_mem_nil) (fun _ _ h => ih h) h
    | reading r k ih =>
      exact hasMoment_of_operation [] _ rfl (absurd · List.not_mem_nil) (fun _ _ h => ih _ h) h
    | defining realm name location body k _ ih =>
      exact hasMoment_of_operation [] _ rfl (absurd · List.not_mem_nil) (fun _ _ h => ih _ h) h
    | acting a k ih =>
      exact hasMoment_of_operation _ _ rfl (absurd · acting_moment) (fun _ _ h => ih _ h) h
    | calling callee arguments k ih =>
      exact hasMoment_of_operation _ _ rfl (calling_moment fun fuel' hlt s m p => ihf fuel' hlt)
        (fun _ _ h => ih _ h) h
    | crossing home origin body k ihb ih =>
      refine hasMoment_of_operation _ _ rfl (fun h => ?_) (fun _ _ h => ih _ h) h
      obtain ⟨scope, store, he, h⟩ := crossing_moment h
      exact .inside (.enters (.crossing he)) (ihb h)
    | onStack u body k ihb ih =>
      exact hasMoment_of_operation _ _ rfl (fun h => .inside .onStack (ihb h))
        (fun _ _ h => ih _ h) h
    | guarding body k ihb ih =>
      exact hasMoment_of_operation _ _ rfl (fun h => .inside .guarding (ihb h))
        (fun _ _ h => ih _ h) h

/-- The moments of a run are where its stages are. -/
theorem moment_mem_events_iff :
    .moment t now ∈ g.events rule ↔ g.HasMoment rule t now :=
  ⟨HasMoment.of_mem_events, fun ⟨_, _, _, _, h⟩ => h.moment⟩

end Stage

end Realms
