import Realms.Proofs.Enclosure

/-! Programs that hold a scope only around a body. Such a scope ends with its body, also with one
that fails or panics. Main statement: when all functions are of that kind too, each run of such a
program ends its scopes in turn, whatever becomes of its calls and crossings. -/

namespace Realms

variable {σ α β : Type} {rule : EntryRule} {s t : StackId} {m m' m'' : Machine σ}
  {es es' : List (Event σ)}

namespace Program

/-- Goes on after a body, or panics as it did. -/
def resume (k : β → Program σ α) : Except String β → Program σ α
  | .ok b => k b
  | .error text => .panic text

/-- Runs a body in a scope, ends the scope, and goes on as the body did. -/
def holding (home : RealmId) (body : Program σ (Except Error β))
    (k : Except Error β → Program σ α) : Program σ α :=
  .acting (.enter home) fun
    | .error e => k (.error e)
    | .ok i => .guarding body fun r => .acting (.leave i) fun _ => resume k r

/-- A program that holds scopes around bodies only. -/
inductive Tidy : {α : Type} → Program σ α → Prop
  | done {α : Type} (a : α) : Tidy (.done a)
  | panic {α : Type} (text : String) : Tidy (.panic text : Program σ α)
  | recalling {α : Type} {k : σ → Program σ α} : (∀ memory, Tidy (k memory)) → Tidy (.recalling k)
  | remembering {α : Type} (memory : σ) {k : Program σ α} : Tidy k → Tidy (.remembering memory k)
  | reading {α β : Type} (r : Reading β) {k : β → Program σ α} : (∀ a, Tidy (k a)) →
      Tidy (.reading r k)
  | acting {α β : Type} {a : Action β} {k : β → Program σ α} : a.holds = false →
      (∀ b, Tidy (k b)) → Tidy (.acting a k)
  | defining {α : Type} (realm : RealmId) (name : String) (location : Option Location)
      {body : CallContext → Program σ (Except Error Value)} {k : ObjectId → Program σ α} :
      (∀ c, Tidy (body c)) → (∀ o, Tidy (k o)) → Tidy (.defining realm name location body k)
  | calling {α : Type} (callee : Value) (arguments : List Value)
      {k : Except Error Value → Program σ α} : (∀ r, Tidy (k r)) →
      Tidy (.calling callee arguments k)
  | crossing {α β : Type} (home : RealmId) (origin : Frame) {body : Program σ (Except Error β)}
      {k : Except Error β → Program σ α} : Tidy body → (∀ r, Tidy (k r)) →
      Tidy (.crossing home origin body k)
  | onStack {α β : Type} (t : StackId) {body : Program σ β} {k : β → Program σ α} : Tidy body →
      (∀ r, Tidy (k r)) → Tidy (.onStack t body k)
  | guarding {α β : Type} {body : Program σ β} {k : Except String β → Program σ α} : Tidy body →
      (∀ r, Tidy (k r)) → Tidy (.guarding body k)
  | holding {α β : Type} (home : RealmId) {body : Program σ (Except Error β)}
      {k : Except Error β → Program σ α} : Tidy body → (∀ r, Tidy (k r)) →
      Tidy (holding home body k)

end Program

/-- All functions are tidy. -/
def TidyCode (code : Array (CallContext → Program σ (Except Error Value))) : Prop :=
  ∀ (i : Nat) body, code[i]? = some body → ∀ c, (body c).Tidy

/-- What tidy programs do: their scopes end in turn and leave none open, and the scopes from before
stay as they were. -/
structure Tidied (s : StackId) (m m' : Machine σ) (es : List (Event σ)) : Prop where
  turn : ∀ nest, Along (Event.enclose s) (Event.InTurn s) nest es
  closed : ∀ nest, enclosing s nest es = nest
  scopes : ∀ i scope, m.store.scope? i = some scope → m'.store.scope? i = some scope
  code : TidyCode m'.code

namespace Tidied

theorem rest (hs : ∀ i, m'.store.scope? i = m.store.scope? i) (hc : TidyCode m'.code) :
    Tidied s m m' [] where
  turn _ := trivial
  closed _ := rfl
  scopes i scope h := by rw [hs, h]
  code := hc

theorem append (h : Tidied s m m' es) (h' : Tidied s m' m'' es') : Tidied s m m'' (es ++ es') where
  turn nest := along_append.mpr ⟨h.turn nest, h'.turn _⟩
  closed nest := by rw [enclosing_append, h.closed, h'.closed]
  scopes i scope hi := h'.scopes i scope (h.scopes i scope hi)
  code := h'.code

/-- An event that has nothing to do with scopes. -/
theorem cons (e : Event σ) (h : Tidied s m m' es) (he : ∀ nest, e.enclose s nest = nest)
    (ht : ∀ nest, e.InTurn s nest) : Tidied s m m' (e :: es) where
  turn nest := ⟨ht nest, by rw [he]; exact h.turn nest⟩
  closed nest := by
    rw [enclosing, List.foldl_cons, he]
    exact h.closed nest
  scopes := h.scopes
  code := h.code

theorem moment (h : Tidied s m m' es) (t : StackId) (now : Machine σ) :
    Tidied s m m' (.moment t now :: es) :=
  h.cons _ (fun _ => rfl) fun _ => trivial

/-- A call that begins to count. -/
theorem pushed {store : Store} (h : m.store.pushCall? t = some (.ok store))
    (hc : TidyCode m.code) : Tidied s m { m with store } [.began t] := by
  have hscopes (i : ScopeId) : store.scope? i = m.store.scope? i := by
    obtain ⟨_, _, -, -, -, rfl⟩ := Store.pushCall?_ok h
    rfl
  have hstart : Tidied s m { m with store } [] := .rest hscopes hc
  exact hstart.cons (.began t) (fun _ => rfl) fun _ => trivial

/-- A scope that a program holds around a body. -/
theorem held {i : ScopeId} {scope : Scope} {start last : Machine σ} (h : Tidied s start last es)
    (hold : ∀ j old, m.store.scope? j = some old → start.store.scope? j = some old ∧ i ≠ j)
    (hs : m'.store = last.store.closeScope i scope) (hc : m'.code = last.code) :
    Tidied s m m' (.opened i scope m :: es ++ [.ended i scope]) where
  turn nest := by
    refine along_append.mpr ⟨⟨trivial, h.turn _⟩, fun hs => ?_, trivial⟩
    show (enclosing s (Event.enclose s nest (.opened i scope m)) es).head?.map (·.id?) =
      some (some i)
    rw [h.closed, Event.enclose, if_pos hs]
    rfl
  closed nest := by
    have hsplit : enclosing s nest (.opened i scope m :: es ++ [.ended i scope]) =
        Event.enclose s (enclosing s (Event.enclose s nest (.opened i scope m)) es)
          (.ended i scope : Event σ) := by
      rw [enclosing_append]
      rfl
    rw [hsplit, h.closed]
    simp only [Event.enclose]
    split <;> rfl
  scopes j old hj := by
    obtain ⟨hj, hne⟩ := hold j old hj
    rw [hs, Store.scope?_closeScope, if_neg hne]
    exact h.scopes j old hj
  code := by
    rw [hc]
    exact h.code

/-- A crossing ends its own scope. -/
theorem crossed {scope : Scope} {start last : Machine σ} (h : Tidied s start last es)
    (hin : ∀ i, start.store.scope? i = m.store.scope? i)
    (hout : ∀ i, m'.store.scope? i = last.store.scope? i) (hc : m'.code = last.code) :
    Tidied s m m' (.entered scope m start :: es ++ [.exited scope m last m']) where
  turn nest := by
    refine along_crossed.mpr ⟨trivial, h.turn _, fun hs => ?_⟩
    rw [h.closed, Event.enclose, if_pos hs]
    rfl
  closed nest := by
    rw [enclosing_crossed, h.closed]
    simp only [Event.enclose]
    split <;> rfl
  scopes i scope hi := by
    rw [hout]
    exact h.scopes i scope (by rw [hin, hi])
  code := by
    rw [hc]
    exact h.code

theorem follow {r : Outcome β × Machine σ} {events : β → Machine σ → List (Event σ)}
    {run : β → Machine σ → Outcome α × Machine σ}
    (h : r.1 ≠ .outOfFuel → Tidied s m r.2 es) (hfuel : (Outcome.andThen r run).1 ≠ .outOfFuel)
    (hk : ∀ a m', r = (.done a, m') → TidyCode m'.code → (run a m').1 ≠ .outOfFuel →
      Tidied s m' (run a m').2 (events a m')) :
    Tidied s m (Outcome.andThen r run).2 (es ++ Outcome.follow r events) := by
  obtain ⟨outcome, m'⟩ := r
  cases outcome with
  | done a =>
    have hfirst := h (by simp)
    exact hfirst.append (hk a m' rfl hfirst.code hfuel)
  | panicked text => simpa [Outcome.follow, Outcome.andThen] using h (by simp)
  | outOfFuel => exact absurd rfl hfuel

end Tidied

/-! ### Single operations -/

theorem Store.enter?_scopes {st st' : Store} {home : RealmId} {scope : Scope}
    (h : st.enter? rule t home = some (.ok scope, st')) :
    scope.finished = false ∧ st'.scopes = st.scopes := by
  simp only [Store.enter?, Option.bind_eq_bind, Option.bind_eq_some_iff] at h
  obtain ⟨stack, -, engine, -, realm, -, h⟩ := h
  repeat' split at h
  all_goals cases h
  all_goals exact ⟨rfl, rfl⟩

theorem Run.defining_tidied (realm : RealmId) (name : String) (location : Option Location)
    {body : CallContext → Program σ (Except Error Value)} (hb : ∀ c, (body c).Tidy)
    (hcode : TidyCode m.code) :
    Tidied s m (Run.defining realm name location body t m).2 [] := by
  unfold Run.defining
  split
  · exact .rest (fun _ => rfl) hcode
  · next o store h =>
    refine .rest (Store.newFunction?_change h).scope? fun i old hi => ?_
    rw [Array.getElem?_push] at hi
    split at hi
    · cases hi
      exact hb
    · exact hcode i old hi

theorem Run.acting_tidied {a : Action α} (ha : a.holds = false) (hcode : TidyCode m.code) :
    Tidied s m (Run.acting rule a t m).2 (Run.actingEvents rule a t m) := by
  rcases Run.acting_cases a with ⟨hr, he⟩ | ⟨answer, store, h, hr, he⟩
  · rw [hr, he]
    exact .rest (fun _ => rfl) hcode
  · have hquiet : a.events answer m store = [] := by
      cases a with
      | enter | leave => cases ha
      | _ => rfl
    rw [hr, he, hquiet]
    exact .rest (Action.perform_change h ha).scope? hcode

theorem Run.crossing_tidied {home : RealmId} {origin : Frame} {body : Run σ (Except Error α)}
    {events : Observed σ} (hcode : TidyCode m.code)
    (hb : ∀ m : Machine σ, TidyCode m.code → (body t m).1 ≠ .outOfFuel →
      Tidied s m (body t m).2 (events t m))
    (hfuel : (Run.crossing rule home origin body t m).1 ≠ .outOfFuel) :
    Tidied s m (Run.crossing rule home origin body t m).2
      (Run.crossingEvents rule home body events t m) := by
  rcases Run.crossing_cases home origin body events with
    ⟨hr, he⟩ | ⟨e, -, hr, he⟩ | ⟨scope, store, outcome, last, h, hbody, hr, he⟩
  · rw [hr, he]
    exact .rest (fun _ => rfl) hcode
  · rw [hr, he]
    exact (Tidied.rest (fun _ => rfl) hcode).cons _ (fun _ => rfl) fun _ => trivial
  · obtain ⟨-, hscopes⟩ := Store.enter?_scopes h
    rw [hr, ne_eq, Outcome.map_eq_outOfFuel] at hfuel
    have htidied := hb { m with store := store.beginCrossing scope } hcode (by rwa [hbody])
    rw [hbody] at htidied
    rw [hr, he]
    refine htidied.crossed (fun i => ?_) (fun i => ?_) rfl
    · exact congrArg (·[i.index]?) hscopes
    · exact Store.scope?_endCrossing ..

theorem Run.counted_tidied {body : Run σ (Except Error Value)} {events : Observed σ}
    (hcode : TidyCode m.code)
    (hb : ∀ m : Machine σ, TidyCode m.code → (body t m).1 ≠ .outOfFuel →
      Tidied s m (body t m).2 (events t m))
    (hfuel : (Run.counted body t m).1 ≠ .outOfFuel) :
    Tidied s m (Run.counted body t m).2 (Run.countedEvents body events t m) := by
  rcases Run.counted_cases body events with ⟨hr, he⟩ |
    ⟨store, result, last, h, hbody, hr, he⟩ | ⟨store, outcome, last, h, hbody, hr, -, he⟩
  · rw [hr, he]
    exact .rest (fun _ => rfl) hcode
  · have hstart : Tidied s m { m with store } [.began t] := .pushed h hcode
    have htidied := hb { m with store } hcode (by simp [hbody])
    rw [hbody] at htidied
    have hlast : Tidied s last { last with store := last.store.popCall t } [] :=
      .rest (fun _ => rfl) htidied.code
    rw [hr, he]
    exact (hstart.append htidied).append (hlast.cons (.finished t) (fun _ => rfl) fun _ => trivial)
  · have hstart : Tidied s m { m with store } [.began t] := .pushed h hcode
    rw [hr] at hfuel
    have htidied := hb { m with store } hcode (by rwa [hbody])
    rw [hbody] at htidied
    rw [hr, he]
    exact hstart.append htidied

theorem Run.calling_tidied {invoke : Invocation σ} {observe : Observation σ} {callee : Value}
    {arguments : List Value} (hcode : TidyCode m.code)
    (hi : ∀ c context t (m : Machine σ), TidyCode m.code → (invoke c context t m).1 ≠ .outOfFuel →
      Tidied s m (invoke c context t m).2 (observe c context t m))
    (hfuel : (Run.calling rule invoke callee arguments t m).1 ≠ .outOfFuel) :
    Tidied s m (Run.calling rule invoke callee arguments t m).2
      (Run.callingEvents rule invoke observe callee arguments t m) := by
  rcases Run.calling_cases invoke observe callee arguments with
    ⟨hr, he⟩ | ⟨o, object, f, ho, hf, hanswer, hr, he⟩
  · rw [hr, he]
    exact .rest (fun _ => rfl) hcode
  · rw [hanswer, ne_eq, Outcome.map_eq_outOfFuel] at hfuel
    rw [hr, he]
    refine Run.crossing_tidied hcode (fun m hcode => ?_) hfuel
    exact Run.counted_tidied hcode (hi f.code ⟨o, arguments⟩ t)

namespace Program

theorem resume_tidied {invoke : Invocation σ} {observe : Observation σ} {k : β → Program σ α}
    (hcode : TidyCode m.code)
    (hk : ∀ b, ((k b).runWith rule invoke t m).1 ≠ .outOfFuel →
      Tidied s m ((k b).runWith rule invoke t m).2 ((k b).eventsWith rule invoke observe t m))
    (r : Except String β) (hfuel : ((resume k r).runWith rule invoke t m).1 ≠ .outOfFuel) :
    Tidied s m ((resume k r).runWith rule invoke t m).2
      ((resume k r).eventsWith rule invoke observe t m) := by
  cases r with
  | ok b => exact hk b hfuel
  | error text => exact (Tidied.rest (fun _ => rfl) hcode).moment t m

/-- The course of a scope that was entered, from the entry to its end and on. -/
theorem held_tidied {invoke : Invocation σ} {observe : Observation σ} {home : RealmId}
    {body : Program σ (Except Error β)} {k : Except Error β → Program σ α} {i : ScopeId}
    {scope : Scope} {start : Machine σ}
    (hact : Run.acting rule (.enter home) t m = (.done (.ok i), start))
    (hevents : Run.actingEvents rule (.enter home) t m = [.opened i scope m])
    (hold : ∀ j old, m.store.scope? j = some old → start.store.scope? j = some old ∧ i ≠ j)
    (hscope : start.store.scope? i = some scope) (hopen : scope.finished = false)
    (hb : (body.runWith rule invoke t start).1 ≠ .outOfFuel →
      Tidied s start (body.runWith rule invoke t start).2
        (body.eventsWith rule invoke observe t start))
    (hk : ∀ r (m : Machine σ), TidyCode m.code → ((k r).runWith rule invoke t m).1 ≠ .outOfFuel →
      Tidied s m ((k r).runWith rule invoke t m).2 ((k r).eventsWith rule invoke observe t m))
    (hfuel : ((holding home body k).runWith rule invoke t m).1 ≠ .outOfFuel) :
    Tidied s m ((holding home body k).runWith rule invoke t m).2
      ((holding home body k).eventsWith rule invoke observe t m) := by
  have hrun : (holding home body k).runWith rule invoke t m =
      Outcome.andThen (Run.guarding (body.runWith rule invoke) t start) fun r m =>
        Outcome.andThen (Run.acting rule (.leave i) t m) fun _ m =>
          (resume k r).runWith rule invoke t m := by
    show Outcome.andThen (Run.acting rule (.enter home) t m) _ = _
    rw [hact]
    rfl
  have hevents : (holding home body k).eventsWith rule invoke observe t m =
      .moment t m :: .opened i scope m :: (.moment t start ::
        body.eventsWith rule invoke observe t start ++
        Outcome.follow (Run.guarding (body.runWith rule invoke) t start) fun r m =>
          .moment t m :: Run.actingEvents rule (.leave i) t m ++
          Outcome.follow (Run.acting rule (.leave i) t m) fun _ m =>
            (resume k r).eventsWith rule invoke observe t m) := by
    show .moment t m :: Run.actingEvents rule (.enter home) t m ++
      Outcome.follow (Run.acting rule (.enter home) t m) _ = _
    rw [hact, hevents]
    rfl
  rw [hrun] at hfuel ⊢
  rw [hevents]
  have hbody : (body.runWith rule invoke t start).1 ≠ .outOfFuel := fun h =>
    hfuel (Outcome.andThen_outOfFuel (Run.guarding_outOfFuel.mpr h))
  have htidied := hb hbody
  obtain ⟨r, hr⟩ := Run.guarding_done hbody
  generalize (body.runWith rule invoke t start).2 = last at *
  have hlast := htidied.scopes i scope hscope
  have hend : Run.acting rule (.leave i) t last = _ ∧ Run.actingEvents rule (.leave i) t last = _ :=
    Run.leaving_open hlast hopen
  simp only [hr, Outcome.andThen, Outcome.follow, hend] at hfuel ⊢
  have hmoment : Tidied s last last [.moment t last] :=
    (Tidied.rest (fun _ => rfl) htidied.code).moment t last
  have hheld : Tidied s m { last with store := last.store.closeScope i scope } _ :=
    ((htidied.append hmoment).moment t start).held hold rfl rfl
  have hrest := resume_tidied hheld.code (fun b => hk b _ hheld.code) r hfuel
  simpa using (hheld.append hrest).moment t m

theorem holding_tidied {invoke : Invocation σ} {observe : Observation σ} {home : RealmId}
    {body : Program σ (Except Error β)} {k : Except Error β → Program σ α} (hcode : TidyCode m.code)
    (hb : ∀ m : Machine σ, TidyCode m.code → (body.runWith rule invoke t m).1 ≠ .outOfFuel →
      Tidied s m (body.runWith rule invoke t m).2 (body.eventsWith rule invoke observe t m))
    (hk : ∀ r (m : Machine σ), TidyCode m.code → ((k r).runWith rule invoke t m).1 ≠ .outOfFuel →
      Tidied s m ((k r).runWith rule invoke t m).2 ((k r).eventsWith rule invoke observe t m))
    (hfuel : ((holding home body k).runWith rule invoke t m).1 ≠ .outOfFuel) :
    Tidied s m ((holding home body k).runWith rule invoke t m).2
      ((holding home body k).eventsWith rule invoke observe t m) := by
  have hquiet {answer : Outcome (Except Error ScopeId)}
      (hact : Run.acting rule (.enter home) t m = (answer, m))
      (hevents : Run.actingEvents rule (.enter home) t m = []) :
      Tidied s m (Run.acting rule (.enter home) t m).2
        (Run.actingEvents rule (.enter home) t m) := by
    rw [hact, hevents]
    exact .rest (fun _ => rfl) hcode
  rcases Run.entering_cases home with ⟨hact, hevents⟩ | ⟨e, hact, hevents⟩ |
    ⟨scope, store, h, hact, hevents⟩
  · refine (Tidied.follow (fun _ => hquiet hact hevents) hfuel fun b m' hb => ?_).moment t m
    rw [hact] at hb
    cases hb
  · refine (Tidied.follow (fun _ => hquiet hact hevents) hfuel fun b m' hb => ?_).moment t m
    rw [hact] at hb
    cases hb
    exact hk (.error e) m
  · obtain ⟨hopen, hscopes⟩ := Store.enter?_scopes h
    have hscope : (store.addScope scope).scope? ⟨store.scopes.size⟩ = some scope := by
      rw [Store.scope?_addScope, if_pos rfl]
    refine held_tidied hact hevents (fun j old hj => ?_) hscope hopen (hb _ hcode) hk hfuel
    have hlt := Store.scope?_lt hj
    rw [← hscopes] at hlt
    refine ⟨?_, by rintro rfl; exact Nat.lt_irrefl _ hlt⟩
    rw [Store.scope?_addScope, if_neg (Nat.ne_of_lt hlt), Store.scope?, hscopes]
    exact hj

/-- What a tidy program does, given that functions do so. -/
theorem Tidy.tidied {invoke : Invocation σ} {observe : Observation σ} {p : Program σ α}
    (hi : ∀ c context t (m : Machine σ), TidyCode m.code → (invoke c context t m).1 ≠ .outOfFuel →
      Tidied s m (invoke c context t m).2 (observe c context t m))
    (hp : p.Tidy) (hcode : TidyCode m.code) (hfuel : (p.runWith rule invoke t m).1 ≠ .outOfFuel) :
    Tidied s m (p.runWith rule invoke t m).2 (p.eventsWith rule invoke observe t m) := by
  induction hp generalizing t m with
  | done | panic => exact (Tidied.rest (fun _ => rfl) hcode).moment t m
  | recalling _ ih => exact (ih m.memory hcode hfuel).moment t m
  | remembering memory _ ih =>
    have h := ih (m := { m with memory }) hcode hfuel
    have hstart : Tidied s m { m with memory } [] := .rest (fun _ => rfl) hcode
    exact (hstart.append h).moment t m
  | @reading _ _ r k _ ih =>
    have hread : Tidied s m (Run.reading r t m).2 [] := by
      unfold Run.reading
      split <;> exact .rest (fun _ => rfl) hcode
    exact (Tidied.follow (fun _ => hread) hfuel fun a m' _ => ih a).moment t m
  | acting ha _ ih =>
    exact (Tidied.follow (fun _ => Run.acting_tidied ha hcode) hfuel fun b m' _ => ih b).moment t m
  | defining realm name location hb _ _ ih =>
    have hdefine := Run.defining_tidied (s := s) (t := t) realm name location hb hcode
    exact (Tidied.follow (fun _ => hdefine) hfuel fun o m' _ => ih o).moment t m
  | calling callee arguments _ ih =>
    refine Tidied.moment (.follow ?_ hfuel fun r m' _ => ih r) t m
    exact Run.calling_tidied hcode hi
  | crossing home origin _ _ ihb ih =>
    refine Tidied.moment (.follow ?_ hfuel fun r m' _ => ih r) t m
    exact Run.crossing_tidied hcode fun m hcode => ihb hcode
  | onStack u _ _ ihb ih =>
    exact Tidied.moment (.follow (ihb hcode) hfuel fun r m' _ => ih r) t m
  | guarding _ _ ihb ih =>
    refine Tidied.moment (.follow (fun hfuel => ?_) hfuel fun r m' _ => ih r) t m
    rw [Run.guarding_machine]
    exact ihb hcode fun h => hfuel (Run.guarding_outOfFuel.mpr h)
  | holding home _ _ ihb ih =>
    exact holding_tidied hcode (fun m hcode => ihb hcode) (fun r m hcode => ih r hcode) hfuel

theorem invocation_tidied (fuel : Nat) (c : CodeId) (context : CallContext)
    (hcode : TidyCode m.code) (hfuel : (invocation rule fuel c context t m).1 ≠ .outOfFuel) :
    Tidied s m (invocation rule fuel c context t m).2 (observation rule fuel c context t m) := by
  induction fuel generalizing c context t m with
  | zero => exact absurd rfl hfuel
  | succ fuel ih =>
    simp only [invocation, observation] at hfuel ⊢
    cases hc : m.code[c.index]? with
    | none => exact .rest (fun _ => rfl) hcode
    | some body =>
      simp only [hc] at hfuel
      have hbody := (hcode c.index body hc context).tidied
        (fun c context t m hcode => ih (t := t) (m := m) c context hcode) hcode hfuel
      exact hbody.cons _ (fun _ => rfl) fun _ => trivial

theorem Tidy.disciplined {p : Program σ α} (hp : p.Tidy) (hcode : TidyCode m.code) (fuel : Nat)
    (hfuel : (p.run rule fuel t m).1 ≠ .outOfFuel) : Disciplined s (p.events rule fuel t m) := by
  have h : Tidied s m (p.run rule fuel t m).2 (p.events rule fuel t m) :=
    hp.tidied (fun c context _ _ hcode => invocation_tidied fuel c context hcode) hcode hfuel
  exact ⟨h.turn [], h.closed []⟩

end Program

end Realms
