import Realms.Proofs.Nested
import Realms.Proofs.Overflow
import Realms.Proofs.Recursion

/-! Crossings right inside crossings. No operation looks at what is noted of the crossings in
progress and of those that have ended, so a run goes the same way whatever is noted of them. Main
statement: a crossing whose body is a crossing into the same realm does what the inner one does
alone, and a crossing into the active realm does what its body does alone, but for an exhaustion
signal, which the boundary turns. -/

namespace Realms

variable {σ α β : Type} {rule : EntryRule} {s : StackId} {home : RealmId} {fuel : Nat}

/-! ### Single operations -/

namespace Store

variable {st : Store} {underway ended : List Scope}

/-- The store with other notes of the crossings in progress and of those that have ended. -/
def withCrossings (st : Store) (underway ended : List Scope) : Store := { st with underway, ended }

/-- What an operation comes to on the store with other notes, if it does not look at them. -/
def unnoticed (underway ended : List Scope) (r : Option (α × Store)) : Option (α × Store) :=
  r.map fun r => (r.1, r.2.withCrossings underway ended)

theorem bind_unnoticed {γ δ : Type} {o : Option β} {f : β → Option γ} {f' : β → Option δ}
    {g : γ → δ} (h : ∀ b, f' b = (f b).map g) : o.bind f' = (o.bind f).map g := by
  cases o with
  | none => rfl
  | some b => exact h b

theorem enter?_withCrossings : (st.withCrossings underway ended).enter? rule s home =
    unnoticed underway ended (st.enter? rule s home) := by
  refine bind_unnoticed fun now => bind_unnoticed fun engine => bind_unnoticed fun realm => ?_
  repeat' split
  all_goals rfl

theorem enterScope?_withCrossings : (st.withCrossings underway ended).enterScope? rule s home =
    unnoticed underway ended (st.enterScope? rule s home) := by
  simp only [enterScope?, enter?_withCrossings]
  cases st.enter? rule s home with
  | none => rfl
  | some r =>
    obtain ⟨r, entered⟩ := r
    cases r <;> rfl

theorem newRealm?_withCrossings (e : EngineId) (name : String) :
    (st.withCrossings underway ended).newRealm? e name =
      unnoticed underway ended (st.newRealm? e name) := by
  refine bind_unnoticed fun engine => ?_
  split <;> rfl

theorem setProperty?_withCrossings (o : ObjectId) (name : String) (v : Value) :
    (st.withCrossings underway ended).setProperty? o name v =
      unnoticed underway ended (st.setProperty? o name v) :=
  bind_unnoticed fun _ => rfl

theorem inquire?_withCrossings (f : ForeignId) (inquiry : Foreign → Inquiry α) :
    (st.withCrossings underway ended).inquire? f inquiry =
      unnoticed underway ended (st.inquire? f inquiry) :=
  bind_unnoticed fun _ => rfl

theorem restore_withCrossings (scope : Scope) : (st.withCrossings underway ended).restore scope =
    (st.restore scope).withCrossings underway ended := by
  unfold restore
  split <;> rfl

theorem endCrossing_withCrossings (scope : Scope) :
    (st.withCrossings underway ended).endCrossing scope =
      (st.endCrossing scope).withCrossings underway.tail (scope.finish :: ended) := by
  unfold endCrossing restore
  split <;> rfl

theorem property?_withCrossings (o : ObjectId) (name : String) :
    (st.withCrossings underway ended).property? o name = st.property? o name :=
  property?_congr (show (st.withCrossings underway ended).objects = st.objects from rfl) o name

theorem pushCall?_withCrossings : (st.withCrossings underway ended).pushCall? s =
    (st.pushCall? s).map (·.map (·.withCrossings underway ended)) := by
  refine bind_unnoticed fun now => bind_unnoticed fun engine => ?_
  split <;> rfl

end Store

variable {st : Store} {underway ended : List Scope}

theorem Action.perform_withCrossings (a : Action α) :
    a.perform rule s (st.withCrossings underway ended) =
      Store.unnoticed underway ended (a.perform rule s st) := by
  cases a with
  | newEngine | newForeign | newString | newSymbol => rfl
  | newRealm e name => exact Store.newRealm?_withCrossings e name
  | newStack | newObject => exact Store.bind_unnoticed fun _ => rfl
  | newObjectHere => exact Store.bind_unnoticed fun _ => Store.bind_unnoticed fun _ => rfl
  | setProperty o name v => exact Store.setProperty?_withCrossings o name v
  | setGlobal name v =>
    refine Store.bind_unnoticed fun now => ?_
    rw [Store.setProperty?_withCrossings]
    cases st.setProperty? now.active.global name v <;> rfl
  | isObject v =>
    cases v with
    | foreign f => exact Store.inquire?_withCrossings f _
    | _ => rfl
  | isCallable v | typeTag v =>
    cases v with
    | foreign f => exact Store.inquire?_withCrossings f _
    | object o => exact Store.bind_unnoticed fun _ => rfl
    | _ => rfl
  | read target name =>
    cases target with
    | foreign f => exact Store.inquire?_withCrossings f _
    | object o =>
      simp only [perform, Store.read?, Store.property?_withCrossings]
      exact Store.bind_unnoticed fun _ => rfl
    | _ => rfl
  | enter home => exact Store.enterScope?_withCrossings
  | leave i =>
    refine Store.bind_unnoticed fun scope => ?_
    split
    · rfl
    · show some ((), (Store.withCrossings { st with
        scopes := st.scopes.modify i.index Scope.finish } underway ended).restore scope) = _
      rw [Store.restore_withCrossings]
      rfl

theorem Reading.eval_withCrossings (r : Reading α) :
    r.eval s (st.withCrossings underway ended) = r.eval s st := by
  cases r with
  | property o name => simp only [eval, Store.property?_withCrossings]; rfl
  | global name => simp only [eval, Store.global?, Store.property?_withCrossings]; rfl
  | text v => cases v <;> rfl
  | typeName v => cases v <;> rfl
  | _ => rfl

/-! ### Runs -/

/-- The machines differ at most in what is noted of crossings. -/
def Machine.Likewise (m m' : Machine σ) : Prop :=
  ∃ underway ended, m' = { m with store := m.store.withCrossings underway ended }

namespace Machine.Likewise

variable {m m' m'' : Machine σ}

theorem refl (m : Machine σ) : m.Likewise m := ⟨_, _, rfl⟩

theorem trans (h : m.Likewise m') (h' : m'.Likewise m'') : m.Likewise m'' := by
  obtain ⟨_, _, rfl⟩ := h
  obtain ⟨underway, ended, rfl⟩ := h'
  exact ⟨underway, ended, rfl⟩

theorem stack? (h : m.Likewise m') (t : StackId) : m'.store.stack? t = m.store.stack? t := by
  obtain ⟨_, _, rfl⟩ := h
  rfl

theorem endCrossing (h : m.Likewise m') (scope : Scope) :
    Likewise { m with store := m.store.endCrossing scope }
      { m' with store := m'.store.endCrossing scope } := by
  obtain ⟨underway, ended, rfl⟩ := h
  exact ⟨underway.tail, scope.finish :: ended,
    congrArg (Machine.mk · m.code m.memory) (Store.endCrossing_withCrossings scope)⟩

end Machine.Likewise

/-- The runs have the same outcome, and leave machines that differ at most in what is noted of
crossings. -/
structure Outcome.Likewise (r r' : Outcome α × Machine σ) : Prop where
  outcome : r'.1 = r.1
  machine : r.2.Likewise r'.2

theorem Outcome.Likewise.andThen {r r' : Outcome β × Machine σ}
    {k : β → Machine σ → Outcome α × Machine σ} (h : Outcome.Likewise r r')
    (hk : ∀ b (m m' : Machine σ), m.Likewise m' → Outcome.Likewise (k b m) (k b m')) :
    Outcome.Likewise (Outcome.andThen r k) (Outcome.andThen r' k) := by
  obtain ⟨_, m⟩ := r
  obtain ⟨outcome, m'⟩ := r'
  obtain ⟨rfl, hm⟩ := h
  cases outcome with
  | done b => exact hk b m m' hm
  | panicked | outOfFuel => exact ⟨rfl, hm⟩

namespace Run

/-- The run takes no notice of what is noted of crossings. -/
def Heedless (run : Run σ α) : Prop :=
  ∀ s (m m' : Machine σ), m.Likewise m' → Outcome.Likewise (run s m) (run s m')

theorem reading_heedless (r : Reading α) : Heedless (reading (σ := σ) r) := by
  rintro s m _ ⟨underway, ended, rfl⟩
  simp only [reading, Reading.eval_withCrossings]
  cases r.eval s m.store <;> exact ⟨rfl, _, _, rfl⟩

theorem acting_heedless (a : Action α) : Heedless (acting (σ := σ) rule a) := by
  rintro s m _ ⟨underway, ended, rfl⟩
  simp only [acting, Action.perform_withCrossings]
  cases a.perform rule s m.store <;> exact ⟨rfl, _, _, rfl⟩

theorem defining_heedless (realm : RealmId) (name : String) (location : Option Location)
    (body : CallContext → Program σ (Except Error Value)) :
    Heedless (defining realm name location body) := by
  rintro s m _ ⟨underway, ended, rfl⟩
  have hnew (f : Function) : (m.store.withCrossings underway ended).newFunction? realm f =
      Store.unnoticed underway ended (m.store.newFunction? realm f) :=
    Store.bind_unnoticed fun _ => rfl
  simp only [defining, hnew]
  cases m.store.newFunction? realm ⟨name, location, ⟨m.code.size⟩⟩ <;> exact ⟨rfl, _, _, rfl⟩

variable {body : Run σ (Except Error α)}

theorem Heedless.crossing (hb : Heedless body) (origin : Frame) :
    Heedless (crossing rule home origin body) := by
  rintro s m _ ⟨underway, ended, rfl⟩
  simp only [Run.crossing, Store.enter?_withCrossings]
  cases m.store.enter? rule s home with
  | none => exact ⟨rfl, _, _, rfl⟩
  | some result =>
    obtain ⟨result, store⟩ := result
    cases result with
    | error e => exact ⟨rfl, _, _, rfl⟩
    | ok scope =>
      obtain ⟨houtcome, hmachine⟩ := hb s { m with store := store.beginCrossing scope }
        { m with store := (store.withCrossings underway ended).beginCrossing scope } ⟨_, _, rfl⟩
      exact ⟨congrArg (Outcome.map _) houtcome, hmachine.endCrossing scope⟩

theorem Heedless.counted {body : Run σ (Except Error Value)} (hb : Heedless body) :
    Heedless (counted body) := by
  rintro s m _ ⟨underway, ended, rfl⟩
  simp only [Run.counted, Store.pushCall?_withCrossings]
  cases m.store.pushCall? s with
  | none => exact ⟨rfl, _, _, rfl⟩
  | some result =>
    cases result with
    | error e => exact ⟨rfl, _, _, rfl⟩
    | ok store =>
      refine (hb s { m with store } { m with store := store.withCrossings underway ended }
        ⟨_, _, rfl⟩).andThen fun r m _ h => ?_
      obtain ⟨_, _, rfl⟩ := h
      exact ⟨rfl, _, _, rfl⟩

theorem calling_heedless {invoke : Invocation σ} (hi : ∀ c context, Heedless (invoke c context))
    (callee : Value) (arguments : List Value) :
    Heedless (calling rule invoke callee arguments) := by
  rintro s m m' ⟨underway, ended, rfl⟩
  cases callee with
  | object o =>
    have hobject : (m.store.withCrossings underway ended).object? o = m.store.object? o := rfl
    simp only [calling, hobject]
    cases ho : m.store.object? o with
    | none => exact ⟨rfl, _, _, rfl⟩
    | some object =>
      cases hf : object.function? with
      | none => simp only [hf]; exact ⟨rfl, _, _, rfl⟩
      | some f =>
        have hcrossing : Heedless (Run.crossing rule object.realm object.frame
            (Run.counted (invoke f.code ⟨o, arguments⟩))) :=
          (hi f.code ⟨o, arguments⟩).counted.crossing object.frame
        obtain ⟨houtcome, hmachine⟩ := hcrossing s m _ ⟨underway, ended, rfl⟩
        simp only [hf]
        exact ⟨congrArg (Outcome.map _) houtcome, hmachine⟩
  | _ => exact ⟨rfl, _, _, rfl⟩

theorem Heedless.guarding {body : Run σ α} (hb : Heedless body) : Heedless (guarding body) := by
  intro s m m' h
  obtain ⟨houtcome, hmachine⟩ := hb s m m' h
  unfold Run.guarding
  cases hr : body s m with
  | mk outcome last =>
    cases hr' : body s m' with
    | mk outcome' last' =>
      rw [hr, hr'] at houtcome hmachine
      cases houtcome
      cases outcome <;> exact ⟨rfl, hmachine⟩

end Run

namespace Program

open Run

theorem heedlessWith {invoke : Invocation σ} (hi : ∀ c context, Heedless (invoke c context))
    (p : Program σ α) : Heedless (p.runWith rule invoke) := by
  induction p with
  | done | panic => exact fun s m m' h => ⟨rfl, h⟩
  | recalling k ih =>
    rintro s m _ ⟨underway, ended, rfl⟩
    exact ih m.memory s m _ ⟨underway, ended, rfl⟩
  | remembering memory k ih =>
    rintro s m _ ⟨underway, ended, rfl⟩
    exact ih s { m with memory } _ ⟨underway, ended, rfl⟩
  | reading r k ih => exact fun s m m' h => (reading_heedless r s m m' h).andThen fun a => ih a s
  | acting a k ih => exact fun s m m' h => (acting_heedless a s m m' h).andThen fun b => ih b s
  | defining realm name location body k _ ih =>
    exact fun s m m' h =>
      (defining_heedless realm name location body s m m' h).andThen fun o => ih o s
  | calling callee arguments k ih =>
    exact fun s m m' h =>
      (calling_heedless hi callee arguments s m m' h).andThen fun r => ih r s
  | crossing home origin body k ihb ih =>
    exact fun s m m' h => (ihb.crossing origin s m m' h).andThen fun r => ih r s
  | onStack t body k ihb ih => exact fun s m m' h => (ihb t m m' h).andThen fun r => ih r s
  | guarding body k ihb ih => exact fun s m m' h => (ihb.guarding s m m' h).andThen fun r => ih r s

theorem invocation_heedless (fuel : Nat) (c : CodeId) (context : CallContext) :
    Heedless (invocation (σ := σ) rule fuel c context) := by
  induction fuel generalizing c context with
  | zero => exact fun s m m' h => ⟨rfl, h⟩
  | succ fuel ih =>
    rintro s m _ ⟨underway, ended, rfl⟩
    simp only [invocation]
    cases m.code[c.index]? with
    | none => exact ⟨rfl, _, _, rfl⟩
    | some body => exact heedlessWith ih (body context) s m _ ⟨underway, ended, rfl⟩

theorem run_heedless (p : Program σ α) : Heedless (p.run rule fuel) :=
  heedlessWith (invocation_heedless fuel) p

end Program

/-! ### Crossings right inside crossings -/

variable {m : Machine σ}

/-- Where the realm is active already, there is nothing to switch and nothing to put back. -/
theorem Store.Sound.enter?_active (hst : st.Sound)
    (h : (st.stack? s).map (·.active.id) = some home) :
    st.enter? rule s home = some (.ok ⟨s, home, none, false⟩, st) := by
  obtain ⟨now, hnow, rfl⟩ := Option.map_eq_some_iff.mp h
  obtain ⟨scope, st', henter, hentry⟩ := hst.enter?_registers hnow (hst.active s now hnow)
  cases hentry with
  | stays => exact henter
  | switches hne => exact absurd rfl hne

/-- What comes out of a boundary with the frame when its body has the outcome. -/
inductive Outcome.Crosses (origin : Frame) :
    Outcome (Except Error α) → Outcome (Except Error α) → Prop
  | value (a : α) : Crosses origin (.done (.ok a)) (.done (.ok a))
  | error {e e' : Error} : e.Crosses origin e' →
      Crosses origin (.done (.error e)) (.done (.error e'))
  | panicked (text : String) : Crosses origin (.panicked text) (.panicked text)
  | outOfFuel : Crosses origin .outOfFuel .outOfFuel

theorem Outcome.crosses_atBoundary (outcome : Outcome (Except Error α)) (origin : Frame) :
    outcome.Crosses origin (outcome.map (·.mapError (·.atBoundary origin))) := by
  cases outcome with
  | done r =>
    cases r with
    | ok a => exact .value a
    | error e => exact .error (e.crosses_atBoundary origin)
  | panicked text => exact .panicked text
  | outOfFuel => exact .outOfFuel

/-- A signal comes out as an overflow that has passed through the same functions. -/
theorem Outcome.Crosses.of_exhausted {origin : Frame} {e : Error}
    {outcome : Outcome (Except Error α)} (h : Crosses origin (.done (.error e)) outcome)
    (he : e.isExhausted = true) :
    outcome = .done (.error ⟨.range Cause.overflowText, some origin, e.passed⟩) := by
  cases h with
  | @error _ e' h =>
    obtain ⟨cause, from?, passed⟩ := e'
    obtain ⟨rfl, rfl, htrace⟩ := h.signal he
    obtain rfl : passed = e.passed := List.reverse_inj.mp htrace
    rfl

/-- What a boundary let through passes all further ones. -/
theorem Outcome.atBoundary_atBoundary (outcome : Outcome (Except Error α)) (o₁ o₂ : Frame) :
    (outcome.map (·.mapError (·.atBoundary o₂))).map (·.mapError (·.atBoundary o₁)) =
      outcome.map (·.mapError (·.atBoundary o₂)) := by
  cases outcome with
  | done r =>
    cases r with
    | ok a => rfl
    | error e =>
      have hturned := Error.atBoundary_of_not_exhausted (e.isExhausted_atBoundary o₂) o₁
      exact congrArg (Outcome.done ∘ Except.error) hturned
  | panicked | outOfFuel => rfl

namespace Run

variable {body : Run σ (Except Error α)}

theorem crossing_active (hm : m.store.Sound) (hb : Heedless body) (h : m.active? s = some home)
    (origin : Frame) : Outcome.Likewise
      ((body s m).1.map (·.mapError (·.atBoundary origin)), (body s m).2)
      (crossing rule home origin body s m) := by
  obtain ⟨houtcome, hmachine⟩ := hb s m
    { m with store := m.store.beginCrossing ⟨s, home, none, false⟩ } ⟨_, _, rfl⟩
  rw [crossing_of_body (hm.enter?_active h) rfl]
  exact ⟨congrArg (Outcome.map _) houtcome, hmachine.trans ⟨_, _, rfl⟩⟩

theorem crossing_absorbed (hm : m.store.Sound) (hb : Heedless body) (o₁ o₂ : Frame) :
    Outcome.Likewise (crossing rule home o₂ body s m)
      (crossing rule home o₁ (crossing rule home o₂ body) s m) := by
  cases he : m.store.enter? rule s home with
  | none =>
    simp only [crossing, he]
    exact ⟨rfl, .refl m⟩
  | some result =>
    obtain ⟨result, store⟩ := result
    cases result with
    | error e =>
      simp only [crossing, he]
      exact ⟨rfl, .refl _⟩
    | ok scope =>
      obtain ⟨now, realm, hnow, rfl, hreg, hentry⟩ := hm.enter?_ok he
      obtain ⟨now', hnow', rfl⟩ := hentry.active hnow
      -- the outer crossing has made the realm active, so the inner one switches nothing
      let start : Machine σ := { m with store := store.beginCrossing scope }
      have hstart : start.store.Sound := (hentry.sound hm hreg).beginCrossing scope
      have hactive : start.active? s = some now'.active.id :=
        congrArg (Option.map fun now : Stack => now.active.id) hnow'
      have hcrossing (body : Run σ (Except Error α)) (origin : Frame) :
          crossing rule now'.active.id origin body s m =
            ((body s start).1.map (·.mapError (·.atBoundary origin)),
              { (body s start).2 with store := (body s start).2.store.endCrossing scope }) :=
        crossing_of_body he rfl
      obtain ⟨houtcome, hmachine⟩ := crossing_active hstart hb hactive o₂
      rw [hcrossing body, hcrossing (crossing rule now'.active.id o₂ body), houtcome,
        Outcome.atBoundary_atBoundary]
      exact ⟨rfl, hmachine.endCrossing scope⟩

end Run

open Program

/-- A crossing whose body is no more than a crossing into the same realm has the outcome of the
inner one alone, and leaves the same machine but for what is noted of crossings: it is the inner
boundary that turns an exhaustion signal, and the outer one changes nothing. Where the realm is
active already, a crossing has the outcome of its body alone, with an exhaustion signal turned, and
leaves the same machine again. -/
theorem crossing_into_same_realm (hm : m.Reachable rule) (fuel : Nat) (home : RealmId)
    (o₁ o₂ : Frame) (body : Program σ (Except Error α)) (s : StackId) :
    (let nested := (cross home o₁ (cross home o₂ body)).run rule fuel s m
    let single := (cross home o₂ body).run rule fuel s m
    nested.1 = single.1 ∧ single.2.Likewise nested.2 ∧
      (∀ t, nested.2.store.stack? t = single.2.store.stack? t) ∧
      ∀ scope store, m.store.enter? rule s home = some (.ok scope, store) →
        (body.run rule fuel s { m with store := store.beginCrossing scope }).1.Crosses o₂
          nested.1) ∧
    (m.active? s = some home →
      let crossed := (cross home o₂ body).run rule fuel s m
      let direct := body.run rule fuel s m
      direct.1.Crosses o₂ crossed.1 ∧ direct.2.Likewise crossed.2 ∧
        ∀ t, crossed.2.store.stack? t = direct.2.store.stack? t) := by
  have hbody : Run.Heedless (body.run rule fuel) := run_heedless body
  have hinner : (cross home o₂ body).run rule fuel =
      Run.crossing rule home o₂ (body.run rule fuel) := by
    funext s m
    exact cross_run home o₂ body
  constructor
  · rw [cross_run, hinner]
    obtain ⟨houtcome, hmachine⟩ := Run.crossing_absorbed hm.sound hbody o₁ o₂
    refine ⟨houtcome, hmachine, hmachine.stack?, fun scope store henter => ?_⟩
    rw [houtcome, Run.crossing_of_body henter rfl]
    exact Outcome.crosses_atBoundary _ o₂
  · intro h
    rw [cross_run]
    obtain ⟨houtcome, hmachine⟩ := Run.crossing_active hm.sound hbody h o₂
    refine ⟨?_, hmachine, hmachine.stack?⟩
    rw [houtcome]
    exact Outcome.crosses_atBoundary _ o₂

/-- Leaves a scope open and runs out of calls. -/
def Program.abandoning : Program σ (Except Error Unit) := do
  let _ ← act (.enter (.main ⟨0⟩))
  pure (.error ⟨.exhausted 3, none, [⟨"callee", none⟩]⟩)

theorem abandoning_absorbed : Machine.withTwoRealms.Reachable .shortcut ∧
    Machine.withTwoRealms.active? ⟨0⟩ = some (.main ⟨0⟩) ∧
    (let nested := (cross ⟨⟨0⟩, 1⟩ ⟨"outer", none⟩ (cross ⟨⟨0⟩, 1⟩ ⟨"inner", none⟩
      abandoning)).run .shortcut 0 ⟨0⟩ Machine.withTwoRealms
    nested.1 = .done (.error ⟨.range "Maximum call stack size exceeded",
        some ⟨"inner", none⟩, [⟨"callee", none⟩]⟩) ∧
      (nested.2.store.stack? ⟨0⟩).map (·.switches) = some 3) ∧
    ((cross (.main ⟨0⟩) ⟨"inner", none⟩ abandoning).run .shortcut 0 ⟨0⟩ Machine.withTwoRealms).1 =
      .done (.error ⟨.range "Maximum call stack size exceeded", some ⟨"inner", none⟩,
        [⟨"callee", none⟩]⟩) := by
  have hm : Machine.withTwoRealms.Reachable .shortcut := Machine.prepared_reachable ..
  have hactive : Machine.withTwoRealms.active? ⟨0⟩ = some (.main ⟨0⟩) := rfl
  obtain ⟨⟨-, -, hstack, hnested⟩, -⟩ := crossing_into_same_realm hm 0 ⟨⟨0⟩, 1⟩ ⟨"outer", none⟩
    ⟨"inner", none⟩ abandoning ⟨0⟩
  obtain ⟨-, hsame⟩ := crossing_into_same_realm hm 0 (.main ⟨0⟩) ⟨"outer", none⟩
    ⟨"inner", none⟩ abandoning ⟨0⟩
  refine ⟨hm, hactive, ⟨(hnested _ _ rfl).of_exhausted rfl, ?_⟩, (hsame hactive).1.of_exhausted rfl⟩
  exact congrArg (Option.map fun now : Stack => now.switches) (hstack ⟨0⟩)

end Realms
