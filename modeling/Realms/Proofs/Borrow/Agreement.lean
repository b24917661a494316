import Realms.Proofs.Borrow.Quiet
import Realms.Proofs.Borrow.Refused
import Realms.Proofs.Record

/-! Borrowing is never in the way. Main statement: operations do check the cells that they need, but
no session meets a borrow that is refused, and with foreign values that answer from what they were
made with it ends as its program does on a machine that knows no borrows, and leaves the same
machine. -/

namespace Realms.Borrow

open Held

variable {σ α β : Type}

/-- The machine without its borrows. -/
def World.machine (w : World σ) : Machine σ :=
  ⟨w.store, w.code.map fun body context => (body context).plain, w.memory⟩

/-- Nothing is borrowed, and nothing is let go of. -/
def World.Still (w : World σ) : Prop := w.holds = .free ∧ w.Retains

/-- Work that ends as a run does which knows no borrows, and leaves the same machine. -/
def Follows (h : Held σ α) (r : Machine σ → Outcome α × Machine σ) : Prop :=
  ∀ w, w.Still → ∃ outcome last, h w = (.ended outcome, last) ∧ last.Still ∧
    r w.machine = (outcome, last.machine)

namespace Follows

variable {h h' : Held σ α} {r r' : Machine σ → Outcome α × Machine σ} {k : α → Held σ β}
  {k' : α → Machine σ → Outcome β × Machine σ} {rule : EntryRule} {s : StackId}

/-! ### Work put together -/

theorem of_eq (heq : ∀ w : World σ, w.Still → h w = h' w) (hh' : Follows h' r) :
    Follows h r := fun w hw => heq w hw ▸ hh' w hw

theorem pure (a : α) : Follows (Pure.pure a : Held σ α) fun m => (.done a, m) :=
  fun w hw => ⟨_, w, rfl, hw, rfl⟩

theorem panic (text : String) : Follows (Held.panic text : Held σ α) fun m => (.panicked text, m) :=
  fun w hw => ⟨_, w, rfl, hw, rfl⟩

theorem outOfFuel : Follows (Held.outOfFuel : Held σ α) fun m => (.outOfFuel, m) :=
  fun w hw => ⟨_, w, rfl, hw, rfl⟩

theorem bind (hh : Follows h r) (hk : ∀ a, Follows (k a) (k' a)) :
    Follows (h >>= k) fun m => Outcome.andThen (r m) k' := by
  intro w hw
  obtain ⟨outcome, last, heq, hlast, hr⟩ := hh w hw
  simp only [Bind.bind, andThen, heq, hr]
  cases outcome with
  | done a => exact hk a last hlast
  | panicked text => exact ⟨_, last, rfl, hlast, rfl⟩
  | outOfFuel => exact ⟨_, last, rfl, hlast, rfl⟩

theorem look (f : Store → Option α) : Follows (Held.look f : Held σ α) fun m =>
    match f m.store with
    | none => (.panicked unknownHandle, m)
    | some a => (.done a, m) := by
  intro w hw
  simp only [Held.look, World.machine]
  cases f w.store with
  | none => exact ⟨_, w, rfl, hw, rfl⟩
  | some a => exact ⟨_, w, rfl, hw, rfl⟩

theorem change (f : Store → Option (α × Store)) : Follows (Held.change f : Held σ α) fun m =>
    match f m.store with
    | none => (.panicked unknownHandle, m)
    | some (a, store) => (.done a, { m with store }) := by
  intro w hw
  simp only [Held.change, World.machine]
  cases f w.store with
  | none => exact ⟨_, w, rfl, hw, rfl⟩
  | some found => exact ⟨_, _, rfl, hw, rfl⟩

theorem map (f : α → β) (hh : Follows h r) :
    Follows (do Pure.pure (f (← h))) fun m => ((r m).1.map f, (r m).2) := by
  intro w hw
  obtain ⟨outcome, last, heq, hlast, hr⟩ := hh w hw
  simp only [Bind.bind, andThen, heq, hr]
  cases outcome <;> exact ⟨_, last, rfl, hlast, rfl⟩

theorem guarding {run : Run σ α} (hh : Follows h (run s)) :
    Follows (Held.guarding h) (Run.guarding run s) := by
  intro w hw
  obtain ⟨outcome, last, heq, hlast, hr⟩ := hh w hw
  simp only [Held.guarding, Run.guarding, heq, hr]
  cases outcome <;> exact ⟨_, last, rfl, hlast, rfl⟩

theorem unwinding (hh : Follows h r) : Follows (Held.unwinding h) r := by
  intro w hw
  obtain ⟨outcome, last, heq, hlast⟩ := hh w hw
  exact ⟨outcome, last, by simp only [Held.unwinding, heq], hlast⟩

theorem onto (t : StackId) (hh : Follows h r) : Follows (Held.onto t h) r := by
  intro w hw
  obtain ⟨outcome, last, heq, hlast, hr⟩ := hh { w with running := t :: w.running } hw
  exact ⟨outcome, { last with running := w.running }, by simp only [Held.onto, heq], hlast, hr⟩

theorem dropping {drop : Held σ Unit} {f : Store → Store}
    (hdrop : ∀ w : World σ, w.Still →
      drop w = (.ended (.done ()), { w with store := f w.store })) (hh : Follows h r) :
    Follows (Held.dropping drop h) fun m =>
      ((r m).1, { (r m).2 with store := f (r m).2.store }) := by
  intro w hw
  obtain ⟨outcome, last, heq, hlast, hr⟩ := hh w hw
  simp only [Held.dropping, heq, hdrop last hlast, hr]
  cases outcome <;> exact ⟨_, _, rfl, hlast, rfl⟩

/-! ### Operations -/

theorem reading (s : StackId) (r : Reading α) :
    Follows (Borrow.reading s r : Held σ α) (Run.reading r s) :=
  of_eq (fun _ hw => reading_eq hw.1 s r) (look _)

variable {discard : RealmId → Held σ Unit}

theorem leave (i : ScopeId) : Follows (Borrow.leave discard i) (Run.acting rule (.leave i) s) :=
  of_eq (fun _ hw => leave_eq hw.1 hw.2.1 discard i) (change _)

theorem crossing {home : RealmId} {origin : Frame} {body : Held σ (Except Error α)}
    {run : Run σ (Except Error α)} (hbody : Follows body (run s)) :
    Follows (Borrow.crossing discard rule home origin s body)
      (Run.crossing rule home origin run s) := by
  intro w hw
  have henter := enter_eq hw.1 rule s home
  have hstore : w.machine.store = w.store := rfl
  rw [Run.crossing, hstore]
  cases hentered : w.store.enter? rule s home with
  | none =>
    refine ⟨_, w, bind_panicked (henter.trans (change_none hentered)), hw, rfl⟩
  | some entered =>
    obtain ⟨_ | scope, store⟩ := entered
    · exact ⟨_, _, bind_done (henter.trans (change_some hentered)), hw, rfl⟩
    · obtain ⟨outcome, last, heq, hlast, hr⟩ :=
        ((hbody.dropping (f := (·.endCrossing scope)) fun _ hw =>
          endCrossing_eq hw.1 hw.2.1 discard scope).map (·.mapError (·.atBoundary origin)))
            { w with store := store.beginCrossing scope } hw
      refine ⟨outcome, last, ?_, hlast, hr⟩
      refine (bind_done (henter.trans (change_some hentered))).trans ?_
      exact (bind_done (change_some rfl)).trans heq

theorem counted {body : Held σ (Except Error Value)} {run : Run σ (Except Error Value)}
    (hbody : Follows body (run s)) : Follows (Borrow.counted s body) (Run.counted run s) := by
  intro w hw
  have hstore : w.machine.store = w.store := rfl
  rw [Run.counted, hstore]
  cases hpush : w.store.pushCall? s with
  | none =>
    have hbegin : pushCall s w = (.ended (.panicked unknownHandle), w) :=
      change_none (by rw [hpush]; rfl)
    exact ⟨_, w, bind_panicked hbegin, hw, rfl⟩
  | some counting =>
    cases counting with
    | error e =>
      have hbegin : pushCall s w = (.ended (.done (.error e)), w) :=
        change_some (by rw [hpush]; rfl)
      exact ⟨_, w, bind_done hbegin, hw, rfl⟩
    | ok store =>
      have hbegin : pushCall s w = (.ended (.done (.ok ())), { w with store }) :=
        change_some (by rw [hpush]; rfl)
      have hpop (result : Except Error Value) :
          Follows (do Held.change fun st => some ((), st.popCall s); Pure.pure result : Held σ _)
            fun m => (.done result, { m with store := m.store.popCall s }) :=
        fun w hw => ⟨_, _, rfl, hw, rfl⟩
      obtain ⟨outcome, last, heq, hlast, hr⟩ := hbody.bind hpop { w with store } hw
      exact ⟨outcome, last, (bind_done hbegin).trans heq, hlast, hr⟩

theorem defining (realm : RealmId) (name : String) (location : Option Location)
    {body : CallContext → Session σ (Except Error Value)}
    (hbody : ∀ context, (body context).Retains) (s : StackId) :
    Follows (Borrow.defining realm name location body)
      (Run.defining realm name location (fun context => (body context).plain) s) := by
  intro w hw
  have hcode : w.machine.code.size = w.code.size := Array.size_map
  have hstore : w.machine.store = w.store := rfl
  simp only [Borrow.defining, Run.defining, hcode, hstore]
  cases w.store.newFunction? realm ⟨name, location, ⟨w.code.size⟩⟩ with
  | none => exact ⟨_, w, rfl, hw, rfl⟩
  | some made =>
    refine ⟨_, _, rfl, ⟨hw.1, hw.2.push hbody _⟩, ?_⟩
    simp only [World.machine, Array.map_push]

theorem refusing (callee : Value) : Follows (Borrow.refusing callee : Held σ (Except Error α))
    (Run.refusing callee s) := fun w hw => ⟨_, w, rfl, hw, rfl⟩

theorem calling {l : Level σ} {invoke : Invocation σ}
    (hinvoke : ∀ c context, Follows (l.invoke c context s) (invoke c context s)) (callee : Value)
    (arguments : List Value) :
    Follows (Borrow.calling rule l callee arguments s)
      (Run.calling rule invoke callee arguments s) := by
  cases callee with
  | object o =>
    intro w hw
    have hstore : w.machine.store = w.store := rfl
    simp only [Borrow.calling, Run.calling, look_bind, hstore]
    cases w.store.object? o with
    | none => exact ⟨_, w, rfl, hw, rfl⟩
    | some object =>
      simp only
      cases object.function? with
      | none => exact refusing _ w hw
      | some f =>
        have hcrossing : Follows
            (Borrow.crossing l.discard rule object.realm object.frame s
              (Borrow.counted s (l.invoke f.code ⟨o, arguments⟩ s)))
            (Run.crossing rule object.realm object.frame
              (Run.counted (invoke f.code ⟨o, arguments⟩)) s) :=
          crossing (counted (hinvoke f.code ⟨o, arguments⟩))
        exact hcrossing.map (·.mapError (·.passing object.frame)) w hw
  | _ => exact refusing (s := s) _

end Follows

/-! ### Questions -/

/-- The store with questions noted in the record of a foreign value. -/
def noted (st : Store) (f : ForeignId) (queries : List Query) : Store :=
  { st with foreigns := st.foreigns.modify f.index (·.note queries) }

theorem foreign?_noted (st : Store) (f : ForeignId) (queries : List Query) :
    (noted st f queries).foreign? f = (st.foreign? f).map (·.note queries) := by
  simp [noted, Store.foreign?, Array.getElem?_modify]

theorem noted_nil (st : Store) (f : ForeignId) : noted st f [] = st := by
  have hnote : (fun g : Foreign => g.note []) = id := rfl
  have hforeigns : st.foreigns.modify f.index (·.note []) = st.foreigns := by
    rw [hnote]
    ext i h₁ h₂
    · simp
    · simp [Array.getElem_modify]
  rw [noted, hforeigns]

theorem noted_noted (st : Store) (f : ForeignId) (queries queries' : List Query) :
    noted (noted st f queries) f queries' = noted st f (queries ++ queries') := by
  have hforeigns : (st.foreigns.modify f.index (·.note queries)).modify f.index (·.note queries') =
      st.foreigns.modify f.index (·.note (queries ++ queries')) := by
    ext i h₁ h₂
    · simp
    · simp only [Array.getElem_modify]
      split
      · exact Foreign.note_note _ _ _
      · rfl
  simp only [noted, hforeigns]

/-- Work that puts questions one by one, and comes to what an inquiry into a foreign value does. -/
structure Puts (f : ForeignId) (h : Held σ α) (i : Foreign → Inquiry α) : Prop where
  /-- The answers do not depend on what was asked before. -/
  steady : ∀ (g : Foreign) queries, i (g.note queries) = i g
  known : ∀ (w : World σ) g, w.Still → w.store.foreign? f = some g →
    ∃ last, h w = (.ended (.done (i g).answer), last) ∧ last.Still ∧
      last.machine = { w.machine with store := noted w.store f (i g).asked }

namespace Puts

variable {f : ForeignId} {h yes no : Held σ α} {k : α → Held σ β} {i j j' : Foreign → Inquiry α}

theorem pure (a : α) : Puts f (Pure.pure a : Held σ α) fun _ => Pure.pure a where
  steady _ _ := rfl
  known w g hw _ := ⟨w, rfl, hw, by rw [Inquiry.asked_pure, noted_nil]; rfl⟩

theorem bind {n : α → Foreign → Inquiry β} (hh : Puts f h i) (hk : ∀ a, Puts f (k a) (n a)) :
    Puts f (h >>= k) fun g => i g >>= fun a => n a g where
  steady g queries := by
    simp only [hh.steady, (hk _).steady]
  known w g hw hg := by
    obtain ⟨next, heq, hnext, hmachine⟩ := hh.known w g hw hg
    have hstore : next.store = noted w.store f (i g).asked := congrArg Machine.store hmachine
    have hg' : next.store.foreign? f = some (g.note (i g).asked) := by
      rw [hstore, foreign?_noted, hg, Option.map_some]
    obtain ⟨last, heq', hlast, hmachine'⟩ := (hk (i g).answer).known next _ hnext hg'
    refine ⟨last, (bind_done heq).trans ?_, hlast, ?_⟩
    · rw [heq', (hk _).steady]
      rfl
    · rw [hmachine', hmachine, hstore, noted_noted, (hk _).steady]
      rfl

theorem deciding {h : Held σ Bool} {i : Foreign → Inquiry Bool} (hh : Puts f h i)
    (hyes : Puts f yes j) (hno : Puts f no j') :
    Puts f (do if ← h then yes else no) (fun g => do if ← i g then j g else j' g) :=
  hh.bind (n := fun answer g => if answer = true then j g else j' g)
    fun answer => by cases answer <;> assumption

section

variable {ask : (q : Query) → Held σ (Answer q)}
  (hask : ∀ q, Puts f (ask q) fun g => ⟨reply g q, [q]⟩)

include hask

theorem predicate (p : Predicate) : Puts f (ask (.predicate p)) (·.ask p) := hask _

theorem isObject : Puts f (Borrow.isObject ask) Foreign.isObject := by
  refine (predicate hask .null).deciding (pure false) ?_
  refine (predicate hask .boolean).deciding (pure false) ?_
  refine (predicate hask .string).deciding (pure false) ?_
  exact (predicate hask .number).deciding (pure false) (pure true)

theorem isCallable : Puts f (Borrow.isCallable ask) Foreign.isCallable :=
  (isObject hask).deciding (predicate hask .executable) (pure false)

theorem typeTag : Puts f (Borrow.typeTag ask) Foreign.typeTag := by
  refine (predicate hask .null).deciding (pure TypeTag.object) ?_
  refine (predicate hask .boolean).deciding (pure TypeTag.boolean) ?_
  refine (predicate hask .string).deciding (pure TypeTag.string) ?_
  refine (predicate hask .number).deciding (pure TypeTag.number) ?_
  exact (predicate hask .executable).deciding (pure TypeTag.function) (pure TypeTag.object)

theorem readForeign (name : String) :
    Puts f (Borrow.readForeign ask f name) (·.read name) := by
  have hplain : Puts f (Pure.pure (.ok .undefined) : Held σ (Except Error Value)) _ := pure _
  refine (isObject hask).deciding ?_ ((predicate hask .null).deciding ?_ hplain)
  · have hmember : Puts f (ask (.member name)) (·.readMember name) := hask _
    exact hmember.bind (n := fun value _ => Pure.pure (Except.ok (value.getD Value.undefined)))
      fun value => pure (Except.ok (value.getD Value.undefined))
  · refine ⟨fun _ _ => rfl, fun w g hw hg => ⟨w, ?_, hw, ?_⟩⟩
    · have htext : w.store.text (.foreign f) = g.text := by rw [Store.text, hg]; rfl
      rw [look_bind]
      simp only [htext]
      rfl
    · rw [Inquiry.asked_pure, noted_nil]
      rfl

end

end Puts

/-- Work that panics where it is not known who is asked. -/
def Declines (f : ForeignId) (h : Held σ α) : Prop :=
  ∀ w : World σ, w.Still → w.store.foreign? f = none →
    ∃ last, h w = (.ended (.panicked unknownHandle), last) ∧ last.Still ∧
      last.machine = w.machine

theorem Declines.bind {f : ForeignId} {h : Held σ α} (hh : Declines f h) (k : α → Held σ β) :
    Declines f (h >>= k) := by
  intro w hw hf
  obtain ⟨last, heq, hlast⟩ := hh w hw hf
  exact ⟨last, bind_panicked heq, hlast⟩

/-- Questions one by one come to an inquiry into the store. -/
theorem Follows.inquiring {f : ForeignId} {h : Held σ α} {i : Foreign → Inquiry α}
    (hputs : Puts f h i) (hdeclines : Declines f h) : Follows h fun m =>
      match m.store.inquire? f i with
      | none => (.panicked unknownHandle, m)
      | some (a, store) => (.done a, { m with store }) := by
  intro w hw
  have hstore : w.machine.store = w.store := rfl
  simp only [Store.inquire?, hstore]
  cases hf : w.store.foreign? f with
  | none =>
    obtain ⟨last, heq, hlast, hmachine⟩ := hdeclines w hw hf
    exact ⟨_, last, heq, hlast, by rw [hmachine]; rfl⟩
  | some g =>
    obtain ⟨last, heq, hlast, hmachine⟩ := hputs.known w g hw hf
    exact ⟨_, last, heq, hlast, by rw [hmachine]; rfl⟩

theorem starting_bind (code : UserCode) (k : Unit → Held σ α) (w : World σ) :
    (starting code >>= k) w = k () { w with starts := ⟨code, w.holds⟩ :: w.starts } := rfl

theorem noteQuestion_some {w : World σ} (hw : w.Still) {f : ForeignId} {g : Foreign}
    (q : Query) (hg : w.store.foreign? f = some g) : noteQuestion f q w =
      (.ended (.done ()), { w with store := noted w.store f [q] }) :=
  (holding_change (holds_free hw.1 _)).trans (change_some (by rw [hg]; rfl))

theorem noteQuestion_none {w : World σ} (hw : w.Still) {f : ForeignId} (q : Query)
    (hf : w.store.foreign? f = none) :
    noteQuestion f q w = (.ended (.panicked unknownHandle), w) :=
  (holding_change (holds_free hw.1 _)).trans (change_none (by rw [hf]; rfl))

/-- A foreign value that answers from what it was made with. -/
theorem puts_consulting (rule : EntryRule) (l : Level σ) (f : ForeignId) (q : Query)
    (s : StackId) : Puts f (consulting .plain rule l f q s) fun g => ⟨reply g q, [q]⟩ where
  steady g queries := by cases q <;> rfl
  known w g hw hg := by
    let next : World σ := { w with
      starts := ⟨.question f q, w.holds⟩ :: w.starts, store := noted w.store f [q] }
    have hnote := noteQuestion_some (w := { w with starts := next.starts }) hw q hg
    have hg' : next.store.foreign? f = some (g.note [q]) := by
      rw [foreign?_noted, hg, Option.map_some]
    have hread : reading s (.foreign f) next = (.ended (.done (g.note [q])), next) :=
      (reading_eq (w := next) hw.1 s (.foreign f)).trans (look_some hg')
    have hreply : (Conduct.plain f q).heldWith rule l s next =
        (.ended (.done (reply g q)), next) := by
      refine (bind_done hread).trans ?_
      cases q <;> rfl
    exact ⟨next, (starting_bind _ _ w).trans ((bind_done hnote).trans hreply), hw, rfl⟩

theorem declines_consulting (rule : EntryRule) (l : Level σ) (f : ForeignId) (q : Query)
    (s : StackId) : Declines f (consulting .plain rule l f q s) := by
  intro w hw hf
  have hnote := noteQuestion_none
    (w := { w with starts := ⟨.question f q, w.holds⟩ :: w.starts }) hw q hf
  exact ⟨_, (starting_bind _ _ w).trans (bind_panicked hnote), hw, rfl⟩

/-! ### Sessions -/

/-- Bodies that are run as a program's are, and foreign values that answer as they were made. -/
structure Level.Follows (l : Level σ) (invoke : Invocation σ) : Prop where
  invoke : ∀ c context s, Borrow.Follows (l.invoke c context s) (invoke c context s)
  puts : ∀ f q s, Puts f (l.consult f q s) fun g => ⟨reply g q, [q]⟩
  declines : ∀ f q s, Declines f (l.consult f q s)

namespace Level.Follows

variable {l : Level σ} {invoke : Invocation σ} (hl : l.Follows invoke)

include hl

theorem acting (rule : EntryRule) (s : StackId) (a : Action α) :
    Borrow.Follows (Borrow.acting rule l s a) (Run.acting rule a s) := by
  cases ha : asked? a with
  | none =>
    cases hleft : left? a with
    | none => exact .of_eq (fun _ hw => acting_eq hw.1 rule l s ha hleft) (.change _)
    | some i =>
      cases a with
      | leave i => exact .leave i
      | _ => cases hleft
  | some f =>
    have hask := fun q => hl.puts f q s
    have hnull := hl.declines f (.predicate .null) s
    cases a with
    | isObject v => cases v <;> cases ha; exact .inquiring (.isObject hask) (hnull.bind _)
    | isCallable v =>
      cases v <;> cases ha
      exact .inquiring (.isCallable hask) ((hnull.bind _).bind _)
    | typeTag v => cases v <;> cases ha; exact .inquiring (.typeTag hask) (hnull.bind _)
    | read v name =>
      cases v <;> cases ha
      exact .inquiring (.readForeign hask name) ((hnull.bind _).bind _)
    | _ => cases ha

theorem heldWith (rule : EntryRule) {p : Session σ α} (hp : p.Retains) (s : StackId) :
    Borrow.Follows (p.heldWith rule l s) (p.plain.runWith rule invoke s) := by
  induction p generalizing s with
  | done a => exact .pure a
  | panic text => exact .panic text
  | recalling k ih => exact fun w hw => ih w.memory (hp w.memory) s w hw
  | remembering memory k ih => exact fun w hw => ih hp s { w with memory } hw
  | reading r k ih => exact (Follows.reading s r).bind fun found => ih found (hp found) s
  | acting a k ih => exact (hl.acting rule s a).bind fun answer => ih answer (hp answer) s
  | defining realm name location body k _ ih =>
    exact (Follows.defining realm name location hp.1 s).bind fun o => ih o (hp.2 o) s
  | calling callee arguments k ih =>
    exact (Follows.calling (hl.invoke · · s) callee arguments).bind fun result =>
      ih result (hp result) s
  | crossing home origin body k ihbody ih =>
    refine (Follows.crossing ?_).bind fun result => ih result (hp.2 result) s
    exact fun w hw => ihbody hp.1 s { w with starts := ⟨.crossing home, w.holds⟩ :: w.starts } hw
  | onStack t body k ihbody ih =>
    exact ((ihbody hp.1 t).onto t).bind fun result => ih result (hp.2 result) s
  | guarding body k ihbody ih =>
    exact (Follows.guarding (ihbody hp.1 s)).bind fun result => ih result (hp.2 result) s
  | scoping i body k ihbody ih =>
    rw [Session.plain]
    refine .of_eq (fun w _ => congrFun (bind_assoc _ _ _) w) ?_
    refine (Follows.guarding (ihbody hp.1 s)).bind fun result => ?_
    cases result with
    | ok b =>
      refine .of_eq (fun w _ => congrFun (bind_assoc _ _ _) w) ?_
      exact (Follows.leave i).bind fun _ => ih b (hp.2 b) s
    | error text =>
      refine .of_eq (fun w _ => congrFun (bind_assoc _ _ _) w) ?_
      exact (Follows.leave i).unwinding.bind fun _ => .panic text
  | entrusting r i k ih =>
    exact fun w hw => ih hp s { w with entrusted := w.entrusted ++ [(r, i)] } hw
  | forgetting e k => exact hp.elim
  | noting p note k ih =>
    intro w hw
    have hstore : w.machine.store = w.store := rfl
    simp only [Session.heldWith, Session.plain, Program.runWith, Run.reading, Reading.eval, hstore]
    cases hs : w.store.stack? s with
    | none =>
      have hnote : noting p s note w = (.ended (.panicked unknownHandle), w) :=
        (noting_eq hw.1 p s note).trans (bind_panicked (look_none (congrArg (Option.map _) hs)))
      exact ⟨_, w, bind_panicked hnote, hw, rfl⟩
    | some stack =>
      have hnote : noting p s note w =
          (.ended (.done ()), { w with memory := note stack.active.id w.memory }) :=
        (noting_eq hw.1 p s note).trans (bind_done (look_some (congrArg (Option.map _) hs)))
      obtain ⟨outcome, last, heq, hlast, hr⟩ :=
        ih hp s { w with memory := note stack.active.id w.memory } hw
      exact ⟨outcome, last, (bind_done hnote).trans heq, hlast, hr⟩
  | seeing p k ih =>
    intro w hw
    have hsee : holding .read (.notes p) remembered w = remembered w :=
      holding_eq (holds_free hw.1 _) .remembered
    obtain ⟨outcome, last, heq, hlast, hr⟩ := ih w.memory (hp w.memory) s w hw
    exact ⟨outcome, last, (bind_done hsee).trans heq, hlast, hr⟩

omit hl in
theorem invoking {rule : EntryRule} {fuel : Nat}
    (hl : l.Follows (Program.invocation rule fuel)) (c : CodeId) (context : CallContext)
    (s : StackId) :
    Borrow.Follows (Borrow.invoking rule l c context s)
      (Program.invocation rule (fuel + 1) c context s) := by
  intro w hw
  have hcode : w.machine.code[c.index]? =
      w.code[c.index]?.map fun body context => (body context).plain := Array.getElem?_map
  simp only [Borrow.invoking, Program.invocation, hcode]
  cases hbody : w.code[c.index]? with
  | none => exact ⟨_, w, rfl, hw, rfl⟩
  | some body =>
    have hretains := hw.2.2 body (Array.mem_of_getElem? hbody) context
    exact hl.heldWith rule hretains s { w with starts := ⟨.body c, w.holds⟩ :: w.starts } hw

end Level.Follows

theorem level_follows (rule : EntryRule) (fuel : Nat) :
    (level .plain rule fuel : Level σ).Follows (Program.invocation rule fuel) := by
  induction fuel with
  | zero =>
    exact ⟨fun _ _ _ => .outOfFuel, puts_consulting rule _, declines_consulting rule _⟩
  | succ fuel ih =>
    exact ⟨ih.invoking, puts_consulting rule _, declines_consulting rule _⟩

theorem held_plain (rule : EntryRule) (fuel : Nat) {p : Session σ α} (hp : p.Retains)
    (s : StackId) (w : World σ) (hw : w.Still) :
    ∃ last, p.held .plain rule fuel s w =
        (.ended (p.plain.run rule fuel s w.machine).1, last) ∧
      (p.plain.run rule fuel s w.machine).2 = last.machine := by
  obtain ⟨outcome, last, heq, -, hr⟩ := ((level_follows rule fuel).heldWith rule hp s).onto s w hw
  rw [Program.run, hr]
  exact ⟨last, heq, rfl⟩

end Realms.Borrow
