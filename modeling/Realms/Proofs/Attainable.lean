import Realms.Proofs.Inversion

/-! The errors that programs can come by. A program raises an error with a cause of its choice, and
makes of an error it has the overflow that this stands for; it does not write origins and traces
itself. Main statement: a program that keeps to this, with functions that do, is handed out no other
error, whichever it saves and raises again. -/

namespace Realms

variable {σ α β : Type} {rule : EntryRule} {s : StackId} {m : Machine σ} {keeps : σ → Prop}
  {Q : α → Prop}

namespace Error

inductive Attainable : Error → Prop
  | of (cause : Cause) : Attainable (of cause)
  | overflow {e : Error} (origin : Frame) : e.Attainable → Attainable (e.overflow origin)
  /-- The trace grows when a call hands the error out. -/
  | passing {e : Error} (frame : Frame) : e.Attainable → Attainable (e.passing frame)

theorem Attainable.atBoundary {e : Error} (h : e.Attainable) (origin : Frame) :
    (e.atBoundary origin).Attainable := by
  unfold Error.atBoundary
  split
  · exact h.overflow origin
  · exact h

/-- Only an overflow has an origin. -/
theorem Attainable.isOverflow_of_origin {e : Error} (h : e.Attainable) (ho : e.origin.isSome) :
    e.isOverflow = true := by
  induction h with
  | of cause => cases ho
  | overflow origin h ih => exact beq_self_eq_true _
  | passing frame h ih => exact ih ho

/-- An answer is an attainable error, or else as it should be. -/
def Fair (Q : α → Prop) : Except Error α → Prop
  | .ok a => Q a
  | .error e => e.Attainable

theorem Fair.mapError {r : Except Error α} {f : Error → Error} (h : Fair Q r)
    (hf : ∀ e, e.Attainable → (f e).Attainable) : Fair Q (r.mapError f) := by
  cases r with
  | ok a => exact h
  | error e => exact hf e h

end Error

/-- What a reading can answer. -/
def Reading.Fair : {α : Type} → Reading α → α → Prop
  | _, .global _, answer => Error.Fair (fun _ => True) answer
  | _, _, _ => True

theorem Reading.fair_of_eval {r : Reading α} {st : Store} {a : α} (h : r.eval s st = some a) :
    r.Fair a := by
  cases r with
  | global name =>
    simp only [eval, Store.global?, Option.bind_eq_bind, Option.bind_eq_some_iff] at h
    obtain ⟨now, -, h⟩ := h
    split at h
    · cases h; trivial
    · cases h; exact .of _
  | _ => trivial

/-- What an action can answer. -/
def Action.Fair : {α : Type} → Action α → α → Prop
  | _, .read _ _, answer => Error.Fair (fun _ => True) answer
  | _, .enter _, answer => Error.Fair (fun _ => True) answer
  | _, .newRealm _ _, answer => Error.Fair (fun _ => True) answer
  | _, _, _ => True

theorem Foreign.read_fair (f : Foreign) (name : String) :
    Error.Fair (fun _ => True) (f.read name).answer := by
  simp only [Foreign.read, Inquiry.answer_bind]
  split
  · trivial
  · simp only [Inquiry.answer_bind]
    split
    · exact .of _
    · trivial

theorem Store.read?_fair {st st' : Store} {target : Value} {name : String}
    {answer : Except Error Value} (h : st.read? target name = some (answer, st')) :
    Error.Fair (fun _ => True) answer := by
  cases target with
  | object o =>
    simp only [read?, Option.bind_eq_bind, Option.bind_eq_some_iff] at h
    obtain ⟨object, -, h⟩ := h
    cases h
    trivial
  | foreign f =>
    simp only [read?, inquire?, Option.bind_eq_bind, Option.bind_eq_some_iff] at h
    obtain ⟨foreign, -, h⟩ := h
    cases h
    exact foreign.read_fair name
  | undefined | null => cases h; exact .of _
  | _ => cases h; trivial

theorem Action.fair_of_perform {a : Action α} {st st' : Store} {answer : α}
    (h : a.perform rule s st = some (answer, st')) : a.Fair answer := by
  cases a with
  | read target name => exact Store.read?_fair h
  | enter home =>
    cases answer with
    | ok i => trivial
    | error e =>
      obtain ⟨-, rfl⟩ := Store.enter?_error (Store.enterScope?_error h)
      exact .of _
  | newRealm e name =>
    cases answer with
    | ok realm => trivial
    | error e =>
      obtain ⟨-, rfl⟩ := Store.newRealm?_error h
      exact .of _
  | _ => trivial

/-- A program that raises attainable errors, as long as the memory keeps to a condition; what it
answers is as required. -/
def Program.Honest (keeps : σ → Prop) : {α : Type} → (α → Prop) → Program σ α → Prop
  | _, Q, .done a => Q a
  | _, _, .panic _ => True
  | _, Q, .recalling k => ∀ memory, keeps memory → (k memory).Honest keeps Q
  | _, Q, .remembering memory k => keeps memory ∧ k.Honest keeps Q
  | _, Q, .reading r k => ∀ a, r.Fair a → (k a).Honest keeps Q
  | _, Q, .acting a k => ∀ b, a.Fair b → (k b).Honest keeps Q
  | _, Q, .defining _ _ _ body k =>
    (∀ c, (body c).Honest keeps (Error.Fair fun _ => True)) ∧ ∀ o, (k o).Honest keeps Q
  | _, Q, .calling _ _ k => ∀ r, Error.Fair (fun _ => True) r → (k r).Honest keeps Q
  | _, Q, .crossing _ _ body k => ∃ Q', body.Honest keeps (Error.Fair Q') ∧
    ∀ r, Error.Fair Q' r → (k r).Honest keeps Q
  | _, Q, .onStack _ body k => ∃ Q', body.Honest keeps Q' ∧ ∀ r, Q' r → (k r).Honest keeps Q
  | _, Q, .guarding body k => ∃ Q', body.Honest keeps Q' ∧
    (∀ a, Q' a → (k (.ok a)).Honest keeps Q) ∧ ∀ text, (k (.error text)).Honest keeps Q

/-- All functions are honest, and the memory is as it should be. -/
structure Machine.Honest (keeps : σ → Prop) (m : Machine σ) : Prop where
  memory : keeps m.memory
  code : ∀ (i : Nat) body, m.code[i]? = some body →
    ∀ c, (body c).Honest keeps (Error.Fair fun _ => True)

theorem Machine.Honest.withStore (h : m.Honest keeps) (store : Store) :
    Machine.Honest keeps { m with store } :=
  ⟨h.memory, h.code⟩

/-- The machine after a run is honest, and the answer is as required, if there is one. -/
def Upholds (keeps : σ → Prop) (Q : α → Prop) (r : Outcome α × Machine σ) : Prop :=
  r.2.Honest keeps ∧ ∀ a, r.1 = .done a → Q a

namespace Upholds

theorem done {a : α} (hm : m.Honest keeps) (ha : Q a) : Upholds keeps Q (.done a, m) :=
  ⟨hm, fun _ h => by cases h; exact ha⟩

theorem panicked {text : String} (hm : m.Honest keeps) :
    Upholds keeps Q (.panicked text, m) :=
  ⟨hm, fun _ h => nomatch h⟩

theorem andThen {Q' : β → Prop} {r : Outcome α × Machine σ}
    {k : α → Machine σ → Outcome β × Machine σ} (h : Upholds keeps Q r)
    (hk : ∀ a m, m.Honest keeps → Q a → Upholds keeps Q' (k a m)) :
    Upholds keeps Q' (Outcome.andThen r k) := by
  obtain ⟨outcome, m⟩ := r
  cases outcome with
  | done a => exact hk a m h.1 (h.2 a rfl)
  | panicked | outOfFuel => exact ⟨h.1, fun _ h => nomatch h⟩

/-- An answer is made another one, and the store is changed. -/
theorem map {Q' : β → Prop} {r : Outcome α × Machine σ} {f : α → β} (h : Upholds keeps Q r)
    (hf : ∀ a, Q a → Q' (f a)) (store : Store) :
    Upholds keeps Q' (r.1.map f, { r.2 with store }) := by
  obtain ⟨outcome, m⟩ := r
  refine ⟨h.1.withStore store, fun b hb => ?_⟩
  cases outcome with
  | done a => cases hb; exact hf a (h.2 a rfl)
  | panicked | outOfFuel => cases hb

end Upholds

namespace Run

theorem reading_upholds (hm : m.Honest keeps) (r : Reading α) :
    Upholds keeps r.Fair (reading r s m) := by
  unfold reading
  split
  · exact .panicked hm
  · next h => exact .done hm (Reading.fair_of_eval h)

theorem acting_upholds (hm : m.Honest keeps) (a : Action α) :
    Upholds keeps a.Fair (acting rule a s m) := by
  unfold acting
  split
  · exact .panicked hm
  · next h => exact .done (hm.withStore _) (Action.fair_of_perform h)

theorem defining_upholds {realm : RealmId} {name : String} {location : Option Location}
    {body : CallContext → Program σ (Except Error Value)} (hm : m.Honest keeps)
    (hb : ∀ c, (body c).Honest keeps (Error.Fair fun _ => True)) :
    Upholds keeps (fun _ => True) (defining realm name location body s m) := by
  unfold defining
  split
  · exact .panicked hm
  · refine .done ⟨hm.memory, fun i old hi => ?_⟩ trivial
    rw [Array.getElem?_push] at hi
    split at hi
    · cases hi; exact hb
    · exact hm.code i old hi

theorem crossing_upholds {home : RealmId} {origin : Frame} {body : Run σ (Except Error α)}
    (hm : m.Honest keeps)
    (hb : ∀ m : Machine σ, m.Honest keeps → Upholds keeps (Error.Fair Q) (body s m)) :
    Upholds keeps (Error.Fair Q) (crossing rule home origin body s m) := by
  unfold crossing
  split
  · exact .panicked hm
  · next e store h =>
    obtain ⟨-, rfl⟩ := Store.enter?_error h
    exact .done (hm.withStore store) (.of _)
  · exact (hb _ (hm.withStore _)).map (fun r hr => hr.mapError fun e he => he.atBoundary origin) _

theorem counted_upholds {body : Run σ (Except Error Value)} {Q : Value → Prop}
    (hm : m.Honest keeps)
    (hb : ∀ m : Machine σ, m.Honest keeps → Upholds keeps (Error.Fair Q) (body s m)) :
    Upholds keeps (Error.Fair Q) (counted body s m) := by
  unfold counted
  split
  · exact .panicked hm
  · next e h =>
    obtain ⟨_, _, -, -, -, rfl⟩ := Store.pushCall?_error h
    exact .done hm (.of _)
  · exact (hb _ (hm.withStore _)).andThen fun r m hm hr => .done (hm.withStore _) hr

theorem calling_upholds {invoke : Invocation σ} (hm : m.Honest keeps) (callee : Value)
    (arguments : List Value)
    (hi : ∀ c context (m : Machine σ), m.Honest keeps →
      Upholds keeps (Error.Fair fun _ => True) (invoke c context s m)) :
    Upholds keeps (Error.Fair fun _ => True) (calling rule invoke callee arguments s m) := by
  have hrefuse : Upholds keeps (Error.Fair fun _ => True)
      (refusing (α := Value) callee s m) := .done hm (.of _)
  unfold calling
  split
  · split
    · exact .panicked hm
    · next object _ =>
      split
      · exact hrefuse
      · exact (crossing_upholds hm fun m hm => counted_upholds hm (hi _ _)).map
          (fun r hr => hr.mapError fun e he => he.passing object.frame) _
  · exact hrefuse

theorem guarding_upholds {body : Run σ α} (h : Upholds keeps Q (body s m)) :
    Upholds keeps (fun r => ∀ a, r = .ok a → Q a) (guarding body s m) := by
  unfold guarding
  split
  · next hr => rw [hr] at h; exact .done h.1 fun _ ha => by cases ha; exact h.2 _ rfl
  · next hr => rw [hr] at h; exact .done h.1 fun _ ha => nomatch ha
  · next hr => rw [hr] at h; exact ⟨h.1, fun _ ha => nomatch ha⟩

end Run

namespace Program

theorem upholds_with {invoke : Invocation σ}
    (hi : ∀ c context s (m : Machine σ), m.Honest keeps →
      Upholds keeps (Error.Fair fun _ => True) (invoke c context s m))
    (p : Program σ α) {Q : α → Prop} (hp : p.Honest keeps Q) (hm : m.Honest keeps) :
    Upholds keeps Q (p.runWith rule invoke s m) := by
  induction p generalizing s m with
  | done a => exact .done hm hp
  | panic => exact .panicked hm
  | recalling k ih => exact ih _ (hp _ hm.memory) hm
  | remembering memory k ih => exact ih hp.2 ⟨hp.1, hm.code⟩
  | reading r k ih => exact (Run.reading_upholds hm r).andThen fun a m hm ha => ih a (hp a ha) hm
  | acting a k ih => exact (Run.acting_upholds hm a).andThen fun b m hm hb => ih b (hp b hb) hm
  | defining realm name location body k _ ih =>
    exact (Run.defining_upholds hm hp.1).andThen fun o m hm _ => ih o (hp.2 o) hm
  | calling callee arguments k ih =>
    exact (Run.calling_upholds hm callee arguments fun c context => hi c context _).andThen
      fun r m hm hr => ih r (hp r hr) hm
  | crossing home origin body k ihb ih =>
    obtain ⟨Q', hbody, hk⟩ := hp
    exact (Run.crossing_upholds hm fun m hm => ihb hbody hm).andThen
      fun r m hm hr => ih r (hk r hr) hm
  | onStack t body k ihb ih =>
    obtain ⟨Q', hbody, hk⟩ := hp
    exact (ihb hbody hm).andThen fun r m hm hr => ih r (hk r hr) hm
  | guarding body k ihb ih =>
    obtain ⟨Q', hbody, hk, hpanic⟩ := hp
    refine (Run.guarding_upholds (ihb hbody hm)).andThen fun r m hm hr => ?_
    cases r with
    | ok a => exact ih _ (hk a (hr a rfl)) hm
    | error text => exact ih _ (hpanic text) hm

theorem invocation_upholds (fuel : Nat) (c : CodeId) (context : CallContext)
    (hm : m.Honest keeps) :
    Upholds keeps (Error.Fair fun _ => True) (invocation rule fuel c context s m) := by
  induction fuel generalizing c context s m with
  | zero => exact ⟨hm, fun _ h => nomatch h⟩
  | succ fuel ih =>
    simp only [invocation]
    split
    · exact .panicked hm
    · next body hc => exact upholds_with (fun c context _ _ => ih c context) _ (hm.code _ _ hc _) hm

theorem run_upholds (fuel : Nat) (p : Program σ α) (hp : p.Honest keeps Q)
    (hm : m.Honest keeps) : Upholds keeps Q (p.run rule fuel s m) :=
  upholds_with (fun c context _ _ => invocation_upholds fuel c context) p hp hm

end Program

end Realms
