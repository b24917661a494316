import Realms.Proofs.Refusal

/-! What can be called. A value is callable exactly if the type operator takes it for a function, and
no value that is not callable can be called. Foreign values are asked whether they are executable by
the type operator and by the test for callable values only: nothing runs them. Main statement: a call
is refused, with nothing done, exactly if the callee is not callable or is a foreign value. -/

namespace Realms

variable {σ α : Type} {rule : EntryRule} {s : StackId} {m : Machine σ} {fuel : Nat}

/-- The type operator and the test for callable values put the same questions, and agree. -/
theorem Foreign.isCallable_iff (f : Foreign) :
    f.isCallable.answer = true ↔ f.typeTag.answer = .function := by
  simp only [isCallable, isObject, typeTag, ask, Inquiry.answer_bind]
  cases f.answers.to .null with
  | true => simp
  | false =>
  cases f.answers.to .boolean with
  | true => simp
  | false =>
  cases f.answers.to .string with
  | true => simp
  | false =>
  cases f.answers.to .number with
  | true => simp
  | false => cases f.answers.to .executable <;> simp

namespace Store

variable {st : Store} {v : Value}

/-- A value of the store: the object or foreign value that it refers to, if any, is there. -/
structure Knows (st : Store) (v : Value) : Prop where
  object : ∀ o, v = .object o → ∃ object, st.object? o = some object
  foreign : ∀ f, v = .foreign f → ∃ foreign, st.foreign? f = some foreign

/-- The test for callable values and the type operator answer, and they agree. A foreign value
aside, they tell function objects from all else. -/
theorem Knows.classified (h : st.Knows v) : ∃ b tag, (st.isCallable? v).map (·.1) = some b ∧
    (st.typeTag? v).map (·.1) = some tag ∧ (b = true ↔ tag = .function) ∧
    ((∀ f, v ≠ .foreign f) → (b = false ↔ st.NoFunction v)) := by
  cases v with
  | foreign f =>
    obtain ⟨foreign, hf⟩ := h.foreign f rfl
    refine ⟨foreign.isCallable.answer, foreign.typeTag.answer, ?_, ?_, foreign.isCallable_iff,
      fun hne => absurd rfl (hne f)⟩
    · simp [isCallable?, inquire?, hf]
    · simp [typeTag?, inquire?, hf]
  | object o =>
    obtain ⟨object, ho⟩ := h.object o rfl
    refine ⟨object.isCallable, if object.isCallable then .function else .object, ?_, ?_, ?_,
      fun _ => ?_⟩
    · simp [isCallable?, ho]
    · simp [typeTag?, ho]
    · cases object.isCallable <;> simp
    · simp [NoFunction, ho, Object.isCallable]
  | _ => exact ⟨_, _, rfl, rfl, by simp, fun _ => by simp [NoFunction]⟩

theorem noFunction_foreign (f : ForeignId) : st.NoFunction (.foreign f) := nofun

end Store

/-- An error that comes out of the call of a function has passed through it. -/
theorem Run.calling_passed {invoke : Invocation σ} {o : ObjectId} {object : Object} {f : Function}
    {arguments : List Value} {e : Error} {last : Machine σ} (ho : m.store.object? o = some object)
    (hf : object.function? = some f)
    (h : calling rule invoke (.object o) arguments s m = (.done (.error e), last)) :
    e.passed ≠ [] := by
  simp only [calling, ho, hf] at h
  cases hc : (crossing rule object.realm object.frame
    (counted (invoke f.code ⟨o, arguments⟩)) s m).1 with
  | done r =>
    rw [hc] at h
    cases r with
    | ok v => cases h
    | error e' =>
      cases h
      exact List.cons_ne_nil _ _
  | panicked | outOfFuel =>
    rw [hc] at h
    cases h

open Program

/-- Whether a value is callable is what the type operator says of it. A call is refused, with a type
error that names the type of the callee and with nothing done, exactly if the callee is not callable
or is a foreign value. -/
theorem call_declined_iff {v : Value} (h : m.store.Knows v) : ∃ b tag,
    (m.store.isCallable? v).map (·.1) = some b ∧ (m.store.typeTag? v).map (·.1) = some tag ∧
    (b = true ↔ tag = .function) ∧ ∀ rule fuel s arguments,
      (Declined rule fuel s m (call v arguments) (.notFunction (m.store.typeName v)) ↔
        b = false ∨ ∃ f, v = .foreign f) := by
  obtain ⟨b, tag, hb, htag, hagree, hkind⟩ := h.classified
  refine ⟨b, tag, hb, htag, hagree, fun rule fuel s arguments => ⟨fun hd => ?_, ?_⟩⟩
  · by_cases hforeign : ∃ f, v = .foreign f
    · exact .inr hforeign
    · refine .inl ((hkind (not_exists.mp hforeign)).mpr fun o ho => ?_)
      subst ho
      obtain ⟨object, ho⟩ := h.object o rfl
      refine ⟨object, ho, ?_⟩
      cases hf : object.function? with
      | none => rfl
      | some f => exact absurd rfl (Run.calling_passed ho hf ((call_run _ _).symm.trans hd.run))
  · rintro (hfalse | ⟨f, rfl⟩)
    · by_cases hforeign : ∃ f, v = .foreign f
      · obtain ⟨f, rfl⟩ := hforeign
        exact call_declined_of_noFunction (Store.noFunction_foreign f) arguments
      · exact call_declined_of_noFunction ((hkind (not_exists.mp hforeign)).mp hfalse) arguments
    · exact call_declined_of_noFunction (Store.noFunction_foreign f) arguments

/-- An engine with a stack, a function that panics, and a foreign value that can be executed. -/
def Machine.withExecutable : Machine Unit :=
  .prepared .shortcut (do
    let e ← act (.newEngine .standard)
    let _ ← act (.newStack e)
    let _ ← define (.main e) "boom" none fun _ => .panic "ran"
    act (.newForeign (.shaped .executable []))) ()

theorem panicking_function_called : Machine.withExecutable.store.Knows (.object ⟨3⟩) ∧
    (Machine.withExecutable.store.typeTag? (.object ⟨3⟩)).map (·.1) = some .function ∧
    ¬ Declined .shortcut 5 ⟨0⟩ Machine.withExecutable (call (.object ⟨3⟩) [])
      (.notFunction (Machine.withExecutable.store.typeName (.object ⟨3⟩))) := by
  have h : Machine.withExecutable.store.Knows (.object ⟨3⟩) :=
    ⟨fun o ho => by cases ho; exact ⟨_, rfl⟩, nofun⟩
  obtain ⟨b, tag, hb, -, -, hcall⟩ := call_declined_iff h
  cases hb
  refine ⟨h, rfl, fun hd => ?_⟩
  obtain hfalse | ⟨f, hf⟩ := (hcall _ _ _ _).mp hd
  · cases hfalse
  · cases hf

/-- A foreign value can be callable, and a function to the type operator, and its call is refused
nevertheless. -/
theorem executable_foreign_declined : Machine.withExecutable.Reachable .shortcut ∧
    (Machine.withExecutable.store.isCallable? (.foreign ⟨0⟩)).map (·.1) = some true ∧
    (Machine.withExecutable.store.typeTag? (.foreign ⟨0⟩)).map (·.1) = some .function ∧
    Declined .shortcut 5 ⟨0⟩ Machine.withExecutable (call (.foreign ⟨0⟩) [])
      (.notFunction "TestForeign") :=
  ⟨Machine.prepared_reachable .., rfl, rfl,
    call_declined_of_noFunction (Store.noFunction_foreign _) []⟩

end Realms
