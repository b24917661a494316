import Realms.Proofs.Callability

/-! The boundary between objects and primitives. Whatever asks a foreign value puts the questions
for primitives in one order and stops at the first yes, so it learns one thing, the kind of
primitive that the value is, if any. Main statement: the tests for objects and for callable values,
the type operator and the reading of properties agree on every value, and a foreign value is asked
for a member exactly if it is an object. -/

namespace Realms

/-- Of inquiries one after the other, the questions add up. -/
instance : LawfulMonad Inquiry := .mk' Inquiry
  (fun i => congrArg (Inquiry.mk i.answer) (List.append_nil i.asked))
  (fun _ _ => rfl)
  (fun _ _ _ => congrArg (Inquiry.mk _) (List.append_assoc ..))

/-! ### Foreign values -/

/-- The type of a foreign value that answers a question with yes. -/
def Predicate.tag : Predicate → TypeTag
  | .null => .object
  | .boolean => .boolean
  | .string => .string
  | .number => .number
  | .executable => .function

namespace Foreign

variable (f : Foreign) (name : String)

/-- Puts questions in turn until one is answered with yes. -/
def firstYes (f : Foreign) : List Predicate → Inquiry (Option Predicate)
  | [] => pure none
  | p :: ps => do if ← f.ask p then pure (some p) else f.firstYes ps

/-- Asks which kind of primitive the value is, if any. -/
def primitive : Inquiry (Option Predicate) := f.firstYes [.null, .boolean, .string, .number]

theorem answer_firstYes (ps : List Predicate) :
    (f.firstYes ps).answer = ps.find? f.answers.to := by
  induction ps with
  | nil => rfl
  | cons p ps ih =>
    simp only [firstYes, ask, Inquiry.answer_bind, List.find?_cons]
    cases f.answers.to p with
    | true => rfl
    | false => exact ih

/-- Where the first yes comes from the first question, the others are not put. -/
theorem firstYes_bind {α : Type} (p : Predicate) (ps : List Predicate)
    (k : Option Predicate → Inquiry α) : (f.firstYes (p :: ps) >>= k) =
      (f.ask p >>= fun yes => if yes then k (some p) else f.firstYes ps >>= k) := by
  rw [firstYes, bind_assoc]
  congr 1
  funext yes
  cases yes with
  | true => exact pure_bind _ _
  | false => rfl

theorem isObject_eq : f.isObject = (f.primitive >>= fun p => pure p.isNone) := by
  simp only [primitive, firstYes_bind]
  rfl

theorem typeTag_eq : f.typeTag = (f.primitive >>= fun
    | some p => pure p.tag
    | none => do if ← f.ask .executable then pure .function else pure .object) := by
  simp only [primitive, firstYes_bind]
  rfl

theorem primitive_ne_executable : f.primitive.answer ≠ some .executable := by
  intro h
  rw [primitive, answer_firstYes] at h
  simpa using List.mem_of_find?_eq_some h

theorem primitive_eq_null : f.primitive.answer = some .null ↔ f.answers.null = true := by
  rw [primitive, answer_firstYes, List.find?_cons]
  show (match f.answers.null with | true => _ | false => _) = _ ↔ _
  cases f.answers.null with
  | true => simp
  | false => exact iff_of_false (fun h => by simpa using List.mem_of_find?_eq_some h) nofun

theorem isObject_answer : f.isObject.answer = f.primitive.answer.isNone := by
  rw [isObject_eq]
  rfl

/-- The objects are what the type operator calls an object or a function, null aside. -/
theorem isObject_iff : f.isObject.answer = true ↔
    (f.typeTag.answer = .object ∨ f.typeTag.answer = .function) ∧ f.answers.null ≠ true := by
  rw [isObject_answer, typeTag_eq, Inquiry.answer_bind, ne_eq, ← primitive_eq_null]
  cases hp : f.primitive.answer with
  | none => cases he : f.answers.executable <;> simp [ask, Answers.to, he]
  | some p =>
    cases p with
    | executable => exact absurd hp f.primitive_ne_executable
    | _ => simp [Predicate.tag]

/-- An object is asked for its member, null refuses, and other primitives have no members. -/
theorem read_answer : (f.read name).answer =
    if f.isObject.answer then .ok ((f.readMember name).answer.getD .undefined)
    else if f.answers.null then .error (.unreadable f.text name) else .ok .undefined := by
  rw [read, Inquiry.answer_bind]
  cases f.isObject.answer with
  | true => rfl
  | false => cases h : f.answers.null <;> simp [ask, Answers.to, h]

end Foreign

/-! ### All values -/

namespace Store

variable {st : Store} {v : Value}

/-- Questions put to a foreign value of the store are answered, and noted of that value only. -/
theorem inquire?_foreign {α : Type} {f : ForeignId} {foreign : Foreign}
    (hf : st.foreign? f = some foreign) (inquiry : Foreign → Inquiry α) :
    ∃ st', st.inquire? f inquiry = some ((inquiry foreign).answer, st') ∧
      ∀ g before, st.foreign? g = some before →
        st'.foreign? g = some (before.note (if g = f then (inquiry foreign).asked else [])) := by
  refine ⟨{ st with foreigns := st.foreigns.modify f.index (·.note (inquiry foreign).asked) },
    by simp [inquire?, hf], fun g before hg => ?_⟩
  by_cases hgf : g = f
  · subst hgf
    simp [foreign?, Array.getElem?_modify, show st.foreigns[g.index]? = some before from hg]
  · have hne : f.index ≠ g.index := fun h => hgf (congrArg ForeignId.mk h.symm)
    simpa [foreign?, Array.getElem?_modify, hne, hgf, Foreign.note] using hg

end Store

end Realms
