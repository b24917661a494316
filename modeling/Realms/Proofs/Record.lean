import Realms.Proofs.Classification

/-! The record of a recording value. Whatever asks a foreign value for the kind of primitive that it
is puts the questions up to the first yes, and the record grows by these. Main statement: after any
sequence of consultations the record has grown by what each of them puts, in order, and each has
answered as it would have on a new value. -/

namespace Realms

variable {σ : Type} {rule : EntryRule} {fuel : Nat} {s : StackId} {m : Machine σ} {f : ForeignId}

/-! ### The questions up to the first yes -/

/-- The questions for primitives, in the order in which they are put. -/
def Predicate.primitives : List Predicate := [.null, .boolean, .string, .number]

namespace Answers

variable (a : Answers)

/-- The first question for primitives that has a yes. -/
def firstYes : Option Predicate := Predicate.primitives.find? a.to

/-- The questions for primitives up to the first yes, or all of them. -/
def opening : List Predicate :=
  Predicate.primitives.take (Predicate.primitives.findIdx a.to + 1)

/-- Questions for primitives from the first on, the last of which has a yes. -/
def Reaches (P : List Predicate) : Prop :=
  P <+: Predicate.primitives ∧ ∃ p, P.getLast? = some p ∧ a.to p = true

/-- The fewest questions that reach a yes, or all of them where none has a yes. -/
def Opens (P : List Predicate) : Prop :=
  (a.Reaches P ∧ ∀ Q, a.Reaches Q → P.length ≤ Q.length) ∨
    ((∀ p ∈ Predicate.primitives, a.to p = false) ∧ P = Predicate.primitives)

variable {a}

theorem opening_reaches {p : Predicate} (h : a.firstYes = some p) : a.Reaches a.opening := by
  have hlt : Predicate.primitives.findIdx a.to < Predicate.primitives.length :=
    List.findIdx_lt_length_of_exists ⟨p, List.mem_of_find?_eq_some h, List.find?_some h⟩
  refine ⟨List.take_prefix .., _, ?_, List.findIdx_getElem (w := hlt)⟩
  rw [opening, List.getLast?_take, if_neg (Nat.succ_ne_zero _), Nat.add_sub_cancel,
    List.getElem?_eq_getElem hlt]
  rfl

/-- Short of the first yes there is none. -/
theorem opening_le {P : List Predicate} (h : a.Reaches P) : a.opening.length ≤ P.length := by
  obtain ⟨hpre, p, hlast, hp⟩ := h
  rw [List.getLast?_eq_getElem?] at hlast
  obtain ⟨hlt, rfl⟩ := List.getElem?_eq_some_iff.mp hlast
  rw [hpre.getElem] at hp
  have hle : Predicate.primitives.findIdx a.to ≤ P.length - 1 :=
    Nat.le_of_not_lt fun hlt => by simpa [hp] using List.not_of_lt_findIdx hlt
  rw [opening, List.length_take]
  omega

theorem opening_of_no (h : ∀ p ∈ Predicate.primitives, a.to p = false) :
    a.opening = Predicate.primitives := by
  rw [opening, List.findIdx_eq_length.mpr h]
  exact List.take_of_length_le (Nat.le_succ _)

theorem opens_opening : a.Opens a.opening := by
  cases h : a.firstYes with
  | some p => exact .inl ⟨opening_reaches h, fun Q => opening_le⟩
  | none =>
    have hno : ∀ p ∈ Predicate.primitives, a.to p = false := fun p hp => by
      simpa using List.find?_eq_none.mp h p hp
    exact .inr ⟨hno, opening_of_no hno⟩

end Answers

theorem recordOf_append (queries queries' : List Query) :
    recordOf (queries ++ queries') = recordOf queries ++ recordOf queries' :=
  List.filterMap_append

theorem recordOf_primitives {P : List Predicate} (h : .executable ∉ P) :
    recordOf (P.map .predicate) = P := by
  induction P with
  | nil => rfl
  | cons p P ih =>
    obtain ⟨hp, hP⟩ := List.ne_and_not_mem_of_not_mem_cons h
    have hrest := ih hP
    cases p with
    | executable => exact absurd rfl hp
    | _ => exact congrArg (_ :: ·) hrest

namespace Foreign

variable (g : Foreign)

theorem recorded_note (queries : List Query) :
    (g.note queries).recorded = g.recorded ++ recordOf queries := by
  rw [recorded, history_note]
  exact recordOf_append ..

theorem asked_firstYes_eq (ps : List Predicate) :
    (g.firstYes ps).asked = (ps.take (ps.findIdx g.answers.to + 1)).map .predicate := by
  induction ps with
  | nil => rfl
  | cons p ps ih =>
    simp only [firstYes, ask, Inquiry.asked_bind, List.findIdx_cons]
    cases g.answers.to p with
    | true => rfl
    | false => simpa using ih

theorem asked_primitive : g.primitive.asked = g.answers.opening.map .predicate :=
  g.asked_firstYes_eq _

theorem answer_primitive : g.primitive.answer = g.answers.firstYes := g.answer_firstYes _

theorem recordOf_primitive : recordOf g.primitive.asked = g.answers.opening := by
  rw [asked_primitive]
  exact recordOf_primitives fun h => by simpa [Predicate.primitives] using List.mem_of_mem_take h

/-- Whatever is asked of an object beyond the questions for primitives is not recorded. -/
theorem recordOf_isObject : recordOf g.isObject.asked = g.answers.opening := by
  rw [isObject_eq, Inquiry.asked_bind, recordOf_append, recordOf_primitive]
  exact List.append_nil _

theorem recordOf_typeTag : recordOf g.typeTag.asked = g.answers.opening := by
  rw [typeTag_eq, Inquiry.asked_bind, recordOf_append, recordOf_primitive]
  cases g.primitive.answer with
  | none => cases h : g.answers.executable <;> simp [ask, Answers.to, h, recordOf]
  | some p => exact List.append_nil _

theorem recordOf_isCallable : recordOf g.isCallable.asked = g.answers.opening := by
  rw [isCallable, Inquiry.asked_bind, recordOf_append, recordOf_isObject]
  cases g.isObject.answer <;> exact List.append_nil _

theorem recordOf_read (name : String) : recordOf (g.read name).asked =
    g.answers.opening ++ if g.answers.firstYes.isSome then [.null] else [] := by
  rw [read, Inquiry.asked_bind, recordOf_append, recordOf_isObject, isObject_answer,
    answer_primitive]
  cases g.answers.firstYes with
  | none => rfl
  | some p => cases h : g.answers.null <;> simp [ask, Answers.to, h, recordOf]

end Foreign

/-! ### Consultations -/

/-- What may be done with a value to find out what it is. -/
inductive Consultation where
  | isObject
  | typeTag
  | isCallable
  | read (name : String)
  | call (arguments : List Value)

inductive Finding where
  | flag (b : Bool)
  | tag (t : TypeTag)
  | result (r : Except Error Value)
  deriving DecidableEq

namespace Consultation

open Program

def perform (v : Value) : Consultation → Program σ Finding
  | .isObject => do pure (.flag (← act (.isObject v)))
  | .typeTag => do pure (.tag (← act (.typeTag v)))
  | .isCallable => do pure (.flag (← act (.isCallable v)))
  | .read name => do pure (.result (← act (.read v name)))
  | .call arguments => do pure (.result (← Program.call v arguments))

/-- What a recording value with these answers is found to be. -/
def finding (a : Answers) : Consultation → Finding
  | .isObject => .flag a.firstYes.isNone
  | .typeTag => .tag (a.firstYes.elim .object Predicate.tag)
  | .isCallable => .flag false
  | .read name => .result
    (if a.null then .error (.unreadable "[foreign RecordingForeign]" name) else .ok .undefined)
  | .call _ => .result (.error (.notFunction "RecordingForeign"))

/-- What a consultation adds to the record of a value with these answers. To read from a primitive,
null is asked for once more. -/
def adds (a : Answers) : Consultation → List Predicate
  | .isObject | .typeTag | .isCallable => a.opening
  | .read _ => a.opening ++ if a.firstYes.isSome then [.null] else []
  | .call _ => []

end Consultation

/-- Consultations one after another, each on a stack of its own choice. -/
def Program.consultAll (v : Value) : List (StackId × Consultation) → Program σ (List Finding)
  | [] => pure []
  | (t, c) :: rest => do
    let found ← on t (c.perform v)
    pure (found :: (← consultAll v rest))

/-- The answers of a recording value. -/
abbrev Answers.recording (null boolean string number : Bool) : Answers :=
  ⟨null, boolean, string, number, false⟩

theorem Foreign.note_note (g : Foreign) (queries queries' : List Query) :
    (g.note queries).note queries' = g.note (queries ++ queries') := by
  simp [note]

section

variable {null boolean string number : Bool} {past : List Query}

/-- Questions put to a value of the store are answered and noted there. -/
theorem Program.inquire_run {β : Type} {g : Foreign} (a : Action β) (k : β → Finding)
    {inquiry : Foreign → Inquiry β} (hf : m.store.foreign? f = some g)
    (ha : a.perform rule s m.store = m.store.inquire? f inquiry) : ∃ last,
      (do pure (k (← act a)) : Program σ Finding).run rule fuel s m =
        (.done (k (inquiry g).answer), last) ∧
      last.store.foreign? f = some (g.note (inquiry g).asked) := by
  obtain ⟨st', hst, hnoted⟩ := Store.inquire?_foreign hf inquiry
  refine ⟨{ m with store := st' }, ?_, by simpa using hnoted f g hf⟩
  show Outcome.andThen (Run.acting rule a s m) (fun b m => (.done (k b), m)) = _
  rw [Run.acting, ha, hst]
  rfl

/-- One consultation of a recording value, whatever it has been asked before. -/
theorem Consultation.perform_run (c : Consultation)
    (hf : m.store.foreign? f = some ((Foreign.recording null boolean string number).note past)) :
    ∃ last queries, (c.perform (.foreign f)).run rule fuel s m =
        (.done (c.finding (.recording null boolean string number)), last) ∧
      last.store.foreign? f =
        some ((Foreign.recording null boolean string number).note (past ++ queries)) ∧
      recordOf queries = c.adds (.recording null boolean string number) := by
  simp only [← Foreign.note_note]
  generalize hg : (Foreign.recording null boolean string number).note past = g at hf ⊢
  have ha : g.answers = .recording null boolean string number := hg ▸ rfl
  rw [← ha]
  cases c with
  | isObject =>
    obtain ⟨last, hrun, hlast⟩ := Program.inquire_run (.isObject (.foreign f)) Finding.flag hf rfl
    rw [g.isObject_answer, g.answer_primitive] at hrun
    exact ⟨last, _, hrun, hlast, g.recordOf_isObject⟩
  | typeTag =>
    obtain ⟨last, hrun, hlast⟩ := Program.inquire_run (.typeTag (.foreign f)) Finding.tag hf rfl
    have htag : g.typeTag.answer = g.answers.firstYes.elim .object Predicate.tag := by
      rw [g.typeTag_eq, Inquiry.answer_bind, g.answer_primitive]
      cases g.answers.firstYes with
      | none => simp [Foreign.ask, Answers.to, ha]
      | some p => rfl
    rw [htag] at hrun
    exact ⟨last, _, hrun, hlast, g.recordOf_typeTag⟩
  | isCallable =>
    obtain ⟨last, hrun, hlast⟩ := Program.inquire_run (.isCallable (.foreign f)) Finding.flag hf rfl
    have hflag : g.isCallable.answer = false := by
      rw [Foreign.isCallable, Inquiry.answer_bind]
      cases g.isObject.answer with
      | true => simp [Foreign.ask, Answers.to, ha]
      | false => rfl
    rw [hflag] at hrun
    exact ⟨last, _, hrun, hlast, g.recordOf_isCallable⟩
  | read name =>
    obtain ⟨last, hrun, hlast⟩ :=
      Program.inquire_run (.read (.foreign f) name) Finding.result hf rfl
    have hresult : (g.read name).answer = if g.answers.null
        then .error (.unreadable "[foreign RecordingForeign]" name) else .ok .undefined := by
      have hmember : (g.readMember name).answer = none := hg ▸ rfl
      have htext : g.text = "[foreign RecordingForeign]" := hg ▸ rfl
      rw [g.read_answer, hmember, htext]
      cases hb : g.isObject.answer with
      | true => rw [if_pos rfl, if_neg (g.isObject_iff.mp hb).2]; rfl
      | false => rfl
    rw [hresult] at hrun
    exact ⟨last, _, hrun, hlast, g.recordOf_read name⟩
  | call arguments =>
    have htype : m.store.typeName (.foreign f) = "RecordingForeign" := by
      rw [Store.typeName, hf, ← hg]
      rfl
    have hdeclined : Program.Declined rule fuel s m (.call (.foreign f) arguments)
        (.notFunction "RecordingForeign") :=
      htype ▸ Program.call_declined_of_noFunction (Store.noFunction_foreign f) arguments
    refine ⟨m, [], ?_, hf, rfl⟩
    show Outcome.andThen ((Program.call (.foreign f) arguments).run rule fuel s m)
      (fun r m => (.done (Finding.result r), m)) = _
    rw [hdeclined.run]
    rfl

theorem Program.consultAll_cons (v : Value) (t : StackId) (c : Consultation)
    (rest : List (StackId × Consultation)) :
    (consultAll v ((t, c) :: rest)).run rule fuel s m =
      Outcome.andThen ((c.perform v).run rule fuel t m) fun found m =>
        Outcome.andThen ((consultAll v rest).run rule fuel s m) fun founds m =>
          (.done (found :: founds), m) := by
  show ((on t (c.perform v)).bind fun found =>
    (consultAll v rest).bind fun founds => .done (found :: founds)).run rule fuel s m = _
  rw [run_bind, on_run]
  congr 1
  funext found m
  exact run_bind _ _

variable (rule fuel s) in
/-- Consultations one after another: each adds to the record what it puts, and answers as it would
have on a value that has not been asked anything. -/
theorem record_of_consultations
    (hf : m.store.foreign? f = some ((Foreign.recording null boolean string number).note past))
    (consultations : List (StackId × Consultation)) :
    let a := Answers.recording null boolean string number
    a.Opens a.opening ∧ ∃ last after,
      (Program.consultAll (.foreign f) consultations).run rule fuel s m =
        (.done (consultations.map (·.2.finding a)), last) ∧
      last.store.foreign? f = some after ∧
      after.recorded = ((Foreign.recording null boolean string number).note past).recorded ++
        consultations.flatMap (·.2.adds a) := by
  refine ⟨Answers.opens_opening, ?_⟩
  induction consultations generalizing m past with
  | nil => exact ⟨m, _, rfl, hf, (List.append_nil _).symm⟩
  | cons entry rest ih =>
    obtain ⟨t, c⟩ := entry
    obtain ⟨next, queries, hrun, hnext, hadds⟩ := c.perform_run hf
    obtain ⟨last, after, hrest, hlast, hrecorded⟩ := ih hnext
    refine ⟨last, after, ?_, hlast, ?_⟩
    · rw [Program.consultAll_cons, hrun]
      show Outcome.andThen ((Program.consultAll _ rest).run rule fuel s next) _ = _
      rw [hrest]
      rfl
    · rw [hrecorded, ← Foreign.note_note, Foreign.recorded_note, hadds, List.append_assoc,
        List.flatMap_cons]

end

/-- An engine with a stack and a recording value that says it is a string and a number. -/
def Machine.withRecording : Machine Unit :=
  .prepared .shortcut (do
    let e ← Program.act (.newEngine .standard)
    let _ ← Program.act (.newStack e)
    Program.act (.newForeign (.recording false false true true))) ()

theorem string_recorded :
    Machine.withRecording.store.foreign? ⟨0⟩ =
      some ((Foreign.recording false false true true).note []) ∧
    ∃ last after, (Program.consultAll (.foreign ⟨0⟩) [(⟨0⟩, .isObject), (⟨0⟩, .read "x"),
        (⟨0⟩, .call []), (⟨0⟩, .typeTag)]).run .shortcut 5 ⟨0⟩ Machine.withRecording =
      (.done [.flag false, .result (.ok .undefined),
        .result (.error (.notFunction "RecordingForeign")), .tag .string], last) ∧
      last.store.foreign? ⟨0⟩ = some after ∧ after.recorded =
        [.null, .boolean, .string, .null, .boolean, .string, .null, .null, .boolean, .string] := by
  have hf : Machine.withRecording.store.foreign? ⟨0⟩ =
      some ((Foreign.recording false false true true).note []) := rfl
  obtain ⟨-, last, after, hrun, hlast, hrecorded⟩ := record_of_consultations .shortcut 5 ⟨0⟩ hf
    [(⟨0⟩, .isObject), (⟨0⟩, .read "x"), (⟨0⟩, .call []), (⟨0⟩, .typeTag)]
  exact ⟨hf, last, after, hrun, hlast, hrecorded⟩

end Realms
