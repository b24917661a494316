import Realms.Proofs.Course

/-! The scopes open around each event of a run, on one stack, innermost first: those of crossings
and those that programs hold. A run that ends its scopes in turn leaves them as it found them, and
then the realm active on the stack is at each event the home of the innermost of them. -/

namespace Realms

variable {σ : Type} {rule : EntryRule} {s t : StackId} {base : RealmId}

/-- A scope that is open. The scope of a crossing has no id by which a program could end it. -/
structure Enclosure where
  id? : Option ScopeId
  scope : Scope

namespace Event

/-- The scopes open on a stack after an event. -/
def enclose (s : StackId) (nest : List Enclosure) : Event σ → List Enclosure
  | .opened i scope _ => if scope.stack = s then ⟨some i, scope⟩ :: nest else nest
  | .entered scope _ _ => if scope.stack = s then ⟨none, scope⟩ :: nest else nest
  | .ended _ scope => if scope.stack = s then nest.tail else nest
  | .exited scope _ _ _ => if scope.stack = s then nest.tail else nest
  | _ => nest

/-- What ends at an event is the innermost: a program ends the scope that it opened last in the
body it is in, and a body ends with none of its own scopes open. -/
def InTurn (s : StackId) (nest : List Enclosure) : Event σ → Prop
  | .ended i scope => scope.stack = s → nest.head?.map (·.id?) = some (some i)
  | .exited scope _ _ _ => scope.stack = s → nest.head?.map (·.id?) = some none
  | _ => True

instance InTurn.decidable (s : StackId) (nest : List Enclosure) :
    (e : Event σ) → Decidable (e.InTurn s nest)
  | .ended _ _ | .exited _ _ _ _ => inferInstanceAs (Decidable (_ → _))
  | .moment _ _ | .opened _ _ _ | .entered _ _ _ | .refused _ _ _ _ | .began _ | .started _ _ _ _
  | .finished _ => .isTrue trivial

/-- Whether an event makes a realm active in the place of another. -/
def switches (s : StackId) : Event σ → Bool
  | .opened _ scope before | .entered scope before _ => scope.stack = s ∧
    (before.store.stack? s).map (·.active.id) ≠ some scope.home
  | _ => false

end Event

/-- The scopes open on a stack after events. -/
abbrev enclosing (s : StackId) (nest : List Enclosure) (es : List (Event σ)) : List Enclosure :=
  es.foldl (Event.enclose s) nest

/-- All scopes of a stack end in turn, and none is left open. -/
def Disciplined (s : StackId) (es : List (Event σ)) : Prop :=
  Along (Event.enclose s) (Event.InTurn s) [] es ∧ enclosing s [] es = []

instance (s : StackId) (es : List (Event σ)) : Decidable (Disciplined s es) :=
  inferInstanceAs (Decidable (_ ∧ _))

/-- The home realm of the innermost scope, if there is one. -/
def innermost (base : RealmId) : List Enclosure → RealmId
  | [] => base
  | e :: _ => e.scope.home

theorem enclosing_append (nest : List Enclosure) (es es' : List (Event σ)) :
    enclosing s nest (es ++ es') = enclosing s (enclosing s nest es) es' :=
  List.foldl_append

/-! ### A crossing and what happens in it -/

section

variable {scope : Scope} {before start last after : Machine σ} {es : List (Event σ)}
  {nest : List Enclosure}

theorem along_crossed {P : List Enclosure → Event σ → Prop} :
    Along (Event.enclose s) P nest
        (.entered scope before start :: es ++ [.exited scope before last after]) ↔
      P nest (.entered scope before start) ∧
        Along (Event.enclose s) P (Event.enclose s nest (.entered scope before start)) es ∧
        P (enclosing s (Event.enclose s nest (.entered scope before start)) es)
          (.exited scope before last after) := by
  simp only [List.cons_append, Along, along_append, and_true]

theorem enclosing_crossed :
    enclosing s nest (.entered scope before start :: es ++ [.exited scope before last after]) =
      Event.enclose s (enclosing s (Event.enclose s nest (.entered scope before start)) es)
        (.exited scope before last after) := by
  rw [enclosing_append]
  rfl

end

/-! ### Crossings end in turn of themselves -/

/-- A nest from its innermost crossing on: the part that no body in it may end. -/
def fromCrossing (nest : List Enclosure) : List Enclosure := nest.dropWhile (·.id?.isSome)

theorem fromCrossing_of_some {e : Enclosure} {nest : List Enclosure} {i : ScopeId}
    (h : e.id? = some i) : fromCrossing (e :: nest) = fromCrossing nest :=
  List.dropWhile_cons_of_pos (by simp [h])

theorem fromCrossing_of_none {e : Enclosure} {nest : List Enclosure} (h : e.id? = none) :
    fromCrossing (e :: nest) = e :: nest :=
  List.dropWhile_cons_of_neg (by simp [h])

theorem exists_of_head {nest : List Enclosure} {id? : Option ScopeId}
    (h : nest.head?.map (·.id?) = some id?) : ∃ e rest, nest = e :: rest ∧ e.id? = id? := by
  cases nest with
  | nil => cases h
  | cons e rest => exact ⟨e, rest, rfl, by simpa using h⟩

/-- A body that ends with its crossing innermost has left the rest of the nest alone. -/
theorem eq_of_fromCrossing {nest rest : List Enclosure} {scope : Scope}
    (h : fromCrossing nest = fromCrossing (⟨none, scope⟩ :: rest))
    (hh : nest.head?.map (·.id?) = some none) : nest = ⟨none, scope⟩ :: rest := by
  obtain ⟨e, rest', rfl, hid⟩ := exists_of_head hh
  rwa [fromCrossing_of_none hid, fromCrossing_of_none rfl] at h

theorem Course.fromCrossing_eq {m m' : Machine σ} {es : List (Event σ)} {nest : List Enclosure}
    (h : Course rule t m es m') (hturn : Along (Event.enclose s) (Event.InTurn s) nest es) :
    fromCrossing (enclosing s nest es) = fromCrossing nest := by
  induction h generalizing nest with
  | rest | moment | remembered | changed | refused | started => rfl
  | append _ _ ih ih' =>
    obtain ⟨hl, hr⟩ := along_append.mp hturn
    rw [enclosing_append, ih' hr, ih hl]
  | opened =>
    simp only [enclosing, List.foldl_cons, List.foldl_nil, Event.enclose]
    split
    · exact fromCrossing_of_some rfl
    · rfl
  | ended =>
    simp only [enclosing, List.foldl_cons, List.foldl_nil, Event.enclose]
    split
    · next hs =>
      obtain ⟨e, rest, rfl, hid⟩ := exists_of_head (hturn.1 hs)
      exact (fromCrossing_of_some hid).symm
    · rfl
  | crossed _ _ ih =>
    obtain ⟨-, hbody, hexit⟩ := along_crossed.mp hturn
    have hcross := ih hbody
    rw [enclosing_crossed]
    simp only [Event.enclose] at hcross hexit ⊢
    split
    · next hs =>
      rw [if_pos hs] at hcross hexit
      rw [eq_of_fromCrossing hcross (hexit hs), List.tail_cons]
    · next hs =>
      rw [if_neg hs] at hcross
      exact hcross
  | abandoned _ _ ih => exact ih hturn.2
  | counted _ _ ih =>
    obtain ⟨hbody, -⟩ := along_append.mp hturn
    rw [enclosing_append]
    exact ih hbody.2
  | onStack _ ih => exact ih hturn

end Realms
