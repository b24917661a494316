/-!
Named things: each name means what it was last given to.
-/

namespace Realms

structure Names (α : Type) where
  entries : List (String × α)

namespace Names

variable {α : Type}

def empty : Names α := ⟨[]⟩

def get? (n : Names α) (name : String) : Option α := n.entries.lookup name

/-- Gives a name to a thing; the thing that had it is forgotten. -/
def set (n : Names α) (name : String) (a : α) : Names α :=
  ⟨(name, a) :: n.entries.filter (·.1 ≠ name)⟩

def erase (n : Names α) (name : String) : Names α := ⟨n.entries.filter (·.1 ≠ name)⟩

theorem get?_set (n : Names α) (name : String) (a : α) : (n.set name a).get? name = some a := by
  simp [get?, set]

theorem get?_set_ne {n : Names α} {name other : String} {a : α} (h : name ≠ other) :
    (n.set other a).get? name = n.get? name := by
  have hentries : ∀ entries : List (String × α),
      (entries.filter (·.1 ≠ other)).lookup name = entries.lookup name := by
    intro entries
    induction entries with
    | nil => rfl
    | cons entry entries ih =>
      obtain ⟨key, b⟩ := entry
      by_cases hkey : key = other
      · have hname : (name == key) = false := by simpa [hkey] using h
        rw [List.filter_cons_of_neg (by simpa using hkey), List.lookup_cons, hname]
        exact ih
      · rw [List.filter_cons_of_pos (by simpa using hkey), List.lookup_cons, List.lookup_cons, ih]
  have hname : (name == other) = false := by simpa using h
  rw [get?, set, List.lookup_cons, hname]
  exact hentries n.entries

end Names

end Realms
