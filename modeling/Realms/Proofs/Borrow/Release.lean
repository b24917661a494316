import Realms.Proofs.Borrow.Free

/-! Realms that are let go of. Main statement: what is done when a scope is left changes nothing but
the store, whichever realms end then, and no borrow is refused in it unless a function of a lost
realm owns a scope. -/

namespace Realms.Borrow

open Memory (Access Hold)
open Held

variable {σ α β : Type} {w : World σ}

/-- Work that changes nothing but the store. -/
def Steady (h : Held σ α) : Prop := ∀ w, ∃ store, (h w).2 = { w with store }

namespace Steady

variable {h : Held σ α} {k : α → Held σ β}

theorem pure (a : α) : Steady (Pure.pure a : Held σ α) := fun w => ⟨w.store, rfl⟩

theorem look (f : Store → Option α) : Steady (Held.look f : Held σ α) := by
  intro w
  rw [Held.look]
  cases f w.store <;> exact ⟨w.store, rfl⟩

theorem change (f : Store → Option (α × Store)) : Steady (Held.change f : Held σ α) := by
  intro w
  rw [Held.change]
  cases f w.store with
  | none => exact ⟨w.store, rfl⟩
  | some r => exact ⟨r.2, rfl⟩

theorem bind (hh : Steady h) (hk : ∀ a, Steady (k a)) : Steady (h >>= k) := by
  intro w
  obtain ⟨store, hstore⟩ := hh w
  simp only [Bind.bind, andThen]
  generalize h w = r at hstore ⊢
  obtain ⟨⟨a | _ | _⟩ | _ | _, next⟩ := r
  · cases hstore
    exact hk a _
  all_goals exact ⟨store, hstore⟩

/-- A guard that is dropped leaves no trace, whatever the cell is borrowed for otherwise. -/
theorem holding {access : Access} {slot : Slot} (hh : Steady h) :
    Steady (Held.holding access slot h) := by
  intro w
  rw [Held.holding]
  split
  · exact ⟨w.store, rfl⟩
  next hold htake =>
    obtain ⟨store, hstore⟩ := hh { w with holds := w.holds.set slot hold }
    refine ⟨store, ?_⟩
    simp only [hstore, Holds.set_self, Access.release_take htake, Holds.set_set]

end Steady

/-- Ends of realms that change the store only, and do nothing where no scope is to be left. -/
structure Discards (discard : RealmId → Held σ Unit) : Prop where
  steady : ∀ r, Steady (discard r)
  idle : ∀ r w, w.custody r = [] → discard r w = (.ended (.done ()), w)

namespace Discards

variable {discard : RealmId → Held σ Unit} (hd : Discards discard)

include hd

theorem steady_letGo (r : Option RealmId) : Steady (letGo discard r) := by
  cases r with
  | none => exact .pure ()
  | some r =>
    intro w
    simp only [letGo]
    split
    · exact ⟨w.store, rfl⟩
    · exact hd.steady r w

theorem steady_restore (scope : Scope) : Steady (restore discard scope) := by
  rw [restore]
  split
  · exact ((Steady.change _).bind hd.steady_letGo).holding
  · exact .pure ()

theorem steady_leave (i : ScopeId) : Steady (leave discard i) := by
  refine (Steady.look _).bind fun scope => ?_
  split
  · exact .pure ()
  · exact (hd.steady_restore scope).bind fun _ => (Steady.change _).bind hd.steady_letGo

theorem steady_leaveAll (scopes : List ScopeId) : Steady (leaveAll discard scopes) := by
  induction scopes with
  | nil => exact .pure ()
  | cons i rest ih => exact (hd.steady_leave i).bind fun _ => ih

theorem steady_endCrossing (scope : Scope) : Steady (endCrossing discard scope) :=
  (Steady.change _).bind fun _ => hd.steady_restore scope

/-- A realm that ends takes the scopes of its functions with it. -/
theorem ending : Discards (ending discard) where
  steady r w := hd.steady_leaveAll (w.custody r) w
  idle r w hr := by
    rw [Borrow.ending, hr]
    rfl

/-! ### Where no function of a lost realm owns a scope -/

theorem letGo_done (hw : ¬w.Burdened) (r : Option RealmId) :
    letGo discard r w = (.ended (.done ()), w) := by
  cases r with
  | none => rfl
  | some r =>
    simp only [letGo]
    split
    · rfl
    next hkept =>
      exact hd.idle r w (World.custody_of_lost hw (World.lost_of_not_keeps hkept))

theorem restore_done (hfree : w.holds = .free) (hw : ¬w.Burdened) (scope : Scope) :
    ∃ last, restore discard scope w = (.ended (.done ()), last) := by
  rw [restore]
  split
  · refine ⟨_, (holding_congr fun hold => ?_).trans
      (holding_change (f := fun st => some ((), st.restore scope)) (holds_free hfree _))⟩
    exact (bind_done (change_some rfl)).trans (hd.letGo_done (by exact hw) _)
  · exact ⟨w, rfl⟩

theorem endCrossing_done (hfree : w.holds = .free) (hw : ¬w.Burdened) (scope : Scope) :
    (endCrossing discard scope w).1 = .ended (.done ()) := by
  refine (congrArg Prod.fst (bind_done (change_some rfl))).trans ?_
  refine (hd.restore_done (w := { w with store := _ }) ?_ ?_ scope).elim fun last hrestore =>
    congrArg Prod.fst hrestore
  · exact hfree
  · exact hw

theorem leave_ordinary (hfree : w.holds = .free) (hw : ¬w.Burdened) (i : ScopeId) :
    (leave discard i w).1.Ordinary := by
  rw [leave, look_bind]
  cases w.store.scope? i with
  | none => exact ⟨_, rfl⟩
  | some scope =>
    simp only
    split
    · exact ⟨_, rfl⟩
    · obtain ⟨last, hrestore⟩ := hd.restore_done hfree hw scope
      obtain ⟨store, hlast⟩ := hd.steady_restore scope w
      have hburden : ¬last.Burdened := by
        rw [hrestore] at hlast
        cases hlast
        exact hw
      rw [bind_done hrestore]
      exact ⟨_, congrArg Prod.fst
        ((bind_done (change_some rfl)).trans (hd.letGo_done (by exact hburden) _))⟩

end Discards

theorem discards_exhausted : Discards (Level.exhausted : Level σ).discard where
  steady r w := by
    simp only [Level.exhausted]
    split <;> exact ⟨w.store, rfl⟩
  idle r w hr := if_pos hr

theorem discards_level (conduct : Conduct σ) (rule : EntryRule) (fuel : Nat) :
    Discards (level conduct rule fuel).discard := by
  -- The ends of realms at a level let go of others with the level below it.
  induction fuel with
  | zero => exact discards_exhausted.ending
  | succ fuel ih => exact ih.ending

end Realms.Borrow
