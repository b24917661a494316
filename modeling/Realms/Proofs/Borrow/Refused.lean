import Realms.Proofs.Borrow.Free
import Realms.Proofs.Store.Lookup

/-! Operations on cells that are borrowed. Main statement: an operation that needs a cell is refused
while the cell is borrowed in a way that conflicts, and changes nothing then; a realm that cannot be
put back on the way out of a panic makes the runtime abort. -/

namespace Realms.Borrow

open Memory (Access Hold)
open Held

variable {σ α β : Type} {w w' : World σ} {access : Access} {slot : Slot} {s : StackId}

/-- The cell that a reading borrows first, and how. -/
def readingBorrows? (s : StackId) : {α : Type} → Reading α → Option (Slot × Access)
  | _, .stack | _, .global _ => some (.active s, .read)
  | _, .registry e => some (.realms e, .read)
  | _, .object o | _, .property o _ => some (.properties o, .read)
  | _, .foreign f => some (.questions f, .read)
  | _, _ => none

/-- The cell that an action borrows first, and how; entering and leaving scopes are apart. -/
def actingBorrows? (s : StackId) : {α : Type} → Action α → Option (Slot × Access)
  | _, .newRealm e _ => some (.realms e, .write)
  | _, .newStack e => some (.realms e, .read)
  | _, .newObjectHere | _, .setGlobal _ _ => some (.active s, .read)
  | _, .setProperty o _ _ => some (.properties o, .write)
  | _, .read (.object o) _ => some (.properties o, .read)
  | _, _ => none

namespace Held

variable {h : Held σ α} {k : α → Held σ β}

theorem bind_conflict (hw : h w = (.conflict slot, w')) : (h >>= k) w = (.conflict slot, w') := by
  simp only [bind, andThen, hw]

theorem holding_refused {body : Held σ α} (hrefused : access.take (w.holds slot) = none) :
    holding access slot body w = (.conflict slot, w) := by
  simp only [holding, hrefused]

/-- What is dropped on the way out of a panic must not fail. -/
theorem dropping_aborted {drop : Held σ Unit} {text : String} {next : World σ}
    (hbody : h w = (.ended (.panicked text), next)) (hdrop : drop next = (.conflict slot, w')) :
    dropping drop h w = (.aborted, w') := by
  simp only [dropping, hbody, hdrop]

end Held

/-- A cell that is borrowed for writing is borrowed by nobody else. -/
theorem take_taken {hold hold' : Hold} (ht : Access.write.take hold = some hold')
    (access : Access) : access.take hold' = none := by
  match hold with
  | .readers 0 =>
    obtain rfl : Hold.writer = hold' := Option.some.inj ht
    cases access <;> rfl
  | .readers (n + 1) | .writer => cases ht

theorem property_refused {o : ObjectId} {name : String}
    (hrefused : Access.read.take (w.holds (.properties o)) = none) :
    property o name w = (.conflict (.properties o), w) := by
  rw [property]
  exact bind_conflict (holding_refused hrefused)

theorem reading_refused {r : Reading α} (hr : readingBorrows? s r = some (slot, access))
    (hknown : (r.eval s w.store).isSome) (hrefused : access.take (w.holds slot) = none) :
    reading s r w = (.conflict slot, w) := by
  cases r <;> cases hr
  case property o name =>
    cases ho : w.store.object? o with
    | none => simp [Reading.eval, ho] at hknown
    | some object =>
      rw [reading, look_bind, ho]
      exact property_refused hrefused
  case global name => exact bind_conflict (holding_refused hrefused)
  all_goals
    rw [reading]
    exact holding_refused hrefused

theorem acting_refused {rule : EntryRule} {l : Level σ} {a : Action α}
    (ha : actingBorrows? s a = some (slot, access))
    (hknown : (a.perform rule s w.store).isSome) (hrefused : access.take (w.holds slot) = none) :
    acting rule l s a w = (.conflict slot, w) := by
  cases a
  case read v name =>
    cases v <;> cases ha
    next o =>
      cases ho : w.store.object? o with
      | none => simp [Action.perform, Store.read?, ho] at hknown
      | some object =>
        simp only [acting, look_bind, ho]
        exact bind_conflict (property_refused hrefused)
  all_goals cases ha
  case newRealm | setProperty =>
    rw [acting]
    exact holding_refused hrefused
  case newStack | newObjectHere | setGlobal =>
    exact bind_conflict (holding_refused hrefused)

theorem enter_refused {rule : EntryRule} {home : RealmId} {engine : Engine}
    (hs : w.store.engineOf? s = some engine) (howns : engine.registry.owns home)
    (hhome : (w.store.realm? home).isSome)
    (hrefused : Access.read.take (w.holds (.active s)) = none) :
    enter rule s home w = (.conflict (.active s), w) := by
  obtain ⟨stack, hstack, he⟩ := Option.bind_eq_some_iff.1 hs
  obtain ⟨realm, hrealm⟩ := Option.isSome_iff_exists.1 hhome
  have hactive : active s w = (.conflict (.active s), w) := holding_refused hrefused
  simp only [enter, look_bind, hstack, he, hrealm, Option.map_some, howns, Bool.not_true]
  split
  · contradiction
  · split
    · exact bind_conflict hactive
    · exact bind_conflict hactive

section

variable (discard : RealmId → Held σ Unit) {scope owned : Scope}

theorem restore_refused (hswitched : scope.hasSwitched)
    (hrefused : Access.write.take (w.holds (.active scope.stack)) = none) :
    restore discard scope w = (.conflict (.active scope.stack), w) := by
  rw [restore, if_pos hswitched]
  exact holding_refused hrefused

theorem endCrossing_refused (hswitched : scope.hasSwitched)
    (hrefused : Access.write.take (w.holds (.active scope.stack)) = none) :
    ∃ last, endCrossing discard scope w = (.conflict (.active scope.stack), last) :=
  ⟨_, (bind_done (change_some rfl)).trans (restore_refused discard hswitched (by exact hrefused))⟩

theorem leave_refused {i : ScopeId} (hi : w.store.scope? i = some scope)
    (hopen : scope.finished = false) (hswitched : scope.hasSwitched)
    (hrefused : Access.write.take (w.holds (.active scope.stack)) = none) :
    leave discard i w = (.conflict (.active scope.stack), w) := by
  simp only [leave, look_bind, hi, hopen, Bool.false_eq_true, if_false]
  exact bind_conflict (restore_refused discard hswitched hrefused)

/-! ### Scopes that are to be left while another is -/

theorem letGo_refused {r : RealmId} {j : ScopeId} {rest : List ScopeId} (hends : ¬w.Keeps r)
    (howns : w.custody r = j :: rest) (hj : w.store.scope? j = some owned)
    (hopen : owned.finished = false) (hswitched : owned.hasSwitched)
    (hrefused : Access.write.take (w.holds (.active owned.stack)) = none) :
    letGo (ending discard) (some r) w = (.conflict (.active owned.stack), w) := by
  simp only [letGo]
  rw [if_neg hends, ending, howns]
  exact bind_conflict (leave_refused discard hj hopen hswitched hrefused)

/-- When scope `i` is left, the realm that was active on its stack ends, and the first scope that
a function there owns is one of the same stack. -/
structure Entangled (w : World σ) (i : ScopeId) (scope : Scope) : Prop where
  known : w.store.scope? i = some scope
  unfinished : scope.finished = false
  switched : scope.hasSwitched
  owning : ∃ stack j rest owned, w.store.stack? scope.stack = some stack ∧
    ¬World.Keeps { w with store := w.store.restore scope } stack.active.id ∧
    w.custody stack.active.id = j :: rest ∧
    w.store.scope? j = some owned ∧ owned.finished = false ∧ owned.hasSwitched ∧
    owned.stack = scope.stack

theorem Entangled.restore_refused {i : ScopeId} (h : Entangled w i scope) :
    ∃ last, restore (ending discard) scope w = (.conflict (.active scope.stack), last) := by
  obtain ⟨stack, j, rest, owned, hstack, hends, howns, hj, hopen, hswitched, hsame⟩ := h.owning
  rw [restore, if_pos h.switched]
  cases htake : Access.write.take (w.holds (.active scope.stack)) with
  | none => exact ⟨w, holding_refused htake⟩
  | some hold =>
    -- The first scope that is left under the guard finds its cell borrowed.
    let under : World σ := { w with
      store := w.store.restore scope, holds := w.holds.set (.active scope.stack) hold }
    have hrefused : Access.write.take (under.holds (.active owned.stack)) = none := by
      simp only [under, hsame, Holds.set_self]
      exact take_taken htake .write
    have hj' : under.store.scope? j = some owned := (Store.scope?_restore ..).trans hj
    have hgo : letGo (ending discard) (some stack.active.id) under =
        (.conflict (.active owned.stack), under) :=
      letGo_refused discard hends howns hj' hopen hswitched hrefused
    simp only [holding, htake]
    rw [bind_done (change_some rfl), hstack, Option.map_some, hgo, hsame]
    exact ⟨_, rfl⟩

theorem Entangled.leave_refused {i : ScopeId} (h : Entangled w i scope) :
    ∃ last, leave (ending discard) i w = (.conflict (.active scope.stack), last) := by
  obtain ⟨last, hrestore⟩ := h.restore_refused discard
  simp only [leave, look_bind, h.known, h.unfinished, Bool.false_eq_true, if_false]
  exact ⟨last, bind_conflict hrestore⟩

/-- A scope that is left at the end of a body that panicked. -/
theorem Entangled.scoping_aborted {i : ScopeId} {body : Held σ α} {next : World σ} {text : String}
    (hbody : body w = (.ended (.panicked text), next)) (h : Entangled next i scope) :
    (scoping (ending discard) i body w).1 = .aborted := by
  obtain ⟨last, hleave⟩ := h.leave_refused discard
  have hguarded : guarding body w = (.ended (.done (.error text)), next) := by
    simp only [guarding, hbody]
  have hunwound : unwinding (leave (ending discard) i) next = (.aborted, last) := by
    simp only [unwinding, hleave]
  rw [scoping, bind_done hguarded]
  simp only [bind, andThen, hunwound]

end

/-- Operations that do not go on while a cell that they need is borrowed in a way that conflicts. -/
structure Checks (rule : EntryRule) (l : Level σ) : Prop where
  reading : ∀ {α : Type} (r : Reading α) s (w : World σ) slot access,
    readingBorrows? s r = some (slot, access) → (r.eval s w.store).isSome →
    access.take (w.holds slot) = none → Borrow.reading s r w = (.conflict slot, w)
  acting : ∀ {α : Type} (a : Action α) s (w : World σ) slot access,
    actingBorrows? s a = some (slot, access) → (a.perform rule s w.store).isSome →
    access.take (w.holds slot) = none → Borrow.acting rule l s a w = (.conflict slot, w)
  entering : ∀ s home (w : World σ) engine, w.store.engineOf? s = some engine →
    engine.registry.owns home → (w.store.realm? home).isSome →
    Access.read.take (w.holds (.active s)) = none →
    enter rule s home w = (.conflict (.active s), w)
  asking : ∀ f q (w : World σ), Access.write.take (w.holds (.questions f)) = none →
    noteQuestion f q w = (.conflict (.questions f), w)
  noting : ∀ p s note (w : World σ), Access.write.take (w.holds (.notes p)) = none →
    Borrow.noting p s note w = (.conflict (.notes p), w)
  /-- A realm that cannot be put back on the way out of a panic. -/
  restoring : ∀ {α : Type} (body : Held σ α) scope (w next : World σ) text,
    body w = (.ended (.panicked text), next) → scope.hasSwitched →
    Access.write.take (next.holds (.active scope.stack)) = none →
    (dropping (endCrossing l.discard scope) body w).1 = .aborted
  leaving : ∀ i scope (w : World σ), Entangled w i scope →
    (leave l.discard i w).1 = .conflict (.active scope.stack)
  /-- A scope that is left on the way out of a panic. -/
  unwinding : ∀ {α : Type} (body : Held σ α) i scope (w next : World σ) text,
    body w = (.ended (.panicked text), next) → Entangled next i scope →
    (scoping l.discard i body w).1 = .aborted

theorem checks (rule : EntryRule) {l : Level σ} (discard : RealmId → Held σ Unit)
    (hl : l.discard = ending discard) : Checks rule l where
  reading _ _ _ _ _ := reading_refused
  acting _ _ _ _ _ := acting_refused
  entering _ _ _ _ := enter_refused
  asking _ _ _ := holding_refused
  noting _ _ _ _ := holding_refused
  restoring body scope w next text hbody hswitched hrefused := by
    obtain ⟨last, hdrop⟩ := endCrossing_refused l.discard hswitched hrefused
    rw [dropping_aborted hbody hdrop]
  leaving i scope w h := by
    obtain ⟨last, hleave⟩ := h.leave_refused discard
    rw [hl, hleave]
  unwinding body i scope w next text hbody h := by
    rw [hl]
    exact h.scoping_aborted discard hbody

theorem checks_level (conduct : Conduct σ) (rule : EntryRule) (fuel : Nat) :
    Checks rule (level conduct rule fuel) := by
  cases fuel with
  | zero => exact checks rule Level.exhausted.discard rfl
  | succ fuel => exact checks rule (level conduct rule fuel).discard rfl

end Realms.Borrow
