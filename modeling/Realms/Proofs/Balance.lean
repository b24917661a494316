import Realms.Proofs.Nested

/-! Scopes and the count of replacements on their stack. A scope that had to replace a realm counts
once while it lasts and once more at its end, and nothing else counts. Main statement: entering and
leaving scopes, in whatever order and on whatever stacks, keeps that balance over all the scopes of
a store. -/

namespace Realms

variable {σ α : Type} {rule : EntryRule} {s t : StackId} {st st' : Store} {scope : Scope}

/-! ### Replacements by scopes -/

namespace Scope

/-- A scope of the stack that had to replace a realm, and has put it back. -/
def restored (s : StackId) (scope : Scope) : Bool :=
  scope.stack = s ∧ scope.hasSwitched = true ∧ scope.finished = true

/-- A scope of the stack that had to replace a realm, and has yet to put it back. -/
def outstanding (s : StackId) (scope : Scope) : Bool :=
  scope.stack = s ∧ scope.hasSwitched = true ∧ scope.finished = false

end Scope

/-- How often scopes have replaced the active realm of a stack so far. -/
def replacements (s : StackId) (scopes : List Scope) : Nat :=
  2 * scopes.countP (Scope.restored s) + scopes.countP (Scope.outstanding s)

section

variable {scopes scopes' : List Scope}

theorem replacements_perm (hp : scopes.Perm scopes') :
    replacements s scopes' = replacements s scopes := by
  rw [replacements, replacements, hp.countP_eq, hp.countP_eq]

theorem replacements_other (h : ∀ scope ∈ scopes, scope.stack ≠ s) : replacements s scopes = 0 := by
  have hrestored : scopes.countP (Scope.restored s) = 0 :=
    List.countP_eq_zero.mpr fun scope hscope => by simp [Scope.restored, h scope hscope]
  have houtstanding : scopes.countP (Scope.outstanding s) = 0 :=
    List.countP_eq_zero.mpr fun scope hscope => by simp [Scope.outstanding, h scope hscope]
  rw [replacements, hrestored, houtstanding]

/-- A scope that has not ended counts once if it had to replace a realm. -/
theorem replacements_cons (hf : scope.finished = false) (scopes : List Scope) :
    replacements s (scope :: scopes) = replacements s scopes +
      if scope.stack = s ∧ scope.hasSwitched = true then 1 else 0 := by
  have hrestored : scope.restored s = false := by simp [Scope.restored, hf]
  have houtstanding : scope.outstanding s = true ↔
      scope.stack = s ∧ scope.hasSwitched = true := by simp [Scope.outstanding, hf]
  simp only [replacements, List.countP_cons, hrestored, houtstanding, Bool.false_eq_true, if_false]
  omega

/-- Its end counts once more. -/
theorem replacements_finish (hf : scope.finished = false) (scopes : List Scope) :
    replacements s (scope.finish :: scopes) = replacements s (scope :: scopes) +
      if scope.stack = s ∧ scope.hasSwitched = true then 1 else 0 := by
  have hrestored : scope.finish.restored s = true ↔
      scope.stack = s ∧ scope.hasSwitched = true := by
    simp [Scope.restored, Scope.finish, Scope.hasSwitched]
  have houtstanding : scope.finish.outstanding s = false := by
    simp [Scope.outstanding, Scope.finish]
  rw [replacements_cons hf]
  simp only [replacements, List.countP_cons, hrestored, houtstanding, Bool.false_eq_true, if_false]
  split <;> omega

end

namespace Store

/-- The stacks count the replacements by the given scopes and no others. -/
structure Tallies (st : Store) (scopes : List Scope) : Prop where
  switches : ∀ s now, st.stack? s = some now →
    now.switches = replacements s scopes
  stack : ∀ scope ∈ scopes, ∃ now, st.stack? scope.stack = some now

namespace Tallies

variable {scopes scopes' : List Scope}

theorem perm (h : st.Tallies scopes) (hp : scopes.Perm scopes') : st.Tallies scopes' where
  switches s now hs := by rw [h.switches s now hs, replacements_perm hp]
  stack scope hscope := h.stack scope (hp.mem_iff.mpr hscope)

theorem of_stack? (h : st.Tallies scopes) (hs : ∀ t, st'.stack? t = st.stack? t) :
    st'.Tallies scopes where
  switches s now hnow := h.switches s now (by rwa [← hs])
  stack scope hscope := by rw [hs]; exact h.stack scope hscope

theorem modifyStack (h : st.Tallies scopes) (f : Stack → Stack)
    (hf : ∀ stack, (f stack).switches = stack.switches) : (st.modifyStack t f).Tallies scopes where
  switches s now hnow := by
    rw [stack?_modifyStack] at hnow
    split at hnow
    · obtain ⟨old, hold, rfl⟩ := Option.map_eq_some_iff.mp hnow
      rw [hf, h.switches s old hold]
    · exact h.switches s now hnow
  stack scope hscope := by
    obtain ⟨now, hnow⟩ := h.stack scope hscope
    rw [stack?_modifyStack, hnow]
    split
    · exact ⟨f now, rfl⟩
    · exact ⟨now, rfl⟩

/-- A new stack has no scopes yet. -/
theorem change (h : st.Tallies scopes) (hc : st.Change st') : st'.Tallies scopes where
  switches s now hnow := by
    obtain hold | ⟨hnew, e, engine, -, -, rfl⟩ := hc.stack? hnow
    · exact h.switches s now hold
    · refine (replacements_other fun scope hscope => ?_).symm
      obtain ⟨old, hold⟩ := h.stack scope hscope
      have hlt := (Array.getElem?_eq_some_iff.mp hold).1
      rintro rfl
      omega
  stack scope hscope := by
    obtain ⟨now, hnow⟩ := h.stack scope hscope
    exact ⟨now, hc.stack_eq hnow⟩

theorem enter (h : st.Tallies scopes) {now : Stack} {realm : Realm}
    (hnow : st.stack? s = some now) (hentry : st.Entry s now realm scope st') :
    st'.Tallies (scope :: scopes) where
  switches t now' ht := by
    rw [replacements_cons hentry.scope_eq.2.2]
    cases hentry with
    | stays => simpa [Scope.hasSwitched] using h.switches t now' ht
    | switches =>
      rw [stack?_modifyStack] at ht
      split at ht
      · next hst =>
        obtain ⟨old, hold, rfl⟩ := Option.map_eq_some_iff.mp ht
        rw [Stack.switches_activate, h.switches t old hold]
        simp [Scope.hasSwitched, hst]
      · next hst => simpa [hst] using h.switches t now' ht
  stack other hother := by
    have hext := hentry.extends
    obtain rfl | hother := List.mem_cons.mp hother
    · obtain ⟨now', hnow', -⟩ := hext.stack s now hnow
      exact ⟨now', by rwa [hentry.scope_eq.1]⟩
    · obtain ⟨old, hold⟩ := h.stack other hother
      obtain ⟨now', hnow', -⟩ := hext.stack _ old hold
      exact ⟨now', hnow'⟩

theorem leave (h : st.Tallies (scope :: scopes)) (hf : scope.finished = false) :
    (st.restore scope).Tallies (scope.finish :: scopes) where
  switches t now ht := by
    rw [replacements_finish hf]
    rw [stack?_restore] at ht
    split at ht
    · next hst =>
      obtain ⟨old, hold, rfl⟩ := Option.map_eq_some_iff.mp ht
      rw [Stack.switches_restore, h.switches t old hold]
      simp [hst, Scope.hasSwitched]
    · next hst =>
      rw [h.switches t now ht]
      simp [hst]
  stack other hother := by
    have hother' : ∃ old ∈ scope :: scopes, old.stack = other.stack := by
      obtain rfl | hother := List.mem_cons.mp hother
      · exact ⟨scope, List.mem_cons_self, rfl⟩
      · exact ⟨other, List.mem_cons_of_mem _ hother, rfl⟩
    obtain ⟨old, hold, hstack⟩ := hother'
    obtain ⟨now, hnow⟩ := h.stack old hold
    obtain ⟨now', hnow', -⟩ := (restore_extends scope).stack _ now hnow
    exact ⟨now', hstack ▸ hnow'⟩

end Tallies

/-! ### All scopes of a store -/

/-- The scopes of programs, those of crossings in progress, and those of crossings that are over. -/
def allScopes (st : Store) : List Scope := st.scopes.toList ++ (st.underway ++ st.ended)

theorem SameScopes.allScopes_eq (h : st.SameScopes st') : st'.allScopes = st.allScopes := by
  rw [allScopes, h.scopes, h.underway, h.ended, allScopes]

theorem restore_sameScopes : st.SameScopes (st.restore scope) := by
  unfold restore
  split <;> exact ⟨rfl, rfl, rfl⟩

theorem perm_addScope : (scope :: st.allScopes).Perm (st.addScope scope).allScopes := by
  simp only [allScopes, addScope, Array.toList_push, List.append_assoc]
  exact List.perm_middle.symm

theorem perm_beginCrossing : (scope :: st.allScopes).Perm (st.beginCrossing scope).allScopes :=
  List.perm_middle.symm

/-- Ending a scope of a program finishes that one and leaves the rest. -/
theorem perm_closeScope {i : ScopeId} (hi : st.scope? i = some scope) :
    ∃ rest, st.allScopes.Perm (scope :: rest) ∧
      (scope.finish :: rest).Perm (st.closeScope i scope).allScopes := by
  obtain ⟨hlt, hget⟩ := Array.getElem?_eq_some_iff.mp hi
  obtain ⟨front, a, back, hsplit, hlength, hmodify⟩ :=
    List.exists_of_modify (l := st.scopes.toList) Scope.finish hlt
  obtain rfl : a = scope := by
    rw [← hget, ← Array.getElem_toList hlt]
    simp [hsplit, ← hlength]
  refine ⟨front ++ (back ++ (st.underway ++ st.ended)), ?_, ?_⟩
  · rw [allScopes, hsplit, List.append_assoc, List.cons_append]
    exact List.perm_middle
  · rw [closeScope, restore_sameScopes.allScopes_eq, allScopes, Array.toList_modify, hmodify,
      List.append_assoc, List.cons_append]
    exact List.perm_middle.symm

/-- Ending the innermost crossing finishes its scope and leaves the rest. -/
theorem perm_endCrossing {outer : List Scope} (hu : st.underway = scope :: outer) :
    ∃ rest, st.allScopes.Perm (scope :: rest) ∧
      (scope.finish :: rest).Perm (st.endCrossing scope).allScopes := by
  refine ⟨st.scopes.toList ++ (outer ++ st.ended), ?_, ?_⟩
  · rw [allScopes, hu]
    exact List.perm_middle
  · rw [endCrossing, restore_sameScopes.allScopes_eq, allScopes, hu, ← List.append_assoc,
      ← List.append_assoc]
    exact List.perm_middle.symm

end Store

end Realms
