import Realms.Proofs.Memory.Course

/-! The guards around a state, and the holds of its cells. Main statement: at every moment of a
course the guards go together, each cell is held for just those that are its own, and its value is
the one that was last written to it. -/

namespace Realms.Memory

variable {guards : List Guard} {st st' : State} {c d : CellId} {access : Access} {hold : Hold}
  {es past rest : List Event}

/-! ### Holds and values -/

namespace State

theorem value?_modify {f : Cell → Cell} (hf : ∀ cell, (f cell).value = cell.value) :
    (st.modify c f).value? d = st.value? d := by
  by_cases h : c = d <;> simp [value?, h, Function.comp_def, hf]

@[simp] theorem value?_held : (st.held c hold).value? d = st.value? d := value?_modify fun _ => rfl

@[simp] theorem value?_release : (st.release c).value? d = st.value? d := value?_modify fun _ => rfl

theorem value?_write {old n : Int64} (h : st.value? c = some old) :
    (st.write c n).value? d = if c = d then some n else st.value? d := by
  obtain ⟨cell, hcell, -⟩ := Option.map_eq_some_iff.1 h
  by_cases hcd : c = d
  · subst hcd
    simp [write, value?, hcell]
  · simp [write, value?, hcd]

@[simp] theorem hold_write {n : Int64} : (st.write c n).hold d = st.hold d := by
  by_cases h : c = d
  · subst h
    cases hcell : st.cell? c <;> simp [hold, write, hcell]
  · simp [hold, write, h]

theorem hold_held {cell : Cell} (h : st.cell? c = some cell) :
    (st.held c hold).hold d = if c = d then hold else st.hold d := by
  by_cases hcd : c = d
  · subst hcd
    simp [held, State.hold, h]
  · simp [held, State.hold, hcd]

theorem hold_release :
    (st.release c).hold d = if c = d then (st.hold d).release else st.hold d := by
  by_cases hcd : c = d
  · subst hcd
    cases hcell : st.cell? c <;> simp [release, hold, hcell, Hold.free, Hold.release]
  · simp [release, hold, hcd]

theorem cell?_push (cell : Cell) (handles : Names CellId) :
    State.cell? { st with handles, cells := st.cells.push cell } c =
      if c.index = st.cells.size then some cell else st.cell? c := by
  simp [cell?, Array.getElem?_push]

theorem cell?_size : st.cell? ⟨st.cells.size⟩ = none := by simp [cell?]

end State

/-! ### What guards say of holds -/

/-- The guards that a hold stands for. -/
def Hold.asGuards (c : CellId) : Hold → List Guard
  | .readers n => .replicate n ⟨c, .read⟩
  | .writer => [⟨c, .write⟩]

theorem Access.guards_take {h : Hold} (ht : access.take h = some hold) :
    hold.asGuards c = ⟨c, access⟩ :: h.asGuards c := by
  cases access with
  | read =>
    cases h with
    | readers n =>
      obtain rfl : Hold.readers (n + 1) = hold := Option.some.inj ht
      rfl
    | writer => cases ht
  | write =>
    match h with
    | .readers 0 =>
      obtain rfl : Hold.writer = hold := Option.some.inj ht
      rfl
    | .readers (n + 1) => cases ht
    | .writer => cases ht

theorem Access.release_take {h : Hold} (ht : access.take h = some hold) : hold.release = h := by
  cases access with
  | read => exact Hold.release_read? ht
  | write => exact Hold.release_write? ht

theorem State.grant?_eq_some :
    st.grant? access c = some hold ↔
      ∃ cell, st.cell? c = some cell ∧ access.take cell.hold = some hold :=
  Option.bind_eq_some_iff

/-- Two guards that do not go together. -/
def Guard.Conflicts (g g' : Guard) : Prop :=
  g.cell = g'.cell ∧ (g.access = .write ∨ g'.access = .write)

theorem Access.isSome_take {h : Hold} :
    (access.take h).isSome ↔ ∀ g ∈ h.asGuards c, ¬ g.Conflicts ⟨c, access⟩ := by
  match access, h with
  | .read, .readers n => simp [take, Hold.read?, Hold.asGuards, Guard.Conflicts]
  | .read, .writer => simp [take, Hold.read?, Hold.asGuards, Guard.Conflicts]
  | .write, .readers 0 => simp [take, Hold.write?, Hold.asGuards]
  | .write, .readers (n + 1) => simp [take, Hold.write?, Hold.asGuards, Guard.Conflicts]
  | .write, .writer => simp [take, Hold.write?, Hold.asGuards, Guard.Conflicts]

/-- Guards that are around a state: they go together, they are what its cells are held for, and all
handles are to cells that were made. -/
structure Settled (guards : List Guard) (st : State) : Prop where
  apart : guards.Pairwise fun g g' => ¬ g.Conflicts g'
  holds : ∀ c, guards.filter (·.cell = c) = (st.hold c).asGuards c
  made : ∀ name c, st.handles.get? name = some c → (st.value? c).isSome

namespace Settled

theorem empty : Settled [] .empty where
  apart := .nil
  holds c := by simp [State.hold, State.cell?, State.empty, Hold.free, Hold.asGuards]
  made name c h := by simp [State.empty, Names.empty, Names.get?] at h

/-- A guard is granted where it conflicts with none of those that there are. -/
theorem isSome_grant? (h : Settled guards st) (hc : (st.value? c).isSome) :
    (st.grant? access c).isSome ↔ ∀ g ∈ guards, ¬ g.Conflicts ⟨c, access⟩ := by
  obtain ⟨cell, hcell⟩ : ∃ cell, st.cell? c = some cell := by
    simpa [State.value?, Option.isSome_iff_exists] using hc
  have hcell_hold : st.hold c = cell.hold := by rw [State.hold, hcell, Option.elim_some]
  have hgrant : st.grant? access c = access.take cell.hold := by
    rw [State.grant?, hcell]
    rfl
  rw [hgrant, Access.isSome_take (c := c), ← hcell_hold, ← h.holds c]
  simp only [List.mem_filter, decide_eq_true_eq]
  exact ⟨fun hall g hg hconflict => hall g ⟨hg, hconflict.1⟩ hconflict,
    fun hall g hg => hall g hg.1⟩

/-- A guard's cell was made, since one that was not is held by nobody. -/
theorem made_of_mem (h : Settled guards st) {g : Guard} (hg : g ∈ guards) :
    (st.value? g.cell).isSome := by
  have hmem : g ∈ guards.filter (·.cell = g.cell) := List.mem_filter.2 ⟨hg, by simp⟩
  rw [h.holds] at hmem
  cases hcell : st.cell? g.cell with
  | none => simp [State.hold, hcell, Hold.free, Hold.asGuards] at hmem
  | some cell => simp [State.value?, hcell]

/-- A guard more, and the hold that is granted for it. -/
theorem held (h : Settled guards st) (hg : st.grant? access c = some hold) :
    Settled (⟨c, access⟩ :: guards) (st.held c hold) := by
  obtain ⟨cell, hcell, ht⟩ := State.grant?_eq_some.1 hg
  have hc : (st.value? c).isSome := by rw [State.value?, hcell]; rfl
  have hapart := (h.isSome_grant? hc).1 (Option.isSome_of_mem hg)
  refine ⟨.cons (fun g hg hconflict => hapart g hg ?_) h.apart, fun d => ?_, fun name d hd => ?_⟩
  · exact ⟨hconflict.1.symm, hconflict.2.symm⟩
  · rw [State.hold_held hcell, List.filter_cons, h.holds d]
    by_cases hcd : c = d
    · subst hcd
      have hold_eq : st.hold c = cell.hold := by rw [State.hold, hcell, Option.elim_some]
      simpa [hold_eq] using (Access.guards_take ht).symm
    · simp [hcd]
  · rw [State.value?_held]
    exact h.made name d hd

end Settled

theorem Event.isSome_foldl_value (es : List Event) {value : Option Int64} (h : value.isSome) :
    (es.foldl (Event.value c) value).isSome := by
  induction es generalizing value with
  | nil => exact h
  | cons e es ih =>
    refine ih ?_
    cases e with
    | moment => exact h
    | wrote d n =>
      rw [Event.value]
      split
      · rfl
      · exact h

namespace Course

/-- Every hold is given back. -/
theorem hold_eq (h : Course guards st es st') : ∀ c, st'.hold c = st.hold c := by
  induction h with
  | moment => exact fun _ => rfl
  | append _ _ ih ih' => exact fun c => (ih' c).trans (ih c)
  | renamed hcells => exact fun c => by rw [State.hold, State.cell?, hcells]; rfl
  | @made _ st keep n =>
    intro c
    rw [State.hold, State.cell?_push]
    split
    next hc =>
      obtain rfl : c = ⟨st.cells.size⟩ := congrArg CellId.mk hc
      rw [State.hold, State.cell?_size]
      rfl
    next => rfl
  | wrote => exact fun _ => State.hold_write
  | @held _ st last access c hold _ hg _ ih =>
    obtain ⟨cell, hcell, ht⟩ := State.grant?_eq_some.1 hg
    intro d
    rw [State.hold_release, ih d, State.hold_held hcell]
    split
    next hcd =>
      subst hcd
      rw [Access.release_take ht, State.hold, hcell, Option.elim_some]
    next => rfl

/-- Each cell has the value that was last written to it, and the others keep theirs. -/
theorem value?_eq (h : Course guards st es st') (c : CellId) :
    st'.value? c = es.foldl (Event.value c) (st.value? c) := by
  induction h with
  | moment => rfl
  | append _ _ ih ih' => rw [List.foldl_append, ← ih, ih']
  | renamed hcells => rw [State.value?, State.cell?, hcells]; rfl
  | @made _ st keep n =>
    rw [State.value?, State.cell?_push]
    by_cases hc : c.index = st.cells.size
    · have hid : (⟨st.cells.size⟩ : CellId) = c := by rw [← hc]
      simp [hc, hid, Event.value]
    · have hid : (⟨st.cells.size⟩ : CellId) ≠ c := fun h => hc (h ▸ rfl)
      simp [hc, hid, Event.value, State.value?]
  | wrote n hv => exact State.value?_write hv
  | held _ _ ih => rw [State.value?_release, ih, State.value?_held]

theorem made_of_made (h : Course guards st es st') (hc : (st.value? c).isSome) :
    (st'.value? c).isSome := by
  rw [h.value?_eq]
  exact Event.isSome_foldl_value es hc

/-- Steps leave the guards around them as they were, and handles are to cells that were made. -/
theorem settled (h : Course guards st es st') (hs : Settled guards st) : Settled guards st' := by
  refine ⟨hs.apart, fun c => by rw [h.hold_eq, hs.holds], ?_⟩
  induction h with
  | moment => exact hs.made
  | append h _ ih ih' => exact ih' ⟨hs.apart, fun c => by rw [h.hold_eq, hs.holds], ih hs⟩
  | renamed hcells hnames =>
    intro name c hc
    obtain ⟨name', hc'⟩ := hnames name c hc
    rw [State.value?, State.cell?, hcells]
    exact hs.made name' c hc'
  | @made guards st keep n =>
    have hmade : Course guards st _ _ := made keep n
    intro name c hc
    by_cases hname : name = keep
    · rw [hname, Names.get?_set, Option.some.injEq] at hc
      subst hc
      rw [State.value?, State.cell?_push, if_pos rfl]
      rfl
    · rw [Names.get?_set_ne hname] at hc
      exact hmade.made_of_made (hs.made name c hc)
  | @wrote guards st _ _ n hv =>
    have hwrote : Course guards st _ _ := wrote n hv
    exact fun name c hc => hwrote.made_of_made (hs.made name c hc)
  | held hg _ ih =>
    intro name c hc
    rw [State.value?_release]
    exact ih (hs.held hg) name c hc

/-- What holds of the guards at the beginning holds at every moment of a course. -/
theorem at_moment {around : List Guard} {m : State} (h : Course guards st es st')
    (hs : Settled guards st) (hes : es = past ++ .moment around m :: rest) :
    Settled around m ∧ ∀ c, m.value? c = past.foldl (Event.value c) (st.value? c) := by
  induction h generalizing past rest with
  | moment guards st =>
    have hsingle := hes.symm
    simp only [List.append_eq_singleton_iff, List.cons.injEq, Event.moment.injEq, reduceCtorEq,
      and_false, or_false] at hsingle
    obtain ⟨rfl, ⟨rfl, rfl⟩, -⟩ := hsingle
    exact ⟨hs, fun _ => rfl⟩
  | append h h' ih ih' =>
    obtain ⟨es₁, rfl, hrest⟩ | ⟨es₁, hes₁, hrest⟩ := List.append_eq_append_iff.1 hes
    · obtain ⟨hsettled, hvalue⟩ := ih' (h.settled hs) hrest
      refine ⟨hsettled, fun c => ?_⟩
      rw [hvalue, h.value?_eq, List.foldl_append]
    · cases es₁ with
      | nil =>
        rw [List.append_nil] at hes₁
        have hstart : _ = [] ++ .moment around m :: rest := hrest.symm
        obtain ⟨hsettled, hvalue⟩ := ih' (h.settled hs) hstart
        exact ⟨hsettled, fun c => by rw [hvalue, h.value?_eq, hes₁]; rfl⟩
      | cons e es₁ =>
        obtain ⟨rfl, -⟩ := List.cons.inj hrest
        exact ih hs hes₁
  | renamed => simp at hes
  | made => simpa [List.append_eq_singleton_iff] using hes.symm
  | wrote => simpa [List.append_eq_singleton_iff] using hes.symm
  | held hg _ ih =>
    obtain ⟨hsettled, hvalue⟩ := ih (hs.held hg) hes
    exact ⟨hsettled, fun c => by rw [hvalue, State.value?_held]⟩

end Course

end Realms.Memory
