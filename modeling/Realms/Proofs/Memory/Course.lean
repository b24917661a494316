import Realms.Proofs.Memory.Event

/-! What memory steps can do, one after another. Main statement: the events of a step, with the
states before and after it, are put together from single changes to the names and the cells, and
from holds that are given back at the end of the body they were taken for. -/

namespace Realms.Memory

namespace State

variable {st : State} {c d : CellId}

@[simp] theorem cell?_modify (f : Cell → Cell) :
    (st.modify c f).cell? d = if c = d then (st.cell? d).map f else st.cell? d := by
  obtain ⟨i⟩ := c
  obtain ⟨j⟩ := d
  by_cases h : i = j <;> simp [modify, cell?, Array.getElem?_modify, h]

theorem modify_eq_self {f : Cell → Cell} (h : ∀ cell, st.cell? c = some cell → f cell = cell) :
    st.modify c f = st := by
  have hcells : st.cells.modify c.index f = st.cells := by
    ext i h₁ h₂
    · simp
    · rw [Array.getElem_modify]
      split
      next hi =>
        subst hi
        exact h _ (Array.getElem?_eq_getElem h₂)
      next => rfl
  rw [modify, hcells]

theorem modify_modify {f g : Cell → Cell} : (st.modify c f).modify c g = st.modify c (g ∘ f) := by
  have hcells : (st.cells.modify c.index f).modify c.index g = st.cells.modify c.index (g ∘ f) := by
    ext i h₁ h₂
    · simp
    · simp only [Array.getElem_modify]
      split <;> rfl
  simp only [modify, hcells]

/-- A cell that nobody made cannot be changed. -/
theorem modify_of_missing {f : Cell → Cell} (h : st.value? c = none) : st.modify c f = st := by
  refine modify_eq_self fun cell hcell => ?_
  rw [value?, hcell] at h
  cases h

end State

/-- Steps with some guards around them: the states before and after, and the events in between. -/
inductive Course : List Guard → State → List Event → State → Prop
  | moment (guards : List Guard) (st : State) : Course guards st [.moment guards st] st
  | append {guards : List Guard} {st st' st'' : State} {es es' : List Event} :
      Course guards st es st' → Course guards st' es' st'' → Course guards st (es ++ es') st''
  | renamed {guards : List Guard} {st st' : State} : st'.cells = st.cells →
      (∀ name c, st'.handles.get? name = some c → ∃ name', st.handles.get? name' = some c) →
      Course guards st [] st'
  | made {guards : List Guard} {st : State} (keep : String) (n : Int64) :
      Course guards st [.wrote ⟨st.cells.size⟩ n] { st with
        handles := st.handles.set keep ⟨st.cells.size⟩, cells := st.cells.push ⟨n, .free⟩ }
  | wrote {guards : List Guard} {st : State} {c : CellId} {old : Int64} (n : Int64) :
      st.value? c = some old → Course guards st [.wrote c n] (st.write c n)
  | held {guards : List Guard} {st last : State} {access : Access} {c : CellId} {hold : Hold}
      {es : List Event} : st.grant? access c = some hold →
      Course (⟨c, access⟩ :: guards) (st.held c hold) es last →
      Course guards st es (last.release c)

theorem Work.holding_eq {α : Type} (access : Access) (c : CellId) (body : Work α) (st : State) :
    holding access c body st = match st.grant? access c with
      | none => (none, st)
      | some hold => ((body (st.held c hold)).1, (body (st.held c hold)).2.release c) := by
  simp only [holding, bind, andThen, cell, State.grant?, State.cell?]
  cases st.cells[c.index]? with
  | none => rfl
  | some cell =>
    simp only [Option.bind_some]
    cases access.take cell.hold <;> rfl

namespace Course

variable {guards : List Guard} {st st' : State} {es : List Event}

theorem rest (guards : List Guard) (st : State) : Course guards st [] st :=
  .renamed rfl fun name _ h => ⟨name, h⟩

end Course

/-- The events of some work tell what it does to the state, whether it panics or not. -/
def Work.Tells {α : Type} (guards : List Guard) (w : Work α) (events : Observed) : Prop :=
  ∀ st, Course guards st (events st) (w st).2

namespace Work

variable {α β : Type} {guards : List Guard} {w : Work α} {k : α → Work β}
  {events events' : Observed}

theorem value_eq (c : CellId) (st : State) : value c st = (st.value? c, st) := by
  simp only [value, cell, State.value?, State.cell?, bind, andThen]
  cases st.cells[c.index]? <;> rfl

theorem updateValue_eq (c : CellId) (f : Int64 → Int64) (st : State) :
    updateValue c f st = match st.value? c with
      | none => (none, st)
      | some n => (some (f n), st.write c (f n)) := by
  simp only [updateValue, bind, andThen, value_eq]
  cases st.value? c <;> rfl

theorem snd_bind (hw : ∀ st, (w st).2 = st) (hk : ∀ a st, (k a st).2 = st) (st : State) :
    ((w >>= k) st).2 = st := by
  have hst := hw st
  simp only [bind, Work.andThen]
  generalize w st = r at hst ⊢
  obtain ⟨_ | a, last⟩ := r
  · exact hst
  · exact (hk a last).trans hst

theorem Tells.looking (h : ∀ st, (w st).2 = st) : w.Tells guards fun _ => [] := by
  intro st
  rw [h]
  exact .rest guards st

theorem Tells.followed (h : w.Tells guards events) (hk : ∀ a, (k a).Tells guards events') :
    Work.Tells guards (w >>= k) (w.followed events events') := by
  intro st
  have hw := h st
  simp only [bind, Work.andThen, Work.followed]
  generalize w st = r at hw ⊢
  obtain ⟨_ | a, last⟩ := r
  · exact .append hw (.rest guards last)
  · exact .append hw (hk a last)

/-- Work that is followed by some that only looks. -/
theorem Tells.before (h : w.Tells guards events) (hk : ∀ a st, (k a st).2 = st) :
    Work.Tells guards (w >>= k) events := by
  intro st
  have hw := h st
  simp only [bind, Work.andThen]
  generalize w st = r at hw ⊢
  obtain ⟨_ | a, last⟩ := r
  · exact hw
  · exact (hk a last).symm ▸ hw

theorem tells_atCell {find : Work CellId} {w : CellId → Work α} {events : CellId → Observed}
    (hfind : ∀ st, (find st).2 = st) (h : ∀ c, (w c).Tells guards (events c)) :
    Work.Tells guards (find >>= w) (atCell find events) := by
  intro st
  have hst := hfind st
  simp only [bind, Work.andThen, atCell]
  generalize find st = r at hst ⊢
  obtain ⟨_ | c, last⟩ := r
  · exact hst ▸ .rest guards last
  · exact hst ▸ h c last

theorem Tells.holding {access : Access} {c : CellId} (h : w.Tells (⟨c, access⟩ :: guards) events) :
    Work.Tells guards (holding access c w) (holdingEvents access c events) := by
  intro st
  rw [holding_eq, holdingEvents]
  cases hg : st.grant? access c with
  | none => exact .rest guards st
  | some hold => exact .held hg (h _)

theorem tells_setValue (c : CellId) (n : Int64) :
    (setValue c n).Tells guards (writingEvents guards c fun _ => n) := by
  intro st
  rw [writingEvents]
  cases hv : st.value? c with
  | none =>
    have hmiss : (setValue c n st).2 = st := st.modify_of_missing hv
    rw [hmiss]
    exact .rest guards st
  | some old => exact .append (.moment guards st) (.append (.wrote n hv) (.moment guards _))

theorem tells_updateValue (c : CellId) (f : Int64 → Int64) :
    (updateValue c f).Tells guards (writingEvents guards c f) := by
  intro st
  rw [updateValue_eq, writingEvents]
  cases hv : st.value? c with
  | none => exact .rest guards st
  | some n => exact .append (.moment guards st) (.append (.wrote (f n) hv) (.moment guards _))

theorem Tells.around {step : Step} {inner : Observed} (h : (step.exec guards).Tells guards inner) :
    (step.exec guards).Tells guards (step.around guards inner) := by
  intro st
  exact .append (.append (.moment guards st) (h st)) (.moment guards _)

end Work

open Work

mutual

theorem Step.tells_inside :
    ∀ (step : Step) guards, (step.exec guards).Tells guards (step.inside guards)
  | .string keep text, guards => by
    rw [Step.inside, Step.exec]
    exact fun st => .renamed rfl fun name c h => ⟨name, h⟩
  | .cloneString string keep, guards => by
    rw [Step.inside, Step.exec]
    intro st
    simp only [bind, Work.andThen, named]
    cases st.strings.get? string <;> exact .renamed rfl fun name c h => ⟨name, h⟩
  | .showString string, guards => by
    rw [Step.inside, Step.exec]
    exact .looking <| snd_bind (fun _ => rfl) fun _ _ => rfl
  | .compareStrings a b, guards => by
    rw [Step.inside, Step.exec]
    exact .looking <| snd_bind (fun _ => rfl) fun _ => snd_bind (fun _ => rfl) fun _ _ => rfl
  | .cell keep n, guards => by
    rw [Step.inside, Step.exec]
    exact fun st => .made keep n
  | .get cell, guards => by
    rw [Step.inside, Step.exec]
    refine tells_atCell (fun _ => rfl) fun c => Tells.holding fun st => ?_
    simp only [bind, Work.andThen, value_eq]
    cases st.value? c <;> exact .moment _ st
  | .set cell n, guards => by
    rw [Step.inside, Step.exec]
    refine tells_atCell (fun _ => rfl) fun c => ?_
    exact (Tells.holding (tells_setValue c n)).before fun _ _ => rfl
  | .add cell n, guards => by
    rw [Step.inside, Step.exec]
    refine tells_atCell (fun _ => rfl) fun c => Tells.holding ?_
    exact (tells_updateValue c (· + n)).before fun _ _ => rfl
  | .withReader cell body, guards => by
    rw [Step.inside, Step.exec]
    refine tells_atCell (fun _ => rfl) fun c => Tells.holding ?_
    refine (execAll_tells body _).before fun answers => ?_
    exact snd_bind (fun st => by rw [value_eq]) fun _ _ => rfl
  | .holdWriter cell body last, guards => by
    rw [Step.inside, Step.exec]
    refine tells_atCell (fun _ => rfl) fun c => Tells.holding ?_
    refine (execAll_tells body _).followed fun answers => ?_
    cases last with
    | none => exact .looking <| snd_bind (fun st => by rw [value_eq]) fun _ _ => rfl
    | some f => exact (tells_updateValue c f).before fun _ _ => rfl
  | .look guard, guards => by
    rw [Step.inside, Step.exec]
    refine .looking <| snd_bind (fun _ => rfl) fun c => ?_
    exact snd_bind (fun st => by rw [value_eq]) fun _ _ => rfl
  | .change guard f, guards => by
    rw [Step.inside, Step.exec]
    refine tells_atCell (fun _ => rfl) fun c => ?_
    exact (tells_updateValue c f).before fun _ _ => rfl
  | .attempt body, guards => by
    rw [Step.inside, Step.exec]
    intro st
    have hbody := execAll_tells body guards st
    dsimp only
    generalize execAll body guards st = r at hbody ⊢
    obtain ⟨_ | answers, last⟩ := r
    · exact hbody
    · exact hbody
  | .cloneCell cell keep, guards => by
    rw [Step.inside, Step.exec]
    intro st
    simp only [bind, Work.andThen, named]
    cases hc : st.handles.get? cell with
    | none => exact .rest guards st
    | some c =>
      have hkeep : ∀ name d, (st.handles.set keep c).get? name = some d →
          ∃ name', st.handles.get? name' = some d := by
        intro name d hd
        by_cases hname : name = keep
        · rw [hname, Names.get?_set] at hd
          exact ⟨cell, hd ▸ hc⟩
        · exact ⟨name, Names.get?_set_ne hname ▸ hd⟩
      exact .renamed rfl hkeep
  | .sameCell a b, guards => by
    rw [Step.inside, Step.exec]
    exact .looking <| snd_bind (fun _ => rfl) fun _ => snd_bind (fun _ => rfl) fun _ _ => rfl
  | .closure own other, guards => by
    rw [Step.inside, Step.exec]
    exact .looking fun _ => rfl

theorem execAll_tells :
    ∀ (steps : List Step) guards, (execAll steps guards).Tells guards (eventsAll steps guards)
  | [], guards => by
    rw [execAll, eventsAll]
    exact fun st => .moment guards st
  | step :: rest, guards => by
    rw [execAll, eventsAll]
    exact Tells.followed (step.tells_inside guards).around fun _ =>
      (execAll_tells rest guards).before fun _ _ => rfl

end

/-- The events of a step are a course from the state that it finds to the one that it leaves. -/
theorem Step.tells (step : Step) (guards : List Guard) :
    (step.exec guards).Tells guards (step.events guards) := (step.tells_inside guards).around

end Realms.Memory
