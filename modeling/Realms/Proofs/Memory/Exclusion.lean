import Realms.Proofs.Memory.Settled

/-! Exclusive access to cells. Main statement: at every moment of every run of memory steps, a
writing guard of a cell is its only guard, a step gets its guard where none conflicts and is refused
before any change where one does, all holds are given back, and what is written is what every clone
reads. -/

namespace Realms.Memory

variable {guards : List Guard} {st st' : State} {c d : CellId} {access : Access} {hold : Hold}
  {name : String} {past rest : List Event}

/-- The handle whose cell a step takes hold of, and how. -/
def Step.takes? : Step → Option (String × Access)
  | .get name | .withReader name _ => some (name, .read)
  | .set name _ | .add name _ | .holdWriter name _ _ => some (name, .write)
  | _ => none

/-- The handle whose cell a step gives another value, and what that is made of. -/
def Step.puts? : Step → Option (String × (Int64 → Int64))
  | .set name n => some (name, fun _ => n)
  | .add name n => some (name, (· + n))
  | _ => none

mutual

/-- The handles that a step may make or give to another cell. -/
def Step.keeps : Step → List String
  | .cell keep _ | .cloneCell _ keep => [keep]
  | .withReader _ body | .holdWriter _ body _ | .attempt body => keepsAll body
  | _ => []

def keepsAll : List Step → List String
  | [] => []
  | step :: rest => step.keeps ++ keepsAll rest

end

/-- What can be relied on with some guards around a state. -/
structure Orderly (guards : List Guard) (st : State) : Prop where
  apart : guards.Pairwise fun g g' => ¬ g.Conflicts g'
  /-- A cell is held for its guards and for nothing else. -/
  counted : ∀ c, guards.filter (·.cell = c) = (st.hold c).asGuards c
  /-- A step gives back what it takes, however it ends. -/
  balanced : ∀ (step : Step) c, (step.exec guards st).2.hold c = st.hold c
  granted : ∀ step name access c, Step.takes? step = some (name, access) →
    st.handles.get? name = some c → (∀ g ∈ guards, ¬ g.Conflicts ⟨c, access⟩) →
    ∃ st', .moment (⟨c, access⟩ :: guards) st' ∈ step.events guards st ∧
      ∀ d, st'.value? d = st.value? d
  refused : ∀ step name access c, Step.takes? step = some (name, access) →
    st.handles.get? name = some c → (∃ g ∈ guards, g.Conflicts ⟨c, access⟩) →
    step.exec guards st = (none, st)
  reads : ∀ name c, st.handles.get? name = some c → (∀ g ∈ guards, ¬ g.Conflicts ⟨c, .read⟩) →
    ∃ n, st.value? c = some n ∧ (Step.get name).exec guards st = (some (.number n), st)
  writes : ∀ step name f c, Step.puts? step = some (name, f) → st.handles.get? name = some c →
    (∀ g ∈ guards, ¬ g.Conflicts ⟨c, .write⟩) →
    ∃ answer st' old, st.value? c = some old ∧ step.exec guards st = (some answer, st') ∧
      (∀ d, st'.value? d = if d = c then some (f old) else st.value? d) ∧
      ∀ clone, st.handles.get? clone = some c →
        (Step.get clone).exec guards st' = (some (.number (f old)), st')
  /-- What a guard shows is the value of its cell. -/
  looks : ∀ guard g, guards[guard]? = some g → ∃ n, st.value? g.cell = some n ∧
    (Step.look guard).exec guards st = (some (.number n), st)
  /-- A guard for writing gives its cell another value, and no other cell. -/
  changes : ∀ guard f c, guards[guard]? = some ⟨c, .write⟩ →
    ∃ st' old, st.value? c = some old ∧
      (Step.change guard f).exec guards st = (some (.number (f old)), st') ∧
      ∀ d, st'.value? d = if d = c then some (f old) else st.value? d
  /-- A clone is a handle of the same cell, which nothing happens to. -/
  clones : ∀ name keep c, st.handles.get? name = some c →
    ∃ st', (Step.cloneCell name keep).exec guards st = (some .nothing, st') ∧
      st'.handles.get? keep = some c ∧ st'.cells = st.cells
  same : ∀ a b c d, st.handles.get? a = some c → st.handles.get? b = some d →
    (Step.sameCell a b).exec guards st = (some (.flag (c = d)), st)
  /-- A handle stays with its cell until its name is given to another one. -/
  stays : ∀ (step : Step) name, name ∉ step.keeps →
    (step.exec guards st).2.handles.get? name = st.handles.get? name

open Work

/-! ### Guards that are granted -/

theorem moment_mem_eventsAll (body : List Step) :
    .moment guards st ∈ eventsAll body guards st := by
  cases body <;> simp [eventsAll, followed, Step.around]

theorem moment_mem_writingEvents {f : Int64 → Int64} (h : (st.value? c).isSome) :
    .moment guards st ∈ writingEvents guards c f st := by
  obtain ⟨n, hn⟩ := Option.isSome_iff_exists.1 h
  rw [writingEvents, hn]
  exact List.mem_cons_self

/-- A step that takes hold of a cell does all else at a moment when it has its guard. -/
theorem Step.inside_of_takes? {step : Step} (h : step.takes? = some (name, access))
    (guards : List Guard) : ∃ body : CellId → Observed,
      step.inside guards =
        atCell (named (·.handles) name) (fun c => holdingEvents access c (body c)) ∧
      ∀ c st, (st.value? c).isSome → .moment (⟨c, access⟩ :: guards) st ∈ body c st := by
  cases step <;> cases h
  case get =>
    exact ⟨_, by rw [Step.inside], fun _ _ _ => List.mem_cons_self⟩
  case set n =>
    exact ⟨_, by rw [Step.inside], fun _ _ => moment_mem_writingEvents⟩
  case add n =>
    exact ⟨_, by rw [Step.inside], fun _ _ => moment_mem_writingEvents⟩
  case withReader body =>
    exact ⟨_, by rw [Step.inside], fun _ _ _ => moment_mem_eventsAll body⟩
  case holdWriter body last =>
    refine ⟨_, by rw [Step.inside], fun c st _ => ?_⟩
    exact List.mem_append_left _ (moment_mem_eventsAll body)

/-! ### What steps do at their cell -/

namespace Work

variable {α β : Type} {w : Work α} {k : α → Work β}

theorem bind_of_panic (h : w st = (none, st')) : (w >>= k) st = (none, st') := by
  simp only [bind, andThen, h]

theorem bind_of_done {a : α} (h : w st = (some a, st')) : (w >>= k) st = k a st' := by
  simp only [bind, andThen, h]

theorem named_eq (hc : st.handles.get? name = some c) :
    named (·.handles) name st = (some c, st) := by rw [named, hc]

theorem holding_of_refused (hg : st.grant? access c = none) :
    holding access c w st = (none, st) := by
  rw [holding_eq, hg]

theorem holding_of_granted (hg : st.grant? access c = some hold) {r : Option α}
    (h : w (st.held c hold) = (r, st')) : holding access c w st = (r, st'.release c) := by
  rw [holding_eq, hg]
  simp only [h]

end Work

theorem Step.exec_of_refused {step : Step} (h : step.takes? = some (name, access))
    (hc : st.handles.get? name = some c) (hg : st.grant? access c = none) :
    step.exec guards st = (none, st) := by
  cases step <;> cases h <;> rw [Step.exec, bind_of_done (named_eq hc)]
  case get => exact holding_of_refused hg
  case set => exact bind_of_panic (holding_of_refused hg)
  case add => exact holding_of_refused hg
  case withReader => exact holding_of_refused hg
  case holdWriter => exact holding_of_refused hg

/-- A hold that is granted and given back with nothing done in between. -/
theorem State.release_held (hg : st.grant? access c = some hold) :
    (st.held c hold).release c = st := by
  obtain ⟨cell, hcell, ht⟩ := State.grant?_eq_some.1 hg
  rw [State.release, State.held, State.modify_modify]
  refine State.modify_eq_self fun cell' hcell' => ?_
  obtain rfl := Option.some.inj (hcell.symm.trans hcell')
  simp only [Function.comp_apply, Access.release_take ht]

theorem Step.exec_get {n : Int64} (hc : st.handles.get? name = some c) (hn : st.value? c = some n)
    (hg : st.grant? .read c = some hold) :
    (Step.get name).exec guards st = (some (.number n), st) := by
  rw [Step.exec, bind_of_done (named_eq hc)]
  have hread : (do pure (.number (← value c)) : Work Answer) (st.held c hold)
      = (some (.number n), st.held c hold) := by
    refine (bind_of_done ?_).trans rfl
    rw [value_eq, State.value?_held, hn]
  rw [holding_of_granted hg hread, State.release_held hg]

theorem State.write_held {n : Int64} : (st.held c hold).write c n = (st.write c n).held c hold := by
  simp only [held, write, modify_modify]
  rfl

theorem State.grant?_write {n : Int64} : (st.write c n).grant? access c = st.grant? access c := by
  cases hcell : st.cell? c <;> simp [grant?, write, hcell]

theorem Work.updateValue_some {f : Int64 → Int64} {old : Int64} (hv : st.value? c = some old) :
    updateValue c f st = (some (f old), st.write c (f old)) := by
  rw [updateValue_eq, hv]

theorem Step.exec_put {step : Step} {f : Int64 → Int64} {old : Int64}
    (h : step.puts? = some (name, f)) (hc : st.handles.get? name = some c)
    (hv : st.value? c = some old) (hg : st.grant? .write c = some hold) :
    ∃ answer, step.exec guards st = (some answer, st.write c (f old)) := by
  have hback : ((st.held c hold).write c (f old)).release c = st.write c (f old) := by
    rw [State.write_held, State.release_held (State.grant?_write.trans hg)]
  cases step <;> cases h <;> rw [Step.exec, bind_of_done (named_eq hc)]
  case set n =>
    have hset : setValue c n (st.held c hold) = (some (), (st.held c hold).write c n) := rfl
    have hwriting := holding_of_granted hg hset
    rw [hback] at hwriting
    exact ⟨.nothing, bind_of_done hwriting⟩
  case add n =>
    have hadd : (do pure (.number (← updateValue c (· + n))) : Work Answer) (st.held c hold) =
        (some (.number (old + n)), (st.held c hold).write c (old + n)) :=
      bind_of_done (updateValue_some (State.value?_held.trans hv))
    have hwriting := holding_of_granted hg hadd
    rw [hback] at hwriting
    exact ⟨.number (old + n), hwriting⟩

/-! ### Handles -/

/-- Work that leaves a handle with the cell that it has. -/
def Work.Spares {α : Type} (name : String) (w : Work α) : Prop :=
  ∀ st, (w st).2.handles.get? name = st.handles.get? name

namespace Work.Spares

variable {α β : Type} {w : Work α} {k : α → Work β}

theorem looking (h : ∀ st, (w st).2 = st) : w.Spares name := fun st => by rw [h]

theorem bind (h : w.Spares name) (hk : ∀ a, (k a).Spares name) : Spares name (w >>= k) := by
  intro st
  have hw := h st
  simp only [Bind.bind, andThen]
  generalize w st = r at hw ⊢
  obtain ⟨_ | a, last⟩ := r
  · exact hw
  · exact (hk a last).trans hw

theorem holding (h : w.Spares name) : Spares name (holding access c w) := by
  intro st
  rw [holding_eq]
  cases st.grant? access c with
  | none => rfl
  | some hold => exact h (st.held c hold)

theorem value (c : CellId) : (value c).Spares name := looking fun st => by rw [value_eq]

theorem updateValue (c : CellId) (f : Int64 → Int64) : (updateValue c f).Spares name := by
  intro st
  rw [updateValue_eq]
  cases st.value? c <;> rfl

/-- Another name is given to a cell. -/
theorem keeping {keep : String} (h : name ≠ keep) {cell : State → CellId} {f : State → State}
    (hf : ∀ st, (f st).handles = st.handles.set keep (cell st)) : (update f).Spares name := by
  intro st
  show (f st).handles.get? name = _
  rw [hf, Names.get?_set_ne h]

end Work.Spares

mutual

theorem Step.spares : ∀ (step : Step) guards, name ∉ step.keeps → (step.exec guards).Spares name
  | .string keep text, guards, _ => by
    rw [Step.exec]
    exact fun _ => rfl
  | .cloneString string keep, guards, _ => by
    rw [Step.exec]
    exact .bind (.looking fun _ => rfl) fun _ _ => rfl
  | .showString string, guards, _ => by
    rw [Step.exec]
    exact .bind (.looking fun _ => rfl) fun _ _ => rfl
  | .compareStrings a b, guards, _ => by
    rw [Step.exec]
    exact .bind (.looking fun _ => rfl) fun _ => .bind (.looking fun _ => rfl) fun _ _ => rfl
  | .cell keep n, guards, h => by
    rw [Step.exec]
    have hne : name ≠ keep := by simpa [Step.keeps] using h
    exact .bind (.keeping hne fun _ => rfl) fun _ _ => rfl
  | .cloneCell cell keep, guards, h => by
    rw [Step.exec]
    have hne : name ≠ keep := by simpa [Step.keeps] using h
    refine .bind (.looking fun _ => rfl) fun c => ?_
    exact .bind (.keeping hne fun _ => rfl) fun _ _ => rfl
  | .get cell, guards, _ => by
    rw [Step.exec]
    refine .bind (.looking fun _ => rfl) fun c => .holding ?_
    exact .bind (.value c) fun _ _ => rfl
  | .set cell n, guards, _ => by
    rw [Step.exec]
    refine .bind (.looking fun _ => rfl) fun c => ?_
    exact .bind (.holding fun _ => rfl) fun _ _ => rfl
  | .add cell n, guards, _ => by
    rw [Step.exec]
    refine .bind (.looking fun _ => rfl) fun c => .holding ?_
    exact .bind (.updateValue c _) fun _ _ => rfl
  | .sameCell a b, guards, _ => by
    rw [Step.exec]
    exact .bind (.looking fun _ => rfl) fun _ => .bind (.looking fun _ => rfl) fun _ _ => rfl
  | .withReader cell body, guards, h => by
    rw [Step.exec]
    refine .bind (.looking fun _ => rfl) fun c => .holding ?_
    refine .bind (execAll_spares body _ (by simpa [Step.keeps] using h)) fun _ => ?_
    exact .bind (.value c) fun _ _ => rfl
  | .holdWriter cell body last, guards, h => by
    rw [Step.exec]
    refine .bind (.looking fun _ => rfl) fun c => .holding ?_
    refine .bind (execAll_spares body _ (by simpa [Step.keeps] using h)) fun _ => ?_
    cases last with
    | none => exact .bind (.value c) fun _ _ => rfl
    | some f => exact .bind (.updateValue c f) fun _ _ => rfl
  | .look guard, guards, _ => by
    rw [Step.exec]
    exact .bind (.looking fun _ => rfl) fun c => .bind (.value c) fun _ _ => rfl
  | .change guard f, guards, _ => by
    rw [Step.exec]
    exact .bind (.looking fun _ => rfl) fun c => .bind (.updateValue c f) fun _ _ => rfl
  | .attempt body, guards, h => by
    rw [Step.exec]
    intro st
    have hbody := execAll_spares body guards (by simpa [Step.keeps] using h) st
    dsimp only
    generalize execAll body guards st = r at hbody ⊢
    obtain ⟨_ | answers, last⟩ := r
    · exact hbody
    · exact hbody
  | .closure own other, guards, _ => by
    rw [Step.exec]
    exact .looking fun _ => rfl

theorem execAll_spares :
    ∀ (steps : List Step) guards, name ∉ keepsAll steps → (execAll steps guards).Spares name
  | [], guards, _ => by
    rw [execAll]
    exact fun _ => rfl
  | step :: rest, guards, h => by
    rw [keepsAll, List.mem_append, not_or] at h
    rw [execAll]
    refine .bind (step.spares guards h.1) fun _ => ?_
    exact .bind (execAll_spares rest guards h.2) fun _ _ => rfl

end

/-! ### Orderly guards -/

theorem Step.hold_exec (step : Step) (guards : List Guard) (st : State) (c : CellId) :
    (step.exec guards st).2.hold c = st.hold c := (step.tells guards st).hold_eq c

namespace Settled

/-- A handle's cell, with its value, where a guard of it conflicts with no other. -/
theorem free (h : Settled guards st) (hc : st.handles.get? name = some c)
    (hfree : ∀ g ∈ guards, ¬ g.Conflicts ⟨c, access⟩) :
    ∃ n hold, st.value? c = some n ∧ st.grant? access c = some hold := by
  have hmade := h.made name c hc
  obtain ⟨n, hn⟩ := Option.isSome_iff_exists.1 hmade
  obtain ⟨hold, hg⟩ := Option.isSome_iff_exists.1 ((h.isSome_grant? hmade).2 hfree)
  exact ⟨n, hold, hn, hg⟩

theorem orderly (h : Settled guards st) : Orderly guards st where
  apart := h.apart
  counted := h.holds
  balanced step c := step.hold_exec guards st c
  granted step name access c htakes hc hfree := by
    obtain ⟨n, hold, hn, hg⟩ := h.free hc hfree
    obtain ⟨body, hinside, hbody⟩ := step.inside_of_takes? htakes guards
    refine ⟨st.held c hold, ?_, fun d => State.value?_held⟩
    have hmem : .moment (⟨c, access⟩ :: guards) (st.held c hold) ∈ step.inside guards st := by
      simp only [hinside, atCell, named_eq hc, holdingEvents, hg]
      refine hbody c _ ?_
      rw [State.value?_held, hn]
      rfl
    simp [Step.events, Step.around, hmem]
  refused step name access c htakes hc hconflict := by
    refine step.exec_of_refused htakes hc ?_
    obtain ⟨g, hg, hgc⟩ := hconflict
    refine Option.not_isSome_iff_eq_none.1 fun hsome => ?_
    exact (h.isSome_grant? (h.made name c hc)).1 hsome g hg hgc
  reads name c hc hfree := by
    obtain ⟨n, hold, hn, hg⟩ := h.free hc hfree
    exact ⟨n, hn, Step.exec_get hc hn hg⟩
  writes step name f c hputs hc hfree := by
    obtain ⟨old, hold, hn, hg⟩ := h.free hc hfree
    obtain ⟨answer, hexec⟩ := Step.exec_put hputs hc hn hg
    have hread : ∀ g ∈ guards, ¬ g.Conflicts ⟨c, .read⟩ :=
      fun g hg hconflict => hfree g hg ⟨hconflict.1, .inr rfl⟩
    obtain ⟨-, hold', -, hg'⟩ := h.free hc hread
    refine ⟨answer, st.write c (f old), old, hn, hexec, fun d => ?_, fun clone hclone => ?_⟩
    · simp only [State.value?_write hn, eq_comm]
    · refine Step.exec_get hclone ?_ (State.grant?_write.trans hg')
      rw [State.value?_write hn, if_pos rfl]
  looks guard g hg := by
    obtain ⟨n, hn⟩ := Option.isSome_iff_exists.1 (h.made_of_mem (List.mem_of_getElem? hg))
    refine ⟨n, hn, ?_⟩
    have hfound : guarded guards guard st = (some g.cell, st) := by
      rw [guarded, hg, Option.map_some]
    rw [Step.exec, bind_of_done hfound, bind_of_done (by rw [value_eq, hn])]
    rfl
  changes guard f c hg := by
    obtain ⟨old, hn⟩ := Option.isSome_iff_exists.1 (h.made_of_mem (List.mem_of_getElem? hg))
    refine ⟨st.write c (f old), old, hn, ?_, fun d => ?_⟩
    · have hfound : writable guards guard st = (some c, st) := by simp [writable, hg, Option.filter]
      rw [Step.exec, bind_of_done hfound, bind_of_done (updateValue_some hn)]
      rfl
    · simp only [State.value?_write hn, eq_comm]
  clones name keep c hc := by
    refine ⟨{ st with handles := st.handles.set keep c }, ?_, Names.get?_set _ _ _, rfl⟩
    rw [Step.exec, bind_of_done (named_eq hc)]
    rfl
  same a b c d hc hd := by
    rw [Step.exec, bind_of_done (named_eq hc), bind_of_done (named_eq hd)]
    rfl
  stays step name hname := step.spares guards hname st

end Settled

/-! ### Runs -/

/-- The state that some steps lead to, each of them on its own. -/
def after (st : State) : List Step → State
  | [] => st
  | step :: rest => after (step.exec [] st).2 rest

theorem course_eventsFrom (steps : List Step) (st : State) :
    Course [] st (eventsFrom steps st) (after st steps) := by
  induction steps generalizing st with
  | nil => exact .moment [] st
  | cons step rest ih => exact .append (step.tells [] st) (ih _)

/-- No guard is left after a run. -/
theorem settled_after (steps : List Step) : Settled [] (after .empty steps) :=
  (course_eventsFrom steps .empty).settled .empty

/-- Whatever else is kept on the way, the state is the one that the steps lead to. -/
theorem foldl_state {f : Array Answer × State → Step → Array Answer × State}
    (hf : ∀ kept step, (f kept step).2 = (step.exec [] kept.2).2) (steps : List Step) :
    ∀ kept, (steps.foldl f kept).2 = after kept.2 steps := by
  induction steps with
  | nil => exact fun _ => rfl
  | cons step rest ih =>
    intro kept
    rw [List.foldl_cons, ih, hf, after]

/-- A run answers for each step as the step does in the state that those before it lead to. -/
theorem run_concat (steps : List Step) (step : Step) :
    run (steps ++ [step]) =
      run steps ++ [(step.exec [] (after .empty steps)).1.getD .panicked] := by
  simp only [run, List.foldl_append, List.foldl_cons, List.foldl_nil, Array.toList_push]
  rw [foldl_state fun _ _ => rfl]

/-- After any steps each handle reads what was last written to its cell, through whichever clone or
guard that was. -/
theorem run_get {steps : List Step} (hc : (after .empty steps).handles.get? name = some c) :
    ∃ n, lastWritten c (events steps) = some n ∧
      run (steps ++ [.get name]) = run steps ++ [.number n] := by
  obtain ⟨n, hn, hexec⟩ := (settled_after steps).orderly.reads name c hc fun _ hg => nomatch hg
  have hvalue := (course_eventsFrom steps .empty).value?_eq c
  refine ⟨n, hvalue.symm.trans hn, ?_⟩
  rw [run_concat, hexec, Option.getD_some]

/-- Every moment of a run is orderly, however deep in steps within steps, and each cell has the
value that was last written to it. -/
theorem orderly_of_moment {steps : List Step}
    (h : events steps = past ++ .moment guards st :: rest) :
    Orderly guards st ∧ ∀ c, st.value? c = lastWritten c past := by
  obtain ⟨hsettled, hvalue⟩ := (course_eventsFrom steps .empty).at_moment .empty h
  exact ⟨hsettled.orderly, fun c => by rw [hvalue c]; rfl⟩

/-- A cell held for writing through one handle and written to, with another cell held for reading
inside, and a write through a clone that is refused there; the panic is caught outside. -/
def nested : List Step :=
  [.cell "a" 1, .cloneCell "a" "b", .cell "c" 5, .set "b" 2,
    .attempt [.holdWriter "a" [.change 0 (· + 5), .withReader "c" [.set "b" 3]] none], .get "b"]

/-- What was written through the guard before the panic stays, and the clone reads it. -/
theorem nested_orderly :
    (∃ past st rest, events nested = past ++ .moment [⟨⟨1⟩, .read⟩, ⟨⟨0⟩, .write⟩] st :: rest ∧
      Orderly [⟨⟨1⟩, .read⟩, ⟨⟨0⟩, .write⟩] st ∧ ∀ c, st.value? c = lastWritten c past) ∧
    ∃ past st, events nested = past ++ [.moment [] st] ∧ lastWritten ⟨0⟩ past = some 7 ∧
      st.handles.get? "b" = some ⟨0⟩ ∧ (Step.get "b").exec [] st = (some (.number 7), st) := by
  let names : State :=
    { State.empty with handles := ⟨[("c", ⟨1⟩), ("b", ⟨0⟩), ("a", ⟨0⟩)]⟩ }
  have hinside : events nested =
      (events nested).take 21 ++ .moment [⟨⟨1⟩, .read⟩, ⟨⟨0⟩, .write⟩]
        { names with cells := #[⟨7, .writer⟩, ⟨5, .readers 1⟩] } :: (events nested).drop 22 := rfl
  have hend : events nested =
      (events nested).take 29 ++ [.moment [] { names with cells := #[⟨7, .free⟩, ⟨5, .free⟩] }] :=
    rfl
  obtain ⟨horderly, hvalue⟩ := orderly_of_moment hend
  obtain ⟨n, hn, hexec⟩ := horderly.reads "b" ⟨0⟩ rfl fun _ hg => nomatch hg
  obtain rfl : 7 = n := Option.some.inj hn
  exact ⟨⟨_, _, _, hinside, orderly_of_moment hinside⟩, _, _, hend, (hvalue ⟨0⟩).symm, rfl, hexec⟩

end Realms.Memory
