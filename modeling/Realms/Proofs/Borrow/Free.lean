import Realms.Proofs.Borrow.Operation
import Realms.Proofs.Memory.Settled

/-! Operations while no cell is borrowed. Main statement: each reading, and each action that puts no
questions and leaves no scope, then does what the store does, and all its guards are gone at its
end. Leaving a scope does so too as long as no realm is lost. -/

namespace Realms.Borrow

open Memory (Access Hold)
open Held

variable {σ α β : Type} {w w' : World σ} {access : Access} {slot : Slot}

/-! ### Guards around work that borrows nothing itself -/

namespace Held

variable {h body body' : Held σ α} {k : α → Held σ β}

theorem bind_done {a : α} (hw : h w = (.ended (.done a), w')) : (h >>= k) w = k a w' := by
  simp only [bind, andThen, hw]

theorem bind_panicked {text : String} (hw : h w = (.ended (.panicked text), w')) :
    (h >>= k) w = (.ended (.panicked text), w') := by
  simp only [bind, andThen, hw]

theorem bind_assoc {γ : Type} (h : Held σ α) (k : α → Held σ β) (k' : β → Held σ γ) :
    (h >>= k) >>= k' = h >>= fun a => k a >>= k' := by
  funext w
  simp only [bind, andThen]
  generalize h w = r
  obtain ⟨⟨_ | _ | _⟩ | _ | _, w⟩ := r <;> rfl

theorem look_some {f : Store → Option α} {a : α} (hf : f w.store = some a) :
    look f w = (.ended (.done a), w) := by
  simp only [look, hf]

theorem look_none {f : Store → Option α} (hf : f w.store = none) :
    look f w = (.ended (.panicked unknownHandle), w) := by
  simp only [look, hf]

theorem change_some {f : Store → Option (α × Store)} {a : α} {store : Store}
    (hf : f w.store = some (a, store)) : change f w = (.ended (.done a), { w with store }) := by
  simp only [change, hf]

theorem change_none {f : Store → Option (α × Store)} (hf : f w.store = none) :
    change f w = (.ended (.panicked unknownHandle), w) := by
  simp only [change, hf]

theorem look_bind (f : Store → Option α) (k : α → Held σ β) (w : World σ) :
    (look f >>= k) w = match f w.store with
      | none => (.ended (.panicked unknownHandle), w)
      | some a => k a w := by
  simp only [bind, andThen, look]
  cases f w.store <;> rfl

/-- Work that neither looks at the borrows nor changes them. -/
def Oblivious (h : Held σ α) : Prop :=
  ∀ (w : World σ) (holds : Holds),
    h { w with holds } = ((h w).1, { (h w).2 with holds })

theorem Oblivious.look (f : Store → Option α) : (Held.look f : Held σ α).Oblivious := by
  intro w holds
  simp only [Held.look]
  cases f w.store <;> rfl

theorem Oblivious.change (f : Store → Option (α × Store)) :
    (Held.change f : Held σ α).Oblivious := by
  intro w holds
  simp only [Held.change]
  cases f w.store <;> rfl

theorem Oblivious.bind (hh : h.Oblivious) (hk : ∀ a, (k a).Oblivious) : (h >>= k).Oblivious := by
  intro w holds
  have hh' := hh w holds
  simp only [Bind.bind, andThen]
  generalize h w = r at hh' ⊢
  rw [hh']
  obtain ⟨⟨_ | _ | _⟩ | _ | _, w'⟩ := r
  · exact hk _ w' holds
  all_goals rfl

theorem Oblivious.remembered : (Held.remembered : Held σ σ).Oblivious := fun _ _ => rfl

theorem Oblivious.remember (memory : σ) : (Held.remember memory).Oblivious := fun _ _ => rfl

theorem Oblivious.holds_eq (hh : h.Oblivious) (w : World σ) : (h w).2.holds = w.holds := by
  have hw := congrArg (·.2.holds) (hh w w.holds)
  exact hw

end Held

theorem Holds.set_self (holds : Holds) (slot : Slot) (hold : Hold) :
    holds.set slot hold slot = hold := if_pos rfl

theorem Holds.set_set (holds : Holds) (slot : Slot) (hold : Hold) :
    (holds.set slot hold).set slot (holds slot) = holds := by
  funext other
  by_cases h : other = slot <;> simp [Holds.set, h]

/-- A cell that nobody borrows can be borrowed, and a guard that is dropped leaves no trace. -/
theorem holding_eq {body : Held σ α} (hslot : w.holds slot = .free) (hbody : body.Oblivious) :
    holding access slot body w = body w := by
  obtain ⟨hold, htake⟩ : ∃ hold, access.take (w.holds slot) = some hold := by
    rw [hslot]
    cases access <;> exact ⟨_, rfl⟩
  have hback : (w.holds.set slot hold).set slot hold.release = (body w).2.holds := by
    rw [Access.release_take htake, Holds.set_set, hbody.holds_eq]
  simp only [holding, htake]
  rw [hbody w]
  simp only [Holds.set_self, hback]

theorem holding_congr {body body' : Held σ α} (h : ∀ hold,
    body { w with holds := w.holds.set slot hold } =
      body' { w with holds := w.holds.set slot hold }) :
    holding access slot body w = holding access slot body' w := by
  simp only [holding, h]

theorem holding_look {f : Store → Option α} (hslot : w.holds slot = .free) :
    holding access slot (look f) w = look f w := holding_eq hslot (.look f)

theorem holding_change {f : Store → Option (α × Store)} (hslot : w.holds slot = .free) :
    holding access slot (change f) w = change f w := holding_eq hslot (.change f)

/-! ### Operations -/

theorem active_eq {s : StackId} (hslot : w.holds (.active s) = .free) :
    active s w = look (fun st => (st.stack? s).map (·.active)) w :=
  holding_look hslot

section

variable (hw : w.holds = .free)

include hw

theorem holds_free (slot : Slot) : w.holds slot = .free := congrFun hw slot

theorem own_eq (o : ObjectId) (name : String) : own o name w =
    (.ended (.done ((w.store.object? o).bind (·.properties.get? name))), w) :=
  holding_look (holds_free hw _)

theorem property_eq (o : ObjectId) (name : String) :
    property o name w = (.ended (.done (w.store.property? o name)), w) := by
  obtain ⟨i⟩ := o
  induction i using Nat.strongRecOn with
  | ind i ih =>
    rw [property, bind_done (own_eq hw _ name), Store.property?]
    cases ho : w.store.object? ⟨i⟩ with
    | none => exact (bind_done (look_some (congrArg (some <| Option.bind · _) ho))).trans rfl
    | some object =>
      simp only [Option.bind_some]
      cases hv : object.properties.get? name with
      | some value => rfl
      | none =>
        refine (bind_done (look_some (congrArg (some <| Option.bind · _) ho))).trans ?_
        simp only [Option.bind_some]
        cases hp : object.prototype with
        | none => rfl
        | some p =>
          simp only
          split
          next hlt => exact ih p.index hlt
          next => rfl

theorem active_some {s : StackId} {stack : Stack} (hs : w.store.stack? s = some stack) :
    active s w = (.ended (.done stack.active), w) :=
  (active_eq (holds_free hw _)).trans (look_some (congrArg (Option.map _) hs))

theorem active_none {s : StackId} (hs : w.store.stack? s = none) :
    active s w = (.ended (.panicked unknownHandle), w) :=
  (active_eq (holds_free hw _)).trans (look_none (congrArg (Option.map _) hs))

theorem setProperty_eq (o : ObjectId) (name : String) (v : Value) :
    setProperty o name v w = change (·.setProperty? o name v) w :=
  holding_change (holds_free hw _)

theorem enter_eq (rule : EntryRule) (s : StackId) (home : RealmId) :
    enter rule s home w = change (fun st => st.enter? rule s home) w := by
  simp only [enter, look_bind, change, Store.enter?]
  cases hs : w.store.stack? s with
  | none => rfl
  | some stack =>
    have hactive := active_some hw hs
    cases he : w.store.engine? stack.engine with
    | none => simp [he]
    | some engine =>
      cases hr : w.store.realm? home with
      | none => simp [he]
      | some realm =>
        simp only [Option.map_some, he, Option.bind_eq_bind, Option.bind_some]
        split
        · rfl
        · split
          · exact bind_done hactive
          · rw [bind_done hactive]
            split
            · rfl
            · have hfound : holding .read (.realms stack.engine) (look fun st =>
                  (st.engine? stack.engine).map (·.registry.realm? home)) w =
                    (.ended (.done (engine.registry.realm? home)), w) := by
                rw [holding_look (holds_free hw _), look_some (congrArg (Option.map _) he)]
              rw [bind_done hfound]
              cases engine.registry.realm? home with
              | none => rfl
              | some realm =>
                have hactivate : activate s realm w = (.ended (.done stack.active),
                    { w with store := w.store.modifyStack s (·.activate realm) }) := by
                  rw [activate, holding_change (holds_free hw _), change_some]
                  rw [hs]
                  rfl
                exact bind_done hactivate

section

variable (hlost : w.lost = []) (discard : RealmId → Held σ Unit)

include hlost

omit hw in
theorem letGo_eq (r : Option RealmId) : letGo discard r w = (.ended (.done ()), w) := by
  cases r with
  | none => rfl
  | some r => exact if_pos (World.keeps_of_lost hlost r)

theorem restore_eq (scope : Scope) :
    restore discard scope w = (.ended (.done ()), { w with store := w.store.restore scope }) := by
  rw [restore]
  split
  · -- The realm that is let go of under the guard is kept.
    refine (holding_congr fun hold => ?_).trans
      (holding_change (f := fun st => some ((), st.restore scope)) (holds_free hw _))
    exact (bind_done (change_some rfl)).trans (letGo_eq (by exact hlost) discard _)
  next hprevious =>
    have hstay : w.store.restore scope = w.store := by
      rw [Store.restore]
      cases hp : scope.previous with
      | none => rfl
      | some realm => simp [Scope.hasSwitched, hp] at hprevious
    rw [hstay]
    rfl

/-- It makes no difference whether a scope is marked before or after its realm is put back. -/
theorem leave_eq (i : ScopeId) : leave discard i w = change (·.leaveScope? i) w := by
  simp only [leave, look_bind, change, Store.leaveScope?]
  cases hi : w.store.scope? i with
  | none => rfl
  | some scope =>
    simp only [Option.bind_eq_bind, Option.bind_some]
    split
    · rfl
    · refine (bind_done (restore_eq hw hlost discard scope)).trans ?_
      refine (bind_done (change_some rfl)).trans ?_
      refine (letGo_eq (by exact hlost) discard _).trans ?_
      simp only [Store.restore]
      cases scope.previous <;> rfl

theorem endCrossing_eq (scope : Scope) : endCrossing discard scope w =
    (.ended (.done ()), { w with store := w.store.endCrossing scope }) := by
  refine (bind_done (change_some rfl)).trans ?_
  exact restore_eq (by exact hw) (by exact hlost) discard scope

end

theorem enterScope_eq (rule : EntryRule) (s : StackId) (home : RealmId) :
    enterScope rule s home w = change (fun st => st.enterScope? rule s home) w := by
  have henter := enter_eq hw rule s home
  simp only [enterScope, bind, andThen, henter, change, Store.enterScope?]
  cases w.store.enter? rule s home with
  | none => rfl
  | some entered =>
    obtain ⟨_ | scope, store⟩ := entered <;> rfl

theorem global_eq (s : StackId) (name : String) :
    global s name w = look (·.global? s name) w := by
  simp only [global, look, Store.global?]
  cases hs : w.store.stack? s with
  | none => exact bind_panicked (active_none hw hs)
  | some stack =>
    refine (bind_done (active_some hw hs)).trans ?_
    refine (bind_done (property_eq hw _ name)).trans ?_
    simp only [Option.bind_eq_bind, Option.bind_some]
    cases w.store.property? stack.active.global name <;> rfl

theorem noting_eq (p : ProbeId) (s : StackId) (note : RealmId → σ → σ) :
    noting p s note w = (do
      let realm ← look fun st => (st.stack? s).map (·.active)
      remember (note realm.id (← remembered)) : Held σ Unit) w := by
  refine (holding_congr fun hold => ?_).trans (holding_eq (holds_free hw _)
    (.bind (.look _) fun realm => .bind .remembered fun _ => .remember _))
  -- The active realm is borrowed while the notes are.
  have hslot : (w.holds.set (.notes p) hold) (.active s) = .free := by
    simp [Holds.set, hw, Holds.free]
  have hactive := active_eq (w := { w with holds := w.holds.set (.notes p) hold }) hslot
  simp only [bind, andThen, hactive]

theorem reading_eq (s : StackId) (r : Reading α) : reading s r w = look (r.eval s) w := by
  cases r with
  | stack => exact holding_look (holds_free hw _)
  | registry e => exact holding_look (holds_free hw _)
  | object o => exact holding_look (holds_free hw _)
  | foreign f => exact holding_look (holds_free hw _)
  | property o name =>
    simp only [reading, look_bind, look, Reading.eval]
    cases w.store.object? o with
    | none => rfl
    | some object => exact property_eq hw o name
  | global name => exact global_eq hw s name
  | settings | scope | text | typeName => rfl

end

/-- The foreign value that an action puts questions to. -/
def asked? : {α : Type} → Action α → Option ForeignId
  | _, .isObject (.foreign f) => some f
  | _, .isCallable (.foreign f) => some f
  | _, .typeTag (.foreign f) => some f
  | _, .read (.foreign f) _ => some f
  | _, _ => none

/-- The scope that an action leaves. -/
def left? : {α : Type} → Action α → Option ScopeId
  | _, .leave i => some i
  | _, _ => none

/-- An action that asks nothing and leaves no scope changes the store and nothing else. -/
theorem acting_eq (hw : w.holds = .free) (rule : EntryRule) (l : Level σ) (s : StackId)
    {a : Action α} (ha : asked? a = none) (hleft : left? a = none) :
    acting rule l s a w = change (a.perform rule s) w := by
  cases a with
  | newRealm e name => exact holding_change (holds_free hw _)
  | newStack e =>
    cases he : w.store.engine? e with
    | none =>
      refine (bind_panicked ?_).trans (change_none ?_).symm
      · exact (holding_look (holds_free hw _)).trans (look_none (congrArg (Option.map _) he))
      · simp [Action.perform, Store.newStack?, he]
    | some engine =>
      refine bind_done (a := engine.registry.main) ?_
      exact (holding_look (holds_free hw _)).trans (look_some (congrArg (Option.map _) he))
  | newObjectHere =>
    cases hs : w.store.stack? s with
    | none =>
      refine (bind_panicked (active_none hw hs)).trans (change_none ?_).symm
      simp [Action.perform, Store.newObjectOn?, hs]
    | some stack =>
      refine (bind_done (active_some hw hs)).trans ?_
      simp only [change, Action.perform, Store.newObjectOn?, hs, Option.bind_eq_bind,
        Option.bind_some]
  | setProperty o name v => exact setProperty_eq hw o name v
  | setGlobal name v =>
    cases hs : w.store.stack? s with
    | none =>
      refine (bind_panicked (active_none hw hs)).trans (change_none ?_).symm
      simp [Action.perform, Store.setGlobal?, hs]
    | some stack =>
      refine (bind_done (active_some hw hs)).trans ?_
      have hset := setProperty_eq hw stack.active.global name v
      simp only [bind, andThen, hset, change, Action.perform, Store.setGlobal?, hs,
        Option.bind_some]
      cases w.store.setProperty? stack.active.global name v <;> rfl
  | isObject v => cases v <;> first | rfl | cases ha
  | isCallable v => cases v <;> first | rfl | cases ha
  | typeTag v => cases v <;> first | rfl | cases ha
  | read target name =>
    cases target with
    | foreign f => cases ha
    | object o =>
      simp only [acting, look_bind, change, Action.perform, Store.read?]
      cases w.store.object? o with
      | none => rfl
      | some object => exact bind_done (property_eq hw o name)
    | _ => rfl
  | enter home => exact enterScope_eq hw rule s home
  | leave i => cases hleft
  | newEngine | newObject | newForeign | newString | newSymbol => rfl

end Realms.Borrow
