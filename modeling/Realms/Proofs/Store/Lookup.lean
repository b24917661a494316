import Realms.Operation

/-! What lookups find after the operations of a store. Scopes and calls touch stacks only; making
things adds them at the end. All other operations leave engines, stacks and scopes alone. -/

namespace Realms

/-- The stack with a realm put back, if there is one to put back. -/
def Stack.restore (stack : Stack) (previous : Option Realm) : Stack :=
  previous.elim stack stack.activate

namespace Stack

variable (stack : Stack) (realm : Realm) (previous : Option Realm)

@[simp] theorem engine_activate : (stack.activate realm).engine = stack.engine := rfl

@[simp] theorem active_activate : (stack.activate realm).active = realm := rfl

@[simp] theorem switches_activate : (stack.activate realm).switches = stack.switches + 1 := rfl

@[simp] theorem depth_activate : (stack.activate realm).depth = stack.depth := rfl

@[simp] theorem engine_restore : (stack.restore previous).engine = stack.engine := by
  cases previous <;> rfl

@[simp] theorem depth_restore : (stack.restore previous).depth = stack.depth := by
  cases previous <;> rfl

theorem active_restore : (stack.restore previous).active = previous.getD stack.active := by
  cases previous <;> rfl

theorem switches_restore :
    (stack.restore previous).switches = stack.switches + if previous.isSome then 1 else 0 := by
  cases previous <;> rfl

end Stack

namespace Store

variable (st : Store) (s t : StackId) (e : EngineId) (i : ScopeId) (r : RealmId) (scope : Scope)

@[simp] theorem engine?_modifyStack (f : Stack → Stack) :
    (st.modifyStack s f).engine? e = st.engine? e := rfl

@[simp] theorem scope?_modifyStack (f : Stack → Stack) :
    (st.modifyStack s f).scope? i = st.scope? i := rfl

@[simp] theorem realm?_modifyStack (f : Stack → Stack) :
    (st.modifyStack s f).realm? r = st.realm? r := rfl

theorem stack?_restore : (st.restore scope).stack? t =
    if scope.stack = t then (st.stack? t).map (·.restore scope.previous) else st.stack? t := by
  obtain ⟨u, home, previous, finished⟩ := scope
  cases previous with
  | none => simp [restore, Stack.restore, Option.elim]
  | some realm => simp [restore, Stack.restore, Option.elim]

@[simp] theorem engine?_restore : (st.restore scope).engine? e = st.engine? e := by
  unfold restore
  split <;> rfl

@[simp] theorem scope?_restore : (st.restore scope).scope? i = st.scope? i := by
  unfold restore
  split <;> rfl

@[simp] theorem realm?_restore : (st.restore scope).realm? r = st.realm? r := by
  unfold restore
  split <;> rfl

theorem objects_restore : (st.restore scope).objects = st.objects := by
  unfold restore
  split <;> rfl

@[simp] theorem stack?_beginCrossing : (st.beginCrossing scope).stack? t = st.stack? t := rfl

@[simp] theorem engine?_beginCrossing : (st.beginCrossing scope).engine? e = st.engine? e := rfl

@[simp] theorem scope?_beginCrossing : (st.beginCrossing scope).scope? i = st.scope? i := rfl

@[simp] theorem realm?_beginCrossing : (st.beginCrossing scope).realm? r = st.realm? r := rfl

theorem stack?_endCrossing : (st.endCrossing scope).stack? t =
    if scope.stack = t then (st.stack? t).map (·.restore scope.previous) else st.stack? t :=
  stack?_restore _ t scope

@[simp] theorem engine?_endCrossing : (st.endCrossing scope).engine? e = st.engine? e :=
  engine?_restore _ e scope

@[simp] theorem scope?_endCrossing : (st.endCrossing scope).scope? i = st.scope? i :=
  scope?_restore _ i scope

@[simp] theorem realm?_endCrossing : (st.endCrossing scope).realm? r = st.realm? r :=
  realm?_restore _ r scope

/-- The store with one more scope of a program. -/
def addScope (st : Store) (scope : Scope) : Store := { st with scopes := st.scopes.push scope }

@[simp] theorem stack?_addScope : (st.addScope scope).stack? t = st.stack? t := rfl

theorem scope?_addScope : (st.addScope scope).scope? i =
    if i.index = st.scopes.size then some scope else st.scope? i := by
  simp only [addScope, scope?, Array.getElem?_push]

theorem scope?_lt {st : Store} {i : ScopeId} {scope : Scope} (h : st.scope? i = some scope) :
    i.index < st.scopes.size :=
  (Array.getElem?_eq_some_iff.mp h).1

/-- The store in which a scope of a program has come to its end. -/
def closeScope (st : Store) (i : ScopeId) (scope : Scope) : Store :=
  { st with scopes := st.scopes.modify i.index Scope.finish }.restore scope

theorem stack?_closeScope : (st.closeScope i scope).stack? t =
    if scope.stack = t then (st.stack? t).map (·.restore scope.previous) else st.stack? t :=
  stack?_restore _ t scope

@[simp] theorem engine?_closeScope : (st.closeScope i scope).engine? e = st.engine? e :=
  engine?_restore _ e scope

@[simp] theorem realm?_closeScope : (st.closeScope i scope).realm? r = st.realm? r :=
  realm?_restore _ r scope

theorem scope?_closeScope (j : ScopeId) : (st.closeScope i scope).scope? j =
    if i = j then (st.scope? j).map Scope.finish else st.scope? j := by
  rw [closeScope, scope?_restore]
  obtain ⟨a⟩ := i
  obtain ⟨b⟩ := j
  by_cases h : a = b <;> simp [scope?, Array.getElem?_modify, h]

/-- Entering changes nothing but the realm that is active on the stack. -/
theorem enter?_eq {rule : EntryRule} {st st' : Store} {s : StackId} {home : RealmId}
    {result : Except Error Scope} (h : st.enter? rule s home = some (result, st')) :
    st' = st ∨ ∃ realm, st' = st.modifyStack s (·.activate realm) := by
  simp only [enter?, Option.bind_eq_bind, Option.bind_eq_some_iff] at h
  obtain ⟨stack, -, engine, -, realm, -, h⟩ := h
  split at h
  · cases h; exact .inl rfl
  · split at h
    · cases h; exact .inl rfl
    · split at h
      · cases h; exact .inl rfl
      · split at h
        · cases h; exact .inl rfl
        · next realm _ => cases h; exact .inr ⟨realm, rfl⟩

theorem enterScope?_ok {rule : EntryRule} {st st' : Store} {s : StackId} {home : RealmId}
    {i : ScopeId} (h : st.enterScope? rule s home = some (.ok i, st')) :
    ∃ scope entered, st.enter? rule s home = some (.ok scope, entered) ∧
      i = ⟨entered.scopes.size⟩ ∧ st' = entered.addScope scope := by
  simp only [enterScope?, Option.bind_eq_bind, Option.bind_eq_some_iff] at h
  obtain ⟨⟨result, entered⟩, hr, h⟩ := h
  cases result with
  | error e => cases h
  | ok scope => cases h; exact ⟨scope, entered, hr, rfl, rfl⟩

theorem enterScope?_error {rule : EntryRule} {st st' : Store} {s : StackId} {home : RealmId}
    {err : Error} (h : st.enterScope? rule s home = some (.error err, st')) :
    st.enter? rule s home = some (.error err, st') := by
  simp only [enterScope?, Option.bind_eq_bind, Option.bind_eq_some_iff] at h
  obtain ⟨⟨result, entered⟩, hr, h⟩ := h
  cases result with
  | error e => cases h; exact hr
  | ok scope => cases h

end Store

end Realms
