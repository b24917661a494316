import Realms.Proofs.Making
import Realms.Proofs.Recursion

/-! Stores that differ in nothing but the limits on nested calls, and programs that are the same but
for the limits of the engines that they make, and take no notice of those that they read. The limit
of an engine is looked at where it is read and where a call is counted. Every other operation does
the same on both stores and leaves two such stores again. -/

namespace Realms

universe u v u' v'

variable {σ α β : Type} {rule : EntryRule} {s : StackId} {st st' : Store} {es : Array Engine}

/-- The same settings, but with as much room for nested calls, or more. -/
structure Settings.Raised (a b : Settings) : Prop where
  name : b.mainRealmName = a.mainRealmName
  limit : a.maxCallDepth ≤ b.maxCallDepth

structure Engine.Raised (a b : Engine) : Prop where
  settings : a.settings.Raised b.settings
  registry : b.registry = a.registry

namespace Store

def withEngines (st : Store) (engines : Array Engine) : Store := { st with engines }

/-- The store with the same realms in other engines. -/
def SameRealms (st : Store) (es : Array Engine) : Prop :=
  ∀ e : EngineId, (es[e.index]?).map (·.registry) = (st.engine? e).map (·.registry)

/-! ### Operations that do not look at limits -/

/-- What an operation comes to on the store with other engines, if it leaves engines alone. -/
def framed (es : Array Engine) (r : Option (α × Store)) : Option (α × Store) :=
  r.map fun r => (r.1, r.2.withEngines es)

theorem framed_bind {o : Option β} {f f' : β → Option (α × Store)}
    (h : ∀ b, f' b = framed es (f b)) : o.bind f' = framed es (o.bind f) := by
  cases o with
  | none => rfl
  | some b => exact h b

section

variable (h : st.SameRealms es)
include h

theorem SameRealms.realm? (r : RealmId) : (st.withEngines es).realm? r = st.realm? r := by
  have hbind (o : Option Engine) : (o.bind fun engine => engine.registry.realm? r) =
      (o.map (·.registry)).bind (·.realm? r) := by
    cases o <;> rfl
  exact (hbind _).trans ((congrArg (·.bind (·.realm? r)) (h r.engine)).trans (hbind _).symm)

theorem SameRealms.bind_engine? {e : EngineId} {f f' : Engine → Option (α × Store)}
    (hf : ∀ engine engine' : Engine, engine'.registry = engine.registry →
      f' engine' = framed es (f engine)) :
    ((st.withEngines es).engine? e).bind f' = framed es ((st.engine? e).bind f) := by
  have he := h e
  cases hold : st.engine? e with
  | none =>
    rw [hold, Option.map_none, Option.map_eq_none_iff] at he
    rw [Store.engine?, withEngines, he]
    rfl
  | some engine =>
    rw [hold, Option.map_some, Option.map_eq_some_iff] at he
    obtain ⟨engine', hnew, hr⟩ := he
    rw [Store.engine?, withEngines, hnew]
    exact hf engine engine' hr

theorem SameRealms.enter? (home : RealmId) : (st.withEngines es).enter? rule s home =
    framed es (st.enter? rule s home) := by
  refine framed_bind fun now => h.bind_engine? fun engine engine' hr => ?_
  rw [h.realm?, hr]
  refine framed_bind fun realm => ?_
  repeat' split
  all_goals rfl

theorem SameRealms.enterScope? (home : RealmId) : (st.withEngines es).enterScope? rule s home =
    framed es (st.enterScope? rule s home) := by
  simp only [Store.enterScope?, h.enter?]
  cases st.enter? rule s home with
  | none => rfl
  | some r =>
    obtain ⟨r, entered⟩ := r
    cases r <;> rfl

theorem SameRealms.newStack? (e : EngineId) :
    (st.withEngines es).newStack? e = framed es (st.newStack? e) := by
  refine h.bind_engine? fun engine engine' hr => ?_
  rw [hr]
  rfl

theorem SameRealms.newObject? (r : RealmId) :
    (st.withEngines es).newObject? r = framed es (st.newObject? r) := by
  unfold Store.newObject?
  rw [h.realm?]
  exact framed_bind fun _ => rfl

theorem SameRealms.newFunction? (r : RealmId) (f : Function) :
    (st.withEngines es).newFunction? r f = framed es (st.newFunction? r f) := by
  unfold Store.newFunction?
  rw [h.realm?]
  exact framed_bind fun _ => rfl

end

theorem setProperty?_withEngines (o : ObjectId) (name : String) (v : Value) :
    (st.withEngines es).setProperty? o name v = framed es (st.setProperty? o name v) :=
  framed_bind fun _ => rfl

theorem inquire?_withEngines (f : ForeignId) (inquiry : Foreign → Inquiry α) :
    (st.withEngines es).inquire? f inquiry = framed es (st.inquire? f inquiry) :=
  framed_bind fun _ => rfl

theorem restore_withEngines (scope : Scope) :
    (st.withEngines es).restore scope = (st.restore scope).withEngines es := by
  unfold restore
  split <;> rfl

theorem property?_withEngines (o : ObjectId) (name : String) :
    (st.withEngines es).property? o name = st.property? o name :=
  property?_congr (show (st.withEngines es).objects = st.objects from rfl) o name

end Store

/-- An action that makes neither engines nor realms does the same on a store with other limits. -/
theorem Action.perform_withEngines (h : st.SameRealms es) {a : Action α} (ha : a.founds = false) :
    a.perform rule s (st.withEngines es) = Store.framed es (a.perform rule s st) := by
  cases a with
  | newEngine | newRealm => cases ha
  | newStack e => exact h.newStack? e
  | newObject r => exact h.newObject? r
  | newObjectHere => exact Store.framed_bind fun now => h.newObject? now.active.id
  | newForeign | newString | newSymbol => rfl
  | setProperty o name v => exact Store.setProperty?_withEngines o name v
  | setGlobal name v =>
    refine Store.framed_bind fun now => ?_
    rw [Store.setProperty?_withEngines]
    cases st.setProperty? now.active.global name v <;> rfl
  | isObject v =>
    cases v with
    | foreign f => exact Store.inquire?_withEngines f _
    | _ => rfl
  | isCallable v =>
    cases v with
    | foreign f => exact Store.inquire?_withEngines f _
    | object o => exact Store.framed_bind fun _ => rfl
    | _ => rfl
  | typeTag v =>
    cases v with
    | foreign f => exact Store.inquire?_withEngines f _
    | object o => exact Store.framed_bind fun _ => rfl
    | _ => rfl
  | read target name =>
    cases target with
    | foreign f => exact Store.inquire?_withEngines f _
    | object o =>
      simp only [perform, Store.read?, Store.property?_withEngines]
      exact Store.framed_bind fun _ => rfl
    | _ => rfl
  | enter home => exact h.enterScope? home
  | leave i =>
    refine Store.framed_bind fun scope => ?_
    split
    · rfl
    · show some ((), (Store.withEngines { st with
        scopes := st.scopes.modify i.index Scope.finish } es).restore scope) = _
      rw [Store.restore_withEngines]
      rfl

/-! ### Raised limits -/

section

variable {A : Type u} {B : Type v} {C : Type u'} {D : Type v'} {R : A → B → Prop}
  {S : C → D → Prop}

theorem rel_bind {x : Option A} {y : Option B} {f : A → Option C} {g : B → Option D}
    (h : Option.Rel R x y) (hfg : ∀ a b, R a b → Option.Rel S (f a) (g b)) :
    Option.Rel S (x.bind f) (y.bind g) := by
  cases h with
  | none => exact .none
  | some hab => exact hfg _ _ hab

theorem rel_cases {x : Option A} {y : Option B}
    (h : Option.Rel R x y) :
    (x = none ∧ y = none) ∨ ∃ a b, x = some a ∧ y = some b ∧ R a b := by
  cases h with
  | none => exact .inl ⟨rfl, rfl⟩
  | some hab => exact .inr ⟨_, _, rfl, rfl, hab⟩

theorem rel_map {x : Option A} {y : Option B} {f : A → C} {g : B → D} (h : Option.Rel R x y)
    (hfg : ∀ a b, R a b → S (f a) (g b)) : Option.Rel S (x.map f) (y.map g) := by
  cases h with
  | none => exact .none
  | some hab => exact .some (hfg _ _ hab)

theorem eq_of_rel {x y : Option A} (h : Option.Rel (fun a b => b = a) x y) : y = x := by
  cases h with
  | none => rfl
  | some hab => exact congrArg some hab

theorem rel_of_eq {x y : Option A} (h : y = x) : Option.Rel (fun a b => b = a) x y := by
  subst h
  cases y with
  | none => exact .none
  | some a => exact .some rfl

/-- Two arrays have the same size, and their entries are related one by one. -/
def Entrywise (R : A → B → Prop) (xs : Array A) (ys : Array B) : Prop :=
  ∀ i : Nat, Option.Rel R xs[i]? ys[i]?

namespace Entrywise

theorem empty : Entrywise R #[] #[] := fun i => by
  rw [Array.getElem?_empty, Array.getElem?_empty]
  exact .none

variable {xs : Array A} {ys : Array B} (h : Entrywise R xs ys)
include h

theorem size_eq : ys.size = xs.size := by
  have hnone {i : Nat} : xs[i]? = none ↔ ys[i]? = none := by
    have hi := h i
    cases hx : xs[i]? <;> cases hy : ys[i]? <;> simp_all
  simp only [Array.getElem?_eq_none_iff] at hnone
  exact Nat.le_antisymm (hnone.mp (Nat.le_refl _)) (hnone.mpr (Nat.le_refl _))

theorem push {x : A} {y : B} (hxy : R x y) : Entrywise R (xs.push x) (ys.push y) := by
  intro i
  rw [Array.getElem?_push, Array.getElem?_push, h.size_eq]
  split
  · exact .some hxy
  · exact h i

theorem modify {f : A → A} {g : B → B} (hfg : ∀ x y, R x y → R (f x) (g y)) (i : Nat) :
    Entrywise R (xs.modify i f) (ys.modify i g) := by
  intro j
  rw [Array.getElem?_modify, Array.getElem?_modify]
  split
  · exact rel_map (h j) hfg
  · exact h j

end Entrywise

end

/-- The second store has higher limits, or the same, and is equal in all else. -/
structure Store.Raised (st st' : Store) : Prop where
  rest : st' = st.withEngines st'.engines
  engines : Entrywise Engine.Raised st.engines st'.engines

/-- Two answers are the same, and the second leaves a store with higher limits. -/
def Store.AnswersRaised (r r' : α × Store) : Prop := r'.1 = r.1 ∧ r.2.Raised r'.2

namespace Store.Raised

variable (h : st.Raised st')
include h

theorem sameRealms : st.SameRealms st'.engines :=
  fun e => eq_of_rel (rel_map (h.engines e.index) fun _ _ hr => hr.registry)

theorem stack? (s : StackId) : st'.stack? s = st.stack? s := by
  rw [h.rest]
  rfl

theorem scope? (i : ScopeId) : st'.scope? i = st.scope? i := by
  rw [h.rest]
  rfl

theorem object? (o : ObjectId) : st'.object? o = st.object? o := by
  rw [h.rest]
  rfl

theorem text (v : Value) : st'.text v = st.text v := by
  rw [h.rest]
  cases v <;> rfl

theorem typeName (v : Value) : st'.typeName v = st.typeName v := by
  rw [h.rest]
  cases v <;> rfl

/-- What leaves the engines of both stores alone, and does the same to them otherwise. -/
theorem of_engines {next : Store} (hn : next.engines = st.engines) :
    next.Raised (next.withEngines st'.engines) where
  rest := rfl
  engines := hn ▸ h.engines

theorem framed {r r' : Option (α × Store)} (hframe : r' = framed st'.engines r)
    (hr : ∀ a next, r = some (a, next) → next.engines = st.engines) :
    Option.Rel AnswersRaised r r' := by
  subst hframe
  cases r with
  | none => exact .none
  | some r => exact .some ⟨rfl, h.of_engines (hr r.1 r.2 rfl)⟩

theorem newEngine {a b : Settings} (hs : a.Raised b) :
    AnswersRaised (st.newEngine a) (st'.newEngine b) := by
  have hnew : st'.newEngine b = ((st.newEngine a).1, (st.newEngine a).2.withEngines
      (st'.engines.push
        ⟨b, .single (st.buildRealm (.main ⟨st.engines.size⟩) a.mainRealmName).1⟩)) := by
    rw [Store.newEngine, h.engines.size_eq, hs.name, h.rest]
    rfl
  rw [hnew]
  exact ⟨rfl, rfl, h.engines.push ⟨hs, rfl⟩⟩

theorem newRealm? (e : EngineId) (name : String) :
    Option.Rel AnswersRaised (st.newRealm? e name) (st'.newRealm? e name) := by
  refine rel_bind (h.engines e.index) fun engine engine' hr => ?_
  rw [hr.registry]
  split
  · exact .some ⟨rfl, h⟩
  · have hrealm : (st'.buildRealm engine.registry.nextId name).1 =
        (st.buildRealm engine.registry.nextId name).1 := by
      rw [h.rest]
      rfl
    refine .some ⟨congrArg Except.ok hrealm, ?_, ?_⟩
    · rw [h.rest]
      rfl
    · have hadd (old new : Engine) (hr : old.Raised new) : Engine.Raised
          { old with
            registry := old.registry.add (st.buildRealm engine.registry.nextId name).1 }
          { new with
            registry := new.registry.add (st'.buildRealm engine.registry.nextId name).1 } :=
        ⟨hr.settings, by rw [hrealm, hr.registry]⟩
      exact h.engines.modify hadd e.index

theorem enter? (home : RealmId) :
    Option.Rel AnswersRaised (st.enter? rule s home) (st'.enter? rule s home) := by
  refine h.framed ?_ fun _ _ hn => enter?_engines hn
  rw [h.rest]
  exact h.sameRealms.enter? home

theorem newFunction? (r : RealmId) (f : Function) :
    Option.Rel AnswersRaised (st.newFunction? r f) (st'.newFunction? r f) := by
  refine h.framed (by rw [h.rest]; exact h.sameRealms.newFunction? r f) fun o next hn => ?_
  simp only [Store.newFunction?, Option.bind_eq_bind, Option.bind_eq_some_iff] at hn
  obtain ⟨realm, -, hn⟩ := hn
  cases hn
  rfl

theorem beginCrossing (scope : Scope) :
    (st.beginCrossing scope).Raised (st'.beginCrossing scope) where
  rest := by
    rw [h.rest]
    rfl
  engines := h.engines

theorem modifyStack (f : Stack → Stack) :
    (st.modifyStack s f).Raised (st'.modifyStack s f) where
  rest := by
    rw [h.rest]
    rfl
  engines := h.engines

theorem restore (scope : Scope) : (st.restore scope).Raised (st'.restore scope) := by
  unfold Store.restore
  split
  · exact h
  · exact h.modifyStack _

theorem endCrossing (scope : Scope) :
    (st.endCrossing scope).Raised (st'.endCrossing scope) := by
  refine restore ?_ scope
  exact { rest := by rw [h.rest]; rfl, engines := h.engines }

/-- A call that has room under a limit has room under a higher one. -/
theorem pushCall? (s : StackId) :
    Option.Rel (fun r r' => ∀ next, r = .ok next → ∃ next', r' = .ok next' ∧ next.Raised next')
      (st.pushCall? s) (st'.pushCall? s) := by
  refine rel_bind (rel_of_eq (h.stack? s)) fun now now' hnow => ?_
  subst hnow
  refine rel_bind (h.engines _) fun engine engine' hr => ?_
  have hlimit := hr.settings.limit
  split
  · split <;> exact .some fun next hnext => nomatch hnext
  · rw [if_neg (by omega)]
    exact .some fun next hnext => by cases hnext; exact ⟨_, rfl, h.modifyStack _⟩

end Store.Raised

theorem Settings.Raised.refl (a : Settings) : a.Raised a := ⟨rfl, Nat.le_refl _⟩

/-- The same reading, and an answer that tells the same but for limits. -/
def Reading.Raised : {α : Type} → Reading α → α → α → Prop
  | _, .settings _, a, b => Settings.Raised a b
  | _, _, a, b => b = a

theorem Reading.eval_raised (h : st.Raised st') (r : Reading α) :
    Option.Rel r.Raised (r.eval s st) (r.eval s st') := by
  cases r with
  | settings e => exact rel_map (h.engines e.index) fun _ _ hr => hr.settings
  | registry e => exact rel_map (h.engines e.index) fun _ _ hr => hr.registry
  | stack => exact rel_of_eq (h.stack? s)
  | scope i => exact rel_of_eq (h.scope? i)
  | object o => exact rel_of_eq (h.object? o)
  | foreign f => exact rel_of_eq (by rw [h.rest]; rfl)
  | property o name =>
    rw [h.rest]
    simp only [eval, Store.property?_withEngines]
    exact rel_of_eq rfl
  | global name =>
    rw [h.rest]
    simp only [eval, Store.global?, Store.property?_withEngines]
    exact rel_of_eq rfl
  | text v => exact .some (h.text v)
  | typeName v => exact .some (h.typeName v)

/-- The same action, but for the limit of an engine that is made. -/
inductive Action.Raised : {α : Type} → Action α → Action α → Prop
  | same {α : Type} (a : Action α) : Raised a a
  | newEngine {a b : Settings} : a.Raised b → Raised (.newEngine a) (.newEngine b)

theorem Action.Raised.perform {a b : Action α} (ha : a.Raised b) (h : st.Raised st') :
    Option.Rel Store.AnswersRaised (a.perform rule s st) (b.perform rule s st') := by
  cases ha with
  | newEngine hs => exact .some (h.newEngine hs)
  | same =>
    cases hf : a.founds with
    | false =>
      refine h.framed ?_ fun answer next hn => Action.engines_eq hn hf
      rw [h.rest]
      exact Action.perform_withEngines h.sameRealms hf
    | true =>
      cases a with
      | newEngine settings => exact .some (h.newEngine (.refl settings))
      | newRealm e name => exact h.newRealm? e name
      | _ => cases hf

/-- The second program is the first, but for higher limits of the engines that it makes, and goes on
in the same way whatever limits the two read. -/
inductive Program.Raised : {α : Type} → Program σ α → Program σ α → Prop
  | done {α : Type} (a : α) : Raised (.done a) (.done a)
  | panic {α : Type} (text : String) : Raised (.panic text : Program σ α) (.panic text)
  | recalling {α : Type} {k k' : σ → Program σ α} : (∀ memory, Raised (k memory) (k' memory)) →
      Raised (.recalling k) (.recalling k')
  | remembering {α : Type} (memory : σ) {k k' : Program σ α} : Raised k k' →
      Raised (.remembering memory k) (.remembering memory k')
  | reading {α β : Type} (r : Reading β) {k k' : β → Program σ α} :
      (∀ a b, r.Raised a b → Raised (k a) (k' b)) → Raised (.reading r k) (.reading r k')
  | acting {α β : Type} {a b : Action β} {k k' : β → Program σ α} : a.Raised b →
      (∀ answer, Raised (k answer) (k' answer)) → Raised (.acting a k) (.acting b k')
  | defining {α : Type} (realm : RealmId) (name : String) (location : Option Location)
      {body body' : CallContext → Program σ (Except Error Value)} {k k' : ObjectId → Program σ α} :
      (∀ c, Raised (body c) (body' c)) → (∀ o, Raised (k o) (k' o)) →
      Raised (.defining realm name location body k) (.defining realm name location body' k')
  | calling {α : Type} (callee : Value) (arguments : List Value)
      {k k' : Except Error Value → Program σ α} : (∀ r, Raised (k r) (k' r)) →
      Raised (.calling callee arguments k) (.calling callee arguments k')
  | crossing {α β : Type} (home : RealmId) (origin : Frame)
      {body body' : Program σ (Except Error β)} {k k' : Except Error β → Program σ α} :
      Raised body body' → (∀ r, Raised (k r) (k' r)) →
      Raised (.crossing home origin body k) (.crossing home origin body' k')
  | onStack {α β : Type} (t : StackId) {body body' : Program σ β} {k k' : β → Program σ α} :
      Raised body body' → (∀ r, Raised (k r) (k' r)) →
      Raised (.onStack t body k) (.onStack t body' k')
  | guarding {α β : Type} {body body' : Program σ β} {k k' : Except String β → Program σ α} :
      Raised body body' → (∀ r, Raised (k r) (k' r)) →
      Raised (.guarding body k) (.guarding body' k')

/-- The second machine has higher limits, and its functions make engines with higher limits. -/
structure Machine.Raised (m m' : Machine σ) : Prop where
  store : m.store.Raised m'.store
  code : Entrywise (fun body body' => ∀ c, (body c).Raised (body' c)) m.code m'.code
  memory : m'.memory = m.memory

/-- The same event, in machines of which the second has higher limits. -/
inductive Event.Raised : Event σ → Event σ → Prop
  | moment (s : StackId) {m m' : Machine σ} : m.Raised m' → Raised (.moment s m) (.moment s m')
  | opened (i : ScopeId) (scope : Scope) {before before' : Machine σ} : before.Raised before' →
      Raised (.opened i scope before) (.opened i scope before')
  | ended (i : ScopeId) (scope : Scope) : Raised (.ended i scope) (.ended i scope)
  | entered (scope : Scope) {before before' start start' : Machine σ} : before.Raised before' →
      start.Raised start' → Raised (.entered scope before start) (.entered scope before' start')
  | exited (scope : Scope) {before before' last last' after after' : Machine σ} :
      before.Raised before' → last.Raised last' → after.Raised after' →
      Raised (.exited scope before last after) (.exited scope before' last' after')
  | refused (s : StackId) (home : RealmId) {before before' after after' : Machine σ} :
      before.Raised before' → after.Raised after' →
      Raised (.refused s home before after) (.refused s home before' after')
  | began (s : StackId) : Raised (.began s) (.began s)
  | started (s : StackId) (code : CodeId) (context : CallContext) {start start' : Machine σ} :
      start.Raised start' → Raised (.started s code context start) (.started s code context start')
  | finished (s : StackId) : Raised (.finished s) (.finished s)

end Realms
