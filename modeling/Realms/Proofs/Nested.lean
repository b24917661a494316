import Realms.Proofs.Enclosure

/-! The invariant of a stack whose scopes end in turn. Each open scope has kept the realm that was
active before it, if it had to replace one, so the kept realms form a stack of their own; the count
of replacements is ahead by one for each scope that still has a realm to put back. -/

namespace Realms

variable {σ : Type} {rule : EntryRule} {s t : StackId} {base : RealmId} {n : Nat}
  {nest : List Enclosure} {st st' : Store}

/-- What a scope found active, by id. -/
def Enclosure.found (e : Enclosure) : RealmId := (e.scope.previous.map (·.id)).getD e.scope.home

/-- Each scope was entered from the home of the next one. -/
def Linked (base : RealmId) : List Enclosure → Prop
  | [] => True
  | e :: nest => e.found = innermost base nest ∧ Linked base nest

/-- How many scopes have a realm to put back. -/
def pending (nest : List Enclosure) : Nat := nest.countP (·.scope.hasSwitched)

structure Store.Nested (st : Store) (s : StackId) (base : RealmId) (n : Nat)
    (nest : List Enclosure) : Prop where
  active : ∃ now, st.stack? s = some now ∧ now.active.id = innermost base nest ∧
    now.switches + pending nest = n
  linked : Linked base nest
  kept : ∀ e ∈ nest, e.scope.stack = s ∧ ∀ i, e.id? = some i → st.scope? i = some e.scope
  distinct : nest.Pairwise fun e e' => ∀ i, e.id? = some i → e'.id? ≠ some i

namespace Store.Nested

/-- Whatever leaves the stack and the open scopes alone keeps the nest. -/
theorem frame (h : st.Nested s base n nest)
    (hs : ∀ now, st.stack? s = some now → ∃ now', st'.stack? s = some now' ∧
      now'.active = now.active ∧ now'.switches = now.switches)
    (hi : ∀ e ∈ nest, ∀ i, e.id? = some i → st'.scope? i = st.scope? i) :
    st'.Nested s base n nest where
  active := by
    obtain ⟨now, hnow, ha, hn⟩ := h.active
    obtain ⟨now', hnow', ha', hn'⟩ := hs now hnow
    exact ⟨now', hnow', by rw [ha', ha], by rw [hn', hn]⟩
  linked := h.linked
  kept e he := ⟨(h.kept e he).1, fun i hid => by rw [hi e he i hid]; exact (h.kept e he).2 i hid⟩
  distinct := h.distinct

theorem scope?_of_mem (h : st.Nested s base n nest) {e : Enclosure} {i : ScopeId} (he : e ∈ nest)
    (hid : e.id? = some i) : st.scope? i = some e.scope :=
  (h.kept e he).2 i hid

/-- An entry puts a scope on the nest, and two more replacements will have been made in the end if
it makes one now. -/
theorem enter (h : st.Nested s base n nest) {now : Stack} {realm : Realm} {scope : Scope}
    {entered : Store} (hnow : st.stack? s = some now)
    (hentry : st.Entry s now realm scope entered) {id? : Option ScopeId}
    (hs : st'.stack? s = entered.stack? s)
    (hid : ∀ i, id? = some i → st'.scope? i = some scope ∧ ∀ e ∈ nest, e.id? ≠ some i)
    (hi : ∀ e ∈ nest, ∀ i, e.id? = some i → st'.scope? i = st.scope? i) :
    st'.Nested s base (n + if now.active.id = scope.home then 0 else 2) (⟨id?, scope⟩ :: nest) where
  active := by
    obtain ⟨now', hnow', ha, hn⟩ := h.active
    obtain rfl : now = now' := Option.some.inj (hnow.symm.trans hnow')
    cases hentry with
    | stays hr =>
      refine ⟨now, hs.trans hnow, congrArg Realm.id hr, ?_⟩
      simpa [pending, Scope.hasSwitched, hr] using hn
    | switches hr =>
      refine ⟨now.activate realm, by rw [hs, stack?_modifyStack, if_pos rfl, hnow]; rfl, rfl, ?_⟩
      simp only [pending, Scope.hasSwitched, Option.isSome_some, List.countP_cons_of_pos,
        Stack.switches_activate, if_neg hr] at hn ⊢
      omega
  linked := by
    obtain ⟨now', hnow', ha, -⟩ := h.active
    obtain rfl : now = now' := Option.some.inj (hnow.symm.trans hnow')
    refine ⟨?_, h.linked⟩
    cases hentry with
    | stays hr => exact (congrArg Realm.id hr).symm.trans ha
    | switches hr => exact ha
  kept e he := by
    obtain rfl | he := List.mem_cons.mp he
    · exact ⟨hentry.scope_eq.1, fun i h => (hid i h).1⟩
    · exact ⟨(h.kept e he).1, fun i h' => by rw [hi e he i h']; exact h.scope?_of_mem he h'⟩
  distinct := List.pairwise_cons.mpr ⟨fun e he i h' => (hid i h').2 e he, h.distinct⟩

/-- A scope that ends puts back what it found. -/
theorem leave {e : Enclosure} (h : st.Nested s base n (e :: nest))
    (hs : st'.stack? s = (st.stack? s).map (·.restore e.scope.previous))
    (hi : ∀ e' ∈ nest, ∀ i, e'.id? = some i → st'.scope? i = st.scope? i) :
    st'.Nested s base n nest where
  active := by
    obtain ⟨now, hnow, ha, hn⟩ := h.active
    refine ⟨now.restore e.scope.previous, by rw [hs, hnow]; rfl, ?_, ?_⟩
    · rw [← h.linked.1, Stack.active_restore, Enclosure.found]
      cases e.scope.previous with
      | none => exact ha
      | some r => rfl
    · rw [← hn, Stack.switches_restore]
      simp only [pending, Scope.hasSwitched, List.countP_cons]
      omega
  linked := h.linked.2
  kept e' he' := by
    have he'' := List.mem_cons_of_mem e he'
    exact ⟨(h.kept e' he'').1, fun i hid => by
      rw [hi e' he' i hid]; exact h.scope?_of_mem he'' hid⟩
  distinct := (List.pairwise_cons.mp h.distinct).2

theorem opened (h : st.Nested s base n nest) {now : Stack} {realm : Realm} {scope : Scope}
    (hnow : st.stack? s = some now) (hentry : st.Entry s now realm scope st') :
    (st'.addScope scope).Nested s base (n + if now.active.id = scope.home then 0 else 2)
      (⟨some ⟨st'.scopes.size⟩, scope⟩ :: nest) := by
  have hold {e : Enclosure} {i : ScopeId} (he : e ∈ nest) (hid : e.id? = some i) :
      i.index < st'.scopes.size := by
    rw [hentry.sameScopes.scopes]
    exact scope?_lt (h.scope?_of_mem he hid)
  refine h.enter hnow hentry rfl (fun i hid => ?_) fun e he i hid => ?_
  · obtain rfl := Option.some.inj hid
    exact ⟨by rw [scope?_addScope, if_pos rfl], fun e he hid => Nat.lt_irrefl _ (hold he hid)⟩
  · rw [scope?_addScope, if_neg (Nat.ne_of_lt (hold he hid)), scope?, hentry.sameScopes.scopes]
    rfl

theorem entered (h : st.Nested s base n nest) {now : Stack} {realm : Realm} {scope : Scope}
    (hnow : st.stack? s = some now) (hentry : st.Entry s now realm scope st') :
    (st'.beginCrossing scope).Nested s base (n + if now.active.id = scope.home then 0 else 2)
      (⟨none, scope⟩ :: nest) := by
  refine h.enter hnow hentry rfl (fun i hid => nomatch hid) fun e _ i _ => ?_
  rw [scope?_beginCrossing, scope?, hentry.sameScopes.scopes]
  rfl

/-- A scope of a program that ends is the innermost one. -/
theorem ended (h : st.Nested s base n nest) {i : ScopeId} {scope : Scope}
    (hi : st.scope? i = some scope) (hs : scope.stack = s)
    (hid : nest.head?.map (·.id?) = some (some i)) :
    (st.closeScope i scope).Nested s base n nest.tail := by
  obtain ⟨e, rest, rfl, he⟩ := exists_of_head hid
  obtain rfl : scope = e.scope :=
    Option.some.inj (hi.symm.trans (h.scope?_of_mem List.mem_cons_self he))
  refine h.leave (by rw [stack?_closeScope, if_pos hs]) fun e' he' j hid' => ?_
  have hne : i ≠ j := fun hij => (List.pairwise_cons.mp h.distinct).1 e' he' i he (hij ▸ hid')
  rw [scope?_closeScope, if_neg hne]

/-- A scope of another stack that ends is none of the nest. -/
theorem endedElsewhere (h : st.Nested s base n nest) {i : ScopeId} {scope : Scope}
    (hi : st.scope? i = some scope) (hs : scope.stack ≠ s) :
    (st.closeScope i scope).Nested s base n nest := by
  refine h.frame (fun now hnow => ⟨now, by rwa [stack?_closeScope, if_neg hs], rfl, rfl⟩)
    fun e he j hid => ?_
  have hne : i ≠ j := by
    rintro rfl
    rw [h.scope?_of_mem he hid] at hi
    exact hs (Option.some.inj hi ▸ (h.kept e he).1)
  rw [scope?_closeScope, if_neg hne]

theorem enteredElsewhere (h : st.Nested s base n nest) {now : Stack} {realm : Realm}
    {scope : Scope} (hentry : st.Entry t now realm scope st') (hs : t ≠ s) :
    st'.Nested s base n nest := by
  cases hentry with
  | stays => exact h
  | switches =>
    exact h.frame (fun now hnow => ⟨now, by rwa [stack?_modifyStack, if_neg hs], rfl, rfl⟩)
      fun _ _ _ _ => rfl

theorem endCrossing (h : st.Nested s base n nest) {scope : Scope} (hs : scope.stack ≠ s) :
    (st.endCrossing scope).Nested s base n nest :=
  h.frame (fun now hnow => ⟨now, by rwa [stack?_endCrossing, if_neg hs], rfl, rfl⟩)
    fun _ _ _ _ => scope?_endCrossing ..

theorem addScope (h : st.Nested s base n nest) (scope : Scope) :
    (st.addScope scope).Nested s base n nest := by
  refine h.frame (fun now hnow => ⟨now, hnow, rfl, rfl⟩) fun e he i hid => ?_
  rw [scope?_addScope, if_neg (Nat.ne_of_lt (scope?_lt (h.scope?_of_mem he hid)))]

theorem modifyStack (h : st.Nested s base n nest) (f : Stack → Stack)
    (ha : ∀ stack, (f stack).active = stack.active)
    (hw : ∀ stack, (f stack).switches = stack.switches) :
    (st.modifyStack t f).Nested s base n nest := by
  refine h.frame (fun now hnow => ?_) fun _ _ _ _ => rfl
  rw [stack?_modifyStack, hnow]
  split
  · exact ⟨f now, rfl, ha now, hw now⟩
  · exact ⟨now, rfl, rfl, rfl⟩

theorem pushCall (h : st.Nested s base n nest) (hp : st.pushCall? t = some (.ok st')) :
    st'.Nested s base n nest := by
  obtain ⟨_, _, -, -, -, rfl⟩ := pushCall?_ok hp
  exact h.modifyStack _ (fun _ => rfl) fun _ => rfl

end Store.Nested

/-- The realm active on a stack. -/
def Machine.active? (m : Machine σ) (s : StackId) : Option RealmId :=
  (m.store.stack? s).map (·.active.id)

/-- At each moment the home of the innermost scope is active, and what was active before a crossing
is active after it. -/
def Event.Fits (s : StackId) (base : RealmId) (nest : List Enclosure) : Event σ → Prop
  | .moment _ m => m.active? s = some (innermost base nest)
  | .exited scope before _ after => scope.stack = s →
    before.active? s = some (innermost base nest.tail) ∧
      after.active? s = some (innermost base nest.tail)
  | _ => True

theorem Store.Nested.active?_eq {m : Machine σ} (h : m.store.Nested s base n nest) :
    m.active? s = some (innermost base nest) := by
  obtain ⟨now, hnow, ha, -⟩ := h.active
  rw [Machine.active?, hnow, Option.map_some, ha]

namespace Event

variable {scope : Scope} {before start : Machine σ} {now : Stack}

/-- How far the entry of a scope brings the count of replacements on, once the scope has ended. -/
theorem countP_opened (i : ScopeId) (hs : scope.stack = s)
    (hnow : before.store.stack? s = some now) :
    2 * [Event.opened i scope before].countP (switches s) =
      if now.active.id = scope.home then 0 else 2 := by
  split <;> simp [switches, *]

theorem countP_entered (hs : scope.stack = s) (hnow : before.store.stack? s = some now) :
    2 * [Event.entered scope before start].countP (switches s) =
      if now.active.id = scope.home then 0 else 2 := by
  split <;> simp [switches, *]

theorem countP_entered_elsewhere (hs : scope.stack ≠ s) :
    [Event.entered scope before start].countP (switches s) = 0 := by
  simp [switches, hs]

end Event

theorem countP_crossed {scope : Scope} {before start last after : Machine σ}
    {es : List (Event σ)} :
    (Event.entered scope before start :: es ++ [Event.exited scope before last after]).countP
        (Event.switches s) =
      [Event.entered scope before start].countP (Event.switches s) +
        es.countP (Event.switches s) := by
  rw [← List.singleton_append, List.countP_append, List.countP_append]
  rfl

/-- On a sound store, a run that ends the scopes of a stack in turn keeps the nest. -/
theorem Course.nested {m m' : Machine σ} {es : List (Event σ)} (h : Course rule t m es m')
    (hm : m.store.Sound) (hn : m.store.Nested s base n nest)
    (hturn : Along (Event.enclose s) (Event.InTurn s) nest es) :
    Along (Event.enclose s) (Event.Fits s base) nest es ∧
      m'.store.Nested s base (n + 2 * es.countP (Event.switches s)) (enclosing s nest es) := by
  induction h generalizing n nest with
  | rest | remembered => exact ⟨trivial, hn⟩
  | refused | started => exact ⟨⟨trivial, trivial⟩, hn⟩
  | append h h' ih ih' =>
    obtain ⟨hl, hr⟩ := along_append.mp hturn
    obtain ⟨hfit, hn'⟩ := ih hm hn hl
    obtain ⟨hfit', hn''⟩ := ih' (h.sound hm) hn' hr
    refine ⟨along_append.mpr ⟨hfit, hfit'⟩, ?_⟩
    rw [enclosing_append, List.countP_append, Nat.mul_add, ← Nat.add_assoc]
    exact hn''
  | moment => exact ⟨⟨hn.active?_eq, trivial⟩, hn⟩
  | changed code hc _ =>
    exact ⟨trivial, hn.frame (fun now hnow => ⟨now, hc.stack_eq hnow, rfl, rfl⟩)
      fun _ _ i _ => hc.scope? i⟩
  | @opened u m home scope store he =>
    obtain ⟨now, realm, hnow, rfl, -, hentry⟩ := hm.enter?_ok he
    obtain ⟨rfl, -, -⟩ := hentry.scope_eq
    refine ⟨⟨trivial, trivial⟩, ?_⟩
    by_cases hs : scope.stack = s
    · rw [hs] at hnow hentry
      rw [Event.countP_opened _ hs hnow]
      simpa [enclosing, Event.enclose, hs] using hn.opened hnow hentry
    · simpa [enclosing, Event.enclose, Event.switches, hs] using
        (hn.enteredElsewhere hentry hs).addScope scope
  | @ended u m i scope hi hf =>
    refine ⟨⟨trivial, trivial⟩, ?_⟩
    by_cases hs : scope.stack = s
    · simpa [enclosing, Event.enclose, Event.switches, hs] using hn.ended hi hs (hturn.1 hs)
    · simpa [enclosing, Event.enclose, Event.switches, hs] using hn.endedElsewhere hi hs
  | @crossed u m last home scope store es he hb ih =>
    obtain ⟨now, realm, hnow, rfl, hreg, hentry⟩ := hm.enter?_ok he
    obtain ⟨rfl, -, -⟩ := hentry.scope_eq
    have hstart := (hentry.sound hm hreg).beginCrossing scope
    obtain ⟨-, hbody, hexit⟩ := along_crossed.mp hturn
    rw [along_crossed, enclosing_crossed, countP_crossed, Nat.mul_add, ← Nat.add_assoc]
    simp only [Event.enclose] at hbody hexit ⊢
    split at hbody
    · next hs =>
      rw [hs] at hnow hentry
      rw [if_pos hs] at hexit ⊢
      obtain ⟨hfit, hn'⟩ := ih hstart (hn.entered hnow hentry) hbody
      -- the body has left the nest below its own scopes alone, and has ended those
      have hinner : enclosing s (⟨none, scope⟩ :: nest) es = ⟨none, scope⟩ :: nest :=
        eq_of_fromCrossing (hb.fromCrossing_eq hbody) (hexit hs)
      rw [hinner] at hn' ⊢
      have hleft : (last.store.endCrossing scope).Nested s base _ nest :=
        hn'.leave (by rw [Store.stack?_endCrossing, if_pos hs]) fun _ _ _ _ =>
          Store.scope?_endCrossing ..
      rw [Event.countP_entered hs hnow, if_pos hs]
      exact ⟨⟨trivial, hfit, fun _ => ⟨hn.active?_eq, hleft.active?_eq⟩⟩, hleft⟩
    · next hs =>
      rw [if_neg hs] at hexit ⊢
      have hin : (store.beginCrossing scope).Nested s base n nest :=
        (hn.enteredElsewhere hentry hs).frame (fun now h => ⟨now, h, rfl, rfl⟩) fun _ _ _ _ => rfl
      obtain ⟨hfit, hn'⟩ := ih hstart hin hbody
      rw [Event.countP_entered_elsewhere hs, if_neg hs]
      exact ⟨⟨trivial, hfit, fun h => absurd h hs⟩, hn'.endCrossing hs⟩
  | abandoned hp _ ih =>
    obtain ⟨hfit, hn'⟩ := ih (hm.pushCall hp) (hn.pushCall hp) hturn.2
    exact ⟨⟨trivial, hfit⟩, hn'⟩
  | counted hp _ ih =>
    obtain ⟨hbody, -⟩ := along_append.mp hturn
    obtain ⟨hfit, hn'⟩ := ih (hm.pushCall hp) (hn.pushCall hp) hbody.2
    refine ⟨along_append.mpr ⟨⟨trivial, hfit⟩, trivial, trivial⟩, ?_⟩
    rw [enclosing_append, List.countP_append]
    exact hn'.modifyStack _ (fun _ => rfl) fun _ => rfl
  | onStack _ ih => exact ih hm hn hturn

end Realms
