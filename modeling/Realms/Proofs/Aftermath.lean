import Realms.Proofs.Account
import Realms.Proofs.Discipline

/-! The realm that is active once scopes have ended. A scope keeps the realm that it found, if it had
to replace it, and puts that one back at its end, whatever has become active since. Main statement:
once all scopes that a run entered on a stack have ended, in whatever order, the realm put back last
is active there, or the one from before if none was; with scopes that overlap this may be another
realm than the one from before. -/

namespace Realms

variable {σ α : Type} {rule : EntryRule} {s t : StackId} {m m' : Machine σ} {i : ScopeId}
  {scope : Scope} {es es' past : List (Event σ)} {st st' : Store}

/-- The realm that a scope of the stack puts back as it ends, if it had to replace one. -/
def Event.putsBack? (s : StackId) : Event σ → Option Realm
  | .ended _ scope | .exited scope _ _ _ => if scope.stack = s then scope.previous else none
  | _ => none

/-- The realm that was put back last. -/
def lastPutBack (s : StackId) (es : List (Event σ)) : Option Realm :=
  (es.filterMap (Event.putsBack? s)).getLast?

theorem lastPutBack_append :
    lastPutBack s (es ++ es') = (lastPutBack s es').or (lastPutBack s es) := by
  rw [lastPutBack, List.filterMap_append, List.getLast?_append]
  rfl

/-- A crossing that puts a realm back does so after all that happened in it. -/
theorem lastPutBack_crossed {before start last after : Machine σ} :
    lastPutBack s (.entered scope before start :: es ++ [.exited scope before last after]) =
      (Event.putsBack? s (.exited scope before last after)).or (lastPutBack s es) := by
  have hexit : lastPutBack s [.exited scope before last after] =
      Event.putsBack? s (.exited scope before last after) := by
    rw [lastPutBack, List.filterMap_cons, List.filterMap_nil]
    cases Event.putsBack? s (.exited scope before last after) <;> rfl
  rw [lastPutBack_append, hexit]
  rfl

/-- A scope that had to replace a realm and has ended has put one back. -/
theorem lastPutBack_of_ended (h : .ended i scope ∈ es) (ho : scope.outstanding s = true) :
    ∃ r, lastPutBack s es = some r := by
  obtain ⟨hs, hswitched, -⟩ : scope.stack = s ∧ scope.hasSwitched = true ∧ scope.finished = false :=
    by simpa [Scope.outstanding] using ho
  obtain ⟨r, hr⟩ := Option.isSome_iff_exists.mp hswitched
  have hmem : r ∈ es.filterMap (Event.putsBack? s) :=
    List.mem_filterMap.mpr ⟨_, h, by rw [Event.putsBack?, if_pos hs, hr]⟩
  exact ⟨_, List.getLast?_eq_some_getLast (List.ne_nil_of_mem hmem)⟩

/-! ### What becomes of a scope -/

theorem Store.pushCall?_scope? (hp : st.pushCall? t = some (.ok st')) (i : ScopeId) :
    st'.scope? i = st.scope? i := by
  obtain ⟨_, _, -, -, -, rfl⟩ := Store.pushCall?_ok hp
  rfl

/-- A scope of a program stays as it is, up to its end. -/
theorem Course.scope_eq_or_ended (h : Course rule t m es m') (hm : m.store.Sound)
    (hi : m.store.scope? i = some scope) : m'.store.scope? i = some scope ∨
      scope.finished = false ∧ .ended i scope ∈ es ∧ m'.store.scope? i = some scope.finish := by
  induction h generalizing scope with
  | rest | moment | remembered | refused | started => exact .inl hi
  | append h _ ih ih' =>
    rcases ih hm hi with hi | ⟨hf, hmem, hi⟩
    · rcases ih' (h.sound hm) hi with hi | ⟨hf, hmem, hi⟩
      · exact .inl hi
      · exact .inr ⟨hf, List.mem_append_right _ hmem, hi⟩
    · rcases ih' (h.sound hm) hi with hi | ⟨hf', -⟩
      · exact .inr ⟨hf, List.mem_append_left _ hmem, hi⟩
      · cases hf'
  | changed _ hc _ => exact .inl (by rwa [hc.scope?])
  | opened he =>
    obtain ⟨now, realm, -, rfl, -, hentry⟩ := hm.enter?_ok he
    have hlt := Store.scope?_lt hi
    rw [← hentry.sameScopes.scopes] at hlt
    refine .inl ?_
    rw [Store.scope?_addScope, if_neg (Nat.ne_of_lt hlt), hentry.sameScopes.scope?, hi]
  | @ended _ _ j scope' hj hf =>
    by_cases hij : j = i
    · subst hij
      obtain rfl : scope' = scope := Option.some.inj (hj.symm.trans hi)
      exact .inr ⟨hf, List.mem_singleton_self _, by rw [Store.scope?_closeScope, if_pos rfl, hi]; rfl⟩
    · exact .inl (by rwa [Store.scope?_closeScope, if_neg hij])
  | crossed he _ ih =>
    obtain ⟨now, realm, -, rfl, hreg, hentry⟩ := hm.enter?_ok he
    have hstart := (hentry.sound hm hreg).beginCrossing
    rw [Store.scope?_endCrossing]
    rcases ih (hstart _) (by rwa [Store.scope?_beginCrossing, hentry.sameScopes.scope?]) with
      hi | ⟨hf, hmem, hi⟩
    · exact .inl hi
    · exact .inr ⟨hf, List.mem_append_left _ (List.mem_cons_of_mem _ hmem), hi⟩
  | abandoned hp _ ih =>
    rcases ih (hm.pushCall hp) (by rwa [Store.pushCall?_scope? hp]) with hi | ⟨hf, hmem, hi⟩
    · exact .inl hi
    · exact .inr ⟨hf, List.mem_cons_of_mem _ hmem, hi⟩
  | counted hp _ ih =>
    rcases ih (hm.pushCall hp) (by rwa [Store.pushCall?_scope? hp]) with hi | ⟨hf, hmem, hi⟩
    · exact .inl hi
    · exact .inr ⟨hf, List.mem_append_left _ (List.mem_cons_of_mem _ hmem), hi⟩
  | onStack _ ih => exact ih hm hi

/-- A scope that ends is one that a program has entered. -/
theorem Course.opened_of_ended (h : Course rule t m es m') (hm : m.store.Sound)
    (ha : m.store.Account past) (hmem : .ended i scope ∈ es) :
    ∃ entry, .opened i scope entry ∈ past ++ es := by
  induction h generalizing past with
  | rest | moment | remembered | refused | started | changed | opened => simp at hmem
  | append h _ ih ih' =>
    rw [← List.append_assoc]
    rcases List.mem_append.mp hmem with hmem | hmem
    · obtain ⟨entry, hentry⟩ := ih hm ha hmem
      exact ⟨entry, List.mem_append_left _ hentry⟩
    · exact ih' (h.sound hm) (h.account hm ha).2.1 hmem
  | ended hi hf =>
    cases List.mem_singleton.mp hmem
    obtain ⟨entry, before, hopened, hsince⟩ := ha.opened i scope hi
    rcases hsince with rfl | rfl
    · exact ⟨before, List.mem_append_left _ hopened⟩
    · cases hf
  | @crossed _ m _ _ scope' store _ he _ ih =>
    obtain ⟨now, realm, hnow, rfl, hreg, hentry⟩ := hm.enter?_ok he
    have hentered := ha.entering m { m with store := store.beginCrossing scope' } hnow hentry
    obtain ⟨entry, hopened⟩ :=
      ih ((hentry.sound hm hreg).beginCrossing _) hentered (by simpa using hmem)
    refine ⟨entry, ?_⟩
    rw [← List.append_assoc]
    exact List.mem_append_left _ (by simpa using hopened)
  | @abandoned u _ _ _ _ hp _ ih =>
    have hbegan := (ha.pushCall hp).note (e := .began u) rfl
    obtain ⟨entry, hopened⟩ := ih (hm.pushCall hp) hbegan (by simpa using hmem)
    exact ⟨entry, by simpa using hopened⟩
  | @counted u _ _ _ _ hp _ ih =>
    have hbegan := (ha.pushCall hp).note (e := .began u) rfl
    obtain ⟨entry, hopened⟩ := ih (hm.pushCall hp) hbegan (by simpa using hmem)
    refine ⟨entry, ?_⟩
    rw [← List.append_assoc]
    exact List.mem_append_left _ (by simpa using hopened)
  | onStack _ ih => exact ih hm ha hmem

/-! ### What is active in the end -/

/-- A scope of the stack that came after the earlier store has yet to put a realm back. -/
def Store.Owes (old st : Store) (s : StackId) : Prop :=
  ∃ i scope, old.scope? i = none ∧ st.scope? i = some scope ∧ scope.outstanding s = true

/-- A stack has active what was put back last, unless a scope that came in between is to put back a
realm yet. -/
def Store.Settles (old st : Store) (s : StackId) (es : List (Event σ)) : Prop :=
  ∀ before, old.stack? s = some before → ∃ after, st.stack? s = some after ∧
    (after.active = (lastPutBack s es).getD before.active ∨ old.Owes st s)

namespace Store.Settles

variable {st'' : Store}

/-- A stretch in which nothing is put back, between two others that leave the realm alone. -/
theorem frame {start last : Store}
    (hstart : ∀ now, st.stack? s = some now →
      ∃ now', start.stack? s = some now' ∧ now'.active = now.active)
    (hi : ∀ i, start.scope? i = st.scope? i) (h : start.Settles last s es)
    (hlast : ∀ now, last.stack? s = some now →
      ∃ now', st'.stack? s = some now' ∧ now'.active = now.active)
    (hi' : ∀ i, st'.scope? i = last.scope? i) : st.Settles st' s es := by
  intro before hbefore
  obtain ⟨now, hnow, ha⟩ := hstart before hbefore
  obtain ⟨now', hnow', hsettled⟩ := h now hnow
  obtain ⟨after, hafter, ha'⟩ := hlast now' hnow'
  refine ⟨after, hafter, ?_⟩
  rcases hsettled with hactive | ⟨i, scope, hold, hscope, ho⟩
  · exact .inl (by rw [ha', hactive, ha])
  · exact .inr ⟨i, scope, by rwa [← hi], by rwa [hi'], ho⟩

theorem of_active (h : ∀ now, st.stack? s = some now →
      ∃ now', st'.stack? s = some now' ∧ now'.active = now.active)
    (hes : lastPutBack s es = none) : st.Settles st' s es := by
  intro before hbefore
  obtain ⟨after, hafter, ha⟩ := h before hbefore
  exact ⟨after, hafter, .inl (by rw [hes, ha, Option.getD_none])⟩

theorem refl (st : Store) (hes : lastPutBack s es = none) : st.Settles st s es :=
  of_active (fun now hnow => ⟨now, hnow, rfl⟩) hes

/-- What a scope owes after the first stretch it still owes after the second, or has put back in
it. -/
theorem append (h : st.Settles st' s es) (h' : st'.Settles st'' s es')
    (hold : ∀ i, st'.scope? i = none → st.scope? i = none)
    (hkept : ∀ i scope, st'.scope? i = some scope → st''.scope? i = some scope ∨
      scope.finished = false ∧ .ended i scope ∈ es' ∧ st''.scope? i = some scope.finish) :
    st.Settles st'' s (es ++ es') := by
  intro before hbefore
  obtain ⟨now, hnow, hsettled⟩ := h before hbefore
  obtain ⟨after, hafter, hsettled'⟩ := h' now hnow
  refine ⟨after, hafter, ?_⟩
  rw [lastPutBack_append]
  rcases hsettled' with hactive' | ⟨i, scope, hnone, hscope, ho⟩
  · cases hlast : lastPutBack s es' with
    | some r => exact .inl (by rw [hactive', hlast]; rfl)
    | none =>
      rw [hlast, Option.getD_none] at hactive'
      rcases hsettled with hactive | ⟨i, scope, hnone, hscope, ho⟩
      · exact .inl (hactive'.trans hactive)
      · rcases hkept i scope hscope with hscope | ⟨-, hmem, -⟩
        · exact .inr ⟨i, scope, hnone, hscope, ho⟩
        · obtain ⟨r, hr⟩ := lastPutBack_of_ended hmem ho
          rw [hlast] at hr
          cases hr
  · exact .inr ⟨i, scope, hold i hnone, hscope, ho⟩

/-- An entry puts nothing back, and its scope owes the realm that it had to replace. -/
theorem opened {now : Stack} {realm : Realm} {before : Machine σ}
    (hentry : st.Entry t now realm scope st') :
    st.Settles (st'.addScope scope) s [.opened ⟨st'.scopes.size⟩ scope before] := by
  have hnew : st.scope? ⟨st'.scopes.size⟩ = none := by
    rw [scope?, hentry.sameScopes.scopes]
    exact Array.getElem?_eq_none (Nat.le_refl _)
  have hscope : (st'.addScope scope).scope? ⟨st'.scopes.size⟩ = some scope := by
    rw [scope?_addScope, if_pos rfl]
  cases hentry with
  | stays => exact of_active (fun now hnow => ⟨now, hnow, rfl⟩) rfl
  | switches =>
    intro before hbefore
    by_cases hts : t = s
    · subst hts
      refine ⟨before.activate realm, ?_, .inr ⟨_, _, hnew, hscope, ?_⟩⟩
      · rw [stack?_addScope, stack?_modifyStack, if_pos rfl, hbefore]
        rfl
      · simp [Scope.outstanding, Scope.hasSwitched]
    · refine ⟨before, ?_, .inl rfl⟩
      rwa [stack?_addScope, stack?_modifyStack, if_neg hts]

theorem ended (i : ScopeId) (scope : Scope) :
    st.Settles (st.closeScope i scope) s ([.ended i scope] : List (Event σ)) := by
  intro before hbefore
  by_cases hs : scope.stack = s
  · refine ⟨before.restore scope.previous, ?_, .inl ?_⟩
    · rw [stack?_closeScope, if_pos hs, hbefore]
      rfl
    · rw [Stack.active_restore, lastPutBack, List.filterMap_cons, Event.putsBack?, if_pos hs]
      cases scope.previous <;> rfl
  · refine ⟨before, by rwa [stack?_closeScope, if_neg hs], .inl ?_⟩
    rw [lastPutBack, List.filterMap_cons, Event.putsBack?, if_neg hs]
    rfl

/-- A crossing that had to replace the realm puts it back last of all. -/
theorem crossed {now : Stack} {realm : Realm} {last : Store} {before start mid after : Machine σ}
    (hnow : st.stack? t = some now) (hentry : st.Entry t now realm scope st')
    (hext : (st'.beginCrossing scope).Extends last) (h : (st'.beginCrossing scope).Settles last s es) :
    st.Settles (last.endCrossing scope) s
      (.entered scope before start :: es ++ [.exited scope before mid after]) := by
  have hback : lastPutBack s (.entered scope before start :: es ++
      [.exited scope before mid after]) =
        (Event.putsBack? s (.exited scope before mid after)).or (lastPutBack s es) :=
    lastPutBack_crossed
  have hkept : ∀ i, (st'.beginCrossing scope).scope? i = st.scope? i := hentry.sameScopes.scope?
  cases hentry with
  | stays =>
    have hquiet : lastPutBack s (.entered _ before start :: es ++ [.exited _ before mid after]) =
        lastPutBack s es := hback.trans (by rw [Event.putsBack?, ite_self, Option.none_or])
    rw [Settles, hquiet]
    refine frame (fun now hnow => ⟨now, hnow, rfl⟩) hkept h (fun now hnow => ⟨now, ?_, rfl⟩)
      fun i => scope?_endCrossing ..
    rw [stack?_endCrossing, hnow]
    exact ite_self _
  | switches =>
    by_cases hts : t = s
    · subst hts
      intro found hfound
      obtain rfl : now = found := Option.some.inj (hnow.symm.trans hfound)
      obtain ⟨left, hleft, -⟩ := hext.stack t (now.activate realm) (by
        rw [stack?_beginCrossing, stack?_modifyStack, if_pos rfl, hnow]
        rfl)
      refine ⟨left.activate now.active, ?_, .inl ?_⟩
      · rw [stack?_endCrossing, if_pos rfl, hleft]
        rfl
      · rw [hback, Event.putsBack?, if_pos rfl]
        rfl
    · have hquiet : lastPutBack s (.entered _ before start :: es ++ [.exited _ before mid after]) =
          lastPutBack s es := hback.trans (by rw [Event.putsBack?, if_neg hts, Option.none_or])
      rw [Settles, hquiet]
      refine frame (fun found hfound => ⟨found, ?_, rfl⟩) hkept h
        (fun left hleft => ⟨left, ?_, rfl⟩) fun i => scope?_endCrossing ..
      · rwa [stack?_beginCrossing, stack?_modifyStack, if_neg hts]
      · rwa [stack?_endCrossing, if_neg hts]

/-- The count of calls has nothing to do with the active realm. -/
theorem modifyStack_active (f : Stack → Stack) (hf : ∀ stack, (f stack).active = stack.active)
    (now : Stack) (hnow : st.stack? s = some now) :
    ∃ now', (st.modifyStack t f).stack? s = some now' ∧ now'.active = now.active := by
  rw [stack?_modifyStack, hnow]
  split
  · exact ⟨f now, rfl, hf now⟩
  · exact ⟨now, rfl, rfl⟩

theorem abandoned {last : Store} (hp : st.pushCall? t = some (.ok st'))
    (h : st'.Settles last s es) : st.Settles last s (.began t :: es) := by
  obtain ⟨_, _, -, -, -, rfl⟩ := pushCall?_ok hp
  have hframe : st.Settles last s es := by
    refine frame ?_ ?_ h (fun now hnow => ⟨now, hnow, rfl⟩) fun _ => rfl
    · exact modifyStack_active _ fun _ => rfl
    · exact fun _ => rfl
  exact hframe

theorem counted {last : Store} (hp : st.pushCall? t = some (.ok st'))
    (h : st'.Settles last s es) :
    st.Settles (last.popCall t) s (.began t :: es ++ [.finished t]) := by
  have hquiet : lastPutBack s (.began t :: es ++ [.finished t]) =
      lastPutBack s (.began t :: es) := by
    rw [lastPutBack_append]
    exact Option.none_or
  rw [Settles, hquiet]
  refine frame (fun now hnow => ⟨now, hnow, rfl⟩) (fun _ => rfl) (abandoned hp h) ?_ ?_
  · exact modifyStack_active _ fun _ => rfl
  · exact fun _ => rfl

end Store.Settles

/-- Along a course each scope that had to replace a realm comes to put it back, or owes it yet. -/
theorem Course.settles (h : Course rule t m es m') (hm : m.store.Sound) :
    m.store.Settles m'.store s es := by
  induction h with
  | rest | moment | remembered | refused | started => exact .refl _ rfl
  | append h h' ih ih' =>
    refine (ih hm).append (ih' (h.sound hm)) (fun i hi => ?_)
      fun i scope => h'.scope_eq_or_ended (h.sound hm)
    rw [Option.eq_none_iff_forall_ne_some] at hi ⊢
    intro scope hscope
    rcases h.scope_eq_or_ended hm hscope with hscope | ⟨-, -, hscope⟩
    · exact hi scope hscope
    · exact hi scope.finish hscope
  | changed _ hc _ => exact .of_active (fun now hnow => ⟨now, hc.stack_eq hnow, rfl⟩) rfl
  | opened he =>
    obtain ⟨now, realm, -, rfl, -, hentry⟩ := hm.enter?_ok he
    exact .opened hentry
  | ended hi hf => exact .ended _ _
  | @crossed _ _ _ _ scope _ _ he hb ih =>
    obtain ⟨now, realm, hnow, rfl, hreg, hentry⟩ := hm.enter?_ok he
    have hstart := (hentry.sound hm hreg).beginCrossing scope
    exact .crossed hnow hentry (hb.extends hstart).2 (ih hstart)
  | abandoned hp _ ih => exact .abandoned hp (ih (hm.pushCall hp))
  | counted hp _ ih => exact .counted hp (ih (hm.pushCall hp))
  | onStack _ ih => exact ih hm

/-! ### Scopes that overlap -/

/-- The scope keeps the realm that was active where it was entered, if it had to replace that. -/
def Scope.KeepsOf (scope : Scope) (entry : Machine σ) : Prop :=
  ∃ now, entry.store.stack? scope.stack = some now ∧
    scope.previous = if now.active.id = scope.home then none else some now.active

/-- Once the scopes that a run entered on a stack have all ended, the realm put back last is active
there. It is the one that the last of these scopes to end, among those that had to replace a realm,
found at its entry; so it need not be the one from before, unless the scopes end in turn. -/
theorem active_after_scopes {before : Stack} (hm : m.After rule past)
    (hs : m.store.stack? s = some before) (fuel : Nat) (t : StackId) (p : Program σ α)
    (hended : ∀ i scope, m.store.scope? i = none →
      (p.run rule fuel t m).2.store.scope? i = some scope → scope.stack = s →
        scope.finished = true) :
    (∃ after, (p.run rule fuel t m).2.store.stack? s = some after ∧
      after.active = (lastPutBack s (p.events rule fuel t m)).getD before.active ∧
      (after.active = before.active ↔
        ∀ r ∈ lastPutBack s (p.events rule fuel t m), r = before.active) ∧
      (Disciplined s (p.events rule fuel t m) → after.active = before.active)) ∧
    (∀ i scope, .ended i scope ∈ p.events rule fuel t m → ∃ entry,
      .opened i scope entry ∈ past ++ p.events rule fuel t m ∧ scope.KeepsOf entry) ∧
    ∀ scope entry last exit, .exited scope entry last exit ∈ p.events rule fuel t m →
      scope.KeepsOf entry := by
  have hsound := hm.reachable.sound
  have hcourse : Course rule t m (p.events rule fuel t m) (p.run rule fuel t m).2 :=
    p.course fuel hsound
  have hlaw := (Machine.After.run fuel p t hm).lawful
  refine ⟨?_, ?_, ?_⟩
  · obtain ⟨after, hafter, hactive | ⟨i, scope, hnew, hi, ho⟩⟩ := hcourse.settles hsound before hs
    · refine ⟨after, hafter, hactive, ?_, fun hd => ?_⟩
      · rw [hactive]
        cases lastPutBack s (p.events rule fuel t m) <;> simp
      · obtain ⟨-, hn⟩ := hcourse.nested hsound (Store.nested_nil hs) hd.1
        rw [hd.2] at hn
        obtain ⟨after', hafter', hid, -⟩ := hn.active
        obtain rfl : after = after' := Option.some.inj (hafter.symm.trans hafter')
        obtain ⟨hsound', hext⟩ := hcourse.extends hsound
        exact hsound.active_eq_of_id hsound' hext hs hafter hid
    · obtain ⟨hstack, -, hf⟩ : scope.stack = s ∧ scope.hasSwitched = true ∧ scope.finished = false :=
        by simpa [Scope.outstanding] using ho
      rw [hended i scope hnew hi hstack] at hf
      cases hf
  · intro i scope he
    obtain ⟨entry, hopened⟩ := hcourse.opened_of_ended hsound hm.account he
    obtain ⟨-, now, realm, store, hnow, -, hentry⟩ := hlaw _ hopened
    exact ⟨entry, hopened, now, hnow, hentry.previous_eq⟩
  · intro scope entry last exit he
    obtain ⟨-, -, -, ⟨now, realm, store, hnow, -, hentry⟩, -⟩ :=
      hlaw _ (List.mem_append_right past he)
    exact ⟨now, hnow, hentry.previous_eq⟩

/-- Enters two scopes, and ends the one that it entered first before the other. -/
def Program.overlapping (first second : RealmId) : Program σ (Except Error Unit) :=
  .acting (.enter first) fun
    | .error e => .done (.error e)
    | .ok i => .acting (.enter second) fun
      | .error e => .done (.error e)
      | .ok j => .acting (.leave i) fun _ => .acting (.leave j) fun _ => .done (.ok ())

/-- The machine after it, with the main realm entered from the second one. -/
def Machine.overlapped : Machine Unit :=
  ((Program.overlapping ⟨⟨0⟩, 1⟩ (.main ⟨0⟩)).run .shortcut 0 ⟨0⟩ Machine.withTwoRealms).2

theorem active_after_overlapping : ∃ past before after r,
    Machine.withTwoRealms.After .shortcut past ∧
    Machine.withTwoRealms.store.stack? ⟨0⟩ = some before ∧
    (∀ i scope, Machine.withTwoRealms.store.scope? i = none →
      Machine.overlapped.store.scope? i = some scope → scope.stack = ⟨0⟩ →
        scope.finished = true) ∧
    lastPutBack ⟨0⟩ ((Program.overlapping ⟨⟨0⟩, 1⟩ (.main ⟨0⟩)).events .shortcut 0 ⟨0⟩
      Machine.withTwoRealms) = some r ∧
    Machine.overlapped.store.stack? ⟨0⟩ = some after ∧ after.active = r := by
  have hm : Machine.withTwoRealms.After .shortcut _ :=
    Machine.prepared_after .shortcut Program.twoRealms ()
  have hs : (Machine.withTwoRealms.store.stack? ⟨0⟩).isSome := by decide +kernel
  obtain ⟨before, hs⟩ := Option.isSome_iff_exists.mp hs
  have hall : Machine.overlapped.store.scopes.all (·.finished) = true := by decide +kernel
  have hended : ∀ i scope, Machine.withTwoRealms.store.scope? i = none →
      Machine.overlapped.store.scope? i = some scope → scope.stack = ⟨0⟩ →
        scope.finished = true := by
    intro i scope _ hi _
    exact Array.all_eq_true_iff_forall_mem.mp hall scope (Array.mem_of_getElem? hi)
  have hlast : (lastPutBack ⟨0⟩ ((Program.overlapping ⟨⟨0⟩, 1⟩ (.main ⟨0⟩)).events .shortcut 0 ⟨0⟩
      Machine.withTwoRealms)).isSome := by decide +kernel
  obtain ⟨r, hr⟩ := Option.isSome_iff_exists.mp hlast
  obtain ⟨⟨after, hafter, hactive, -⟩, -⟩ := active_after_scopes hm hs 0 ⟨0⟩ _ hended
  refine ⟨_, before, after, r, hm, hs, hended, hr, hafter, ?_⟩
  rw [hactive, hr, Option.getD_some]

/-- Two scopes that overlap have both ended, with no crossing open, and the realm that the second
one was entered from is active in the place of the one from before. -/
theorem active_lost_by_overlapping : Machine.withTwoRealms.Reachable .shortcut ∧
    (Machine.withTwoRealms.store.stack? ⟨0⟩).map (·.active.id) = some ⟨⟨0⟩, 0⟩ ∧
    Machine.withTwoRealms.store.scopes.size = 0 ∧
    Machine.overlapped.store.scopes.map (fun scope => (scope.stack, scope.finished)) =
      #[(⟨0⟩, true), (⟨0⟩, true)] ∧
    Machine.overlapped.store.underway.length = 0 ∧
    (Machine.overlapped.store.stack? ⟨0⟩).map (·.active.id) = some ⟨⟨0⟩, 1⟩ :=
  ⟨Machine.prepared_reachable .., by decide +kernel, by decide +kernel, by decide +kernel,
    by decide +kernel, by decide +kernel⟩

end Realms
