import Realms.Proofs.Balance

/-! The scopes of a store and their history. Each scope was entered once, and its record tells how;
it has ended once or not at all. Main statement: this holds at every moment of any history, together
with the balance of replacements, so no scope puts a realm back twice. -/

namespace Realms

variable {σ α : Type} {rule : EntryRule} {s t : StackId} {st st' : Store} {m m' : Machine σ}
  {scope : Scope} {i : ScopeId} {e : Event σ} {es past : List (Event σ)}

namespace Event

/-- A program entered the scope of the id. -/
def opens (i : ScopeId) : Event σ → Bool
  | .opened j _ _ => j = i
  | _ => false

/-- A program ended the scope of the id. -/
def ends (i : ScopeId) : Event σ → Bool
  | .ended j _ => j = i
  | _ => false

/-- Whether a crossing begins or, if not, ends. -/
def begins? : Event σ → Option Bool
  | .entered _ _ _ => some true
  | .exited _ _ _ _ => some false
  | _ => none

def enters (e : Event σ) : Bool := e.begins? = some true

def exits (e : Event σ) : Bool := e.begins? = some false

/-- No scope begins or ends. -/
def idle : Event σ → Bool
  | .opened _ _ _ | .ended _ _ | .entered _ _ _ | .exited _ _ _ _ => false
  | _ => true

end Event

/-- What a scope has become since it was entered. -/
def Scope.Since (entry scope : Scope) : Prop := scope = entry ∨ scope = entry.finish

theorem Scope.Since.trans {entry old : Scope} (h : entry.Since old) (h' : old.Since scope) :
    entry.Since scope := by
  rcases h with rfl | rfl
  · exact h'
  · exact .inr (h'.elim id id)

namespace Store

/-- The scopes of a store are accounted for by a history. -/
structure Account (st : Store) (past : List (Event σ)) : Prop where
  tallies : st.Tallies st.allScopes
  opened : ∀ i scope, st.scope? i = some scope →
    ∃ entry before, .opened i entry before ∈ past ∧ entry.Since scope
  entered : ∀ scope ∈ st.underway,
    scope.finished = false ∧ ∃ before start, .entered scope before start ∈ past
  exited : ∀ scope ∈ st.ended,
    ∃ entry before start, .entered entry before start ∈ past ∧ scope = entry.finish
  openings : ∀ i, past.countP (Event.opens i) = if (st.scope? i).isSome then 1 else 0
  endings : ∀ i, past.countP (Event.ends i) = if (st.scope? i).any (·.finished) then 1 else 0
  entries : past.countP Event.enters = st.underway.length + st.ended.length
  exits : past.countP Event.exits = st.ended.length

theorem SameScopes.scope? (h : st.SameScopes st') (i : ScopeId) : st'.scope? i = st.scope? i := by
  rw [Store.scope?, h.scopes]
  rfl

namespace Account

theorem empty : Store.empty.Account ([] : List (Event σ)) where
  tallies := ⟨fun s now h => by simp [Store.empty, Store.stack?] at h, fun _ h => nomatch h⟩
  opened i scope h := by simp [Store.empty, Store.scope?] at h
  entered _ h := nomatch h
  exited _ h := nomatch h
  openings i := by simp [Store.empty, Store.scope?]
  endings i := by simp [Store.empty, Store.scope?]
  entries := rfl
  exits := rfl

/-- Whatever leaves the scopes and the count of replacements alone. -/
theorem frame (h : st.Account past) (hs : st.SameScopes st') (ht : st'.Tallies st.allScopes) :
    st'.Account past where
  tallies := by rwa [hs.allScopes_eq]
  opened i scope hi := h.opened i scope (by rwa [← hs.scope?])
  entered := by rw [hs.underway]; exact h.entered
  exited := by rw [hs.ended]; exact h.exited
  openings i := by rw [h.openings, hs.scope?]
  endings i := by rw [h.endings, hs.scope?]
  entries := by rw [h.entries, hs.underway, hs.ended]
  exits := by rw [h.exits, hs.ended]

theorem modifyStack (h : st.Account past) (f : Stack → Stack)
    (hf : ∀ stack, (f stack).switches = stack.switches) : (st.modifyStack t f).Account past :=
  h.frame ⟨rfl, rfl, rfl⟩ (h.tallies.modifyStack f hf)

theorem pushCall (h : st.Account past) (hp : st.pushCall? t = some (.ok st')) :
    st'.Account past := by
  obtain ⟨_, _, -, -, -, rfl⟩ := pushCall?_ok hp
  exact h.modifyStack _ fun _ => rfl

/-- One event more, with what it does to the scopes. -/
theorem step (h : st.Account past) (ht : st'.Tallies st'.allScopes)
    (hopened : ∀ i scope, st'.scope? i = some scope →
      (∃ old, st.scope? i = some old ∧ old.Since scope) ∨ ∃ before, e = .opened i scope before)
    (hentered : ∀ scope ∈ st'.underway, scope ∈ st.underway ∨
      scope.finished = false ∧ ∃ before start, e = .entered scope before start)
    (hexited : ∀ scope ∈ st'.ended, scope ∈ st.ended ∨
      ∃ entry ∈ st.underway, scope = entry.finish)
    (hopenings : ∀ i, [e].countP (Event.opens i) + (if (st.scope? i).isSome then 1 else 0) =
      if (st'.scope? i).isSome then 1 else 0)
    (hendings : ∀ i, [e].countP (Event.ends i) +
      (if (st.scope? i).any (·.finished) then 1 else 0) =
        if (st'.scope? i).any (·.finished) then 1 else 0)
    (hentries : [e].countP Event.enters + st.underway.length + st.ended.length =
      st'.underway.length + st'.ended.length)
    (hexits : [e].countP Event.exits + st.ended.length = st'.ended.length) :
    st'.Account (past ++ [e]) where
  tallies := ht
  opened i scope hi := by
    obtain ⟨old, hold, hsince⟩ | ⟨before, rfl⟩ := hopened i scope hi
    · obtain ⟨entry, before, hmem, hentry⟩ := h.opened i old hold
      exact ⟨entry, before, List.mem_append_left _ hmem, hentry.trans hsince⟩
    · exact ⟨scope, before, by simp, .inl rfl⟩
  entered scope hscope := by
    obtain hold | ⟨hf, before, start, rfl⟩ := hentered scope hscope
    · obtain ⟨hf, before, start, hmem⟩ := h.entered scope hold
      exact ⟨hf, before, start, List.mem_append_left _ hmem⟩
    · exact ⟨hf, before, start, by simp⟩
  exited scope hscope := by
    obtain hold | ⟨entry, hentry, hfinish⟩ := hexited scope hscope
    · obtain ⟨entry, before, start, hmem, hfinish⟩ := h.exited scope hold
      exact ⟨entry, before, start, List.mem_append_left _ hmem, hfinish⟩
    · obtain ⟨-, before, start, hmem⟩ := h.entered entry hentry
      exact ⟨entry, before, start, List.mem_append_left _ hmem, hfinish⟩
  openings i := by rw [List.countP_append, h.openings, Nat.add_comm, hopenings]
  endings i := by rw [List.countP_append, h.endings, Nat.add_comm, hendings]
  entries := by rw [List.countP_append, h.entries, ← hentries]; omega
  exits := by rw [List.countP_append, h.exits, ← hexits, Nat.add_comm]

theorem note (h : st.Account past) (he : e.idle = true) : st.Account (past ++ [e]) := by
  have hcounts : (∀ i, e.opens i = false ∧ e.ends i = false) ∧ e.enters = false ∧
      e.exits = false := by
    cases e with
    | opened | ended | entered | exited => cases he
    | _ => exact ⟨fun _ => ⟨rfl, rfl⟩, rfl, rfl⟩
  obtain ⟨hids, henters, hexits⟩ := hcounts
  refine h.step h.tallies (fun i scope hi => .inl ⟨scope, hi, .inl rfl⟩) (fun _ => .inl)
    (fun _ => .inl) ?_ ?_ ?_ ?_
  · simp [hids]
  · simp [hids]
  · simp [henters]
  · simp [hexits]

theorem opening (h : st.Account past) {now : Stack} {realm : Realm} (before : Machine σ)
    (hnow : st.stack? s = some now) (hentry : st.Entry s now realm scope st') :
    (st'.addScope scope).Account (past ++ [.opened ⟨st'.scopes.size⟩ scope before]) := by
  have hsame := hentry.sameScopes
  have hfinished := hentry.scope_eq.2.2
  have hnew {i : ScopeId} (hi : i.index = st'.scopes.size) : st.scope? i = none := by
    rw [Store.scope?, hi, hsame.scopes]
    exact Array.getElem?_eq_none (Nat.le_refl _)
  have htallies : (st'.addScope scope).Tallies (scope :: st'.allScopes) := by
    rw [hsame.allScopes_eq]
    exact (h.tallies.enter hnow hentry).of_stack? fun _ => rfl
  refine h.step (htallies.perm perm_addScope) (fun i scope' hi => ?_)
    (fun scope hscope => .inl ?_) (fun scope hscope => .inl ?_) (fun i => ?_) (fun i => ?_) ?_ ?_
  · rw [scope?_addScope] at hi
    split at hi
    · next hindex =>
      cases hi
      exact .inr ⟨before, by rw [← hindex]⟩
    · exact .inl ⟨scope', by rwa [← hsame.scope?], .inl rfl⟩
  · rwa [← hsame.underway]
  · rwa [← hsame.ended]
  · by_cases hindex : i.index = st'.scopes.size
    · simp [scope?_addScope, Event.opens, ← hindex, hnew hindex]
    · have hne : ¬ (⟨st'.scopes.size⟩ : ScopeId) = i := fun h => hindex (h ▸ rfl)
      simp [scope?_addScope, Event.opens, hne, hindex, hsame.scope?]
  · by_cases hindex : i.index = st'.scopes.size
    · simp [scope?_addScope, Event.ends, hindex, hnew hindex, hfinished]
    · simp [scope?_addScope, Event.ends, hindex, hsame.scope?]
  · simp [Event.enters, Event.begins?, addScope, hsame.underway, hsame.ended]
  · simp [Event.exits, Event.begins?, addScope, hsame.ended]

theorem ending (h : st.Account past) (hi : st.scope? i = some scope)
    (hf : scope.finished = false) : (st.closeScope i scope).Account (past ++ [.ended i scope]) := by
  obtain ⟨rest, hbefore, hafter⟩ := perm_closeScope hi
  have hleft : (st.closeScope i scope).Tallies (scope.finish :: rest) :=
    ((h.tallies.perm hbefore).leave hf).of_stack? fun t => by
      rw [stack?_closeScope, stack?_restore]
  have hunderway : (st.closeScope i scope).underway = st.underway := restore_sameScopes.underway
  have hended : (st.closeScope i scope).ended = st.ended := restore_sameScopes.ended
  refine h.step (hleft.perm hafter) (fun j scope' hj => .inl ?_) (fun scope hscope => .inl ?_)
    (fun scope hscope => .inl ?_) (fun j => ?_) (fun j => ?_) ?_ ?_
  · rw [scope?_closeScope] at hj
    split at hj
    · obtain ⟨old, hold, rfl⟩ := Option.map_eq_some_iff.mp hj
      exact ⟨old, hold, .inr rfl⟩
    · exact ⟨scope', hj, .inl rfl⟩
  · rwa [← hunderway]
  · rwa [← hended]
  · by_cases hij : i = j <;> simp [scope?_closeScope, Event.opens, hij]
  · by_cases hij : i = j
    · simp [scope?_closeScope, Event.ends, ← hij, hi, hf, Scope.finish]
    · simp [scope?_closeScope, Event.ends, hij]
  · simp [Event.enters, Event.begins?, hunderway, hended]
  · simp [Event.exits, Event.begins?, hended]

theorem entering (h : st.Account past) {now : Stack} {realm : Realm} (before start : Machine σ)
    (hnow : st.stack? s = some now) (hentry : st.Entry s now realm scope st') :
    (st'.beginCrossing scope).Account (past ++ [.entered scope before start]) := by
  have hsame := hentry.sameScopes
  have htallies : (st'.beginCrossing scope).Tallies (scope :: st'.allScopes) := by
    rw [hsame.allScopes_eq]
    exact (h.tallies.enter hnow hentry).of_stack? fun _ => rfl
  refine h.step (htallies.perm perm_beginCrossing) (fun i scope' hi => .inl ⟨scope', ?_, .inl rfl⟩)
    (fun scope' hscope => ?_) (fun scope' hscope => .inl ?_) (fun i => ?_) (fun i => ?_) ?_ ?_
  · rwa [← hsame.scope?]
  · obtain rfl | hscope := List.mem_cons.mp hscope
    · exact .inr ⟨hentry.scope_eq.2.2, before, start, rfl⟩
    · exact .inl (hsame.underway ▸ hscope)
  · exact hsame.ended ▸ hscope
  · simp [Event.opens, hsame.scope?]
  · simp [Event.ends, hsame.scope?]
  · simp [Event.enters, Event.begins?, beginCrossing, hsame.underway, hsame.ended]
    omega
  · simp [Event.exits, Event.begins?, beginCrossing, hsame.ended]

theorem exiting (h : st.Account past) {outer : List Scope} (before last after : Machine σ)
    (hu : st.underway = scope :: outer) :
    (st.endCrossing scope).Account (past ++ [.exited scope before last after]) := by
  have hmem : scope ∈ st.underway := by rw [hu]; exact List.mem_cons_self
  obtain ⟨rest, hbefore, hafter⟩ := perm_endCrossing hu
  have hleft : (st.endCrossing scope).Tallies (scope.finish :: rest) :=
    ((h.tallies.perm hbefore).leave (h.entered scope hmem).1).of_stack? fun t => by
      rw [stack?_endCrossing, stack?_restore]
  have hunderway : (st.endCrossing scope).underway = outer :=
    restore_sameScopes.underway.trans (congrArg List.tail hu)
  have hended : (st.endCrossing scope).ended = scope.finish :: st.ended := restore_sameScopes.ended
  refine h.step (hleft.perm hafter) (fun i scope' hi => .inl ⟨scope', ?_, .inl rfl⟩)
    (fun scope' hscope => .inl ?_) (fun scope' hscope => ?_) (fun i => ?_) (fun i => ?_) ?_ ?_
  · rwa [scope?_endCrossing] at hi
  · rw [hu]
    exact List.mem_cons_of_mem _ (hunderway ▸ hscope)
  · rw [hended] at hscope
    obtain rfl | hscope := List.mem_cons.mp hscope
    · exact .inr ⟨scope, hmem, rfl⟩
    · exact .inl hscope
  · simp [Event.opens]
  · simp [Event.ends]
  · simp [Event.enters, Event.begins?, hunderway, hended, hu]
    omega
  · simp [Event.exits, Event.begins?, hended, Nat.add_comm]

end Account

end Store

/-! ### The account along a history -/

theorem Store.pushCall?_underway (hp : st.pushCall? s = some (.ok st')) :
    st'.underway = st.underway := by
  obtain ⟨_, _, -, -, -, rfl⟩ := Store.pushCall?_ok hp
  rfl

/-- At each moment the scopes are accounted for by what has happened. -/
def Event.Accounted (past : List (Event σ)) : Event σ → Prop
  | .moment _ m => m.store.Account past
  | _ => True

theorem foldl_snoc : es.foldl (fun past e => past ++ [e]) past = past ++ es := by
  induction es generalizing past with
  | nil => simp
  | cons e es ih => simp [ih]

/-- The account goes on along a course, and at its end the crossings in progress are as before. -/
theorem Course.account (h : Course rule s m es m') (hm : m.store.Sound)
    (ha : m.store.Account past) :
    Along (fun past e => past ++ [e]) Event.Accounted past es ∧ m'.store.Account (past ++ es) ∧
      m'.store.underway = m.store.underway := by
  induction h generalizing past with
  | rest | remembered => exact ⟨trivial, by simpa using ha, rfl⟩
  | moment => exact ⟨⟨ha, trivial⟩, ha.note rfl, rfl⟩
  | refused | started => exact ⟨⟨trivial, trivial⟩, ha.note rfl, rfl⟩
  | append h h' ih ih' =>
    obtain ⟨halong, ha', hu⟩ := ih hm ha
    obtain ⟨halong', ha'', hu'⟩ := ih' (h.sound hm) ha'
    refine ⟨along_append.mpr ⟨halong, by rwa [foldl_snoc]⟩, ?_, hu'.trans hu⟩
    rwa [← List.append_assoc]
  | changed code hc _ =>
    refine ⟨trivial, ?_, hc.untouched.underway⟩
    simpa using ha.frame hc.untouched.toSameScopes (ha.tallies.change hc)
  | @opened _ m _ _ _ he =>
    obtain ⟨now, realm, hnow, rfl, -, hentry⟩ := hm.enter?_ok he
    exact ⟨⟨trivial, trivial⟩, ha.opening m hnow hentry, hentry.sameScopes.underway⟩
  | ended hi hf => exact ⟨⟨trivial, trivial⟩, ha.ending hi hf, Store.restore_sameScopes.underway⟩
  | @crossed _ m last _ scope store es he _ ih =>
    obtain ⟨now, realm, hnow, rfl, hreg, hentry⟩ := hm.enter?_ok he
    obtain ⟨halong, hbody, hu⟩ := ih ((hentry.sound hm hreg).beginCrossing scope)
      (ha.entering m { m with store := store.beginCrossing scope } hnow hentry)
    -- the body leaves its crossing innermost
    have hexit := hbody.exiting m last { last with store := last.store.endCrossing scope } hu
    refine ⟨along_append.mpr ⟨⟨trivial, halong⟩, trivial, trivial⟩, by simpa using hexit, ?_⟩
    exact (Store.restore_sameScopes.underway.trans (congrArg List.tail hu)).trans
      hentry.sameScopes.underway
  | @abandoned u _ _ _ _ hp _ ih =>
    have hbegan := (ha.pushCall hp).note (e := .began u) rfl
    obtain ⟨halong, hlast, hu⟩ := ih (hm.pushCall hp) hbegan
    exact ⟨⟨trivial, halong⟩, by simpa using hlast, hu.trans (Store.pushCall?_underway hp)⟩
  | @counted u _ _ _ _ hp _ ih =>
    have hbegan := (ha.pushCall hp).note (e := .began u) rfl
    obtain ⟨halong, hlast, hu⟩ := ih (hm.pushCall hp) hbegan
    have hpopped : (Store.popCall _ u).Account _ := hlast.modifyStack _ fun _ => rfl
    exact ⟨along_append.mpr ⟨⟨trivial, halong⟩, trivial, trivial⟩,
      by simpa using hpopped.note (e := .finished u) rfl, hu.trans (Store.pushCall?_underway hp)⟩
  | onStack _ ih => exact ih hm ha

namespace Machine

theorem After.account (h : m.After rule past) : m.store.Account past := by
  induction h with
  | start => exact Store.Account.empty
  | run fuel p s h ih =>
    have hm := h.reachable.sound
    have hcourse : Course rule s _ _ _ := p.course fuel hm
    exact (hcourse.account hm ih).2.1
  | moment fuel p s h hes ih =>
    have hm := h.reachable.sound
    have hcourse : Course rule s _ _ _ := p.course fuel hm
    obtain ⟨halong, -⟩ := hcourse.account hm ih
    rw [hes] at halong
    exact foldl_snoc ▸ halong.at

theorem After.lawful (h : m.After rule past) : ∀ e ∈ past, e.Lawful := by
  induction h with
  | start => simp
  | run fuel p s h ih =>
    have hm := h.reachable.sound
    have hcourse : Course rule s _ _ _ := p.course fuel hm
    intro e he
    exact (List.mem_append.mp he).elim (ih e) (hcourse.lawful hm e)
  | moment fuel p s h hes ih =>
    have hm := h.reachable.sound
    have hcourse : Course rule s _ _ _ := p.course fuel hm
    intro e he
    refine (List.mem_append.mp he).elim (ih e) fun he => hcourse.lawful hm e ?_
    rw [hes]
    exact List.mem_append_left _ he

end Machine

/-! ### What scopes show -/

/-- What a scope shows of itself, given the machine in which it was entered. -/
structure Scope.Shows (scope : Scope) (before : Machine σ) : Prop where
  switched : scope.hasSwitched = true ↔ before.active? scope.stack ≠ some scope.home
  entered : scope.state = .entered ↔ scope.finished = false ∧ scope.hasSwitched = true
  notEntered : scope.state = .notEntered ↔ scope.finished = false ∧ scope.hasSwitched = false
  left : scope.state = .left ↔ scope.finished = true

theorem Scope.shows {before : Machine σ} (h : scope.hasSwitched = true ↔
    before.active? scope.stack ≠ some scope.home) : scope.Shows before where
  switched := h
  entered := by cases hf : scope.finished <;> cases hs : scope.hasSwitched <;> simp [state, hf, hs]
  notEntered := by
    cases hf : scope.finished <;> cases hs : scope.hasSwitched <;> simp [state, hf, hs]
  left := by cases hf : scope.finished <;> cases hs : scope.hasSwitched <;> simp [state, hf, hs]

theorem Scope.Since.shows {entry : Scope} {now : Stack} {realm : Realm} {before : Machine σ}
    (h : entry.Since scope) (hnow : before.store.stack? entry.stack = some now)
    (hentry : before.store.Entry entry.stack now realm entry st') : scope.Shows before := by
  have hactive : before.active? entry.stack = some now.active.id := by
    rw [Machine.active?, hnow, Option.map_some]
  have hswitched : entry.hasSwitched = true ↔ before.active? entry.stack ≠ some entry.home := by
    rw [hactive, hasSwitched, hentry.previous_eq]
    split <;> simp_all
  rcases h with rfl | rfl <;> exact Scope.shows hswitched

/-- In any history the replacements on a stack are balanced by its scopes, and its active realm is
one of its engine's. Each scope was entered once, shows how, and has ended at most once; to end it
again changes nothing. -/
theorem scopes_accounted (h : m.After rule past) :
    (∀ s now, m.store.stack? s = some now → m.store.HasActive s now.active.id ∧
      now.switches = 2 * m.store.allScopes.countP (Scope.restored s) +
        m.store.allScopes.countP (Scope.outstanding s)) ∧
    (∀ i scope, m.store.scope? i = some scope →
      (∃ entry before, .opened i entry before ∈ past ∧ entry.Since scope ∧ scope.Shows before) ∧
      past.countP (Event.opens i) = 1 ∧
      past.countP (Event.ends i) = (if scope.finished then 1 else 0) ∧
      (scope.finished = true → m.store.leaveScope? i = some ((), m.store))) ∧
    (∀ scope ∈ m.store.underway, scope.finished = false ∧
      ∃ before start, .entered scope before start ∈ past ∧ scope.Shows before) ∧
    (∀ scope ∈ m.store.ended, ∃ entry before start, .entered entry before start ∈ past ∧
      scope = entry.finish ∧ scope.Shows before) ∧
    past.countP Event.enters = m.store.underway.length + m.store.ended.length ∧
    past.countP Event.exits = m.store.ended.length := by
  have haccount := h.account
  have hlaw := h.lawful
  refine ⟨fun s now hnow => ?_, fun i scope hi => ?_, fun scope hscope => ?_,
    fun scope hscope => ?_, haccount.entries, haccount.exits⟩
  · exact ⟨h.reachable.sound.hasActive hnow, haccount.tallies.switches s now hnow⟩
  · refine ⟨?_, by rw [haccount.openings, hi]; rfl, by rw [haccount.endings, hi]; rfl, ?_⟩
    · obtain ⟨entry, before, hmem, hsince⟩ := haccount.opened i scope hi
      obtain ⟨-, now, realm, store, hnow, -, hentry⟩ := hlaw _ hmem
      exact ⟨entry, before, hmem, hsince, hsince.shows hnow hentry⟩
    · intro hf
      simp [Store.leaveScope?, hi, hf]
  · obtain ⟨hf, before, start, hmem⟩ := haccount.entered scope hscope
    obtain ⟨-, now, realm, store, hnow, -, hentry, -⟩ := hlaw _ hmem
    exact ⟨hf, before, start, hmem, Scope.Since.shows (.inl rfl) hnow hentry⟩
  · obtain ⟨entry, before, start, hmem, hfinish⟩ := haccount.exited scope hscope
    obtain ⟨-, now, realm, store, hnow, -, hentry, -⟩ := hlaw _ hmem
    exact ⟨entry, before, start, hmem, hfinish, Scope.Since.shows (.inr hfinish) hnow hentry⟩

/-- Enters two scopes, ends the outer one twice and keeps the inner one, and panics in a crossing
of its own. -/
def Program.tangling : Program σ (Except String (Except Error Unit)) := do
  match ← act (.enter ⟨⟨0⟩, 1⟩) with
  | .error e => pure (.ok (.error e))
  | .ok first =>
    let _ ← act (.enter (.main ⟨0⟩))
    act (.leave first)
    act (.leave first)
    guard (cross ⟨⟨0⟩, 1⟩ ⟨"lost", none⟩ (.panic "lost"))

/-- The machine after it. -/
def Machine.tangled : Machine Unit :=
  (Program.tangling.run .shortcut 0 ⟨0⟩ Machine.withTwoRealms).2

theorem tangled_accounted :
    ∃ past, Machine.tangled.After .shortcut past ∧ past.countP (Event.ends ⟨0⟩) = 1 ∧
      ∃ now, Machine.tangled.store.stack? ⟨0⟩ = some now ∧ now.switches = 2 * 2 + 1 := by
  have hm : Machine.tangled.After .shortcut _ :=
    .run 0 Program.tangling ⟨0⟩ (Machine.prepared_after .shortcut Program.twoRealms ())
  have hs : (Machine.tangled.store.stack? ⟨0⟩).isSome := by decide +kernel
  have hi : (Machine.tangled.store.scope? ⟨0⟩).any (·.finished) := by decide +kernel
  obtain ⟨now, hnow⟩ := Option.isSome_iff_exists.mp hs
  obtain ⟨scope, hscope, hf⟩ := (Option.any_eq_true _ _).mp hi
  obtain ⟨hbalance, hscopes, -⟩ := scopes_accounted hm
  refine ⟨_, hm, ?_, now, hnow, ?_⟩
  · rw [(hscopes ⟨0⟩ scope hscope).2.2.1, if_pos hf]
  · have hrestored : Machine.tangled.store.allScopes.countP (Scope.restored ⟨0⟩) = 2 := by
      decide +kernel
    have houtstanding : Machine.tangled.store.allScopes.countP (Scope.outstanding ⟨0⟩) = 1 := by
      decide +kernel
    rw [(hbalance ⟨0⟩ now hnow).2, hrestored, houtstanding]

end Realms
