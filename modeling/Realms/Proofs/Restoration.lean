import Realms.Proofs.Course

/-! The realm that is active when a crossing is over. A crossing that had to replace the active
realm puts it back, whatever its body has done; one that found its home active keeps nothing, and
passes on what its body leaves. Main statement: the realm from before is active again exactly if the
home differed from it or the body itself left it active. -/

namespace Realms

variable {σ α : Type} {rule : EntryRule} {s : StackId} {m : Machine σ}

/-- A call or crossing is over with an exit, unless it changed nothing. -/
def Program.Exits (rule : EntryRule) (fuel : Nat) (s : StackId) (m : Machine σ)
    (p : Program σ α) : Prop :=
  (p.run rule fuel s m).2 = m ∨
    ∃ scope last, .exited scope m last (p.run rule fuel s m).2 ∈ p.events rule fuel s m

theorem Run.crossing_exits {home : RealmId} {origin : Frame} {body : Run σ (Except Error α)}
    {events : Observed σ} : (Run.crossing rule home origin body s m).2 = m ∨
      ∃ scope last, .exited scope m last (Run.crossing rule home origin body s m).2 ∈
        Run.crossingEvents rule home body events s m := by
  rcases Run.crossing_cases home origin body events with
    ⟨hr, -⟩ | ⟨e, -, hr, -⟩ | ⟨scope, store, outcome, last, -, -, hr, he⟩
  · exact .inl (congrArg Prod.snd hr)
  · exact .inl (congrArg Prod.snd hr)
  · rw [hr, he]
    exact .inr ⟨scope, last, List.mem_append_right _ (List.mem_singleton_self _)⟩

theorem Run.calling_exits {invoke : Invocation σ} {observe : Observation σ} {callee : Value}
    {arguments : List Value} : (Run.calling rule invoke callee arguments s m).2 = m ∨
      ∃ scope last, .exited scope m last (Run.calling rule invoke callee arguments s m).2 ∈
        Run.callingEvents rule invoke observe callee arguments s m := by
  rcases Run.calling_cases invoke observe callee arguments with
    ⟨hr, -⟩ | ⟨o, object, f, -, -, -, hr, he⟩
  · exact .inl hr
  · rw [hr, he]
    exact Run.crossing_exits

namespace Program

variable {fuel : Nat}

/-- A program that is one operation ends where the operation does. -/
theorem exits_of_operation {r : Outcome α × Machine σ} {p : Program σ α} {es es' : List (Event σ)}
    (h : r.2 = m ∨ ∃ scope last, .exited scope m last r.2 ∈ es)
    (hrun : p.run rule fuel s m = Outcome.andThen r fun a m => (.done a, m))
    (hes : p.events rule fuel s m = .moment s m :: es ++ es') : p.Exits rule fuel s m := by
  have hlast : (p.run rule fuel s m).2 = r.2 := by rw [hrun, Outcome.andThen_done]
  rw [Exits, hlast, hes]
  rcases h with h | ⟨scope, last, h⟩
  · exact .inl h
  · exact .inr ⟨scope, last, List.mem_append_left _ (List.mem_cons_of_mem _ h)⟩

theorem call_exits (callee : Value) (arguments : List Value) :
    (call callee arguments : Program σ _).Exits rule fuel s m :=
  exits_of_operation Run.calling_exits rfl rfl

theorem cross_exits (home : RealmId) (origin : Frame) (body : Program σ (Except Error α)) :
    (cross home origin body).Exits rule fuel s m :=
  exits_of_operation Run.crossing_exits rfl rfl

theorem crossTo_exits (target : ObjectId) (body : Program σ (Except Error α)) :
    (crossTo target body).Exits rule fuel s m := by
  have hevents : (crossTo target body).events rule fuel s m =
      .moment s m :: Outcome.follow (Run.reading (.object target) s m) fun object m =>
        (cross object.realm object.frame body).events rule fuel s m := rfl
  rw [Exits, crossTo_run, hevents]
  cases ho : m.store.object? target with
  | none =>
    rw [Run.reading_unknown ho]
    exact .inl rfl
  | some object =>
    rw [Run.reading_object ho]
    have hcross : (cross object.realm object.frame body).Exits rule fuel s m := cross_exits ..
    rcases hcross with h | ⟨scope, last, h⟩
    · exact .inl h
    · exact .inr ⟨scope, last, List.mem_cons_of_mem _ h⟩

end Program

/-- Each call or crossing that did anything is over with an exit, and there the realm from before is
active again exactly if it had been replaced at the entry or is the one that the body left. -/
theorem active_after_crossing (hm : m.Reachable rule) (fuel : Nat) :
    (∀ callee arguments, (Program.call callee arguments : Program σ _).Exits rule fuel s m) ∧
    (∀ {α : Type} home origin (body : Program σ (Except Error α)),
      (Program.cross home origin body).Exits rule fuel s m) ∧
    (∀ {α : Type} target (body : Program σ (Except Error α)),
      (Program.crossTo target body).Exits rule fuel s m) ∧
    ∀ {α : Type} (p : Program σ α) scope entry last exit,
      .exited scope entry last exit ∈ p.events rule fuel s m →
      ∃ before left after, entry.store.stack? scope.stack = some before ∧
        last.store.stack? scope.stack = some left ∧ exit.store.stack? scope.stack = some after ∧
        (after.active = before.active ↔
          before.active.id ≠ scope.home ∨ left.active = before.active) := by
  refine ⟨?_, ?_, ?_, ?_⟩
  · exact Program.call_exits
  · intro α home origin body
    exact Program.cross_exits home origin body
  · intro α target body
    exact Program.crossTo_exits target body
  · intro α p scope entry last exit he
    obtain ⟨hentry, hlast, hext, ⟨before, realm, store, hbefore, -, h⟩, rfl⟩ :=
      (p.course fuel hm.sound).lawful hm.sound _ he
    obtain ⟨left, hleft, -⟩ := hext.stack _ _ hbefore
    refine ⟨before, left, left.restore scope.previous, hbefore, hleft, ?_, ?_⟩
    · rw [Store.stack?_endCrossing, if_pos rfl, hleft]
      rfl
    · rw [Stack.active_restore, h.previous_eq]
      split
      · next hid => simp [hid]
      · next hid => simp [hid]

/-- Crosses into a realm, enters the other one there and never leaves it. -/
def Program.straying (home other : RealmId) : Program σ (Except Error ScopeId) :=
  cross home ⟨"straying", none⟩ (act (.enter other))

theorem active_after_straying : Machine.withTwoRealms.Reachable .shortcut ∧
    ∃ scope entry last exit, .exited scope entry last exit ∈
        (Program.straying ⟨⟨0⟩, 1⟩ (.main ⟨0⟩)).events .shortcut 0 ⟨0⟩ Machine.withTwoRealms ∧
      ∃ before left after, entry.store.stack? scope.stack = some before ∧
        last.store.stack? scope.stack = some left ∧ exit.store.stack? scope.stack = some after ∧
        (after.active = before.active ↔
          before.active.id ≠ scope.home ∨ left.active = before.active) := by
  have hm : Machine.withTwoRealms.Reachable .shortcut := Machine.prepared_reachable ..
  have hexit : ((Program.straying ⟨⟨0⟩, 1⟩ (.main ⟨0⟩)).events .shortcut 0 ⟨0⟩
      Machine.withTwoRealms).any (· matches .exited ..) := by decide +kernel
  obtain ⟨e, he, hexit⟩ := List.any_eq_true.mp hexit
  cases e with
  | exited scope entry last exit =>
    exact ⟨hm, scope, entry, last, exit, he,
      (active_after_crossing hm 0).2.2.2 _ scope entry last exit he⟩
  | _ => cases hexit

/-- A crossing into the active realm does not bring it back. -/
theorem active_not_restored : Machine.withTwoRealms.Reachable .shortcut ∧
    ((Program.straying (.main ⟨0⟩) ⟨⟨0⟩, 1⟩).run .shortcut 0 ⟨0⟩ Machine.withTwoRealms).1 =
      .done (.ok ⟨0⟩) ∧
    (Machine.withTwoRealms.store.stack? ⟨0⟩).map (·.active.id) = some ⟨⟨0⟩, 0⟩ ∧
    (((Program.straying (.main ⟨0⟩) ⟨⟨0⟩, 1⟩).run .shortcut 0 ⟨0⟩
      Machine.withTwoRealms).2.store.stack? ⟨0⟩).map (·.active.id) = some ⟨⟨0⟩, 1⟩ :=
  ⟨Machine.prepared_reachable .., by decide +kernel, by decide +kernel, by decide +kernel⟩

end Realms
