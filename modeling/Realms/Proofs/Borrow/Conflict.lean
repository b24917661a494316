import Realms.Proofs.Borrow.Agreement
import Realms.Proofs.Borrow.Quiet
import Realms.Proofs.Borrow.Refused

/-! Where borrowing is in the way. Main statement: user code always begins with nothing borrowed,
and no borrow is refused unless an engine was let go of while a function in one of its realms owned
a scope. Such a function can be dropped with its realm while a scope is left, and then the scope
that it owns is refused the stack that the other still borrows. -/

namespace Realms.Borrow

variable {σ α : Type}

/-- Operations are refused the cells that are borrowed, but whatever functions and foreign values
do, nothing is borrowed when their code begins and nothing is at the end. No borrow is refused,
neither on the way in nor on the way out of a panic, unless a function of a lost realm owns a scope;
so none is where no code lets go of an engine. There, and where foreign values answer from what they
were made with, the session does what its program does on a machine that knows no borrows. -/
theorem refused_only_where_realms_end (conduct : Conduct σ) (rule : EntryRule) (fuel : Nat)
    (p : Session σ α) (s : StackId) (store : Store)
    (code : Array (CallContext → Session σ (Except Error Value))) (memory : σ) :
    let w := World.opening store code memory
    let r := p.held conduct rule fuel s w
    Checks rule (level conduct rule fuel) ∧
    (∀ slot, r.2.holds slot = .free) ∧
    (∀ start ∈ r.2.starts, ∀ slot, start.holds slot = .free) ∧
    (r.1.Ordinary ∨ r.2.Burdened) ∧
    (p.Retains → w.Retains →
      ((∀ f q, (conduct f q).Retains) → r.1.Ordinary ∧ r.2.lost = []) ∧
      ∃ last, p.held .plain rule fuel s w = (.ended (p.plain.run rule fuel s w.machine).1, last) ∧
        (p.plain.run rule fuel s w.machine).2 = last.machine) := by
  intro w r
  have hopening (R : Prop) (hR : R → w.Retains) : Calm R w :=
    ⟨rfl, fun _ hstart => (List.not_mem_nil hstart).elim, hR⟩
  obtain ⟨hcalm, hend⟩ := held_quiet conduct False.elim rule fuel p False.elim s w
    (hopening False False.elim)
  refine ⟨checks_level conduct rule fuel, holds_free hcalm.holds,
    fun start hstart => congrFun (hcalm.starts start hstart), hend, fun hp hw => ⟨?_, ?_⟩⟩
  · intro hconduct
    obtain ⟨hcalm, hend⟩ := held_quiet conduct (fun _ => hconduct) rule fuel p (fun _ => hp) s w
      (hopening True fun _ => hw)
    have hretains := hcalm.retains trivial
    exact ⟨hend.resolve_right hretains.not_burdened, hretains.1⟩
  · exact held_plain rule fuel hp s w ⟨rfl, hw⟩

/-- Foreign values that make a realm whenever they are asked, and panic in its scope. -/
def Conduct.meddling : Conduct Unit := fun _ q => match q with
  | .predicate _ =>
    .acting (.newRealm ⟨0⟩ "other") fun _ =>
      .guarding (.within ⟨⟨0⟩, 1⟩ (.acting (.setProperty ⟨0⟩ "x" .null) fun _ => .panic "meddled"))
        fun (_ : Except String (Except Error Unit)) => .done false
  | .member _ => .done none

def askingMeddler : Session Unit Bool :=
  .acting (.newEngine .standard) fun e => .acting (.newStack e) fun s =>
    .acting (.newForeign (.recording false false false false)) fun f =>
      .onStack s (.acting (.isObject (.foreign f)) .done) .done

/-- Four questions, each with a panic that is caught in its answer. -/
theorem meddler_refused_nothing :
    (askingMeddler.held .meddling .shortcut 2 ⟨0⟩ (.opening .empty #[] ())).1.Ordinary ∧
    (askingMeddler.held .meddling .shortcut 2 ⟨0⟩ (.opening .empty #[] ())).2.starts.length = 4 ∧
    ∀ start ∈ (askingMeddler.held .meddling .shortcut 2 ⟨0⟩ (.opening .empty #[] ())).2.starts,
      ∀ slot, start.holds slot = .free := by
  have hconduct : ∀ f q, (Conduct.meddling f q).Retains
    | _, .predicate _ => fun _ => ⟨Session.retains_within fun _ => trivial, fun _ => trivial⟩
    | _, .member _ => trivial
  have hasking : askingMeddler.Retains := fun _ _ _ => ⟨fun _ => trivial, fun _ => trivial⟩
  have hopening : (World.opening .empty #[] () : World Unit).Retains :=
    ⟨rfl, fun _ hbody => (Array.not_mem_empty _ hbody).elim⟩
  obtain ⟨-, -, hstarts, -, hretaining⟩ := refused_only_where_realms_end .meddling .shortcut 2
    askingMeddler ⟨0⟩ .empty #[] ()
  exact ⟨((hretaining hasking hopening).1 hconduct).1, by decide +kernel, hstarts⟩

/-- Enters two realms on a stack, gives the first scope to a function in the realm of the second,
and lets go of all but the second scope. This is dropped when the rest has been done. -/
def parting (rest : Session Unit Unit) : Session Unit Unit :=
  .acting (.newEngine .standard) fun here => .acting (.newStack here) fun _ =>
    .acting (.newEngine .standard) fun e => .acting (.newRealm e "other") fun _ =>
      .acting (.newRealm e "third") fun _ => .acting (.newStack e) fun s =>
        .onStack s (.acting (.enter ⟨e, 1⟩) .done) fun
          | .error _ => .done ()
          | .ok t => .onStack s (.acting (.enter ⟨e, 2⟩) .done) fun
            | .error _ => .done ()
            | .ok u => .entrusting ⟨e, 2⟩ t (.forgetting e (.scoping u rest .done))

/-- The function ends with its realm while the stack is borrowed, and its scope cannot be left. -/
theorem parting_refused :
    ((parting (.done ())).held .plain .shortcut 1 ⟨0⟩ (.opening .empty #[] ())).1 =
      .conflict (.active ⟨1⟩) ∧
    ((parting (.panic "gone")).held .plain .shortcut 1 ⟨0⟩ (.opening .empty #[] ())).1 =
      .aborted :=
  ⟨by decide +kernel, by decide +kernel⟩

end Realms.Borrow
