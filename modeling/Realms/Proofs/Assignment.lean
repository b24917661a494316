import Mathlib.Data.List.Induction
import Realms.Proofs.Isolation

/-! Sets of properties. What a lookup finds is the first own value along a prototype chain, so a
set is seen by the lookups of its name that reach the object, and by no others. Main statement:
this, for one set; the own properties of an object after any number of sets, whatever happens to
other objects in between; and the lookup of a global as one that starts at the global object of the
active realm. -/

namespace Realms

variable {σ : Type} {rule : EntryRule} {m : Machine σ}

/-! ### The own properties of an object -/

namespace Properties

variable (p : Properties) (sets : List (String × Value)) (name : String) (value : Value)

/-- The properties after sets one after the other. -/
def after : Properties := sets.foldl (fun p set => p.set set.1 set.2) p

@[simp] theorem after_nil : p.after [] = p := rfl

theorem after_concat : p.after (sets ++ [(name, value)]) = (p.after sets).set name value := by
  rw [after, List.foldl_append]
  rfl

end Properties

namespace Store

variable {st st' now : Store} {o p q : ObjectId} {object object' : Object} {name n : String}
  {value v : Value} {old : Option Value} {chain : List ObjectId} {sets : List (String × Value)}
  {answers : List (Option Value)}

/-! ### One set -/

theorem object?_of_setProperty (h : st.setProperty? o name value = some (old, st'))
    (ho : st.object? o = some object) (q : ObjectId) : st'.object? q =
      if q = o then some { object with properties := object.properties.set name value }
      else st.object? q := by
  simp only [setProperty?, ho, Option.bind_eq_bind, Option.bind_some, Option.some.injEq] at h
  cases h
  rw [object?, Array.getElem?_modify]
  by_cases hq : q = o
  · subst hq
    simp [show st.objects[q.index]? = some object from ho]
  · have hne : o.index ≠ q.index := fun h => hq (congrArg ObjectId.mk h.symm)
    rw [if_neg hne, if_neg hq]
    rfl

theorem PrototypeChain.keep (h : st.PrototypeChain o chain) (hk : st.KeepsShapes st') :
    st'.PrototypeChain o chain := by
  induction h with
  | root ho hp =>
    obtain ⟨object', ho', hsame⟩ := hk _ _ ho
    exact .root ho' (hsame.prototype.trans hp)
  | link ho hp _ ih =>
    obtain ⟨object', ho', hsame⟩ := hk _ _ ho
    exact .link ho' (hsame.prototype.trans hp) ih

/-- Sets of one object and the answers to them. In between, all but that object may be written to,
and things be made. -/
inductive Sets (o : ObjectId) (st : Store) :
    List (String × Value) → List (Option Value) → Store → Prop
  | none : Sets o st [] [] st
  | set {sets : List (String × Value)} {answers : List (Option Value)} {now st' : Store}
      {name : String} {value : Value} {old : Option Value} : Sets o st sets answers now →
      now.setProperty? o name value = some (old, st') →
      Sets o st (sets ++ [(name, value)]) (answers ++ [old]) st'
  | between {sets : List (String × Value)} {answers : List (Option Value)} {now st' : Store} :
      Sets o st sets answers now → now.Evolves (fun _ q => q ≠ o) st' → Sets o st sets answers st'

theorem Evolves.object?_spared (h : st.Evolves (fun _ q => q ≠ o) st') (hst : st.Grounded)
    (ho : st.object? o = some object) : st'.object? o = some object := by
  induction h with
  | refl => exact ho
  | step hbefore hc ha ih =>
    exact (hc (hbefore.grounded hst).1).object?_of_ne ih fun htarget => ha o htarget rfl

namespace Sets

theorem grounded (h : st.Sets o sets answers st') (hst : st.Grounded) : st'.Grounded := by
  induction h with
  | none => exact hst
  | set _ hset ih => exact ((setProperty?_heapChange hset).grounded ih).1
  | between _ he ih => exact (he.grounded ih).1

/-- After the sets, the object is as it was but for its properties, which are the sets one after the
other. -/
theorem object? (h : st.Sets o sets answers st') (hst : st.Grounded)
    (ho : st.object? o = some object) : st'.object? o =
      some { object with properties := object.properties.after sets } := by
  induction h with
  | none => exact ho
  | set _ hset ih => rw [object?_of_setProperty hset ih, if_pos rfl, Properties.after_concat]
  | between hbefore he ih => exact he.object?_spared (hbefore.grounded hst) ih

end Sets

end Store

end Realms
