import Realms.Frame
import Realms.Value

/-!
Managed objects. An object's realm, class and prototype are fixed when it is made; only its own
properties change. Properties keep the order in which their names were first set.
-/

namespace Realms

/-- The own properties of an object, each name once. -/
structure Properties where
  entries : List (String × Value)
  nodup : (entries.map Prod.fst).Nodup

namespace Properties

def empty : Properties := ⟨[], by simp⟩

def keys (p : Properties) : List String := p.entries.map Prod.fst

def get? (p : Properties) (name : String) : Option Value := p.entries.lookup name

def has (p : Properties) (name : String) : Bool := p.keys.contains name

/-- The entries with one value replaced in place, or added at the end. -/
def write (name : String) (value : Value) : List (String × Value) → List (String × Value)
  | [] => [(name, value)]
  | (n, v) :: rest => if n = name then (n, value) :: rest else (n, v) :: write name value rest

theorem keys_write (name : String) (value : Value) (entries : List (String × Value)) :
    (write name value entries).map Prod.fst =
      if name ∈ entries.map Prod.fst then entries.map Prod.fst
      else entries.map Prod.fst ++ [name] := by
  induction entries with
  | nil => simp [write]
  | cons entry rest ih =>
    by_cases h : entry.1 = name
    · simp [write, h]
    · have h' : ¬ name = entry.1 := fun e => h e.symm
      simp only [write, h, if_false, List.map_cons, ih, List.mem_cons, h', false_or]
      split <;> rfl

theorem nodup_write {name : String} {value : Value} {entries : List (String × Value)}
    (h : (entries.map Prod.fst).Nodup) : ((write name value entries).map Prod.fst).Nodup := by
  rw [keys_write]
  split
  · exact h
  · next hn =>
    rw [List.nodup_append]
    refine ⟨h, by simp, ?_⟩
    intro a ha b hb hab
    simp only [List.mem_singleton] at hb
    exact hn (hb ▸ hab ▸ ha)

def set (p : Properties) (name : String) (value : Value) : Properties :=
  ⟨write name value p.entries, nodup_write p.nodup⟩

theorem lookup_write (m name : String) (value : Value) (entries : List (String × Value)) :
    (write name value entries).lookup m = if m = name then some value else entries.lookup m := by
  induction entries with
  | nil =>
    by_cases h : m = name
    · simp [write, h]
    · simp [write, List.lookup_cons, h, beq_false_of_ne h]
  | cons entry rest ih =>
    obtain ⟨n, v⟩ := entry
    by_cases hn : n = name
    · subst hn
      by_cases h : m = n
      · simp [write, h]
      · simp [write, List.lookup_cons, h, beq_false_of_ne h]
    · by_cases h : m = n
      · subst h
        simp [write, hn]
      · simp [write, List.lookup_cons, hn, beq_false_of_ne h, ih]

@[simp] theorem get?_set (p : Properties) (m name : String) (value : Value) :
    (p.set name value).get? m = if m = name then some value else p.get? m :=
  lookup_write m name value p.entries

end Properties

/-- What a function object runs, with what an error trace says of it. -/
structure Function where
  name : String
  location : Option Location
  code : CodeId
  deriving DecidableEq

inductive ObjectClass where
  | ordinary
  | global
  | function (f : Function)
  deriving DecidableEq

def ObjectClass.name : ObjectClass → String
  | .ordinary => "Object"
  | .global => "global"
  | .function _ => "Function"

structure Object where
  realm : RealmId
  objectClass : ObjectClass
  prototype : Option ObjectId
  properties : Properties

namespace Object

def function? (o : Object) : Option Function := match o.objectClass with
  | .function f => some f
  | _ => none

def isCallable (o : Object) : Bool := o.function?.isSome

/-- The frame by which errors name the object: a function's name and location, or else the name of
the object's class. -/
def frame (o : Object) : Frame := match o.function? with
  | some f => ⟨f.name, f.location⟩
  | none => ⟨o.objectClass.name, none⟩

/-- The text of an object as a value. -/
def text (o : Object) : String := match o.function? with
  | some f => "function " ++ f.name ++ "() \x7b [native code] \x7d"
  | none => "[object " ++ o.objectClass.name ++ "]"

end Object

end Realms
