import Imperative.Tree.Agreement
import Std.Data.ExtTreeMap

/-! Environments: finite maps from names to numbers and procedures.  Two environments are equal
exactly when they bind the same names to the same things, in whatever order that was done. -/

namespace Imperative

/-- What a name stands for. -/
inductive Binding where
  | number (value : Number)
  | procedure (p : Procedure)
deriving DecidableEq, Repr

namespace Binding

/-- The number that is bound, if it is one. -/
def number? : Binding → Option Number
  | number x => some x
  | procedure _ => none

/-- Whether two bindings agree: numbers as numbers, procedures as trees. -/
def agrees : Binding → Binding → Bool
  | number x, number y => x.equals y
  | procedure p, procedure q => p.agrees q
  | _, _ => false

end Binding

/-- A finite map from names to bindings. -/
structure Environment where
  bindings : Std.ExtTreeMap String Binding

namespace Environment

/-- The environment that binds nothing. -/
def empty : Environment := ⟨∅⟩

/-- Binds a name, in place of what it was bound to before. -/
def bind (env : Environment) (name : String) (b : Binding) : Environment :=
  ⟨env.bindings.insert name b⟩

/-- What a name is bound to. -/
def lookup (env : Environment) (name : String) : Option Binding := env.bindings[name]?

/-- The number that a name is bound to, if it is one. -/
def number? (env : Environment) (name : String) : Option Number :=
  (env.lookup name).bind Binding.number?

/-- How many names are bound. -/
def size (env : Environment) : Nat := env.bindings.size

/-- Whether no name is bound. -/
def isEmpty (env : Environment) : Bool := env.bindings.isEmpty

/-- The names and their bindings, in the order of the names. -/
def toList (env : Environment) : List (String × Binding) := env.bindings.toList

/-- The environment of these names and numbers alone; of equal names the last counts. -/
def ofParameters (parameters : List (String × Number)) : Environment :=
  parameters.foldl (fun env (name, x) => env.bind name (.number x)) empty

/-- Whether two environments bind the same names to bindings that agree. -/
def agrees (a b : Environment) : Bool :=
  a.size == b.size && a.toList.all fun (name, x) => (b.lookup name).any fun y => x.agrees y

@[ext] theorem ext {a b : Environment} (h : ∀ name, a.lookup name = b.lookup name) : a = b := by
  obtain ⟨a⟩ := a
  obtain ⟨b⟩ := b
  exact congrArg mk (Std.ExtTreeMap.ext_getElem? h)

@[simp] theorem lookup_empty (name : String) : empty.lookup name = none := by
  simp [lookup, empty]

theorem lookup_bind (env : Environment) (name other : String) (b : Binding) :
    (env.bind name b).lookup other = if name = other then some b else env.lookup other := by
  simp [lookup, bind, Std.ExtTreeMap.getElem?_insert]

end Environment
end Imperative
