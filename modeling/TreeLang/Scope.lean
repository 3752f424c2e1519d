import TreeLang.DataType
import TreeLang.Identity

namespace TreeLang

-- A named, typed place for a value.
structure Variable where
  id : VariableId
  name : String
  type : DataType
deriving DecidableEq, Repr

def Variable.text (v : Variable) : String :=
  s!"{v.name}:{v.type.text}"

-- The declarations of one lexical level, in the order they were made.
structure Scope where
  declared : List Variable
deriving DecidableEq, Repr

namespace Scope

def find? (scope : Scope) (name : String) : Option Variable :=
  scope.declared.find? (·.name = name)

def size (scope : Scope) : Nat :=
  scope.declared.length

-- Output lists a scope by name, so it does not show the order of declaration.
def sorted (scope : Scope) : List Variable :=
  scope.declared.mergeSort fun v w => decide (v.name ≤ w.name)

def text (scope : Scope) : String :=
  "(" ++ ", ".intercalate (scope.sorted.map Variable.text) ++ ")"

end Scope

end TreeLang
