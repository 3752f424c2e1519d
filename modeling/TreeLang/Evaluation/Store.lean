import TreeLang.Scope
import TreeLang.Value

namespace TreeLang

-- The values variables were assigned, by identity, the latest first.
structure Store where
  cells : List (VariableId × Value) := []
deriving DecidableEq, Repr

namespace Store

def find? (store : Store) (id : VariableId) : Option Value :=
  (store.cells.find? (·.1 = id)).map (·.2)

def insert (store : Store) (id : VariableId) (value : Value) : Store :=
  ⟨(id, value) :: store.cells⟩

theorem find?_insert (store : Store) (id other : VariableId) (value : Value) :
    (store.insert id value).find? other = if id = other then some value else store.find? other := by
  by_cases h : id = other <;> simp [insert, find?, h]

end Store

end TreeLang
