namespace TreeLang

-- The identity of a node: two nodes of equal shape are told apart by it.
structure NodeId where
  index : UInt32
deriving DecidableEq, Repr

-- The identity of a variable: two variables of one name are told apart by it.
structure VariableId where
  index : UInt32
deriving DecidableEq, Repr

def NodeId.text (id : NodeId) : String :=
  s!"#{id.index}"

def VariableId.text (id : VariableId) : String :=
  s!"v{id.index}"

-- The identities that have not been given out. Both counters wrap around.
structure Supply where
  nextNode : NodeId := ⟨1⟩
  nextVariable : VariableId := ⟨1⟩
deriving DecidableEq, Repr

end TreeLang
