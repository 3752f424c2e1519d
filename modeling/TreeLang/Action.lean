import TreeLang.Error
import TreeLang.Log

namespace TreeLang

-- A computation that may fail and writes a log, also when it fails.
abbrev Outcome := ExceptT Error Logged

-- The same over a state. A failed action keeps the state it had reached.
abbrev Action (σ : Type) := ExceptT Error (StateT σ Logged)

namespace Action

variable {σ α : Type}

-- The result of an action from a given state; the state it ends in is dropped.
def startingFrom (state : σ) (action : Action σ α) : Outcome α :=
  ExceptT.mk do
    let (result, _) ← action.run.run state
    return result

-- What needs no state can be done in any.
def stateless (outcome : Outcome α) : Action σ α :=
  ExceptT.mk (StateT.lift outcome.run)

end Action

-- Construction of nodes: identities are handed out and building is logged.
abbrev Construct := StateT Supply Logged

def freshNode : Construct NodeId :=
  modifyGet fun supply =>
    (supply.nextNode, { supply with nextNode := ⟨supply.nextNode.index + 1⟩ })

def freshVariable : Construct VariableId :=
  modifyGet fun supply =>
    (supply.nextVariable, { supply with nextVariable := ⟨supply.nextVariable.index + 1⟩ })

end TreeLang
