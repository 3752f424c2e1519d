import TreeLang.Evaluation.Machine

namespace TreeLang

-- Evaluates the tree below `root`; a machine can be used again, as each walk
-- starts by clearing it. A module has the value of its last function.
def evaluate (root : Node) : Action Machine Value := do
  walk evaluator root
  Machine.takeResult

def evaluateExpr (e : Expr) : Outcome Value := do
  let value ← Action.startingFrom {} (evaluate (.expr e))
  emit { level := .debug, component := .evaluator,
         message := s!"expression {e.id.text} evaluated to {value.text}" }
  return value

-- Evaluates one function of a module. A void function has no value, and any
-- other must produce one of its declared type.
def evaluateFunction (m : Module) (name : String) : Outcome Value :=
  match m.find? name with
  | none => throw { cause := .missingEntryPoint name, node := some m.id }
  | some f => do
      let value ← Action.startingFrom {} (evaluate (.function f))
      emit { level := .debug, component := .evaluator,
             message := s!"function {name} evaluated to {value.text}" }
      if f.returnType = .void then return .void
      else if f.returnType = value.type then return value
      else throw { cause := .returnMismatch f.returnType value.type, node := some f.id }

end TreeLang
