import TreeLang.Action
import TreeLang.Tree.Basic

namespace TreeLang

-- The operands of a binary expression must have one static type.
def operandError? (id : NodeId) (left right : Expr) : Option Error :=
  if left.type = right.type then none
  else some { cause := .operandMismatch left.type right.type, node := some id }

def operandsChecked (id : NodeId) (right : Expr) : Entry :=
  { level := .trace, component := .typeChecker,
    message := s!"binary {id.text} checked as {right.type.text}" }

-- The same check on its own, outside any walk.
def checkOperands (id : NodeId) (left right : Expr) : Outcome Unit :=
  match operandError? id left right with
  | some error => throw error
  | none => emit (operandsChecked id right)

end TreeLang
