import TreeLang.Static.Operands

namespace TreeLang

-- What keeps a variable from being used under these scopes, the innermost
-- first: its name means nothing there, or another variable.
def useError? (scopes : List Scope) (v : Variable) (id : NodeId) : Option Error :=
  match scopes.findSome? (·.find? v.name) with
  | none => some { cause := .undeclaredVariable v.name, node := some id }
  | some found =>
      if found = v then none else some { cause := .shadowedVariable v.name, node := some id }

namespace Expr

mutual

-- The first violation of the static rules in an expression, if any. A use of a
-- variable is judged before what is below it, operands after what is below them.
def violation? (scopes : List Scope) : Expr → Option Error
  | int32 .. | float .. => none
  | ref id target => useError? scopes target id
  | binary id _ left right =>
      left.violation? scopes <|> right.violation? scopes <|> operandError? id left right
  | assign id target value => useError? scopes target id <|> value.violation? scopes
  | ret _ value => value.violation? scopes
  | conditional _ condition truePart falsePart =>
      condition.violation? scopes <|> partViolation? scopes truePart <|>
        partViolation? scopes falsePart
  | block _ scope children => childViolation? (scope :: scopes) children
termination_by structural e => e

def partViolation? (scopes : List Scope) : Option Expr → Option Error
  | none => none
  | some e => e.violation? scopes
termination_by structural part => part

def childViolation? (scopes : List Scope) : List Expr → Option Error
  | [] => none
  | e :: rest => e.violation? scopes <|> childViolation? scopes rest
termination_by structural es => es

end

end Expr

def Function.violation? (f : Function) : Option Error :=
  f.body.violation? [f.parameters]

def Node.violation? : Node → Option Error
  | expr e => e.violation? []
  | function f => f.violation?
  | module m => m.functions.findSome? Function.violation?

end TreeLang
