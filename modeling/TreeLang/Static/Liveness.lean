import TreeLang.Tree.Basic

namespace TreeLang

namespace Expr

-- The variable an expression itself writes.
def written? : Expr → Option VariableId
  | assign _ target _ => some target.id
  | _ => none

def assigned (e : Expr) : List VariableId :=
  e.preorder.filterMap written?

mutual

-- The variables whose values can be read before they are written, if those of
-- `after` can be behind the expression. Nothing is read behind a return.
def live : Expr → List VariableId → List VariableId
  | int32 .., after | float .., after => after
  | ref _ target, after => target.id :: after
  | binary _ _ left right, after => left.live (right.live after)
  | assign _ target value, after => value.live (after.filter (· ≠ target.id))
  | ret _ value, _ => value.live []
  | conditional _ condition truePart falsePart, after =>
      condition.live (livePart truePart after ++ livePart falsePart after)
  | block _ _ children, after => liveAll children after
termination_by structural e => e

def livePart : Option Expr → List VariableId → List VariableId
  | none, after => after
  | some e, after => e.live after
termination_by structural part => part

def liveAll : List Expr → List VariableId → List VariableId
  | [], after => after
  | e :: rest, after => e.live (liveAll rest after)
termination_by structural es => es

end

end Expr

-- Nothing is read behind a function.
def Function.live (f : Function) : List VariableId :=
  f.body.live []

end TreeLang
