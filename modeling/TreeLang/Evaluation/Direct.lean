import TreeLang.Evaluation.Arithmetic
import TreeLang.Evaluation.Store
import TreeLang.Static.Violation

namespace TreeLang

-- How an expression ends: with its value, or with the value a return gave.
inductive Ending where
  | normal (value : Value)
  | returned (value : Value)
deriving DecidableEq, Repr

def Ending.value : Ending → Value
  | normal value | returned value => value

-- Evaluation said directly, by recursion on the tree, for what is stored.
abbrev Direct := StateT Store (Except Error)

-- What is not run must still obey the static rules.
def obey : Option Error → Direct Unit
  | none => pure ()
  | some error => throw error

namespace Expr

def readDirectly (id : NodeId) (target : Variable) : Direct Value := do
  match (← get).find? target.id with
  | some value => return value
  | none => target.type.zero id

mutual

def evaluateDirectly (scopes : List Scope) : Expr → Direct Ending
  | int32 _ value => return .normal (.int32 value)
  | float _ value => return .normal (.float value)
  | ref id target => do
      obey (useError? scopes target id)
      return .normal (← readDirectly id target)
  | binary id operation left right => do
      match ← left.evaluateDirectly scopes with
      | .returned value =>
          obey (right.violation? scopes)
          obey (operandError? id left right)
          return .returned value
      | .normal l =>
          let ending ← right.evaluateDirectly scopes
          obey (operandError? id left right)
          match ending with
          | .returned value => return .returned value
          | .normal r => return .normal (← operation.apply l r id)
  | assign id target value => do
      obey (useError? scopes target id)
      match ← value.evaluateDirectly scopes with
      | .returned value => return .returned value
      | .normal value =>
          modify (·.insert target.id value)
          return .normal value
  | ret _ value => do
      let ending ← value.evaluateDirectly scopes
      return .returned ending.value
  | conditional id condition truePart falsePart => do
      match ← condition.evaluateDirectly scopes with
      | .returned value =>
          obey (partViolation? scopes truePart)
          obey (partViolation? scopes falsePart)
          return .returned value
      | .normal value =>
          let chosen ←
            if value.truthy then do
              let chosen ← evaluatePart scopes truePart
              obey (partViolation? scopes falsePart)
              pure chosen
            else do
              obey (partViolation? scopes truePart)
              evaluatePart scopes falsePart
          match chosen with
          | some ending => return ending
          | none => return .normal (← (conditional id condition truePart falsePart).type.zero id)
  | block _ scope children => evaluateAll (scope :: scopes) children
termination_by structural e => e

-- Nothing, if the part is missing.
def evaluatePart (scopes : List Scope) : Option Expr → Direct (Option Ending)
  | none => return none
  | some e => do return some (← e.evaluateDirectly scopes)
termination_by structural part => part

-- The last child decides, unless one before it returns. A block that was built
-- has a child.
def evaluateAll (scopes : List Scope) : List Expr → Direct Ending
  | [] => return .normal .void
  | [last] => last.evaluateDirectly scopes
  | e :: next :: rest => do
      match ← e.evaluateDirectly scopes with
      | .returned value =>
          obey (childViolation? scopes (next :: rest))
          return .returned value
      | .normal _ => evaluateAll scopes (next :: rest)
termination_by structural es => es

end

end Expr

def Function.evaluateDirectly (f : Function) : Direct Value := do
  let ending ← f.body.evaluateDirectly [f.parameters]
  return ending.value

-- The value of the last function; each sees what those before it assigned.
def evaluateFunctions : List Function → Direct Value
  | [] => throw { cause := .invalidState "value stack is empty" }
  | [last] => last.evaluateDirectly
  | f :: next :: rest => do
      let _ ← f.evaluateDirectly
      evaluateFunctions (next :: rest)

def Node.evaluateDirectly (root : Node) : Except Error Value :=
  let direct : Direct Value := match root with
    | expr e => do return (← e.evaluateDirectly []).value
    | function f => f.evaluateDirectly
    | module m => evaluateFunctions m.functions
  direct.run' {}

end TreeLang
