import TreeLang.Walk.Context
import TreeLang.Static.Operands

namespace TreeLang

-- When a visitor is called about a node: on coming to it and on leaving it,
-- before and after its children or, where it has none, once between the two,
-- and when the value of a child of a block is dropped.
inductive Moment where
  | enter
  | start
  | visit
  | finish
  | leave
  | discard
deriving DecidableEq, Repr

-- One call of a visitor. When a value is dropped, the node is the child while
-- the context is that of its block.
structure Call where
  moment : Moment
  node : Node
  context : Context

-- What a walk does next: call the visitor, write to the log, or stop.
inductive Step where
  | call (call : Call)
  | note (entry : Entry)
  | fail (error : Error)

-- Only the last child of a block gives the block its value.
def discardsResult (parent : Option Kind) (index count : Nat) : Bool :=
  parent = some .block && index + 1 < count

namespace Step

def scopeEntered (block : NodeId) (inside : Context) : Step :=
  note { level := .trace, component := .walker,
         message := s!"entered scope of block {block.text} (scope depth {inside.scopeDepth})" }

def scopeLeft (block : NodeId) : Step :=
  note { level := .trace, component := .walker, message := s!"left scope of block {block.text}" }

-- Nothing, if the variable may be used here.
def checkUse (here : Context) (v : Variable) (id : NodeId) : List Step :=
  match here.resolveDeclared v id with
  | .ok _ => []
  | .error error => [fail error]

def checkOperands (id : NodeId) (left right : Expr) : List Step :=
  match operandError? id left right with
  | some error => [fail error]
  | none => [note (operandsChecked id right)]

end Step

mutual

-- The steps of a walk over an expression, which depend on the tree alone. The
-- visitor may end the walk earlier, but cannot change what comes next.
def Expr.steps (outer : Context) (e : Expr) : List Step :=
  let node := Node.expr e
  let here := outer.within node
  let call moment := Step.call ⟨moment, node, here⟩
  call .enter ::
    (match e with
      | .int32 .. | .float .. => [call .visit]
      | .ref id target => Step.checkUse here target id ++ [call .visit]
      | .binary id _ left right =>
          call .start :: left.steps here ++ right.steps here ++
            Step.checkOperands id left right ++ [call .finish]
      | .assign id target value =>
          Step.checkUse here target id ++ call .start :: value.steps here ++ [call .finish]
      | .ret _ value => call .start :: value.steps here ++ [call .finish]
      | .conditional _ condition truePart falsePart =>
          call .start :: condition.steps here ++ partSteps here truePart ++
            partSteps here falsePart ++ [call .finish]
      | .block id scope children =>
          let inside := here.opening scope
          Step.scopeEntered id inside :: .call ⟨.start, node, inside⟩ ::
            childSteps inside 0 children.length children ++
              [.call ⟨.finish, node, inside⟩, Step.scopeLeft id]) ++
    [call .leave]
termination_by structural e

def partSteps (outer : Context) : Option Expr → List Step
  | none => []
  | some e => e.steps outer
termination_by structural part => part

-- The children of a block from the one at `index` on, of `count` in all.
def childSteps (inside : Context) (index count : Nat) : List Expr → List Step
  | [] => []
  | e :: rest =>
      e.steps inside ++
        (if discardsResult (some .block) index count then
          [.call ⟨.discard, .expr e, inside⟩] else []) ++
        childSteps inside (index + 1) count rest
termination_by structural es => es

end

-- Parameters are in scope in the body and while the function is opened and
-- closed, but not on the outer edge of the function.
def Function.steps (outer : Context) (f : Function) : List Step :=
  let node := Node.function f
  let here := outer.within node
  let inside := here.opening f.parameters
  .call ⟨.enter, node, here⟩ :: .call ⟨.start, node, inside⟩ :: f.body.steps inside ++
    [.call ⟨.finish, node, inside⟩, .call ⟨.leave, node, here⟩]

def Module.steps (outer : Context) (m : Module) : List Step :=
  let node := Node.module m
  let here := outer.within node
  .call ⟨.enter, node, here⟩ :: .call ⟨.start, node, here⟩ ::
    m.functions.flatMap (·.steps here) ++
      [.call ⟨.finish, node, here⟩, .call ⟨.leave, node, here⟩]

def Node.steps : Node → List Step
  | .expr e => e.steps .outside
  | .function f => f.steps .outside
  | .module m => m.steps .outside

end TreeLang
