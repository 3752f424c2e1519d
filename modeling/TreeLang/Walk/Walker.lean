import TreeLang.Walk.Visitor

namespace TreeLang

-- A walk in progress: where it is, and the state of the visitor. Only the walker
-- itself moves.
structure Walker (σ : Type) where
  context : Context
  state : σ

namespace Walker

variable {σ : Type}

def here : Action (Walker σ) Context :=
  return (← get).context

def move (change : Context → Context) : Action (Walker σ) Unit :=
  modify fun walker => { walker with context := change walker.context }

-- A part of a walk in which the walker stays where it is.
def inform (action : Action σ Unit) : Action (Walker σ) Unit :=
  ExceptT.mk fun walker => do
    let (result, state) ← action.run.run walker.state
    return (result, { walker with state })

def openNode (node : Node) : Action (Walker σ) Unit :=
  move (·.within node)

def closeNode : Action (Walker σ) Unit :=
  move fun context => { context with path := context.path.tail }

def openScope (scope : Scope) : Action (Walker σ) Unit :=
  move (·.opening scope)

def closeScope : Action (Walker σ) Unit :=
  move fun context => { context with scopes := context.scopes.tail }

def checkUse (v : Variable) (id : NodeId) : Action (Walker σ) Unit := do
  match (← here).resolveDeclared v id with
  | .ok _ => pure ()
  | .error error => throw error

section Walks

variable (visitor : Visitor σ)

def call (moment : Moment) (node : Node) : Action (Walker σ) Unit := do
  inform (visitor.call ⟨moment, node, ← here⟩)

def enter (node : Node) : Action (Walker σ) Unit := do
  openNode node
  call visitor .enter node

def leave (node : Node) : Action (Walker σ) Unit := do
  call visitor .leave node
  closeNode

mutual

-- The same walk with a path and scopes that are pushed and popped on the way.
-- After a failure they are left as they are.
def walkExpr (e : Expr) : Action (Walker σ) Unit := do
  enter visitor (.expr e)
  match e with
  | .int32 .. | .float .. => call visitor .visit (.expr e)
  | .ref id target =>
      checkUse target id
      call visitor .visit (.expr e)
  | .binary id _ left right =>
      call visitor .start (.expr e)
      walkExpr left
      walkExpr right
      Action.stateless (checkOperands id left right)
      call visitor .finish (.expr e)
  | .assign id target value =>
      checkUse target id
      call visitor .start (.expr e)
      walkExpr value
      call visitor .finish (.expr e)
  | .ret _ value =>
      call visitor .start (.expr e)
      walkExpr value
      call visitor .finish (.expr e)
  | .conditional _ condition truePart falsePart =>
      call visitor .start (.expr e)
      walkExpr condition
      walkPart truePart
      walkPart falsePart
      call visitor .finish (.expr e)
  | .block id scope children =>
      openScope scope
      inform (visitor.step (Step.scopeEntered id (← here)))
      call visitor .start (.expr e)
      walkChildren 0 children.length children
      call visitor .finish (.expr e)
      closeScope
      inform (visitor.step (Step.scopeLeft id))
  leave visitor (.expr e)
termination_by structural e

def walkPart : Option Expr → Action (Walker σ) Unit
  | none => pure ()
  | some e => walkExpr e
termination_by structural part => part

-- Whether a value is dropped is read off the path, on which the block is the
-- last node again by then.
def walkChildren (index count : Nat) : List Expr → Action (Walker σ) Unit
  | [] => pure ()
  | e :: rest => do
      walkExpr e
      let parent := (← here).current?.map Node.kind
      if discardsResult parent index count then
        call visitor .discard (.expr e)
      walkChildren (index + 1) count rest
termination_by structural es => es

end

def walkFunction (f : Function) : Action (Walker σ) Unit := do
  enter visitor (.function f)
  openScope f.parameters
  call visitor .start (.function f)
  walkExpr visitor f.body
  call visitor .finish (.function f)
  closeScope
  leave visitor (.function f)

def walkFunctions : List Function → Action (Walker σ) Unit
  | [] => pure ()
  | f :: rest => do
      walkFunction visitor f
      walkFunctions rest

def walkModule (m : Module) : Action (Walker σ) Unit := do
  enter visitor (.module m)
  call visitor .start (.module m)
  walkFunctions visitor m.functions
  call visitor .finish (.module m)
  leave visitor (.module m)

def walkNode : Node → Action (Walker σ) Unit
  | .expr e => walkExpr visitor e
  | .function f => walkFunction visitor f
  | .module m => walkModule visitor m

end Walks

-- The walker sets out from outside the root and is not needed in the end.
def settingOut (action : Action (Walker σ) Unit) : Action σ Unit :=
  ExceptT.mk fun state => do
    let (result, walker) ← action.run.run ⟨.outside, state⟩
    return (result, walker.state)

def walk (visitor : Visitor σ) (root : Node) : Action σ Unit :=
  ExceptT.mk do
    emit (walkStarted root)
    let traversed ← ExceptT.run do
      visitor.setUp
      settingOut (walkNode visitor root)
    let cleaned ← visitor.cleanUp.run
    emit (walkEnded root traversed)
    return traversed *> cleaned

end Walker

end TreeLang
