import TreeLang.Evaluation.Arithmetic
import TreeLang.Evaluation.Store
import TreeLang.Walk.Visitor

namespace TreeLang

-- The state of an evaluation, stacks with the top first: the values not yet
-- used, what was assigned, the outcomes of the conditions whose conditionals
-- are open, the untaken part being walked past, and what a return has left.
structure Machine where
  values : List Value := []
  store : Store := {}
  branches : List Bool := []
  skipUntil : Option NodeId := none
  returned : Option Value := none
deriving DecidableEq, Repr

namespace Machine

-- In an untaken part, and after a return, nodes are walked but have no effect.
def suppressed (machine : Machine) : Bool :=
  machine.skipUntil.isSome || machine.returned.isSome

def unlessSuppressed (action : Action Machine Unit) : Action Machine Unit := do
  if (← get).suppressed then pure () else action

def trace (message : String) : Action Machine Unit :=
  emit { level := .trace, component := .evaluator, message }

def push (value : Value) : Action Machine Unit :=
  modify fun machine => { machine with values := value :: machine.values }

def pop : Action Machine Value := do
  let machine ← get
  match machine.values with
  | [] => throw { cause := .invalidState "value stack is empty" }
  | value :: rest =>
      set { machine with values := rest }
      return value

-- What a walk has left: the value a return gave, or else the top value.
def takeResult : Action Machine Value := do
  let machine ← get
  match machine.returned with
  | some value =>
      set { machine with returned := none }
      return value
  | none => pop

-- Coming to a part the condition did not choose starts to suppress.
def enter (node : Node) (context : Context) : Action Machine Unit :=
  unlessSuppressed do
    match context.part? with
    | none | some .condition => pure ()
    | some part =>
        match (← get).branches with
        | [] =>
            throw { cause := .invalidState "branch visited before its condition",
                    node := some node.id }
        | condition :: _ =>
            if condition != decide (part = .truePart) then
              trace s!"skipping untaken branch {node.id.text}"
              modify fun machine => { machine with skipUntil := some node.id }

-- Leaving that part ends it, and leaving a condition decides between the parts.
def leave (node : Node) (context : Context) : Action Machine Unit := do
  if (← get).skipUntil = some node.id then
    modify fun machine => { machine with skipUntil := none }
  else
    unlessSuppressed do
      if context.part? = some .condition then
        let value ← pop
        modify fun machine => { machine with branches := value.truthy :: machine.branches }

-- Every function starts with fresh stacks, but sees what was assigned before.
def startFunction : Action Machine Unit :=
  modify fun machine => { store := machine.store }

def finishFunction (f : Function) : Action Machine Unit := do
  let value ← takeResult
  trace s!"function {f.name} produced {value.text}"
  modify fun machine => { machine with values := [value] }

-- A part that is missing has the zero of the conditional's type for its value.
def finishConditional (id : NodeId) (condition : Expr) (truePart falsePart : Option Expr) :
    Action Machine Unit := do
  let machine ← get
  match machine.branches with
  | [] =>
      throw { cause := .invalidState "conditional has no evaluated condition", node := some id }
  | outcome :: rest =>
      set { machine with branches := rest }
      let taken := if outcome then truePart else falsePart
      if taken.isNone then
        push (← (Expr.conditional id condition truePart falsePart).type.zero id)

def finishBinary (id : NodeId) (operation : Operation) : Action Machine Unit := do
  let right ← pop
  let left ← pop
  push (← operation.apply left right id)

def finishAssign (target : Variable) : Action Machine Unit := do
  let value ← pop
  trace s!"{target.text} ({target.id.text}) = {value.text}"
  modify fun machine => { machine with store := machine.store.insert target.id value }
  push value

def finishReturn (id : NodeId) : Action Machine Unit := do
  let value ← pop
  trace s!"return {value.text} at {id.text}"
  modify fun machine => { machine with returned := some value }

def read (id : NodeId) (target : Variable) : Action Machine Unit := do
  match (← get).store.find? target.id with
  | some value => push value
  | none => push (← target.type.zero id)

end Machine

-- Evaluation as a visitor: every expression leaves one value on the stack.
def evaluator : Visitor Machine where
  setUp := set ({} : Machine)
  call call :=
    match call.moment, call.node with
    | .enter, node => Machine.enter node call.context
    | .leave, node => Machine.leave node call.context
    | .discard, _ => Machine.unlessSuppressed (discard Machine.pop)
    | .start, .function _ => Machine.startFunction
    | .finish, .function f => Machine.finishFunction f
    | .visit, .expr (.int32 _ value) => Machine.unlessSuppressed (Machine.push (.int32 value))
    | .visit, .expr (.float _ value) => Machine.unlessSuppressed (Machine.push (.float value))
    | .visit, .expr (.ref id target) => Machine.unlessSuppressed (Machine.read id target)
    | .finish, .expr (.binary id operation _ _) =>
        Machine.unlessSuppressed (Machine.finishBinary id operation)
    | .finish, .expr (.assign _ target _) => Machine.unlessSuppressed (Machine.finishAssign target)
    | .finish, .expr (.ret id _) => Machine.unlessSuppressed (Machine.finishReturn id)
    | .finish, .expr (.conditional id condition truePart falsePart) =>
        Machine.unlessSuppressed
          (Machine.finishConditional id condition truePart falsePart)
    | _, _ => pure ()

end TreeLang
