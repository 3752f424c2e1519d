import TreeLang.DataType
import TreeLang.Identity
import TreeLang.Text.Quoted

namespace TreeLang

-- What went wrong, apart from where.
inductive Cause where
  | operandMismatch (left right : DataType)
  | undeclaredVariable (name : String)
  | shadowedVariable (name : String)
  | redeclaredVariable (name : String)
  | redeclaredFunction (name : String)
  | emptyBlock
  | unhandledCase (case : String)
  | invalidState (message : String)
  | returnMismatch (expected received : DataType)
  | invalidArgument (argument reason : String)
  | divisionByZero
  | missingEntryPoint (name : String)
  | nativeTarget (message : String)
  | backend (message : String)
deriving DecidableEq, Repr

-- How a caller is expected to react: report a mistake in the tree, suspect a
-- broken invariant, mend an argument, or report a failed run.
inductive Category where
  | compile
  | fatal
  | invalidArgument
  | execution
deriving DecidableEq, Repr

namespace Cause

def name : Cause → String
  | operandMismatch .. => "BinaryExprDataTypeMismatch"
  | undeclaredVariable _ => "VariableNotDeclared"
  | shadowedVariable _ => "VariableShadowed"
  | redeclaredVariable _ => "VariableAlreadyDeclared"
  | redeclaredFunction _ => "FunctionAlreadyDeclared"
  | emptyBlock => "EmptyBlock"
  | unhandledCase _ => "UnhandledSwitchCase"
  | invalidState _ => "InvalidState"
  | returnMismatch .. => "ReturnTypeMismatch"
  | invalidArgument .. => "InvalidArgument"
  | divisionByZero => "DivisionByZero"
  | missingEntryPoint _ => "EntryPointNotFound"
  | nativeTarget _ => "NativeTarget"
  | backend _ => "Backend"

def category : Cause → Category
  | operandMismatch .. => .compile
  | undeclaredVariable _ | shadowedVariable _ | redeclaredVariable _ | redeclaredFunction _
  | emptyBlock | unhandledCase _ | invalidState _ | returnMismatch .. => .fatal
  | invalidArgument .. => .invalidArgument
  | divisionByZero | missingEntryPoint _ | nativeTarget _ | backend _ => .execution

-- Names are quoted here, so that a name with control characters shows them.
def message : Cause → String
  | operandMismatch left right =>
      s!"data types of lvalue ({left.text}) and rvalue ({right.text}) in binary expression " ++
        "do not match"
  | undeclaredVariable name => s!"variable {Text.quoted name} was not defined"
  | shadowedVariable name =>
      s!"variable {Text.quoted name} is shadowed by another declaration where it is referenced"
  | redeclaredVariable name =>
      s!"more than one variable named {Text.quoted name} was defined in the same scope"
  | redeclaredFunction name => s!"function {Text.quoted name} already declared"
  | emptyBlock => "a block must contain at least one expression"
  | unhandledCase case => s!"unhandled switch case: {case}"
  | invalidState message => s!"invalid state: {message}"
  | returnMismatch expected received =>
      s!"return type mismatch: expected {expected.text}, received {received.text}"
  | invalidArgument argument reason => s!"invalid value for argument {argument}: {reason}"
  | divisionByZero => "division by zero"
  | missingEntryPoint name => s!"entry point {Text.quoted name} not found"
  | nativeTarget message => s!"failed to initialize native target: {message}"
  | backend message => s!"code generation backend error: {message}"

-- Advice for the author of the tree. Names stand here as they are.
def tip? : Cause → Option String
  | operandMismatch left right => some <|
      "Both operands of a binary expression must have the same type, found " ++
        s!"`{left.text}` and `{right.text}`"
  | undeclaredVariable name => some s!"Variable `{name}` is not declared in any enclosing scope"
  | shadowedVariable name =>
      some s!"Variable `{name}` is hidden here by an inner declaration with the same name"
  | redeclaredVariable name => some s!"Variable `{name}` already declared"
  | redeclaredFunction name => some s!"Function `{name}` already declared"
  | emptyBlock => some "A block needs at least one expression to have a data type"
  | returnMismatch expected received =>
      some s!"Expected an expression of type `{expected.text}`, received `{received.text}`"
  | invalidArgument argument reason => some s!"Argument `{argument}`: {reason}"
  | missingEntryPoint name =>
      some s!"No compiled function named `{name}` was added to the execution context"
  | unhandledCase _ | invalidState _ | divisionByZero | nativeTarget _ | backend _ => none

end Cause

-- A cause and, where one node is to blame, that node.
structure Error where
  cause : Cause
  node : Option NodeId := none
deriving DecidableEq, Repr

namespace Error

-- The name with the tip, the node and the message, a line for each.
def report (error : Error) : String :=
  let heading := match error.cause.tip? with
    | none => s!"Error: {error.cause.name}"
    | some tip => s!"Error: {error.cause.name} ({tip})"
  let place := match error.node with
    | none => ""
    | some node => s!"\n-> at node {node.text}"
  heading ++ place ++ s!"\n   {error.cause.message}"

end Error

end TreeLang
