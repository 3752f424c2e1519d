import TreeLang.Value
import TreeLang.Walk.Visitor

namespace TreeLang

-- What is printed of a node, apart from its indentation.
def Expr.describe : Expr → String
  | int32 _ value => s!"LiteralInt32: {value}"
  | float _ value => s!"LiteralFloat: {singleText value}"
  | ref _ target => s!"VariableRef: {target.name}"
  | binary _ operation _ _ => s!"Binary: {operation.text}"
  | assign _ target _ => s!"AssignVariable: {target.name}"
  | ret .. => "Return:"
  | conditional .. => "Conditional:"
  | block _ scope _ => s!"Block:{scope.text}"

def Node.describe : Node → String
  | expr e => e.describe
  | function f => s!"Function: {f.name}"
  | module m => s!"Module: {m.name}"

-- Where text is written piece by piece. A sink may reject a piece, and then
-- takes nothing of it.
structure Sink (ω : Type) where
  write : ω → String → Option ω

namespace Sink

def text : Sink String where
  write written piece := some (written ++ piece)

-- Takes so many bytes in all; the state is the number of bytes left.
def limited : Sink Nat where
  write left piece :=
    if piece.utf8ByteSize ≤ left then some (left - piece.utf8ByteSize) else none

end Sink

-- Writes pieces in order up to the first that is rejected.
def writeAll {ω : Type} (sink : Sink ω) (node : NodeId) : List String → Action ω Unit
  | [] => pure ()
  | piece :: rest => do
      match sink.write (← get) piece with
      | some written =>
          set written
          writeAll sink node rest
      | none =>
          throw { cause := .invalidState "failed to write pretty-printed tree", node := some node }

def indentation (depth : Nat) : String :=
  String.ofList (List.replicate (depth - 1) '\t')

-- One line for each node, with one tab for each node above it.
def printer {ω : Type} (sink : Sink ω) : Visitor ω where
  call call :=
    match call.moment with
    | .enter =>
        writeAll sink call.node.id
          [indentation call.context.depth, call.node.describe, "\n"]
    | _ => pure ()

def prettyPrint (root : Node) : Outcome String :=
  Action.startingFrom "" do
    walk (printer .text) root
    get

end TreeLang
