import TreeLang.Scope

namespace TreeLang

inductive Kind where
  | binary
  | ref
  | conditional
  | block
  | int32
  | float
  | assign
  | ret
  | function
  | module
deriving DecidableEq, Repr

def Kind.text : Kind → String
  | binary => "Binary"
  | ref => "VariableRef"
  | conditional => "Conditional"
  | block => "Block"
  | int32 => "LiteralInt32"
  | float => "LiteralFloat"
  | assign => "AssignVariable"
  | ret => "Return"
  | function => "Function"
  | module => "Module"

-- Which child of its conditional an expression is.
inductive Part where
  | condition
  | truePart
  | falsePart
deriving DecidableEq, Repr

-- An expression. Each node has its identity, and owns its children; a variable
-- is owned by the scope that declares it.
inductive Expr where
  | int32 (id : NodeId) (value : Int32)
  | float (id : NodeId) (value : Float32)
  | ref (id : NodeId) (target : Variable)
  | binary (id : NodeId) (operation : Operation) (left right : Expr)
  | assign (id : NodeId) (target : Variable) (value : Expr)
  | ret (id : NodeId) (value : Expr)
  | conditional (id : NodeId) (condition : Expr) (truePart falsePart : Option Expr)
  | block (id : NodeId) (scope : Scope) (children : List Expr)
deriving Repr

-- A named entry point with parameters of its own.
structure Function where
  id : NodeId
  name : String
  returnType : DataType
  parameters : Scope
  body : Expr
deriving Repr

structure Module where
  id : NodeId
  name : String
  functions : List Function
deriving Repr

-- Any node of a tree, so any node a walk can start from.
inductive Node where
  | expr (e : Expr)
  | function (f : Function)
  | module (m : Module)
deriving Repr

namespace Expr

def id : Expr → NodeId
  | int32 id _ | float id _ | ref id _ | binary id .. | assign id .. | ret id _
  | conditional id .. | block id .. => id

def kind : Expr → Kind
  | int32 .. => .int32
  | float .. => .float
  | ref .. => .ref
  | binary .. => .binary
  | assign .. => .assign
  | ret .. => .ret
  | conditional .. => .conditional
  | block .. => .block

def children : Expr → List Expr
  | int32 .. | float .. | ref .. => []
  | binary _ _ left right => [left, right]
  | assign _ _ value | ret _ value => [value]
  | conditional _ condition truePart falsePart => condition :: truePart.toList ++ falsePart.toList
  | block _ _ children => children

mutual

-- The static type, read off the tree. A binary expression has the type of its
-- right operand, which is that of both once they have been compared; a
-- conditional that of its first part, and a block that of its last child.
def type : Expr → DataType
  | int32 .. => .int32
  | float .. => .float
  | ref _ target => target.type
  | binary _ _ _ right => right.type
  | assign _ target _ => target.type
  | ret _ value => value.type
  | conditional _ _ (some truePart) _ => truePart.type
  | conditional _ _ none (some falsePart) => falsePart.type
  | conditional _ _ none none => .void
  | block _ _ children => lastType children
termination_by structural e => e

def lastType : List Expr → DataType
  | [] => .void
  | [last] => last.type
  | _ :: next :: rest => lastType (next :: rest)
termination_by structural es => es

end

mutual

-- A node comes before its children.
def preorder : Expr → List Expr
  | int32 id value => [int32 id value]
  | float id value => [float id value]
  | ref id target => [ref id target]
  | binary id operation left right =>
      binary id operation left right :: left.preorder ++ right.preorder
  | assign id target value => assign id target value :: value.preorder
  | ret id value => ret id value :: value.preorder
  | conditional id condition truePart falsePart =>
      conditional id condition truePart falsePart ::
        condition.preorder ++ preorderPart truePart ++ preorderPart falsePart
  | block id scope children => block id scope children :: preorderAll children
termination_by structural e => e

def preorderPart : Option Expr → List Expr
  | none => []
  | some e => e.preorder
termination_by structural e => e

def preorderAll : List Expr → List Expr
  | [] => []
  | e :: rest => e.preorder ++ preorderAll rest
termination_by structural es => es

end

-- The place of a node among the direct children of a conditional, found by
-- identity; no other expression has parts.
def partOf? (e : Expr) (child : NodeId) : Option Part :=
  match e with
  | conditional _ condition truePart falsePart =>
      if condition.id = child then some .condition
      else if truePart.map id = some child then some .truePart
      else if falsePart.map id = some child then some .falsePart
      else none
  | _ => none

end Expr

def Module.find? (m : Module) (name : String) : Option Function :=
  m.functions.find? (·.name = name)

namespace Node

def id : Node → NodeId
  | expr e => e.id
  | function f => f.id
  | module m => m.id

def kind : Node → Kind
  | expr e => e.kind
  | function _ => .function
  | module _ => .module

def children : Node → List Node
  | expr e => e.children.map expr
  | function f => [expr f.body]
  | module m => m.functions.map function

def preorder : Node → List Node
  | expr e => e.preorder.map expr
  | function f => function f :: f.body.preorder.map expr
  | module m =>
      module m :: m.functions.flatMap fun f => function f :: f.body.preorder.map expr

-- How the log refers to a node.
def label (node : Node) : String :=
  s!"{node.kind.text} {node.id.text}"

end Node

end TreeLang
