import TreeLang.Error
import TreeLang.Tree.Basic

namespace TreeLang

-- Where a walk is: the nodes from the current one up to the root, and the
-- scopes in effect from the innermost outwards.
structure Context where
  path : List Node
  scopes : List Scope

namespace Context

-- A walk begins outside its root, with nothing declared.
def outside : Context := ⟨[], []⟩

def within (context : Context) (node : Node) : Context :=
  { context with path := node :: context.path }

def opening (context : Context) (scope : Scope) : Context :=
  { context with scopes := scope :: context.scopes }

def current? (context : Context) : Option Node :=
  context.path.head?

def parent? (context : Context) : Option Node :=
  context.path[1]?

-- The path read from the root.
def ancestry (context : Context) : List Node :=
  context.path.reverse

-- The root alone has depth one.
def depth (context : Context) : Nat :=
  context.path.length

def scopeDepth (context : Context) : Nat :=
  context.scopes.length

-- The part the current node is of its parent, if that is a conditional.
def part? (context : Context) : Option Part :=
  match context.path with
  | node :: .expr parent :: _ => parent.partOf? node.id
  | _ => none

-- A name means its innermost declaration.
def resolve? (context : Context) (name : String) : Option Variable :=
  context.scopes.findSome? (·.find? name)

def resolve (context : Context) (name : String) (node : NodeId) : Except Error Variable :=
  match context.resolve? name with
  | some found => .ok found
  | none => .error { cause := .undeclaredVariable name, node := some node }

-- A variable may be used where its name still means that very variable.
def resolveDeclared (context : Context) (v : Variable) (node : NodeId) :
    Except Error Variable := do
  let found ← context.resolve v.name node
  if found = v then .ok found
  else .error { cause := .shadowedVariable v.name, node := some node }

end Context

end TreeLang
