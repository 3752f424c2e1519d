import TreeLang.Action
import TreeLang.Builder.Scope
import TreeLang.Tree.Basic

namespace TreeLang

-- Collects the scope and the children of one block.
structure BlockBuilder where
  scope : ScopeBuilder := {}
  children : List Expr := []
deriving Repr

namespace BlockBuilder

def declare (builder : BlockBuilder) (v : Variable) : BlockBuilder :=
  { builder with scope := builder.scope.add v }

def add (builder : BlockBuilder) (e : Expr) : BlockBuilder :=
  { builder with children := builder.children ++ [e] }

def isEmpty (builder : BlockBuilder) : Bool :=
  builder.children.isEmpty

-- What the block would be made of. A fault of the scope leaves the children
-- where they are; otherwise the builder is left empty.
def takeParts (builder : BlockBuilder) : Except Error (Scope × List Expr) × BlockBuilder :=
  match builder.scope.build with
  | (.error error, scope) => (.error error, { builder with scope })
  | (.ok built, scope) =>
      if builder.children.isEmpty then (.error { cause := .emptyBlock }, { scope })
      else (.ok (built, builder.children), { scope })

def builtEntry (id : NodeId) (scope : Scope) (children : List Expr) : Entry :=
  { level := .trace, component := .builder,
    message := s!"built block {id.text} with {children.length} expression(s) and " ++
      s!"{scope.size} variable(s)" }

-- A block gets its identity only when nothing is wrong with its parts.
def build (builder : BlockBuilder) : Construct (Except Error Expr × BlockBuilder) := do
  match builder.takeParts with
  | (.error error, left) => return (.error error, left)
  | (.ok (scope, children), left) =>
      let id ← freshNode
      emit (builtEntry id scope children)
      return (.ok (.block id scope children), left)

end BlockBuilder

end TreeLang
