import TreeLang.Builder.Block

namespace TreeLang

-- Collects the parameters of a function and its body: an expression given
-- whole, or else the block that `block` collects.
structure FunctionBuilder where
  name : String
  returnType : DataType
  parameters : ScopeBuilder := {}
  block : BlockBuilder := {}
  body : Option Expr := none
deriving Repr

namespace FunctionBuilder

def addParameter (builder : FunctionBuilder) (v : Variable) : FunctionBuilder :=
  { builder with parameters := builder.parameters.add v }

def withBody (builder : FunctionBuilder) (e : Expr) : FunctionBuilder :=
  { builder with body := some e }

-- A body is given in one of the two ways, not in both.
def twoBodies : Error :=
  { cause := .invalidArgument "body"
      "an explicit body and block builder expressions were both supplied" }

-- The body is taken out of the builder, also when it cannot be used.
def buildBody (builder : FunctionBuilder) : Construct (Except Error Expr × FunctionBuilder) := do
  match builder.body with
  | some body =>
      let left := { builder with body := none }
      return (if builder.block.isEmpty then .ok body else .error twoBodies, left)
  | none =>
      let (body, block) ← builder.block.build
      return (body, { builder with block })

-- The name is checked before anything is taken out of the builder. Then the
-- parameters are taken, and the body only if they had no fault.
def build (builder : FunctionBuilder) : Construct (Except Error Function × FunctionBuilder) := do
  match checkIdentifier "function" builder.name with
  | .error error => return (.error error, builder)
  | .ok () =>
      match builder.parameters.build with
      | (.error error, parameters) => return (.error error, { builder with parameters })
      | (.ok declared, parameters) =>
          match ← buildBody { builder with parameters } with
          | (.error error, left) => return (.error error, left)
          | (.ok body, left) =>
              let id ← freshNode
              let built :=
                { id, name := builder.name, returnType := builder.returnType,
                  parameters := declared, body }
              return (.ok built, left)

end FunctionBuilder

end TreeLang
