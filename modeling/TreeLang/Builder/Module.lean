import TreeLang.Builder.Function

namespace TreeLang

-- Collects the functions of a module.
structure ModuleBuilder where
  name : String
  functions : List Function := []
deriving Repr

namespace ModuleBuilder

def add (builder : ModuleBuilder) (f : Function) : ModuleBuilder :=
  { builder with functions := builder.functions ++ [f] }

-- The first function whose name one of `earlier`, or one before it, has.
def duplicate? (earlier : List String) : List Function → Option Function
  | [] => none
  | f :: rest => if f.name ∈ earlier then some f else duplicate? (f.name :: earlier) rest

-- The name is checked before anything is taken out of the builder.
def takeParts (builder : ModuleBuilder) : Except Error (List Function) × ModuleBuilder :=
  match checkIdentifier "module" builder.name with
  | .error error => (.error error, builder)
  | .ok () =>
      let left := { builder with functions := [] }
      match duplicate? [] builder.functions with
      | some f => (.error { cause := .redeclaredFunction f.name, node := some f.id }, left)
      | none => (.ok builder.functions, left)

def build (builder : ModuleBuilder) : Construct (Except Error Module × ModuleBuilder) := do
  match builder.takeParts with
  | (.error error, left) => return (.error error, left)
  | (.ok functions, left) =>
      let id ← freshNode
      return (.ok { id, name := builder.name, functions }, left)

end ModuleBuilder

-- A module with one function, which has the type of `e` and evaluates `e`.
def expressionModule (moduleName functionName : String) (e : Expr) : Action Supply Module := do
  let wrapper : FunctionBuilder :=
    { name := functionName, returnType := e.type, block := { children := [e] } }
  let (built, _) ← wrapper.build
  let f ← built
  let (built, _) ← ModuleBuilder.build { name := moduleName, functions := [f] }
  built

end TreeLang
