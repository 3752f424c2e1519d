import TreeLang.Proofs.Builder.Outcome

namespace TreeLang

-- What a caller has in hand while it builds trees: identities to give out, what is
-- built and not yet owned by a parent or a builder, and builders of each kind.
structure Workshop where
  supply : Supply := {}
  exprs : List Expr := []
  scopes : List Scope := []
  functions : List Function := []
  modules : List Module := []
  scopeBuilders : List ScopeBuilder := []
  blockBuilders : List BlockBuilder := []
  functionBuilders : List FunctionBuilder := []
  moduleBuilders : List ModuleBuilder := []

namespace Workshop

-- A build that fails hands out nothing.
def handedOut {α : Type} : Except Error α → List α
  | .ok built => [built]
  | .error _ => []

-- One operation on a block builder, with the expressions in hand and the supply. An
-- expression that is added is owned by the builder from then on.
inductive BlockStep : BlockBuilder → List Expr → Supply → BlockBuilder → List Expr → Supply → Prop
  where
  | declare {builder : BlockBuilder} {exprs : List Expr} {supply : Supply} (v : Variable) :
      BlockStep builder exprs supply (builder.declare v) exprs supply
  | add {builder : BlockBuilder} {exprs rest : List Expr} {supply : Supply} {e : Expr}
      (htaken : exprs.Perm (e :: rest)) : BlockStep builder exprs supply (builder.add e) rest supply
  | build {builder left : BlockBuilder} {exprs : List Expr} {supply rest : Supply}
      {result : Except Error Expr} (hbuild : builder.build.effect supply = ((result, left), rest)) :
      BlockStep builder exprs supply left (handedOut result ++ exprs) rest

-- One operation: a node is made of expressions in hand, a new builder is taken up,
-- or something is done with one of the builders there are. Blocks are made by
-- builders only, and a builder is used on after a build, whether it failed or not.
inductive Step : Workshop → Workshop → Prop where
  | node {w : Workshop} {e : Expr} {rest : List Expr} (hkind : e.kind ≠ .block)
      (hid : e.id = w.supply.nextNode) (howned : w.exprs.Perm (e.children ++ rest)) :
      Step w { w with supply := w.supply.pastNode, exprs := e :: rest }
  | newScope {w : Workshop} : Step w { w with scopeBuilders := {} :: w.scopeBuilders }
  | declare {w : Workshop} {builder : ScopeBuilder} {rest : List ScopeBuilder} (v : Variable)
      (h : w.scopeBuilders.Perm (builder :: rest)) :
      Step w { w with scopeBuilders := builder.add v :: rest }
  | buildScope {w : Workshop} {builder : ScopeBuilder} {rest : List ScopeBuilder}
      (h : w.scopeBuilders.Perm (builder :: rest)) :
      Step w { w with
        scopeBuilders := builder.build.2 :: rest,
        scopes := handedOut builder.build.1 ++ w.scopes }
  | newBlock {w : Workshop} : Step w { w with blockBuilders := {} :: w.blockBuilders }
  | block {w : Workshop} {builder left : BlockBuilder} {rest : List BlockBuilder}
      {exprs : List Expr} {supply : Supply} (h : w.blockBuilders.Perm (builder :: rest))
      (hstep : BlockStep builder w.exprs w.supply left exprs supply) :
      Step w { w with supply, exprs, blockBuilders := left :: rest }
  | newFunction {w : Workshop} (name : String) (returnType : DataType) :
      Step w { w with functionBuilders := { name, returnType } :: w.functionBuilders }
  | addParameter {w : Workshop} {builder : FunctionBuilder} {rest : List FunctionBuilder}
      (v : Variable) (h : w.functionBuilders.Perm (builder :: rest)) :
      Step w { w with functionBuilders := builder.addParameter v :: rest }
  | functionBlock {w : Workshop} {builder : FunctionBuilder} {rest : List FunctionBuilder}
      {left : BlockBuilder} {exprs : List Expr} {supply : Supply}
      (h : w.functionBuilders.Perm (builder :: rest))
      (hstep : BlockStep builder.block w.exprs w.supply left exprs supply) :
      Step w { w with supply, exprs, functionBuilders := { builder with block := left } :: rest }
  | withBody {w : Workshop} {builder : FunctionBuilder} {rest : List FunctionBuilder} {e : Expr}
      {exprs : List Expr} (h : w.functionBuilders.Perm (builder :: rest))
      (htaken : w.exprs.Perm (e :: exprs)) :
      Step w { w with exprs, functionBuilders := builder.withBody e :: rest }
  | buildFunction {w : Workshop} {builder left : FunctionBuilder} {rest : List FunctionBuilder}
      {result : Except Error Function} {supply : Supply}
      (h : w.functionBuilders.Perm (builder :: rest))
      (hbuild : builder.build.effect w.supply = ((result, left), supply)) :
      Step w { w with
        supply,
        functions := handedOut result ++ w.functions,
        functionBuilders := left :: rest }
  | newModule {w : Workshop} (name : String) :
      Step w { w with moduleBuilders := { name } :: w.moduleBuilders }
  | addFunction {w : Workshop} {builder : ModuleBuilder} {rest : List ModuleBuilder} {f : Function}
      {functions : List Function} (h : w.moduleBuilders.Perm (builder :: rest))
      (htaken : w.functions.Perm (f :: functions)) :
      Step w { w with functions, moduleBuilders := builder.add f :: rest }
  | buildModule {w : Workshop} {builder left : ModuleBuilder} {rest : List ModuleBuilder}
      {result : Except Error Module} {supply : Supply} (h : w.moduleBuilders.Perm (builder :: rest))
      (hbuild : builder.build.effect w.supply = ((result, left), supply)) :
      Step w { w with
        supply,
        modules := handedOut result ++ w.modules,
        moduleBuilders := left :: rest }

-- What any sequence of operations leads to.
inductive Reachable : Workshop → Prop where
  | start : Reachable {}
  | step {w w' : Workshop} (h : Reachable w) (hstep : Step w w') : Reachable w'

end Workshop

end TreeLang
