import TreeLang.Identifier
import TreeLang.Scope

namespace TreeLang

-- Collects the declarations of one scope. The first fault is kept until the
-- scope is built, and nothing is added after it.
structure ScopeBuilder where
  declared : List Variable := []
  fault : Option Error := none
deriving DecidableEq, Repr

namespace ScopeBuilder

-- What keeps a variable from being declared beside those there are.
def fault? (declared : List Variable) (v : Variable) : Option Error :=
  match checkIdentifier "variable" v.name with
  | .error error => some error
  | .ok () =>
      if declared.any (·.name = v.name) then some { cause := .redeclaredVariable v.name }
      else none

def add (builder : ScopeBuilder) (v : Variable) : ScopeBuilder :=
  match builder.fault with
  | some _ => builder
  | none =>
      match fault? builder.declared v with
      | some error => { builder with fault := some error }
      | none => { builder with declared := builder.declared ++ [v] }

def addAll (builder : ScopeBuilder) (vs : List Variable) : ScopeBuilder :=
  vs.foldl add builder

-- The scope, or else the fault; the builder is left empty either way.
def build (builder : ScopeBuilder) : Except Error Scope × ScopeBuilder :=
  match builder.fault with
  | some error => (.error error, {})
  | none => (.ok ⟨builder.declared⟩, {})

end ScopeBuilder

end TreeLang
