import TreeLang.Builder.Module

namespace TreeLang

-- Descriptions of trees whose nodes have no identities yet. Variables are
-- described by whatever `ν` is, so that a description can be made real anywhere.
inductive ExprDraft (ν : Type) where
  | int32 (value : Int32)
  | float (value : Float32)
  | ref (target : ν)
  | binary (operation : Operation) (left right : ExprDraft ν)
  | assign (target : ν) (value : ExprDraft ν)
  | ret (value : ExprDraft ν)
  | conditional (condition : ExprDraft ν) (truePart falsePart : Option (ExprDraft ν))
  | block (declared : List ν) (children : List (ExprDraft ν))

structure FunctionDraft (ν : Type) where
  name : String
  returnType : DataType
  parameters : List ν
  declared : List ν
  children : List (ExprDraft ν)
  body : Option (ExprDraft ν)

structure ModuleDraft (ν : Type) where
  name : String
  functions : List (FunctionDraft ν)

variable {ν : Type}

namespace ExprDraft

mutual

-- Children are constructed before their parent and from left to right, which
-- decides the identities; the first failure ends the construction.
def construct (real : ν → Variable) : ExprDraft ν → Action Supply Expr
  | int32 value => do return .int32 (← freshNode) value
  | float value => do return .float (← freshNode) value
  | ref target => do return .ref (← freshNode) (real target)
  | binary operation left right => do
      let left ← left.construct real
      let right ← right.construct real
      return .binary (← freshNode) operation left right
  | assign target value => do
      let value ← value.construct real
      return .assign (← freshNode) (real target) value
  | ret value => do
      let value ← value.construct real
      return .ret (← freshNode) value
  | conditional condition truePart falsePart => do
      let condition ← condition.construct real
      let truePart ← constructPart real truePart
      let falsePart ← constructPart real falsePart
      return .conditional (← freshNode) condition truePart falsePart
  | block declared children => do
      let children ← constructAll real children
      let (built, _) ← BlockBuilder.build
        { scope := ScopeBuilder.addAll {} (declared.map real), children }
      built
termination_by structural draft => draft

def constructPart (real : ν → Variable) : Option (ExprDraft ν) → Action Supply (Option Expr)
  | none => return none
  | some draft => do return some (← draft.construct real)
termination_by structural part => part

def constructAll (real : ν → Variable) : List (ExprDraft ν) → Action Supply (List Expr)
  | [] => return []
  | draft :: rest => do
      let e ← draft.construct real
      let es ← constructAll real rest
      return e :: es
termination_by structural drafts => drafts

end

end ExprDraft

def FunctionDraft.construct (real : ν → Variable) (draft : FunctionDraft ν) :
    Action Supply Function := do
  let children ← ExprDraft.constructAll real draft.children
  let body ← ExprDraft.constructPart real draft.body
  let builder : FunctionBuilder :=
    { name := draft.name, returnType := draft.returnType,
      parameters := ScopeBuilder.addAll {} (draft.parameters.map real),
      block := { scope := ScopeBuilder.addAll {} (draft.declared.map real), children }, body }
  let (built, _) ← builder.build
  built

def ModuleDraft.construct (real : ν → Variable) (draft : ModuleDraft ν) :
    Action Supply Module := do
  let functions ← draft.functions.mapM (·.construct real)
  let (built, _) ← ModuleBuilder.build { name := draft.name, functions }
  built

-- Names are not checked until a variable is declared in a scope.
def freshVariables : List (String × DataType) → Construct (List Variable)
  | [] => return []
  | (name, type) :: rest => do
      let id ← freshVariable
      return { id, name, type } :: (← freshVariables rest)

end TreeLang
