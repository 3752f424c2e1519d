import TreeLang.Draft
import TreeLang.Proofs.Builder.Outcome
import TreeLang.Proofs.Renaming.Following

namespace TreeLang

open TreeLang.Action

variable {ρ : Renaming}

def Supply.rename (ρ : Renaming) (supply : Supply) : Supply :=
  ⟨ρ.onNodes supply.nextNode, ρ.onVariables supply.nextVariable⟩

-- Identities that follow each other still do.
structure Renaming.Steady (ρ : Renaming) : Prop where
  onNodes : ∀ index, ρ.onNodes ⟨index + 1⟩ = ⟨(ρ.onNodes ⟨index⟩).index + 1⟩
  onVariables : ∀ index, ρ.onVariables ⟨index + 1⟩ = ⟨(ρ.onVariables ⟨index⟩).index + 1⟩

-- From a renamed supply, the second construction makes the renamed thing.
def Construct.Follows {α β : Type} (ρ : Renaming) (onValue : α → β) (construction : Construct α)
    (construction' : Construct β) : Prop :=
  ∀ supply, construction'.effect (supply.rename ρ) =
    (onValue (construction.effect supply).1, (construction.effect supply).2.rename ρ)

namespace Construct.Follows

variable {α α' β β' : Type} {onValue : α → α'} {onNext : β → β'}

theorem pure (onValue : α → α') (a : α) :
    Construct.Follows ρ onValue (Pure.pure a) (Pure.pure (onValue a)) :=
  fun _ => rfl

theorem bind {first : Construct α} {first' : Construct α'} {next : α → Construct β}
    {next' : α' → Construct β'} (hfirst : Construct.Follows ρ onValue first first')
    (hnext : ∀ a, Construct.Follows ρ onNext (next a) (next' (onValue a))) :
    Construct.Follows ρ onNext (first >>= next) (first' >>= next') := by
  intro supply
  rw [effect_bind, effect_bind, hfirst supply]
  exact hnext _ _

theorem emit (entry entry' : Entry) :
    Construct.Follows ρ id (TreeLang.emit entry : Construct Unit) (TreeLang.emit entry') :=
  fun _ => rfl

theorem freshNode (h : ρ.Steady) : Construct.Follows ρ ρ.onNodes freshNode freshNode := by
  intro supply
  exact Prod.ext rfl (congrArg (Supply.mk · _) (h.onNodes _).symm)

theorem freshVariable (h : ρ.Steady) :
    Construct.Follows ρ ρ.onVariables freshVariable freshVariable := by
  intro supply
  exact Prod.ext rfl (congrArg (Supply.mk _ ·) (h.onVariables _).symm)

end Construct.Follows

namespace Follows

variable {α α' γ γ' : Type} {onValue : α → α'} {onBuilder : γ → γ'}

theorem construct {construction : Construct α} {construction' : Construct α'}
    (h : Construct.Follows ρ onValue construction construction') :
    Follows ρ (Supply.rename ρ) onValue (liftM construction) (liftM construction') := by
  intro supply
  change (Except.ok (construction'.effect (supply.rename ρ)).1,
      (construction'.effect (supply.rename ρ)).2) =
    (Except.ok (onValue (construction.effect supply).1), (construction.effect supply).2.rename ρ)
  rw [h supply]

-- The builder that a build leaves is not used again here.
theorem built {build : Construct (Except Error α × γ)} {build' : Construct (Except Error α' × γ')}
    (h : Construct.Follows ρ (Prod.map (ρ.onResult onValue) onBuilder) build build') :
    Follows ρ (Supply.rename ρ) onValue
      (do let (built, _) ← build; built) (do let (built, _) ← build'; built) :=
  .bind (.construct h) fun _ => .lift rfl

end Follows

-- A name is at fault wherever it stands.
theorem rename_of_checkIdentifier {argument name : String} {error : Error}
    (h : checkIdentifier argument name = .error error) : error.rename ρ = error := by
  unfold checkIdentifier at h
  split at h
  · cases h
  · cases h
    rfl

namespace ScopeBuilder

def rename (ρ : Renaming) (builder : ScopeBuilder) : ScopeBuilder :=
  ⟨builder.declared.map (·.rename ρ), builder.fault.map (·.rename ρ)⟩

-- What is wrong with a declaration is a matter of names.
theorem fault?_rename (declared : List Variable) (v : Variable) :
    fault? (declared.map (·.rename ρ)) (v.rename ρ) = (fault? declared v).map (·.rename ρ) := by
  have hany : (declared.map (·.rename ρ)).any (·.name = (v.rename ρ).name) =
      declared.any (·.name = v.name) := List.any_map
  have hname : checkIdentifier "variable" (v.rename ρ).name =
      checkIdentifier "variable" v.name := rfl
  rw [fault?, fault?, hany, hname]
  cases hcheck : checkIdentifier "variable" v.name with
  | error error => exact congrArg some (rename_of_checkIdentifier hcheck).symm
  | ok checked => cases declared.any (·.name = v.name) <;> rfl

theorem add_rename (builder : ScopeBuilder) (v : Variable) :
    (builder.rename ρ).add (v.rename ρ) = (builder.add v).rename ρ := by
  obtain ⟨declared, fault⟩ := builder
  cases fault with
  | some error => rfl
  | none =>
      have hfault := fault?_rename (ρ := ρ) declared v
      cases hfound : fault? declared v with
      | some error =>
          rw [hfound] at hfault
          simp [add, rename, hfault, hfound]
      | none =>
          rw [hfound] at hfault
          simp [add, rename, hfault, hfound]

theorem addAll_rename (builder : ScopeBuilder) (vs : List Variable) :
    (builder.rename ρ).addAll (vs.map (·.rename ρ)) = (builder.addAll vs).rename ρ := by
  induction vs generalizing builder with
  | nil => rfl
  | cons v rest ih =>
      have hrest := ih (builder.add v)
      rw [← add_rename] at hrest
      exact hrest

theorem build_rename (builder : ScopeBuilder) :
    (builder.rename ρ).build =
      (ρ.onResult (Scope.rename ρ) builder.build.1, builder.build.2.rename ρ) := by
  obtain ⟨declared, fault⟩ := builder
  cases fault <;> rfl

end ScopeBuilder

namespace BlockBuilder

def rename (ρ : Renaming) (builder : BlockBuilder) : BlockBuilder :=
  ⟨builder.scope.rename ρ, renameAll ρ builder.children⟩

theorem takeParts_rename (builder : BlockBuilder) :
    (builder.rename ρ).takeParts =
      (ρ.onResult (Prod.map (Scope.rename ρ) (renameAll ρ)) builder.takeParts.1,
        builder.takeParts.2.rename ρ) := by
  obtain ⟨⟨declared, fault⟩, children⟩ := builder
  cases fault with
  | some error => rfl
  | none => cases children <;> rfl

theorem isEmpty_rename (builder : BlockBuilder) :
    (builder.rename ρ).isEmpty = builder.isEmpty := by
  obtain ⟨scope, children⟩ := builder
  cases children <;> rfl

theorem build_follows (h : ρ.Steady) (builder : BlockBuilder) :
    Construct.Follows ρ (Prod.map (ρ.onResult (Expr.rename ρ)) (rename ρ)) builder.build
      (builder.rename ρ).build := by
  unfold build
  rw [takeParts_rename]
  rcases builder.takeParts with ⟨error | ⟨scope, children⟩, left⟩
  · exact fun _ => rfl
  · exact .bind (.freshNode h) fun id => .bind (.emit _ _) fun _ => fun _ => rfl

end BlockBuilder

namespace FunctionBuilder

def rename (ρ : Renaming) (builder : FunctionBuilder) : FunctionBuilder :=
  { builder with
    parameters := builder.parameters.rename ρ
    block := builder.block.rename ρ
    body := renamePart ρ builder.body }

theorem buildBody_follows (h : ρ.Steady) (builder : FunctionBuilder) :
    Construct.Follows ρ (Prod.map (ρ.onResult (Expr.rename ρ)) (rename ρ)) builder.buildBody
      (builder.rename ρ).buildBody := by
  obtain ⟨name, returnType, parameters, block, body⟩ := builder
  cases body with
  | some body =>
      intro supply
      simp only [buildBody, rename, renamePart, block.isEmpty_rename]
      cases block.isEmpty <;> rfl
  | none =>
      exact .bind (block.build_follows h) fun built =>
        .pure (Prod.map (ρ.onResult (Expr.rename ρ)) (rename ρ))
          (built.1, ⟨name, returnType, parameters, built.2, none⟩)

theorem build_follows (h : ρ.Steady) (builder : FunctionBuilder) :
    Construct.Follows ρ (Prod.map (ρ.onResult (Function.rename ρ)) (rename ρ)) builder.build
      (builder.rename ρ).build := by
  have hname : (builder.rename ρ).name = builder.name := rfl
  have hparameters : (builder.rename ρ).parameters.build =
      (ρ.onResult (Scope.rename ρ) builder.parameters.build.1,
        builder.parameters.build.2.rename ρ) := builder.parameters.build_rename
  unfold build
  rw [hname, hparameters]
  cases hcheck : checkIdentifier "function" builder.name with
  | error error =>
      intro supply
      have hsame : ρ.onResult (Function.rename ρ) (.error error) = .error error :=
        congrArg Except.error (rename_of_checkIdentifier hcheck)
      exact congrArg (fun result => ((result, builder.rename ρ), supply.rename ρ)) hsame.symm
  | ok checked =>
      rcases builder.parameters.build with ⟨error | declared, parameters⟩
      · exact fun _ => rfl
      · refine .bind (buildBody_follows h { builder with parameters }) fun built => ?_
        obtain ⟨error | body, left⟩ := built
        · exact fun _ => rfl
        · exact .bind (.freshNode h) fun id => fun _ => rfl

end FunctionBuilder

namespace ModuleBuilder

def rename (ρ : Renaming) (builder : ModuleBuilder) : ModuleBuilder :=
  { builder with functions := builder.functions.map (·.rename ρ) }

theorem duplicate?_rename (earlier : List String) (fs : List Function) :
    duplicate? earlier (fs.map (·.rename ρ)) = (duplicate? earlier fs).map (·.rename ρ) := by
  induction fs generalizing earlier with
  | nil => rfl
  | cons f rest ih =>
      have hname : (f.rename ρ).name = f.name := rfl
      rw [List.map_cons, duplicate?, duplicate?, hname, ih]
      split <;> rfl

theorem takeParts_rename (builder : ModuleBuilder) :
    (builder.rename ρ).takeParts =
      (ρ.onResult (List.map (Function.rename ρ)) builder.takeParts.1,
        builder.takeParts.2.rename ρ) := by
  obtain ⟨name, functions⟩ := builder
  simp only [takeParts, rename, duplicate?_rename]
  cases hcheck : checkIdentifier "module" name with
  | error error =>
      have hsame := rename_of_checkIdentifier (ρ := ρ) hcheck
      simp only [Renaming.onResult, hsame]
  | ok checked => cases duplicate? [] functions <;> rfl

theorem build_follows (h : ρ.Steady) (builder : ModuleBuilder) :
    Construct.Follows ρ (Prod.map (ρ.onResult (Module.rename ρ)) (rename ρ)) builder.build
      (builder.rename ρ).build := by
  unfold build
  rw [takeParts_rename]
  rcases builder.takeParts with ⟨error | functions, left⟩
  · exact fun _ => rfl
  · exact .bind (.freshNode h) fun id => fun _ => rfl

end ModuleBuilder

section Drafts

variable {ν : Type}

-- The same variables, with other identities.
def renamed (ρ : Renaming) (real : ν → Variable) : ν → Variable :=
  fun x => (real x).rename ρ

theorem addAll_renamed (real : ν → Variable) (xs : List ν) :
    ScopeBuilder.addAll {} (xs.map (renamed ρ real)) =
      (ScopeBuilder.addAll {} (xs.map real)).rename ρ := by
  have hadded := ScopeBuilder.addAll_rename (ρ := ρ) {} (xs.map real)
  rw [List.map_map] at hadded
  exact hadded

namespace ExprDraft

mutual

theorem construct_follows (h : ρ.Steady) (real : ν → Variable) : ∀ draft : ExprDraft ν,
    Follows ρ (Supply.rename ρ) (Expr.rename ρ) (draft.construct real)
      (draft.construct (renamed ρ real))
  | .int32 value => .bind (.construct (.freshNode h)) fun id => .pure _ (Expr.int32 id value)
  | .float value => .bind (.construct (.freshNode h)) fun id => .pure _ (Expr.float id value)
  | .ref target => .bind (.construct (.freshNode h)) fun id => .pure _ (Expr.ref id (real target))
  | .binary operation left right =>
      .bind (construct_follows h real left) fun l =>
        .bind (construct_follows h real right) fun r =>
          .bind (.construct (.freshNode h)) fun id => .pure _ (Expr.binary id operation l r)
  | .assign target value =>
      .bind (construct_follows h real value) fun e =>
        .bind (.construct (.freshNode h)) fun id => .pure _ (Expr.assign id (real target) e)
  | .ret value =>
      .bind (construct_follows h real value) fun e =>
        .bind (.construct (.freshNode h)) fun id => .pure _ (Expr.ret id e)
  | .conditional condition truePart falsePart =>
      .bind (construct_follows h real condition) fun c =>
        .bind (constructPart_follows h real truePart) fun t =>
          .bind (constructPart_follows h real falsePart) fun f =>
            .bind (.construct (.freshNode h)) fun id => .pure _ (Expr.conditional id c t f)
  | .block declared children => by
      refine .bind (constructAll_follows h real children) fun es => ?_
      rw [addAll_renamed]
      exact .built (BlockBuilder.build_follows h ⟨ScopeBuilder.addAll {} (declared.map real), es⟩)
termination_by structural draft => draft

theorem constructPart_follows (h : ρ.Steady) (real : ν → Variable) :
    ∀ part : Option (ExprDraft ν),
      Follows ρ (Supply.rename ρ) (renamePart ρ) (constructPart real part)
        (constructPart (renamed ρ real) part)
  | none => .pure _ none
  | some draft => .bind (construct_follows h real draft) fun e => .pure _ (some e)
termination_by structural part => part

theorem constructAll_follows (h : ρ.Steady) (real : ν → Variable) :
    ∀ drafts : List (ExprDraft ν),
      Follows ρ (Supply.rename ρ) (renameAll ρ) (constructAll real drafts)
        (constructAll (renamed ρ real) drafts)
  | [] => .pure _ []
  | draft :: rest =>
      .bind (construct_follows h real draft) fun e =>
        .bind (constructAll_follows h real rest) fun es => .pure _ (e :: es)
termination_by structural drafts => drafts

end

end ExprDraft

theorem FunctionDraft.construct_follows (h : ρ.Steady) (real : ν → Variable)
    (draft : FunctionDraft ν) :
    Follows ρ (Supply.rename ρ) (Function.rename ρ) (draft.construct real)
      (draft.construct (renamed ρ real)) := by
  refine .bind (ExprDraft.constructAll_follows h real draft.children) fun es => ?_
  refine .bind (ExprDraft.constructPart_follows h real draft.body) fun body => ?_
  rw [addAll_renamed, addAll_renamed]
  exact .built (FunctionBuilder.build_follows h
    { name := draft.name, returnType := draft.returnType,
      parameters := ScopeBuilder.addAll {} (draft.parameters.map real),
      block := ⟨ScopeBuilder.addAll {} (draft.declared.map real), es⟩, body })

theorem ModuleDraft.construct_follows (h : ρ.Steady) (real : ν → Variable)
    (draft : ModuleDraft ν) :
    Follows ρ (Supply.rename ρ) (Module.rename ρ) (draft.construct real)
      (draft.construct (renamed ρ real)) := by
  refine .bind (.mapM fun f => f.construct_follows h real) fun fs => ?_
  exact .built (ModuleBuilder.build_follows h ⟨draft.name, fs⟩)

theorem expressionModule_follows (h : ρ.Steady) (moduleName functionName : String) (e : Expr) :
    Follows ρ (Supply.rename ρ) (Module.rename ρ) (expressionModule moduleName functionName e)
      (expressionModule moduleName functionName (e.rename ρ)) := by
  unfold expressionModule
  rw [e.type_rename]
  refine .bind (.construct (FunctionBuilder.build_follows h
    { name := functionName, returnType := e.type, block := { children := [e] } })) fun _ => ?_
  exact .bind (.lift rfl) fun f => .built (ModuleBuilder.build_follows h ⟨moduleName, [f]⟩)

end Drafts

theorem freshVariables_follows (h : ρ.Steady) (declarations : List (String × DataType)) :
    Construct.Follows ρ (List.map (Variable.rename ρ)) (freshVariables declarations)
      (freshVariables declarations) := by
  induction declarations with
  | nil => exact fun _ => rfl
  | cons declaration rest ih =>
      exact .bind (.freshVariable h) fun id => .bind ih fun vs => fun _ => rfl

end TreeLang
