import TreeLang.Builder.Module

namespace TreeLang

-- What a construction gives and the supply it leaves, whatever it logs.
def Construct.effect {α : Type} (construction : Construct α) (supply : Supply) : α × Supply :=
  (construction.run supply).value

theorem Construct.effect_bind {α β : Type} (construction : Construct α) (next : α → Construct β)
    (supply : Supply) :
    (construction >>= next).effect supply =
      (next (construction.effect supply).1).effect (construction.effect supply).2 := rfl

def Supply.pastNode (supply : Supply) : Supply :=
  { supply with nextNode := ⟨supply.nextNode.index + 1⟩ }

-- A builder is left empty, with a fault or without.
theorem ScopeBuilder.build_of_fault {builder : ScopeBuilder} {error : Error}
    (h : builder.fault = some error) : builder.build = (.error error, {}) := by
  simp only [build, h]

theorem ScopeBuilder.build_of_no_fault {builder : ScopeBuilder} (h : builder.fault = none) :
    builder.build = (.ok ⟨builder.declared⟩, {}) := by
  simp only [build, h]

theorem ScopeBuilder.build_snd (builder : ScopeBuilder) : builder.build.2 = {} := by
  cases hfault : builder.fault with
  | none => rw [build_of_no_fault hfault]
  | some error => rw [build_of_fault hfault]

-- What a build comes to: its result and the builder that is left, with the
-- supply that is left. There is one case for each way through the build, and
-- later proofs go by these cases.
inductive BlockBuilder.Outcome (builder : BlockBuilder) (supply : Supply) :
    (Except Error Expr × BlockBuilder) × Supply → Prop where
  | scopeFault {error : Error} (hfault : builder.scope.fault = some error) :
      Outcome builder supply ((.error error, { children := builder.children }), supply)
  | empty (hfault : builder.scope.fault = none) (hempty : builder.children = []) :
      Outcome builder supply ((.error { cause := .emptyBlock }, {}), supply)
  | built (hfault : builder.scope.fault = none) (hne : builder.children ≠ []) :
      Outcome builder supply
        ((.ok (.block supply.nextNode ⟨builder.scope.declared⟩ builder.children), {}),
          supply.pastNode)

theorem BlockBuilder.build_outcome (builder : BlockBuilder) (supply : Supply) :
    builder.Outcome supply (builder.build.effect supply) := by
  cases hfault : builder.scope.fault with
  | some error =>
      have hparts : builder.takeParts = (.error error, { children := builder.children }) := by
        simp only [takeParts, ScopeBuilder.build_of_fault hfault]
      simp only [build, hparts]
      exact .scopeFault hfault
  | none =>
      by_cases hempty : builder.children = []
      · have hparts : builder.takeParts = (.error { cause := .emptyBlock }, {}) := by
          simp [takeParts, ScopeBuilder.build_of_no_fault hfault, hempty]
        simp only [build, hparts]
        exact .empty hfault hempty
      · have hparts : builder.takeParts =
            (.ok (⟨builder.scope.declared⟩, builder.children), {}) := by
          simp [takeParts, ScopeBuilder.build_of_no_fault hfault, hempty]
        simp only [build, hparts]
        exact .built hfault hempty

theorem BlockBuilder.outcome_of_build {builder : BlockBuilder} {supply : Supply}
    {outcome : (Except Error Expr × BlockBuilder) × Supply}
    (h : builder.build.effect supply = outcome) : builder.Outcome supply outcome :=
  h ▸ builder.build_outcome supply

namespace FunctionBuilder

-- The function that is built once its parameters and its body are there.
def finish (builder : FunctionBuilder) (id : NodeId) (body : Expr) : Function :=
  { id, name := builder.name, returnType := builder.returnType,
    parameters := ⟨builder.parameters.declared⟩, body }

inductive Outcome (builder : FunctionBuilder) (supply : Supply) :
    (Except Error Function × FunctionBuilder) × Supply → Prop where
  | misnamed {error : Error} (hname : checkIdentifier "function" builder.name = .error error) :
      Outcome builder supply ((.error error, builder), supply)
  | parameterFault {error : Error} (hname : checkIdentifier "function" builder.name = .ok ())
      (hfault : builder.parameters.fault = some error) :
      Outcome builder supply ((.error error, { builder with parameters := {} }), supply)
  | twoBodies {body : Expr} (hname : checkIdentifier "function" builder.name = .ok ())
      (hfault : builder.parameters.fault = none) (hbody : builder.body = some body)
      (hne : builder.block.children ≠ []) :
      Outcome builder supply
        ((.error twoBodies, { builder with parameters := {}, body := none }), supply)
  | given {body : Expr} (hname : checkIdentifier "function" builder.name = .ok ())
      (hfault : builder.parameters.fault = none) (hbody : builder.body = some body)
      (hempty : builder.block.children = []) :
      Outcome builder supply
        ((.ok (builder.finish supply.nextNode body),
          { builder with parameters := {}, body := none }), supply.pastNode)
  | blockFault {error : Error} {block : BlockBuilder} {rest : Supply}
      (hname : checkIdentifier "function" builder.name = .ok ())
      (hfault : builder.parameters.fault = none) (hbody : builder.body = none)
      (hblock : builder.block.Outcome supply ((.error error, block), rest)) :
      Outcome builder supply ((.error error, { builder with parameters := {}, block }), rest)
  | collected {body : Expr} {block : BlockBuilder} {rest : Supply}
      (hname : checkIdentifier "function" builder.name = .ok ())
      (hfault : builder.parameters.fault = none) (hbody : builder.body = none)
      (hblock : builder.block.Outcome supply ((.ok body, block), rest)) :
      Outcome builder supply
        ((.ok (builder.finish rest.nextNode body), { builder with parameters := {}, block }),
          rest.pastNode)

theorem effect_buildBody_given (builder : FunctionBuilder) {body : Expr}
    (hbody : builder.body = some body) (supply : Supply) :
    builder.buildBody.effect supply =
      ((if builder.block.isEmpty then .ok body else .error twoBodies,
        { builder with body := none }), supply) := by
  simp only [buildBody, hbody]
  rfl

theorem effect_buildBody_collected (builder : FunctionBuilder) (hbody : builder.body = none)
    (supply : Supply) :
    builder.buildBody.effect supply =
      (((builder.block.build.effect supply).1.1,
        { builder with block := (builder.block.build.effect supply).1.2 }),
        (builder.block.build.effect supply).2) := by
  simp only [buildBody, hbody]
  rfl

theorem build_outcome (builder : FunctionBuilder) (supply : Supply) :
    builder.Outcome supply (builder.build.effect supply) := by
  cases hname : checkIdentifier "function" builder.name with
  | error error =>
      simp only [build, hname]
      exact .misnamed hname
  | ok value =>
      cases hfault : builder.parameters.fault with
      | some error =>
          simp only [build, hname, ScopeBuilder.build_of_fault hfault]
          exact .parameterFault hname hfault
      | none =>
          simp only [build, hname, ScopeBuilder.build_of_no_fault hfault]
          rw [Construct.effect_bind]
          rcases Option.eq_none_or_eq_some builder.body with hbody | ⟨body, hbody⟩
          · rw [effect_buildBody_collected { builder with parameters := {} } hbody]
            have hblock := builder.block.build_outcome supply
            generalize builder.block.build.effect supply = outcome at hblock ⊢
            rcases outcome with ⟨⟨error | body, block⟩, rest⟩
            · exact .blockFault hname hfault hbody hblock
            · exact .collected hname hfault hbody hblock
          · rw [effect_buildBody_given { builder with parameters := {} } hbody]
            by_cases hempty : builder.block.children = []
            · simp only [BlockBuilder.isEmpty, hempty, List.isEmpty_nil, if_true]
              exact .given hname hfault hbody hempty
            · have hne : builder.block.children.isEmpty = false := by simpa using hempty
              simp only [BlockBuilder.isEmpty, hne, Bool.false_eq_true, if_false]
              exact .twoBodies hname hfault hbody hempty

theorem outcome_of_build {builder : FunctionBuilder} {supply : Supply}
    {outcome : (Except Error Function × FunctionBuilder) × Supply}
    (h : builder.build.effect supply = outcome) : builder.Outcome supply outcome :=
  h ▸ builder.build_outcome supply

end FunctionBuilder

namespace ModuleBuilder

inductive Outcome (builder : ModuleBuilder) (supply : Supply) :
    (Except Error Module × ModuleBuilder) × Supply → Prop where
  | misnamed {error : Error} (hname : checkIdentifier "module" builder.name = .error error) :
      Outcome builder supply ((.error error, builder), supply)
  | duplicate {f : Function} (hname : checkIdentifier "module" builder.name = .ok ())
      (hduplicate : duplicate? [] builder.functions = some f) :
      Outcome builder supply
        ((.error { cause := .redeclaredFunction f.name, node := some f.id },
          { name := builder.name }), supply)
  | built (hname : checkIdentifier "module" builder.name = .ok ())
      (hdistinct : duplicate? [] builder.functions = none) :
      Outcome builder supply
        ((.ok { id := supply.nextNode, name := builder.name, functions := builder.functions },
          { name := builder.name }), supply.pastNode)

theorem build_outcome (builder : ModuleBuilder) (supply : Supply) :
    builder.Outcome supply (builder.build.effect supply) := by
  cases hname : checkIdentifier "module" builder.name with
  | error error =>
      simp only [build, takeParts, hname]
      exact .misnamed hname
  | ok value =>
      cases hduplicate : duplicate? [] builder.functions with
      | some f =>
          simp only [build, takeParts, hname, hduplicate]
          exact .duplicate hname hduplicate
      | none =>
          simp only [build, takeParts, hname, hduplicate]
          exact .built hname hduplicate

theorem outcome_of_build {builder : ModuleBuilder} {supply : Supply}
    {outcome : (Except Error Module × ModuleBuilder) × Supply}
    (h : builder.build.effect supply = outcome) : builder.Outcome supply outcome :=
  h ▸ builder.build_outcome supply

end ModuleBuilder

end TreeLang
