import TreeLang.Proofs.Builder.Outcome
import TreeLang.Proofs.Evaluation.Placement
import TreeLang.Proofs.Evaluation.Refinement
import TreeLang.Proofs.Naming
import TreeLang.Proofs.Static.TypeChecking

namespace TreeLang

open TreeLang.Action

namespace Machine

-- The result that is there to take after these steps, or their error.
def resultAfter (steps : List Step) (m : Machine) : Except Error Value :=
  (effect (do evaluator.traverse steps; takeResult) m).1

-- Steps that leave the result of whatever comes before them as it is.
def Preserves (steps : List Step) : Prop :=
  ∀ m, resultAfter steps m = (effect takeResult m).1

section Results

variable {c : Call} {xs ys : List Step} {m m' : Machine}

theorem resultAfter_call (h : effect (evaluator.call c) m = (.ok (), m')) :
    resultAfter (.call c :: xs) m = resultAfter xs m' := by
  simp only [resultAfter]
  rw [effect_bind, effect_bind, Visitor.effect_traverse_call_ok h]

theorem resultAfter_note (entry : Entry) : resultAfter (.note entry :: xs) m = resultAfter xs m :=
  rfl

theorem resultAfter_append (h : Preserves ys) : resultAfter (xs ++ ys) m = resultAfter xs m := by
  simp only [resultAfter]
  rcases hrun : effect (evaluator.traverse xs) m with ⟨error | _, m'⟩
  · rw [effect_bind_error hrun, effect_bind_error (Visitor.effect_traverse_append_error hrun _)]
  · have hys := h m'
    rw [effect_bind_ok hrun, effect_bind, Visitor.effect_traverse_append_ok hrun, ← hys,
      resultAfter, effect_bind]

theorem resultAfter_moved (h : Step.AllMoved xs ys) : resultAfter xs m = resultAfter ys m := by
  rw [resultAfter, resultAfter, effect_bind, effect_bind, h.effect_eq]

theorem Preserves.nil : Preserves [] := fun _ => rfl

theorem Preserves.note (entry : Entry) (h : Preserves xs) : Preserves (.note entry :: xs) := h

theorem Preserves.call (hc : ∀ m, (effect (do evaluator.call c; takeResult) m).1 =
    (effect takeResult m).1) (h : Preserves xs) : Preserves (.call c :: xs) := by
  intro m
  rw [← hc m]
  rcases hrun : effect (evaluator.call c) m with ⟨error | _, m'⟩
  · rw [effect_bind_error hrun, resultAfter,
      effect_bind_error (Visitor.effect_traverse_call_error hrun _)]
  · rw [effect_bind_ok hrun, resultAfter_call hrun]
    exact h m'

end Results

section Calls

variable {here : Context}

-- The mark of a part that is skipped has no part in the result.
theorem takeResult_skipUntil (m : Machine) (skipUntil : Option NodeId) :
    (effect takeResult { m with skipUntil }).1 = (effect takeResult m).1 := by
  rcases m with ⟨_ | ⟨value, rest⟩, store, branches, _, _ | given⟩ <;> rfl

theorem effect_enter_root {node : Node} (h : here.part? = none) (m : Machine) :
    effect (evaluator.call ⟨.enter, node, here⟩) m = (.ok (), m) := by
  change effect (enter node here) m = _
  rw [enter, effect_unlessSuppressed]
  simp [h]

theorem takeResult_leave {node : Node} (h : here.part? ≠ some .condition) (m : Machine) :
    (effect (do evaluator.call ⟨.leave, node, here⟩; takeResult) m).1 =
      (effect takeResult m).1 := by
  have hleave : ∃ skipUntil, effect (leave node here) m = (.ok (), { m with skipUntil }) := by
    by_cases hskip : m.skipUntil = some node.id
    · rw [leave, effect_bind_ok (effect_get m), if_pos hskip]
      exact ⟨none, rfl⟩
    · rw [effect_leave node here m hskip, effect_unlessSuppressed]
      exact ⟨m.skipUntil, by simp [h]⟩
  obtain ⟨skipUntil, hleave⟩ := hleave
  have hcall : effect (evaluator.call ⟨.leave, node, here⟩) m = (.ok (), { m with skipUntil }) :=
    hleave
  rw [effect_bind_ok hcall, takeResult_skipUntil]

theorem takeResult_finish_function (f : Function) (m : Machine) :
    (effect (do evaluator.call ⟨.finish, .function f, here⟩; takeResult) m).1 =
      (effect takeResult m).1 := by
  rcases m with ⟨_ | ⟨value, rest⟩, store, branches, skipUntil, _ | given⟩ <;> rfl

end Calls

-- What comes of a function is what comes of its body, and what comes of a block with one
-- child or of a module with one function is what comes of that.

theorem resultAfter_function {outer : Context} (f : Function)
    (hplain : (outer.within (.function f)).part? = none) (m : Machine) :
    resultAfter (f.steps outer) m =
      resultAfter (f.body.steps ((outer.within (.function f)).opening f.parameters))
        { store := m.store } := by
  have hleave : (outer.within (.function f)).part? ≠ some .condition := by simp [hplain]
  rw [Function.steps, List.cons_append, List.cons_append,
    resultAfter_call (effect_enter_root hplain m), resultAfter_call (effect_start_function f _ m)]
  refine resultAfter_append (.call (takeResult_finish_function f) ?_)
  exact .call (takeResult_leave hleave) .nil

theorem resultAfter_block {outer : Context} (id : NodeId) (scope : Scope) (e : Expr)
    (hplain : (outer.within (.expr (.block id scope [e]))).part? = none) (m : Machine) :
    resultAfter ((Expr.block id scope [e]).steps outer) m =
      resultAfter (e.steps ((outer.within (.expr (.block id scope [e]))).opening scope)) m := by
  have hleave : (outer.within (.expr (.block id scope [e]))).part? ≠ some .condition := by
    simp [hplain]
  have hstart : effect (evaluator.call ⟨.start, .expr (.block id scope [e]),
      (outer.within (.expr (.block id scope [e]))).opening scope⟩) m = (.ok (), m) := rfl
  rw [Expr.steps_eq, resultAfter_call (effect_enter_root hplain m),
    resultAfter_append (.call (takeResult_leave hleave) .nil), Expr.interior,
    Expr.childSteps_last (by rfl), Step.scopeEntered, resultAfter_note, resultAfter_call hstart]
  exact resultAfter_append (.call (fun _ => rfl) (.note _ .nil))

theorem resultAfter_module {mod : Module} {f : Function} (hfunctions : mod.functions = [f])
    (m : Machine) :
    resultAfter (Node.module mod).steps m =
      resultAfter (f.steps (Context.outside.within (.module mod))) m := by
  have hleave : (Context.outside.within (.module mod)).part? ≠ some .condition :=
    (Option.some_ne_none _).symm
  have hstart : effect (evaluator.call ⟨.start, .module mod,
      Context.outside.within (.module mod)⟩) m = (.ok (), m) := rfl
  rw [Node.steps, Module.steps, hfunctions, List.flatMap_singleton, List.cons_append,
    List.cons_append, resultAfter_call (effect_enter_root rfl m), resultAfter_call hstart]
  exact resultAfter_append (.call (fun _ => rfl) (.call (takeResult_leave hleave) .nil))

end Machine

-- The function and the module that are made of an expression, with the identities they
-- take.

def wrapper (functionName : String) (e : Expr) (supply : Supply) : Function where
  id := supply.pastNode.nextNode
  name := functionName
  returnType := e.type
  parameters := ⟨[]⟩
  body := .block supply.nextNode ⟨[]⟩ [e]

def wrapping (moduleName functionName : String) (e : Expr) (supply : Supply) : Module where
  id := supply.pastNode.pastNode.nextNode
  name := moduleName
  functions := [wrapper functionName e supply]

theorem effect_expressionModule {moduleName functionName : String}
    (hmodule : Identifier moduleName) (hfunction : Identifier functionName) (e : Expr)
    (supply : Supply) :
    effect (expressionModule moduleName functionName e) supply =
      (.ok (wrapping moduleName functionName e supply), supply.pastNode.pastNode.pastNode) := by
  have hm : checkIdentifier "module" moduleName = .ok () := by
    simp [checkIdentifier, isIdentifier_iff.mpr hmodule]
  have hf : checkIdentifier "function" functionName = .ok () := by
    simp [checkIdentifier, isIdentifier_iff.mpr hfunction]
  simp only [expressionModule, FunctionBuilder.build, ModuleBuilder.build,
    ModuleBuilder.takeParts, hm, hf]
  rfl

section Wrapping

variable (moduleName functionName : String) (e : Expr) (supply : Supply) (outer : Context)

theorem evaluate_eq_resultAfter (root : Node) (m : Machine) :
    (effect (evaluate root) m).1 = Machine.resultAfter root.steps {} := by
  rw [evaluate, effect_bind, effect_walk_evaluator, Machine.resultAfter, effect_bind]

-- Around the expression nothing is declared, so it stands there as if on its own.
theorem steps_inside_wrapper (hscopes : outer.scopes = []) :
    Step.AllMoved
      (e.steps ((((outer.within (.function (wrapper functionName e supply))).opening ⟨[]⟩).within
        (.expr (.block supply.nextNode ⟨[]⟩ [e]))).opening ⟨[]⟩))
      (e.steps .outside) := by
  refine e.steps_moved ⟨fun node => rfl, fun name => ?_⟩
  simp [Context.resolve?, Context.opening, Context.within, Context.outside, Scope.find?, hscopes]

theorem resultAfter_wrapper (hscopes : outer.scopes = [])
    (hplain : (outer.within (.function (wrapper functionName e supply))).part? = none) :
    Machine.resultAfter ((wrapper functionName e supply).steps outer) {} =
      (evaluateExpr e).run.value := by
  have hmoved := steps_inside_wrapper functionName e supply outer hscopes
  rw [value_evaluateExpr, evaluate_eq_resultAfter]
  refine (Machine.resultAfter_function _ hplain {}).trans ?_
  refine (Machine.resultAfter_block supply.nextNode ⟨[]⟩ e rfl {}).trans ?_
  exact Machine.resultAfter_moved hmoved

theorem fault?_wrapping :
    (Node.module (wrapping moduleName functionName e supply)).fault? = (Node.expr e).fault? := by
  have hmoved := steps_inside_wrapper functionName e supply .outside rfl
  have hviolation := hmoved.fault?_eq
  rw [Expr.fault?_steps, Expr.fault?_steps] at hviolation
  replace hviolation : e.violation? [⟨[]⟩, ⟨[]⟩] = e.violation? [] := hviolation
  rw [Node.fault?_eq_violation?, Node.fault?_eq_violation?]
  simp only [Node.violation?, wrapping, wrapper, List.findSome?_cons, List.findSome?_nil,
    Function.violation?, Expr.violation?, Expr.childViolation?, hviolation]
  cases e.violation? [] <;> rfl

end Wrapping

-- An expression means the same in a module of its own: it passes the check or fails it
-- with the same error, and it evaluates to the same. Its function has the type of the
-- expression, so that is what a value is held against when the function is evaluated,
-- also one that an early return gave.
theorem expressionModule_meaning {moduleName functionName : String}
    (hmodule : Identifier moduleName) (hfunction : Identifier functionName) (e : Expr)
    (supply : Supply) :
    ∃ mod f left, effect (expressionModule moduleName functionName e) supply = (.ok mod, left) ∧
      mod.name = moduleName ∧ mod.functions = [f] ∧ f.name = functionName ∧
      (typeCheck (.module mod)).run.value = (typeCheck (.expr e)).run.value ∧
      (∀ m, (effect (evaluate (.module mod)) m).1 = (evaluateExpr e).run.value) ∧
      (∀ error, (evaluateExpr e).run.value = .error error →
        (evaluateFunction mod functionName).run.value = .error error) ∧
      ∀ value, (evaluateExpr e).run.value = .ok value →
        (evaluateFunction mod functionName).run.value =
          if e.type = .void then .ok .void
          else if e.type = value.type then .ok value
          else .error { cause := .returnMismatch e.type value.type, node := some f.id } := by
  let mod := wrapping moduleName functionName e supply
  let f := wrapper functionName e supply
  have hfind : mod.find? functionName = some f := by
    simp [mod, f, wrapping, wrapper, Module.find?]
  have hevaluate : (effect (evaluate (.function f)) {}).1 = (evaluateExpr e).run.value := by
    rw [evaluate_eq_resultAfter]
    exact resultAfter_wrapper functionName e supply .outside rfl rfl
  have hmade := effect_expressionModule hmodule hfunction e supply
  refine ⟨mod, f, _, hmade, rfl, rfl, rfl, ?_, ?_, ?_, ?_⟩
  · rw [value_typeCheck, value_typeCheck, fault?_wrapping]
  · intro m
    rw [evaluate_eq_resultAfter, Machine.resultAfter_module rfl]
    exact resultAfter_wrapper functionName e supply _ rfl rfl
  · intro error herror
    rw [value_evaluateFunction hfind, hevaluate, herror]
  · intro value hvalue
    rw [value_evaluateFunction hfind, hevaluate, hvalue]
    rfl

-- A return of an integer from a block that ends with a fraction.
theorem expressionModule_meaning_early_return :
    let early : Expr := .conditional ⟨1⟩ (.int32 ⟨2⟩ 1) (some (.ret ⟨3⟩ (.int32 ⟨4⟩ 7))) none
    let e : Expr := .block ⟨6⟩ ⟨[]⟩ [early, .float ⟨5⟩ 0]
    Identifier "m" ∧ Identifier "f" ∧ (evaluateExpr e).run.value = .ok (.int32 7) ∧
      ∃ mod f left, effect (expressionModule "m" "f" e) ⟨⟨7⟩, ⟨1⟩⟩ = (.ok mod, left) ∧
        mod.functions = [f] ∧ (typeCheck (.module mod)).run.value = .ok () ∧
        (∀ m, (effect (evaluate (.module mod)) m).1 = .ok (.int32 7)) ∧
        (evaluateFunction mod "f").run.value =
          .error { cause := .returnMismatch .float .int32, node := some f.id } := by
  intro early e
  have hm : Identifier "m" := isIdentifier_iff.mp (by decide)
  have hf : Identifier "f" := isIdentifier_iff.mp (by decide)
  have hvalue : (evaluateExpr e).run.value = .ok (.int32 7) := by decide +kernel
  have hcheck : (typeCheck (.expr e)).run.value = .ok () := by decide +kernel
  obtain ⟨mod, f, left, hmade, -, hfunctions, -, htypes, hmodule, -, hfunction⟩ :=
    expressionModule_meaning hm hf e ⟨⟨7⟩, ⟨1⟩⟩
  have hreturned := hfunction _ hvalue
  rw [if_neg (by decide), if_neg (by decide)] at hreturned
  exact ⟨hm, hf, hvalue, mod, f, left, hmade, hfunctions, htypes.trans hcheck,
    fun m => (hmodule m).trans hvalue, hreturned⟩

end TreeLang
