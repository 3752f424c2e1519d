import TreeLang.Evaluation.Evaluate
import TreeLang.Proofs.Evaluation.Simulation

namespace TreeLang

open TreeLang.Action

-- A function leaves its value alone on the stack. A return within a condition
-- leaves the outcomes of those around it.
def Produces : Value → Store → Machine → Prop :=
  fun value store m => ∃ pending, m = { values := [value], store, branches := pending }

theorem Function.agrees {f : Function} (hwf : f.body.WellFormed) {outer : Context}
    (hscopes : outer.scopes = []) (hplain : (outer.within (.function f)).part? = none)
    (values : List Value) (store : Store) (branches : List Bool) :
    Agrees Produces (f.evaluateDirectly.run store)
      (effect (evaluator.traverse (f.steps outer)) { values, store, branches }) := by
  have hbody := (f.body.simulated hwf).steps
    ((outer.within (.function f)).opening f.parameters) [] store [] rfl
  have hinside : ((outer.within (.function f)).opening f.parameters).scopes = [f.parameters] :=
    congrArg (f.parameters :: ·) hscopes
  have hleave : (outer.within (.function f)).part? ≠ some .condition := by simp [hplain]
  rw [hinside] at hbody
  simp only [Function.evaluateDirectly, Function.steps, List.cons_append]
  refine .call (Machine.effect_enter_plain _ _ _ (.inl hplain)) ?_
  refine .call (Machine.effect_start_function f _ _) (hbody.bind fun ending store' m' hends => ?_)
  cases ending with
  | normal value =>
      obtain rfl := hends
      refine .call (Machine.effect_finish_function (Machine.effect_takeResult_value ..)) ?_
      exact .call (Machine.effect_leave_plain _ _ _ hleave) (.nil ⟨[], rfl⟩)
  | returned value =>
      obtain ⟨above, pending, rfl⟩ := hends
      refine .call (Machine.effect_finish_function (Machine.effect_takeResult_returned ..)) ?_
      exact .call (Machine.effect_leave_plain _ _ _ hleave) (.nil ⟨pending ++ [], rfl⟩)

theorem agrees_functions {fs : List Function} (hne : fs ≠ [])
    (hwf : ∀ f ∈ fs, f.body.WellFormed) (outer : Context) (hscopes : outer.scopes = [])
    (hplain : ∀ f, (outer.within (.function f)).part? = none)
    (values : List Value) (store : Store) (branches : List Bool) :
    Agrees Produces ((evaluateFunctions fs).run store)
      (effect (evaluator.traverse (fs.flatMap (·.steps outer))) { values, store, branches }) := by
  induction fs generalizing values store branches with
  | nil => exact absurd rfl hne
  | cons f rest ih =>
      have hf := Function.agrees (hwf f List.mem_cons_self) hscopes (hplain f) values store
        branches
      cases rest with
      | nil => simpa [evaluateFunctions] using hf
      | cons next rest =>
          rw [List.flatMap_cons]
          simp only [evaluateFunctions]
          refine hf.bind fun value store' m' hproduces => ?_
          obtain ⟨pending, rfl⟩ := hproduces
          exact ih (by simp) (fun x hx => hwf x (List.mem_cons_of_mem _ hx)) [value] store' pending

theorem effect_walk_evaluator (root : Node) (m : Machine) :
    effect (walk evaluator root) m = effect (evaluator.traverse root.steps) {} := by
  have hset : effect evaluator.setUp m = (.ok (), {}) := rfl
  rw [effect_walk, effect_bind_ok hset]
  rcases effect (evaluator.traverse root.steps) {} with ⟨_ | _, t⟩ <;> rfl

-- The result is taken from the state the walk has left.
theorem evaluate_of_agrees {root : Node} {direct : Direct Value}
    {fits : Value → Store → Machine → Prop}
    (h : Agrees fits (direct.run {}) (effect (evaluator.traverse root.steps) {}))
    (htake : ∀ value store m, fits value store m →
      (effect Machine.takeResult m).1 = .ok value) (m : Machine) :
    (effect (evaluate root) m).1 = direct.run' {} := by
  have hwalk := effect_walk_evaluator root m
  rw [evaluate, effect_bind, hwalk]
  rcases hrun : effect (evaluator.traverse root.steps) {} with ⟨result, m'⟩
  rw [hrun] at h
  rw [StateT.run'_eq]
  cases hd : direct.run {} with
  | error error =>
      rw [hd] at h
      obtain rfl : result = .error error := h
      rfl
  | ok outcome =>
      rw [hd] at h
      obtain ⟨rfl, hfits⟩ : result = .ok () ∧ fits outcome.1 outcome.2 m' := h
      exact htake _ _ _ hfits

theorem take_of_ends {ending : Ending} {store : Store} {m : Machine}
    (h : Ends [] [] ending store m) : (effect Machine.takeResult m).1 = .ok ending.value := by
  cases ending with
  | normal value =>
      obtain rfl := h
      rfl
  | returned value =>
      obtain ⟨above, pending, rfl⟩ := h
      rfl

theorem take_of_produces {value : Value} {store : Store} {m : Machine}
    (h : Produces value store m) : (effect Machine.takeResult m).1 = .ok value := by
  obtain ⟨pending, rfl⟩ := h
  rfl

theorem Module.agrees {mod : Module} (hwf : (Node.module mod).WellFormed)
    (hne : mod.functions ≠ []) :
    Agrees Produces ((evaluateFunctions mod.functions).run {})
      (effect (evaluator.traverse (Node.module mod).steps) {}) := by
  simp only [Node.steps, Module.steps, List.cons_append]
  refine .call rfl (.call rfl ?_)
  have hfunctions := agrees_functions hne (fun f hf => (hwf.function hf).body)
    (Context.outside.within (.module mod)) rfl (fun _ => rfl) [] {} []
  refine hfunctions.followed fun value store' m' hproduces => ?_
  obtain ⟨pending, rfl⟩ := hproduces
  have hleave : (Context.outside.within (.module mod)).part? ≠ some .condition :=
    (Option.some_ne_none _).symm
  exact .call rfl (.call (Machine.effect_leave_plain _ _ _ hleave) (.nil ⟨pending, rfl⟩))

section Roots

-- For each kind of root: what is evaluated does not depend on what an earlier
-- run has left in the machine.

variable (m : Machine)

theorem effect_evaluate_simulated {e : Expr} (h : e.Simulated) :
    (effect (evaluate (.expr e)) m).1 =
      (do return (← e.evaluateDirectly []).value : Direct Value).run' {} := by
  have he := h.steps .outside [] {} [] rfl
  have hvalue : Agrees
      (fun value store m => ∃ ending, ending.value = value ∧ Ends [] [] ending store m)
      ((do return (← e.evaluateDirectly []).value : Direct Value).run {})
      (effect (evaluator.traverse (Node.expr e).steps) {}) := by
    rw [← List.append_nil (Node.expr e).steps]
    exact he.bind fun ending store' m' hends => .nil ⟨ending, rfl, hends⟩
  refine evaluate_of_agrees hvalue ?_ m
  rintro _ store m' ⟨ending, rfl, hends⟩
  exact take_of_ends hends

theorem effect_evaluate_expr {e : Expr} (hwf : e.WellFormed) :
    (effect (evaluate (.expr e)) m).1 =
      (do return (← e.evaluateDirectly []).value : Direct Value).run' {} :=
  effect_evaluate_simulated m (e.simulated hwf)

theorem effect_evaluate_function {f : Function} (hwf : f.body.WellFormed) :
    (effect (evaluate (.function f)) m).1 = f.evaluateDirectly.run' {} := by
  have hf : Agrees Produces (f.evaluateDirectly.run {})
      (effect (evaluator.traverse (Node.function f).steps) {}) :=
    Function.agrees hwf rfl rfl [] {} []
  exact evaluate_of_agrees hf (fun _ _ _ => take_of_produces) m

-- Nothing is left on the stack by a module without functions.
theorem effect_evaluate_module {mod : Module} (hwf : (Node.module mod).WellFormed) :
    (effect (evaluate (.module mod)) m).1 = (evaluateFunctions mod.functions).run' {} := by
  rcases mod with ⟨id, name, _ | ⟨f, rest⟩⟩
  · rfl
  · have hmodule := Module.agrees hwf (by simp)
    exact evaluate_of_agrees hmodule (fun _ _ _ => take_of_produces) m

end Roots

theorem value_evaluateExpr (e : Expr) :
    (evaluateExpr e).run.value = (effect (evaluate (.expr e)) {}).1 := by
  simp only [evaluateExpr, ExceptT.run_bind, Logged.value_bind, value_startingFrom]
  cases (effect (evaluate (.expr e)) {}).1 <;> rfl

theorem value_evaluateFunction {m : Module} {name : String} {f : Function}
    (hfind : m.find? name = some f) :
    (evaluateFunction m name).run.value =
      match (effect (evaluate (.function f)) {}).1 with
      | .error error => .error error
      | .ok value =>
          if f.returnType = .void then .ok .void
          else if f.returnType = value.type then .ok value
          else .error
            { cause := .returnMismatch f.returnType value.type, node := some f.id } := by
  simp only [evaluateFunction, hfind, ExceptT.run_bind, Logged.value_bind, value_startingFrom]
  cases (effect (evaluate (.function f)) {}).1 with
  | error error => rfl
  | ok value =>
      by_cases hvoid : f.returnType = .void
      · simp only [hvoid, if_true]
        rfl
      · by_cases htype : f.returnType = value.type
        · simp only [if_neg hvoid, if_pos htype]
          rfl
        · simp only [if_neg hvoid, if_neg htype]
          rfl

-- Evaluation by a machine, in whatever state it is, is direct evaluation.
theorem evaluate_eq_evaluateDirectly (root : Node) (hwf : root.WellFormed) (m : Machine) :
    (effect (evaluate root) m).1 = root.evaluateDirectly := by
  cases root with
  | expr e => exact effect_evaluate_expr m hwf.expr
  | function f => exact effect_evaluate_function m hwf.body
  | module mod => exact effect_evaluate_module m hwf

-- A return within an operand ends the function, with a machine that a failed
-- run has left in the middle of a part it skipped.
theorem evaluate_eq_evaluateDirectly_operand_returns :
    let early : Expr := .conditional ⟨1⟩ (.int32 ⟨2⟩ 1) (some (.ret ⟨3⟩ (.int32 ⟨4⟩ 7))) none
    let root : Node :=
      .function ⟨⟨7⟩, "f", .int32, ⟨[]⟩, .binary ⟨5⟩ .add early (.int32 ⟨6⟩ 2)⟩
    let left : Machine := { values := [.bool true], branches := [false], skipUntil := some ⟨3⟩ }
    root.WellFormed ∧ root.evaluateDirectly = .ok (.int32 7) ∧
      (effect (evaluate root) left).1 = .ok (.int32 7) := by
  intro early root left
  have hwf : root.WellFormed := by
    refine ⟨by decide, ?_⟩
    simp [root, early, Node.preorder, Expr.preorder, Expr.preorderPart]
  have hdirect : root.evaluateDirectly = .ok (.int32 7) := rfl
  exact ⟨hwf, hdirect, (evaluate_eq_evaluateDirectly root hwf left).trans hdirect⟩

end TreeLang
