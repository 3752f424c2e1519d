import TreeLang.Evaluation.Machine
import TreeLang.Proofs.Static.Judgement

namespace TreeLang

-- An evaluator that does not rely on the checks of the walk: where a variable is
-- read or assigned it looks the name up again, and goes on with what that means.
def resolvingEvaluator : Visitor Machine where
  setUp := evaluator.setUp
  call call :=
    match call.moment, call.node with
    | .visit, .expr (.ref id target) =>
        Machine.unlessSuppressed do
          let found ← liftM (call.context.resolve target.name id)
          Machine.read id found
    | .finish, .expr (.assign id target _) =>
        Machine.unlessSuppressed do
          let found ← liftM (call.context.resolve target.name id)
          Machine.finishAssign found
    | _, _ => evaluator.call call
  cleanUp := evaluator.cleanUp

theorem Context.resolve_of_resolveDeclared {here : Context} {v found : Variable} {id : NodeId}
    (h : here.resolveDeclared v id = .ok found) : here.resolve v.name id = .ok v := by
  rw [resolveDeclared] at h
  cases hfound : here.resolve v.name id with
  | error error =>
      rw [hfound] at h
      cases h
  | ok other =>
      by_cases hv : other = v
      · rw [hv]
      · rw [hfound] at h
        simp [bind, Except.bind, hv] at h

-- Both evaluators do the same on these steps, log included.
def SameRun (steps : List Step) : Prop :=
  resolvingEvaluator.traverse steps = evaluator.traverse steps

namespace SameRun

variable {xs ys : List Step} {c : Call}

theorem nil : SameRun [] := rfl

theorem append (hx : SameRun xs) (hy : SameRun ys) : SameRun (xs ++ ys) := by
  rw [SameRun, Visitor.traverse_append, Visitor.traverse_append, hx, hy]

theorem note (entry : Entry) (h : SameRun xs) : SameRun (.note entry :: xs) :=
  @append [.note entry] xs rfl h

theorem call (hc : resolvingEvaluator.call c = evaluator.call c) (h : SameRun xs) :
    SameRun (.call c :: xs) := by
  have hone : SameRun [.call c] := by
    change (do resolvingEvaluator.call c; pure ()) = (do evaluator.call c; pure ())
    rw [hc]
  exact hone.append h

-- Nothing is done after a step that fails.
theorem fail (error : Error) (xs : List Step) : SameRun (.fail error :: xs) := rfl

-- A use that passes the check of the walk means the variable it names, so that is
-- what the second look finds.
theorem use {here : Context} {v : Variable} {id : NodeId}
    (h : here.resolve v.name id = .ok v → SameRun xs) :
    SameRun (Step.checkUse here v id ++ xs) := by
  unfold Step.checkUse
  cases hdeclared : here.resolveDeclared v id with
  | error error => exact fail error xs
  | ok found => exact h (Context.resolve_of_resolveDeclared hdeclared)

theorem flatMap {α : Type} {as : List α} {steps : α → List Step}
    (h : ∀ a ∈ as, SameRun (steps a)) : SameRun (as.flatMap steps) := by
  induction as with
  | nil => exact nil
  | cons a rest ih =>
      rw [List.flatMap_cons]
      exact (h a List.mem_cons_self).append (ih fun x hx => h x (List.mem_cons_of_mem _ hx))

end SameRun

-- Only these two calls look a name up.

theorem resolvingEvaluator_ref {here : Context} {id : NodeId} {target : Variable}
    (h : here.resolve target.name id = .ok target) :
    resolvingEvaluator.call ⟨.visit, .expr (.ref id target), here⟩ =
      evaluator.call ⟨.visit, .expr (.ref id target), here⟩ := by
  change Machine.unlessSuppressed
    (do let found ← liftM (here.resolve target.name id); Machine.read id found) = _
  rw [h]
  rfl

theorem resolvingEvaluator_assign {here : Context} {id : NodeId} {target : Variable} {e : Expr}
    (h : here.resolve target.name id = .ok target) :
    resolvingEvaluator.call ⟨.finish, .expr (.assign id target e), here⟩ =
      evaluator.call ⟨.finish, .expr (.assign id target e), here⟩ := by
  change Machine.unlessSuppressed
    (do let found ← liftM (here.resolve target.name id); Machine.finishAssign found) = _
  rw [h]
  rfl

namespace Expr

theorem sameRun_part {here : Context} {part : Option Expr}
    (h : ∀ e ∈ part, ∀ outer, SameRun (e.steps outer)) : SameRun (partSteps here part) := by
  cases part with
  | none => exact .nil
  | some e => exact h e rfl here

theorem sameRun_children {es : List Expr} (h : ∀ e ∈ es, ∀ outer, SameRun (e.steps outer))
    (inside : Context) (index count : Nat) : SameRun (childSteps inside index count es) := by
  induction es generalizing index with
  | nil => exact .nil
  | cons e rest ih =>
      have he := h e List.mem_cons_self inside
      have hdiscard : SameRun (if discardsResult (some .block) index count then
          [.call ⟨.discard, .expr e, inside⟩] else []) := by
        split
        · exact .call rfl .nil
        · exact .nil
      exact (he.append hdiscard).append (ih (fun x hx => h x (List.mem_cons_of_mem _ hx)) _)

theorem sameRun (e : Expr) (outer : Context) : SameRun (e.steps outer) := by
  induction e generalizing outer with
  | int32 id value => exact .call rfl (.call rfl (.call rfl .nil))
  | float id value => exact .call rfl (.call rfl (.call rfl .nil))
  | ref id target =>
      rw [steps_eq]
      refine .call rfl (.append (.use fun h => ?_) (.call rfl .nil))
      exact .call (resolvingEvaluator_ref h) .nil
  | binary id operation left right hl hr =>
      rw [steps_eq]
      have hcheck : SameRun (Step.checkOperands id left right) := by
        unfold Step.checkOperands
        cases operandError? id left right <;> rfl
      refine .call rfl (.append (.call rfl ?_) (.call rfl .nil))
      exact (hl _).append ((hr _).append (hcheck.append (.call rfl .nil)))
  | assign id target value ih =>
      rw [steps_eq]
      refine .call rfl (.append (.use fun h => ?_) (.call rfl .nil))
      exact .call rfl ((ih _).append (.call (resolvingEvaluator_assign h) .nil))
  | ret id value ih =>
      rw [steps_eq]
      refine .call rfl (.append (.call rfl ?_) (.call rfl .nil))
      exact (ih _).append (.call rfl .nil)
  | conditional id condition truePart falsePart hc ht hf =>
      rw [steps_eq]
      refine .call rfl (.append (.call rfl ?_) (.call rfl .nil))
      exact (hc _).append ((sameRun_part ht).append ((sameRun_part hf).append (.call rfl .nil)))
  | block id scope children ih =>
      rw [steps_eq]
      refine .call rfl (.append (.note _ (.call rfl ?_)) (.call rfl .nil))
      exact (sameRun_children ih _ _ _).append (.call rfl (.note _ .nil))

end Expr

theorem Function.sameRun (f : Function) (outer : Context) : SameRun (f.steps outer) :=
  .call rfl (.call rfl ((f.body.sameRun _).append (.call rfl (.call rfl .nil))))

theorem Node.sameRun (root : Node) : SameRun root.steps := by
  cases root with
  | expr e => exact e.sameRun _
  | function f => exact f.sameRun _
  | module m =>
      refine .call rfl (.call rfl (.append ?_ (.call rfl (.call rfl .nil))))
      exact .flatMap fun f _ => f.sameRun _

end TreeLang
