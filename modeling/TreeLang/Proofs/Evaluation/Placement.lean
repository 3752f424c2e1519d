import Mathlib.Data.List.Forall2
import TreeLang.Evaluation.Evaluate
import TreeLang.Proofs.Evaluation.Suppression

namespace TreeLang

open TreeLang.Action

-- What is put in two such places has no means to tell them apart: it is the same part
-- of what is around it, and names mean the same there.
structure Context.Like (here there : Context) : Prop where
  parts : ∀ node, (here.within node).part? = (there.within node).part?
  names : ∀ name, here.resolve? name = there.resolve? name

namespace Context.Like

variable {here there : Context}

-- The parts of an expression are told by the expression alone.
theorem within (h : here.Like there) (e : Expr) :
    (here.within (.expr e)).Like (there.within (.expr e)) :=
  ⟨fun _ => rfl, h.names⟩

theorem opening (h : here.Like there) (scope : Scope) :
    (here.opening scope).Like (there.opening scope) where
  parts := h.parts
  names name := by
    have hname := h.names name
    simp only [resolve?] at hname
    simp only [resolve?, Context.opening, List.findSome?_cons, hname]

end Context.Like

-- Steps of a walk at the same node in two such places. What is written to the log may
-- differ, as it shows how deep the place is.
inductive Step.Moved : Step → Step → Prop where
  | call (moment : Moment) (node : Node) {here there : Context} (h : here.part? = there.part?) :
      Moved (.call ⟨moment, node, here⟩) (.call ⟨moment, node, there⟩)
  | note (entry entry' : Entry) : Moved (.note entry) (.note entry')
  | fail (error : Error) : Moved (.fail error) (.fail error)

-- The same of all steps of two walks.
abbrev Step.AllMoved : List Step → List Step → Prop :=
  List.Forall₂ Step.Moved

namespace Step

theorem checkUse_moved {here there : Context} (h : here.Like there) (v : Variable)
    (id : NodeId) : AllMoved (checkUse here v id) (checkUse there v id) := by
  have hresolve : here.resolveDeclared v id = there.resolveDeclared v id := by
    simp only [Context.resolveDeclared, Context.resolve, h.names]
  rw [checkUse, checkUse, hresolve]
  cases there.resolveDeclared v id with
  | ok found => exact .nil
  | error error => exact .cons (.fail error) .nil

theorem checkOperands_moved (id : NodeId) (left right : Expr) :
    AllMoved (checkOperands id left right) (checkOperands id left right) := by
  unfold checkOperands
  cases operandError? id left right with
  | none => exact .cons (.note _ _) .nil
  | some error => exact .cons (.fail error) .nil

theorem AllMoved.fault?_eq {xs ys : List Step} (h : AllMoved xs ys) : fault? xs = fault? ys := by
  induction h with
  | nil => rfl
  | cons hstep _ ih =>
      cases hstep with
      | call moment node hpart => exact ih
      | note entry entry' => exact ih
      | fail error => rfl

end Step

-- Of its place, the evaluator asks which part of its parent a node is, and no more.
theorem evaluator_call_moved (moment : Moment) (node : Node) {here there : Context}
    (h : here.part? = there.part?) :
    evaluator.call ⟨moment, node, here⟩ = evaluator.call ⟨moment, node, there⟩ := by
  have henter : Machine.enter node here = Machine.enter node there := by
    simp only [Machine.enter, h]
  have hleave : Machine.leave node here = Machine.leave node there := by
    simp only [Machine.leave, h]
  cases moment with
  | enter => exact henter
  | leave => exact hleave
  | discard => rfl
  | _ =>
      cases node with
      | expr e => cases e <;> rfl
      | _ => rfl

theorem Step.AllMoved.effect_eq {xs ys : List Step} (h : AllMoved xs ys) (m : Machine) :
    effect (evaluator.traverse xs) m = effect (evaluator.traverse ys) m := by
  induction h generalizing m with
  | nil => rfl
  | @cons x y xs ys hstep _ ih =>
      cases hstep with
      | @call moment node here there hpart =>
          have hcall := congrArg (effect · m) (evaluator_call_moved moment node hpart)
          rcases hrun : effect (evaluator.call ⟨moment, node, there⟩) m with ⟨error | _, m'⟩
          · rw [Visitor.effect_traverse_call_error hrun,
              Visitor.effect_traverse_call_error (hcall.trans hrun)]
          · rw [Visitor.effect_traverse_call_ok hrun,
              Visitor.effect_traverse_call_ok (hcall.trans hrun)]
            exact ih m'
      | note entry entry' => exact ih m
      | fail error => rfl

open Step (AllMoved)

namespace Expr

theorem partSteps_moved {part : Option Expr} {here there : Context}
    (hpart : ∀ e ∈ part, AllMoved (e.steps here) (e.steps there)) :
    AllMoved (partSteps here part) (partSteps there part) := by
  cases part with
  | none => exact .nil
  | some e => exact hpart e rfl

theorem childSteps_moved {es : List Expr} {here there : Context}
    (hes : ∀ e ∈ es, AllMoved (e.steps here) (e.steps there)) (hown : here.part? = there.part?)
    (index count : Nat) :
    AllMoved (childSteps here index count es) (childSteps there index count es) := by
  induction es generalizing index with
  | nil => exact .nil
  | cons e rest ih =>
      have hdiscard : AllMoved
          (if discardsResult (some .block) index count then [.call ⟨.discard, .expr e, here⟩]
            else [])
          (if discardsResult (some .block) index count then [.call ⟨.discard, .expr e, there⟩]
            else []) := by
        split
        · exact .cons (.call _ _ hown) .nil
        · exact .nil
      have hrest := ih (fun x hx => hes x (List.mem_cons_of_mem _ hx)) (index + 1)
      exact List.rel_append (List.rel_append (hes e List.mem_cons_self) hdiscard) hrest

-- Coming to an expression and leaving it shows of its place only the part it is.
theorem steps_moved_of_interior {e : Expr} {here there : Context} (h : here.Like there)
    (hinterior : AllMoved (e.interior (here.within (.expr e)))
      (e.interior (there.within (.expr e)))) :
    AllMoved (e.steps here) (e.steps there) := by
  have hown := h.parts (.expr e)
  rw [steps_eq, steps_eq]
  exact .cons (.call _ _ hown) (List.rel_append hinterior (.cons (.call _ _ hown) .nil))

theorem steps_moved (e : Expr) {here there : Context} (h : here.Like there) :
    AllMoved (e.steps here) (e.steps there) := by
  induction e generalizing here there with
  | int32 id value =>
      have hown := h.parts (.expr (int32 id value))
      exact steps_moved_of_interior h (.cons (.call _ _ hown) .nil)
  | float id value =>
      have hown := h.parts (.expr (float id value))
      exact steps_moved_of_interior h (.cons (.call _ _ hown) .nil)
  | ref id target =>
      have hown := h.parts (.expr (ref id target))
      refine steps_moved_of_interior h (List.rel_append ?_ (.cons (.call _ _ hown) .nil))
      exact Step.checkUse_moved (h.within _) target id
  | binary id operation left right hl hr =>
      have hown := h.parts (.expr (binary id operation left right))
      refine steps_moved_of_interior h (.cons (.call _ _ hown) ?_)
      refine List.rel_append (hl (h.within _)) (List.rel_append (hr (h.within _)) ?_)
      exact List.rel_append (Step.checkOperands_moved id left right) (.cons (.call _ _ hown) .nil)
  | assign id target value ih =>
      have hown := h.parts (.expr (assign id target value))
      refine steps_moved_of_interior h (List.rel_append
        (Step.checkUse_moved (h.within _) target id) (.cons (.call _ _ hown) ?_))
      exact List.rel_append (ih (h.within _)) (.cons (.call _ _ hown) .nil)
  | ret id value ih =>
      have hown := h.parts (.expr (ret id value))
      refine steps_moved_of_interior h (.cons (.call _ _ hown) ?_)
      exact List.rel_append (ih (h.within _)) (.cons (.call _ _ hown) .nil)
  | conditional id condition truePart falsePart hc ht hf =>
      have hown := h.parts (.expr (conditional id condition truePart falsePart))
      refine steps_moved_of_interior h (.cons (.call _ _ hown) ?_)
      refine List.rel_append (hc (h.within _)) (List.rel_append ?_ (List.rel_append ?_ ?_))
      · exact partSteps_moved fun e he => ht e he (h.within _)
      · exact partSteps_moved fun e he => hf e he (h.within _)
      · exact .cons (.call _ _ hown) .nil
  | block id scope children ih =>
      have hown := h.parts (.expr (block id scope children))
      have hinside := (h.within (block id scope children)).opening scope
      refine steps_moved_of_interior h (.cons (.note _ _) (.cons (.call _ _ hown) ?_))
      refine List.rel_append ?_ (.cons (.call _ _ hown) (.cons (.note _ _) .nil))
      exact childSteps_moved (fun e he => ih e he hinside) hown 0 children.length

end Expr

end TreeLang
