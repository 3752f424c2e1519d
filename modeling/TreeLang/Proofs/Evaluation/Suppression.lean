import TreeLang.Evaluation.Machine
import TreeLang.Proofs.Static.Judgement
import TreeLang.Proofs.Walk.Interior

namespace TreeLang

open TreeLang.Action

namespace Machine

theorem effect_unlessSuppressed (action : Action Machine Unit) (m : Machine) :
    effect (unlessSuppressed action) m = if m.suppressed then (.ok (), m) else effect action m := by
  rw [unlessSuppressed, effect_bind_ok (effect_get m)]
  split <;> simp

theorem effect_leave (node : Node) (context : Context) (m : Machine)
    (h : m.skipUntil ≠ some node.id) :
    effect (leave node context) m =
      effect (unlessSuppressed do
        if context.part? = some .condition then
          let value ← pop
          modify fun machine =>
            { machine with branches := value.truthy :: machine.branches }) m := by
  rw [leave, effect_bind_ok (effect_get m), if_neg h]

-- A suppressed machine takes no notice of expressions, but for the one whose
-- end it waits for.
theorem effect_call_of_suppressed {m : Machine} (hm : m.suppressed = true) {c : Call} {e : Expr}
    (hnode : c.node = .expr e) (hleave : c.moment = .leave → m.skipUntil ≠ some e.id) :
    effect (evaluator.call c) m = (.ok (), m) := by
  rcases c with ⟨moment, node, context⟩
  obtain rfl : node = .expr e := hnode
  have hnot : ∀ action, effect (unlessSuppressed action) m = (.ok (), m) := by
    intro action
    rw [effect_unlessSuppressed, if_pos hm]
  cases moment with
  | enter => exact hnot _
  | start => cases e <;> rfl
  | visit => cases e <;> first | exact hnot _ | rfl
  | finish => cases e <;> first | exact hnot _ | rfl
  | leave => exact (effect_leave (.expr e) context m (hleave rfl)).trans (hnot _)
  | discard => exact hnot _

end Machine

namespace Expr

theorem fault?_interior (e : Expr) (outer : Context) :
    Step.fault? (e.interior (outer.within (.expr e))) = e.violation? outer.scopes := by
  have h := e.fault?_steps outer
  rw [steps_eq] at h
  simpa [Step.fault?, Step.fault?_append] using h

theorem effect_interior_of_suppressed {m : Machine} (hm : m.suppressed = true) (e : Expr)
    (outer : Context) (hskip : ∀ x ∈ e.children.flatMap preorder, m.skipUntil ≠ some x.id) :
    effect (evaluator.traverse (e.interior (outer.within (.expr e)))) m =
      (verdict (e.violation? outer.scopes), m) := by
  rw [← fault?_interior]
  refine Visitor.effect_traverse_of_quiet fun c hc => ?_
  obtain ⟨x, hnode, hleave⟩ := call_about_of_mem_interior hc
  exact Machine.effect_call_of_suppressed hm hnode fun hmoment => hskip x (hleave hmoment)

-- What is suppressed is still walked, so it is checked and has no other effect.
theorem effect_steps_of_suppressed {m : Machine} (hm : m.suppressed = true) (e : Expr)
    (outer : Context) (hskip : ∀ x ∈ e.preorder, m.skipUntil ≠ some x.id) :
    effect (evaluator.traverse (e.steps outer)) m = (verdict (e.violation? outer.scopes), m) := by
  rw [← fault?_steps]
  refine Visitor.effect_traverse_of_quiet fun c hc => ?_
  obtain ⟨x, hx, hnode⟩ := call_mem_steps hc
  exact Machine.effect_call_of_suppressed hm hnode fun _ => hskip x hx

end Expr

end TreeLang
