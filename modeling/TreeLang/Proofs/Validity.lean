import TreeLang.Print
import TreeLang.Proofs.Evaluation.Raising
import TreeLang.Proofs.Evaluation.Resolving
import TreeLang.Proofs.Static.TypeChecking

namespace TreeLang

open TreeLang.Action

section Printing

-- Text takes every piece, so a walk that prints it can only be stopped by the
-- walk itself.

theorem effect_writeAll_text (id : NodeId) (pieces : List String) (written : String) :
    ∃ rest, effect (writeAll .text id pieces) written = (.ok (), rest) := by
  induction pieces generalizing written with
  | nil => exact ⟨written, rfl⟩
  | cons piece rest ih => exact ih (written ++ piece)

theorem printer_neverFails : (printer .text).NeverFails where
  setUp _ := rfl
  call c written := by
    rcases c with ⟨moment, node, context⟩
    cases moment with
    | enter =>
        obtain ⟨rest, h⟩ := effect_writeAll_text node.id
          [indentation context.depth, node.describe, "\n"] written
        exact congrArg Prod.fst h
    | _ => rfl
  cleanUp _ := rfl

theorem value_prettyPrint (root : Node) :
    ∃ text, (prettyPrint root).run.value = verdict root.fault? *> .ok text := by
  have hwalk := effect_walk_of_neverFails printer_neverFails root ""
  rcases hrun : effect (walk (printer .text) root) "" with ⟨result, text⟩
  rw [hrun] at hwalk
  obtain rfl : result = verdict root.fault? := hwalk
  refine ⟨text, ?_⟩
  rw [prettyPrint, value_startingFrom, effect_bind, hrun]
  cases root.fault? <;> rfl

theorem prettyPrint_error_iff {root : Node} {error : Error} :
    (prettyPrint root).run.value = .error error ↔ root.fault? = some error := by
  obtain ⟨text, h⟩ := value_prettyPrint root
  rw [h]
  cases root.fault? with
  | none => exact iff_of_false nofun nofun
  | some first => exact ⟨fun h => by cases h; rfl, fun h => by cases h; rfl⟩

end Printing

section Evaluating

variable {root : Node} {error : Error}

-- The error of an evaluation comes from the walk, or else from a machine the walk
-- has left without a value.

theorem Expr.evaluateDirectly_not_internal (e : Expr) (scopes : List Scope) :
    FailsDirectly (¬ ·.Internal) (e.evaluateDirectly scopes) :=
  (e.evaluateDirectly_explained scopes).mono fun _ => Expr.Explains.not_internal

theorem Function.evaluateDirectly_not_internal (f : Function) :
    FailsDirectly (¬ ·.Internal) f.evaluateDirectly :=
  (f.body.evaluateDirectly_not_internal _).bind fun _ => .pure _

theorem evaluateFunctions_not_internal {fs : List Function} (hne : fs ≠ []) :
    FailsDirectly (¬ ·.Internal) (evaluateFunctions fs) := by
  induction fs with
  | nil => exact absurd rfl hne
  | cons f rest ih =>
      have hf := f.evaluateDirectly_not_internal
      cases rest with
      | nil => exact hf
      | cons next rest => exact hf.bind fun _ => ih (List.cons_ne_nil _ _)

theorem evaluate_not_internal (hwf : root.WellFormed)
    (hfunctions : ∀ mod, root = .module mod → mod.functions ≠ []) (m : Machine)
    (h : (effect (evaluate root) m).1 = .error error) : ¬ error.Internal := by
  cases root with
  | expr e =>
      rw [effect_evaluate_expr m hwf.expr] at h
      exact ((e.evaluateDirectly_not_internal _).bind fun _ => .pure _).run' h
  | function f =>
      rw [effect_evaluate_function m hwf.body] at h
      exact f.evaluateDirectly_not_internal.run' h
  | module mod =>
      rw [effect_evaluate_module m hwf] at h
      exact (evaluateFunctions_not_internal (hfunctions mod rfl)).run' h

end Evaluating

section Agreement

variable {root : Node} {m : Machine}

end Agreement

end TreeLang
