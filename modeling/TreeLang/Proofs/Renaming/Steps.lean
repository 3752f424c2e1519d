import Mathlib.Data.List.Forall2
import TreeLang.Proofs.Renaming.Basic
import TreeLang.Proofs.Walk.Interior
import TreeLang.Proofs.Walk.Traversal

namespace TreeLang

variable (ρ : Renaming)

-- What is said of renamed things is the renamed result, be it a value or an error.
def Renaming.onResult {α β : Type} (onValue : α → β) : Except Error α → Except Error β
  | .ok value => .ok (onValue value)
  | .error error => .error (error.rename ρ)

namespace Context

def rename (context : Context) : Context :=
  ⟨context.path.map (·.rename ρ), context.scopes.map (·.rename ρ)⟩

theorem depth_rename (context : Context) : (context.rename ρ).depth = context.depth :=
  List.length_map _

theorem part?_rename (context : Context) : (context.rename ρ).part? = context.part? := by
  obtain ⟨path, scopes⟩ := context
  match path with
  | [] => rfl
  | [node] => rfl
  | node :: .expr parent :: above =>
      change (parent.rename ρ).partOf? (node.rename ρ).id = parent.partOf? node.id
      rw [node.id_rename, parent.partOf?_rename]
  | node :: .function f :: above => rfl
  | node :: .module m :: above => rfl

theorem resolve?_rename (context : Context) (name : String) :
    (context.rename ρ).resolve? name = (context.resolve? name).map (Variable.rename ρ) := by
  obtain ⟨path, scopes⟩ := context
  induction scopes with
  | nil => rfl
  | cons scope rest ih =>
      have hrest : ((rest.map (·.rename ρ)).findSome? (·.find? name)) =
          (rest.findSome? (·.find? name)).map (Variable.rename ρ) := ih
      simp only [rename, resolve?, List.map_cons, List.findSome?_cons, scope.find?_rename, hrest]
      cases scope.find? name <;> rfl

theorem resolveDeclared_rename (context : Context) (v : Variable) (id : NodeId) :
    (context.rename ρ).resolveDeclared (v.rename ρ) (ρ.onNodes id) =
      ρ.onResult (Variable.rename ρ) (context.resolveDeclared v id) := by
  have hname : (v.rename ρ).name = v.name := rfl
  simp only [resolveDeclared, resolve, hname, resolve?_rename]
  cases context.resolve? v.name with
  | none => rfl
  | some found =>
      by_cases hsame : found = v
      · simp [hsame, bind, Except.bind, Renaming.onResult]
      · simp [hsame, bind, Except.bind, Renaming.onResult, Error.rename]

end Context

def Call.rename (c : Call) : Call :=
  ⟨c.moment, c.node.rename ρ, c.context.rename ρ⟩

-- A step of a renamed tree makes the renamed call, or fails with the renamed error.
-- What is written to the log is not compared.
inductive Step.Renamed : Step → Step → Prop where
  | call (c : Call) : Renamed (.call c) (.call (c.rename ρ))
  | note (entry entry' : Entry) : Renamed (.note entry) (.note entry')
  | fail (error : Error) : Renamed (.fail error) (.fail (error.rename ρ))

-- The same of all steps of two walks.
abbrev Step.AllRenamed : List Step → List Step → Prop :=
  List.Forall₂ (Step.Renamed ρ)

namespace Step

theorem checkUse_rename (here : Context) (v : Variable) (id : NodeId) :
    AllRenamed ρ (checkUse here v id) (checkUse (here.rename ρ) (v.rename ρ) (ρ.onNodes id)) := by
  rw [checkUse, checkUse, here.resolveDeclared_rename]
  cases here.resolveDeclared v id with
  | ok found => exact .nil
  | error error => exact .cons (.fail error) .nil

theorem checkOperands_rename (id : NodeId) (left right : Expr) :
    AllRenamed ρ (checkOperands id left right)
      (checkOperands (ρ.onNodes id) (left.rename ρ) (right.rename ρ)) := by
  rw [checkOperands, checkOperands, operandError?_rename]
  cases operandError? id left right with
  | none => exact .cons (.note _ _) .nil
  | some error => exact .cons (.fail error) .nil

namespace AllRenamed

variable {ρ : Renaming} {xs xs' ys ys' : List Step}

theorem calls_eq (h : AllRenamed ρ xs ys) : calls ys = (calls xs).map (Call.rename ρ) := by
  induction h with
  | nil => rfl
  | cons hstep _ ih =>
      cases hstep with
      | call c => exact congrArg (c.rename ρ :: ·) ih
      | note entry entry' => exact ih
      | fail error => rfl

theorem fault?_eq (h : AllRenamed ρ xs ys) :
    Step.fault? ys = (Step.fault? xs).map (Error.rename ρ) := by
  induction h with
  | nil => rfl
  | cons hstep _ ih =>
      cases hstep with
      | call c => exact ih
      | note entry entry' => exact ih
      | fail error => rfl

end AllRenamed

end Step

open Step (AllRenamed)

namespace Expr

variable {ρ}

theorem partSteps_rename {here : Context} {part : Option Expr}
    (h : ∀ e ∈ part, ∀ outer, AllRenamed ρ (e.steps outer) ((e.rename ρ).steps (outer.rename ρ))) :
    AllRenamed ρ (partSteps here part) (partSteps (here.rename ρ) (renamePart ρ part)) := by
  cases part with
  | none => exact .nil
  | some e => exact h e rfl here

theorem childSteps_rename {es : List Expr}
    (h : ∀ e ∈ es, ∀ outer, AllRenamed ρ (e.steps outer) ((e.rename ρ).steps (outer.rename ρ)))
    (inside : Context) (index count : Nat) :
    AllRenamed ρ (childSteps inside index count es)
      (childSteps (inside.rename ρ) index count (renameAll ρ es)) := by
  induction es generalizing index with
  | nil => exact .nil
  | cons e rest ih =>
      have hdiscard : AllRenamed ρ
          (if discardsResult (some .block) index count then [.call ⟨.discard, .expr e, inside⟩]
            else [])
          (if discardsResult (some .block) index count then
            [.call ⟨.discard, .expr (e.rename ρ), inside.rename ρ⟩] else []) := by
        split
        · exact .cons (.call _) .nil
        · exact .nil
      have hrest := ih (fun x hx => h x (List.mem_cons_of_mem _ hx)) (index + 1)
      exact List.rel_append (List.rel_append (h e List.mem_cons_self inside) hdiscard) hrest

theorem steps_rename (e : Expr) (outer : Context) :
    AllRenamed ρ (e.steps outer) ((e.rename ρ).steps (outer.rename ρ)) := by
  induction e generalizing outer with
  | int32 id value => exact .cons (.call _) (.cons (.call _) (.cons (.call _) .nil))
  | float id value => exact .cons (.call _) (.cons (.call _) (.cons (.call _) .nil))
  | ref id target =>
      rw [steps_eq, steps_eq]
      refine .cons (.call _) (List.rel_append ?_ (.cons (.call _) .nil))
      exact List.rel_append (Step.checkUse_rename ρ _ target id) (.cons (.call _) .nil)
  | binary id operation left right hl hr =>
      rw [steps_eq, steps_eq]
      refine .cons (.call _) (List.rel_append (.cons (.call _) ?_) (.cons (.call _) .nil))
      refine List.rel_append (hl _) (List.rel_append (hr _) ?_)
      exact List.rel_append (Step.checkOperands_rename ρ id left right) (.cons (.call _) .nil)
  | assign id target value ih =>
      rw [steps_eq, steps_eq]
      refine .cons (.call _) (List.rel_append ?_ (.cons (.call _) .nil))
      refine List.rel_append (Step.checkUse_rename ρ _ target id) (.cons (.call _) ?_)
      exact List.rel_append (ih _) (.cons (.call _) .nil)
  | ret id value ih =>
      rw [steps_eq, steps_eq]
      refine .cons (.call _) (List.rel_append (.cons (.call _) ?_) (.cons (.call _) .nil))
      exact List.rel_append (ih _) (.cons (.call _) .nil)
  | conditional id condition truePart falsePart hc ht hf =>
      rw [steps_eq, steps_eq]
      refine .cons (.call _) (List.rel_append (.cons (.call _) ?_) (.cons (.call _) .nil))
      refine List.rel_append (hc _) (List.rel_append (partSteps_rename ht) ?_)
      exact List.rel_append (partSteps_rename hf) (.cons (.call _) .nil)
  | block id scope children ih =>
      have hcount : (renameAll ρ children).length = children.length := by
        rw [renameAll_eq, List.length_map]
      rw [steps_eq, steps_eq]
      refine .cons (.call _) (List.rel_append ?_ (.cons (.call _) .nil))
      refine .cons (.note _ _) (.cons (.call _) ?_)
      rw [hcount]
      exact List.rel_append (childSteps_rename ih _ _ _) (.cons (.call _) (.cons (.note _ _) .nil))

end Expr

variable {ρ}

theorem Function.steps_rename (f : Function) (outer : Context) :
    AllRenamed ρ (f.steps outer) ((f.rename ρ).steps (outer.rename ρ)) := by
  refine .cons (.call _) (.cons (.call _) ?_)
  exact List.rel_append (f.body.steps_rename _) (.cons (.call _) (.cons (.call _) .nil))

theorem Node.steps_rename (root : Node) : AllRenamed ρ root.steps (root.rename ρ).steps := by
  cases root with
  | expr e => exact e.steps_rename .outside
  | function f => exact f.steps_rename .outside
  | module m =>
      have hfunctions : List.Forall₂ (fun f g => g = f.rename ρ) m.functions
          (m.rename ρ).functions :=
        List.forall₂_map_right_iff.mpr (List.forall₂_same.mpr fun _ _ => rfl)
      refine .cons (.call _) (.cons (.call _) (List.rel_append ?_ ?_))
      · refine List.rel_flatMap hfunctions fun f g hg => ?_
        subst hg
        exact f.steps_rename _
      · exact .cons (.call _) (.cons (.call _) .nil)

theorem Node.calls_rename (root : Node) : (root.rename ρ).calls = root.calls.map (Call.rename ρ) :=
  root.steps_rename.calls_eq

theorem Node.fault?_rename (root : Node) :
    (root.rename ρ).fault? = root.fault?.map (Error.rename ρ) :=
  root.steps_rename.fault?_eq

end TreeLang
