import Mathlib.Logic.Function.Basic
import TreeLang.Print
import TreeLang.Proofs.Tree.Induction
import TreeLang.Static.Operands
import TreeLang.Static.Violation

namespace TreeLang

-- Other identities in place of those there are, different ones for different ones.
structure Renaming where
  onNodes : NodeId → NodeId
  onVariables : VariableId → VariableId
  nodes_injective : Function.Injective onNodes
  variables_injective : Function.Injective onVariables

namespace Renaming

variable (ρ : Renaming)

@[simp] theorem onNodes_eq_iff {a b : NodeId} : ρ.onNodes a = ρ.onNodes b ↔ a = b :=
  ρ.nodes_injective.eq_iff

@[simp] theorem onVariables_eq_iff {a b : VariableId} : ρ.onVariables a = ρ.onVariables b ↔ a = b :=
  ρ.variables_injective.eq_iff

end Renaming

section Rename

variable (ρ : Renaming)

def Variable.rename (v : Variable) : Variable :=
  { v with id := ρ.onVariables v.id }

def Scope.rename (scope : Scope) : Scope :=
  ⟨scope.declared.map (·.rename ρ)⟩

-- An error blames the node of the new identity.
def Error.rename (error : Error) : Error :=
  { error with node := error.node.map ρ.onNodes }

mutual

def Expr.rename : Expr → Expr
  | .int32 id value => .int32 (ρ.onNodes id) value
  | .float id value => .float (ρ.onNodes id) value
  | .ref id target => .ref (ρ.onNodes id) (target.rename ρ)
  | .binary id operation left right =>
      .binary (ρ.onNodes id) operation left.rename right.rename
  | .assign id target value => .assign (ρ.onNodes id) (target.rename ρ) value.rename
  | .ret id value => .ret (ρ.onNodes id) value.rename
  | .conditional id condition truePart falsePart =>
      .conditional (ρ.onNodes id) condition.rename (renamePart truePart) (renamePart falsePart)
  | .block id scope children => .block (ρ.onNodes id) (scope.rename ρ) (renameAll children)
termination_by structural e => e

def renamePart : Option Expr → Option Expr
  | none => none
  | some e => some e.rename
termination_by structural part => part

def renameAll : List Expr → List Expr
  | [] => []
  | e :: rest => e.rename :: renameAll rest
termination_by structural es => es

end

def Function.rename (f : Function) : Function :=
  { f with
    id := ρ.onNodes f.id
    parameters := f.parameters.rename ρ
    body := f.body.rename ρ }

def Module.rename (m : Module) : Module :=
  { m with id := ρ.onNodes m.id, functions := m.functions.map (·.rename ρ) }

def Node.rename : Node → Node
  | .expr e => .expr (e.rename ρ)
  | .function f => .function (f.rename ρ)
  | .module m => .module (m.rename ρ)

end Rename

variable (ρ : Renaming)

@[simp] theorem Variable.rename_inj {v w : Variable} : v.rename ρ = w.rename ρ ↔ v = w := by
  cases v
  cases w
  simp [rename]

namespace Scope

theorem find?_rename (scope : Scope) (name : String) :
    (scope.rename ρ).find? name = (scope.find? name).map (Variable.rename ρ) := by
  rw [find?, rename, List.find?_map]
  rfl

theorem text_rename (scope : Scope) : (scope.rename ρ).text = scope.text := by
  have hsorted : (scope.rename ρ).sorted = scope.sorted.map (Variable.rename ρ) :=
    (List.map_mergeSort (f := Variable.rename ρ) fun _ _ _ _ => rfl).symm
  rw [text, text, hsorted, List.map_map]
  rfl

end Scope

theorem renameAll_eq (es : List Expr) : renameAll ρ es = es.map (Expr.rename ρ) := by
  induction es with
  | nil => rfl
  | cons e rest ih => rw [renameAll, ih, List.map_cons]

namespace Expr

@[simp] theorem id_rename (e : Expr) : (e.rename ρ).id = ρ.onNodes e.id := by
  cases e <;> rfl

theorem describe_rename (e : Expr) : (e.rename ρ).describe = e.describe := by
  cases e with
  | block id scope children => exact congrArg (fun text => s!"Block:{text}") (scope.text_rename ρ)
  | _ => rfl

@[simp] theorem type_rename (e : Expr) : (e.rename ρ).type = e.type := by
  induction e with
  | int32 id value => rfl
  | float id value => rfl
  | ref id target => rfl
  | binary id operation left right hl hr => exact hr
  | assign id target value ih => rfl
  | ret id value ih => exact ih
  | conditional id condition truePart falsePart hc ht hf =>
      rcases truePart with _ | truePart
      · rcases falsePart with _ | falsePart
        · rfl
        · exact hf falsePart rfl
      · exact ht truePart rfl
  | block id scope children ih =>
      change lastType (renameAll ρ children) = lastType children
      rw [renameAll_eq]
      exact lastType_map ih

theorem partOf?_rename (e : Expr) (child : NodeId) :
    (e.rename ρ).partOf? (ρ.onNodes child) = e.partOf? child := by
  cases e with
  | conditional id condition truePart falsePart =>
      cases truePart <;> cases falsePart <;> simp [rename, renamePart, partOf?]
  | _ => rfl

end Expr

namespace Node

@[simp] theorem id_rename (node : Node) : (node.rename ρ).id = ρ.onNodes node.id := by
  cases node with
  | expr e => exact e.id_rename ρ
  | function f => rfl
  | module m => rfl

theorem describe_rename (node : Node) : (node.rename ρ).describe = node.describe := by
  cases node with
  | expr e => exact e.describe_rename ρ
  | function f => rfl
  | module m => rfl

end Node

theorem operandError?_rename (id : NodeId) (left right : Expr) :
    operandError? (ρ.onNodes id) (left.rename ρ) (right.rename ρ) =
      (operandError? id left right).map (Error.rename ρ) := by
  simp only [operandError?, Expr.type_rename]
  split <;> rfl

theorem Module.find?_rename (m : Module) (name : String) :
    (m.rename ρ).find? name = (m.find? name).map (Function.rename ρ) := by
  rw [find?, rename, List.find?_map]
  rfl

end TreeLang
