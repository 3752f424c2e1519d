import TreeLang.Evaluation.Evaluate
import TreeLang.Proofs.Evaluation.Refinement
import TreeLang.Proofs.Renaming.Following
import TreeLang.Proofs.Static.TypeChecking

namespace TreeLang

open TreeLang.Action

variable (ρ : Renaming)

namespace Store

def rename (store : Store) : Store :=
  ⟨store.cells.map fun cell => (ρ.onVariables cell.1, cell.2)⟩

theorem find?_rename (store : Store) (id : VariableId) :
    (store.rename ρ).find? (ρ.onVariables id) = store.find? id := by
  simp [rename, find?, List.find?_map, Function.comp_def]

end Store

namespace Machine

def rename (m : Machine) : Machine :=
  { m with store := m.store.rename ρ, skipUntil := m.skipUntil.map ρ.onNodes }

theorem values_rename (m : Machine) : (m.rename ρ).values = m.values := rfl

theorem branches_rename (m : Machine) : (m.rename ρ).branches = m.branches := rfl

theorem returned_rename (m : Machine) : (m.rename ρ).returned = m.returned := rfl

theorem find?_rename (m : Machine) (target : Variable) :
    (m.rename ρ).store.find? (target.rename ρ).id = m.store.find? target.id :=
  m.store.find?_rename ρ target.id

theorem suppressed_rename (m : Machine) : (m.rename ρ).suppressed = m.suppressed := by
  cases hskip : m.skipUntil <;> simp [rename, suppressed, hskip]

variable {ρ}

theorem unlessSuppressed_follows {action action' : Action Machine Unit}
    (h : Follows ρ (rename ρ) id action action') :
    Follows ρ (rename ρ) id (unlessSuppressed action) (unlessSuppressed action') := by
  refine .bind .get fun m => ?_
  rw [suppressed_rename]
  exact .ite (.pure id ()) h

theorem push_follows (value : Value) : Follows ρ (rename ρ) id (push value) (push value) :=
  .modify fun _ => rfl

theorem pop_follows : Follows ρ (rename ρ) id pop pop := by
  refine .bind .get fun m => ?_
  simp only [values_rename]
  cases m.values with
  | nil => exact .throw id _
  | cons value rest => exact .bind (.set _) fun _ => .pure id value

theorem takeResult_follows : Follows ρ (rename ρ) id takeResult takeResult := by
  refine .bind .get fun m => ?_
  simp only [returned_rename]
  cases m.returned with
  | none => exact pop_follows
  | some value => exact .bind (.set _) fun _ => .pure id value

-- The part is that of the place of the node, which is the same in both trees.
theorem enter_follows (node : Node) (context : Context) :
    Follows ρ (rename ρ) id (enter node context) (enter (node.rename ρ) (context.rename ρ)) := by
  refine unlessSuppressed_follows ?_
  rw [context.part?_rename, node.id_rename]
  cases context.part? with
  | none => exact .pure id ()
  | some part =>
      cases part with
      | condition => exact .pure id ()
      | truePart | falsePart =>
          refine .bind .get fun m => ?_
          simp only [branches_rename]
          cases m.branches with
          | nil => exact .throw id _
          | cons outcome rest =>
              exact .ite (.bind (.emit _ _) fun _ => .modify fun _ => rfl) (.pure id ())

theorem leave_follows (node : Node) (context : Context) :
    Follows ρ (rename ρ) id (leave node context) (leave (node.rename ρ) (context.rename ρ)) := by
  refine .bind .get fun m => ?_
  have hskip : (m.rename ρ).skipUntil = some (node.rename ρ).id ↔ m.skipUntil = some node.id := by
    cases hskip : m.skipUntil <;> simp [rename, hskip]
  simp only [hskip]
  refine .ite (.modify fun _ => rfl) (unlessSuppressed_follows ?_)
  rw [context.part?_rename]
  exact .ite (.bind pop_follows fun _ => .modify fun _ => rfl) (.pure id ())

theorem startFunction_follows : Follows ρ (rename ρ) id startFunction startFunction :=
  .modify fun _ => rfl

theorem finishFunction_follows (f : Function) :
    Follows ρ (rename ρ) id (finishFunction f) (finishFunction (f.rename ρ)) :=
  .bind takeResult_follows fun _ => .bind (.emit _ _) fun _ => .modify fun _ => rfl

theorem zero_rename (type : DataType) (node : NodeId) :
    type.zero (ρ.onNodes node) = ρ.onResult id (type.zero node) := by
  unfold DataType.zero
  cases type.zero? <;> rfl

theorem apply_rename (operation : Operation) (left right : Value) (node : NodeId) :
    operation.apply left right (ρ.onNodes node) =
      ρ.onResult id (operation.apply left right node) := by
  unfold Operation.apply
  cases left <;> cases right <;> simp only [] <;> first | rfl | (split <;> rfl)

theorem finishBinary_follows (node : NodeId) (operation : Operation) :
    Follows ρ (rename ρ) id (finishBinary node operation)
      (finishBinary (ρ.onNodes node) operation) := by
  refine .bind pop_follows fun right => .bind pop_follows fun left => ?_
  exact .bind (.lift (apply_rename operation left right node)) push_follows

theorem finishAssign_follows (target : Variable) :
    Follows ρ (rename ρ) id (finishAssign target) (finishAssign (target.rename ρ)) := by
  refine .bind pop_follows fun value => .bind (.emit _ _) fun _ => ?_
  exact .bind (.modify fun _ => rfl) fun _ => push_follows value

theorem finishReturn_follows (node : NodeId) :
    Follows ρ (rename ρ) id (finishReturn node) (finishReturn (ρ.onNodes node)) :=
  .bind pop_follows fun _ => .bind (.emit _ _) fun _ => .modify fun _ => rfl

theorem read_follows (node : NodeId) (target : Variable) :
    Follows ρ (rename ρ) id (read node target)
      (read (ρ.onNodes node) (target.rename ρ)) := by
  refine .bind .get fun m => ?_
  simp only [find?_rename]
  cases m.store.find? target.id with
  | some value => exact push_follows value
  | none => exact .bind (.lift (zero_rename target.type node)) push_follows

theorem finishConditional_follows (node : NodeId) (condition : Expr)
    (truePart falsePart : Option Expr) :
    Follows ρ (rename ρ) id (finishConditional node condition truePart falsePart)
      (finishConditional (ρ.onNodes node) (condition.rename ρ) (renamePart ρ truePart)
        (renamePart ρ falsePart)) := by
  refine .bind .get fun m => ?_
  simp only [branches_rename]
  cases m.branches with
  | nil => exact .throw id _
  | cons outcome rest =>
      have htype : (Expr.conditional (ρ.onNodes node) (condition.rename ρ) (renamePart ρ truePart)
          (renamePart ρ falsePart)).type =
            (Expr.conditional node condition truePart falsePart).type :=
        Expr.type_rename ρ (.conditional node condition truePart falsePart)
      have htaken : (if outcome then renamePart ρ truePart else renamePart ρ falsePart).isNone =
          (if outcome then truePart else falsePart).isNone := by
        cases outcome <;> cases truePart <;> cases falsePart <;> rfl
      refine .bind (.set _) fun _ => ?_
      simp only [htaken, htype]
      exact .ite (.bind (.lift (zero_rename _ node)) push_follows) (.pure id ())

end Machine

variable {ρ}

open Machine in
theorem evaluator_follows : evaluator.Follows ρ (Machine.rename ρ) evaluator where
  setUp := .set ({} : Machine)
  call c := by
    obtain ⟨moment, node, context⟩ := c
    cases moment with
    | enter => exact enter_follows node context
    | leave => exact leave_follows node context
    | discard => exact unlessSuppressed_follows (.bind pop_follows fun _ => .pure id ())
    | start =>
        cases node with
        | function f => exact startFunction_follows
        | _ => exact .pure id ()
    | visit =>
        cases node with
        | expr e =>
            cases e with
            | int32 node value => exact unlessSuppressed_follows (push_follows _)
            | float node value => exact unlessSuppressed_follows (push_follows _)
            | ref node target => exact unlessSuppressed_follows (read_follows node target)
            | _ => exact .pure id ()
        | _ => exact .pure id ()
    | finish =>
        cases node with
        | expr e =>
            cases e with
            | binary node operation left right =>
                exact unlessSuppressed_follows (finishBinary_follows node operation)
            | assign node target value =>
                exact unlessSuppressed_follows (finishAssign_follows target)
            | ret node value => exact unlessSuppressed_follows (finishReturn_follows node)
            | conditional node condition truePart falsePart =>
                exact unlessSuppressed_follows
                  (finishConditional_follows node condition truePart falsePart)
            | _ => exact .pure id ()
        | function f => exact finishFunction_follows f
        | module m => exact .pure id ()
  cleanUp := .pure id ()

theorem evaluate_follows (root : Node) :
    Follows ρ (Machine.rename ρ) id (evaluate root) (evaluate (root.rename ρ)) :=
  (evaluator_follows.walk root).bind fun _ => Machine.takeResult_follows

-- An evaluation starts from nothing, so what a machine holds before does not matter.
theorem effect_evaluate_anew (root : Node) (m : Machine) :
    effect (evaluate root) m = effect (evaluate root) {} :=
  rfl

theorem evaluateFunction_rename (m : Module) (name : String) :
    (evaluateFunction (m.rename ρ) name).run.value =
      ρ.onResult id (evaluateFunction m name).run.value := by
  have hfound := m.find?_rename ρ name
  cases hfind : m.find? name with
  | none =>
      rw [hfind] at hfound
      simp only [evaluateFunction, hfound, hfind, Option.map_none]
      rfl
  | some f =>
      rw [hfind] at hfound
      have hrun : (effect (evaluate (.function (f.rename ρ))) {}).1 =
          ρ.onResult id (effect (evaluate (.function f)) {}).1 :=
        congrArg Prod.fst (evaluate_follows (.function f) {})
      rw [value_evaluateFunction hfound, value_evaluateFunction hfind, hrun]
      cases (effect (evaluate (.function f)) {}).1 with
      | error error => rfl
      | ok value =>
          let mismatch : Error :=
            { cause := .returnMismatch f.returnType value.type, node := some f.id }
          change (if f.returnType = .void then .ok .void
            else if f.returnType = value.type then .ok value else .error (mismatch.rename ρ)) =
              ρ.onResult id (if f.returnType = .void then .ok .void
                else if f.returnType = value.type then .ok value else .error mismatch)
          split
          · rfl
          · split <;> rfl

section Consumers

variable {ω : Type}

theorem writeAll_follows (sink : Sink ω) (node : NodeId) (pieces : List String) :
    Follows ρ id id (writeAll sink node pieces) (writeAll sink (ρ.onNodes node) pieces) := by
  induction pieces with
  | nil => exact .pure id ()
  | cons piece rest ih =>
      refine .bind .get fun s => ?_
      simp only [id]
      cases sink.write s piece with
      | some written => exact .bind (.set written) fun _ => ih
      | none => exact .throw id _

-- A line shows the depth of a node and what it is, but not which one.
theorem printer_follows (sink : Sink ω) : (printer sink).Follows ρ id (printer sink) where
  setUp := .pure id ()
  call c := by
    obtain ⟨moment, node, context⟩ := c
    cases moment with
    | enter =>
        have hwritten := writeAll_follows (ρ := ρ) sink node.id
          [indentation context.depth, node.describe, "\n"]
        simpa only [printer, Call.rename, Node.id_rename, node.describe_rename,
          context.depth_rename] using hwritten
    | _ => exact .pure id ()
  cleanUp := .pure id ()

theorem prettyPrint_rename (root : Node) :
    (prettyPrint (root.rename ρ)).run.value = ρ.onResult id (prettyPrint root).run.value := by
  have hprinted : Follows ρ id id (do walk (printer .text) root; get)
      (do walk (printer .text) (root.rename ρ); get) :=
    ((printer_follows .text).walk root).bind fun _ => .get
  exact congrArg Prod.fst (hprinted "")

theorem typeCheck_rename (root : Node) :
    (typeCheck (root.rename ρ)).run.value = ρ.onResult id (typeCheck root).run.value := by
  rw [value_typeCheck, value_typeCheck, root.fault?_rename]
  cases root.fault? <;> rfl

end Consumers

end TreeLang
