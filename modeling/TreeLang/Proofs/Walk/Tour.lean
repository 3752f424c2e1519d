import Mathlib.Algebra.GroupWithZero.Nat
import Mathlib.Data.List.Perm.Basic
import TreeLang.Proofs.Tree.Path
import TreeLang.Proofs.Walk.Audit
import TreeLang.Proofs.Walk.Walker

namespace TreeLang

-- A hook and the node it is called about.
abbrev Stop := Hook × Node

mutual

-- The order in which a tree is gone through: a node is entered and left around
-- its children, each of which is gone through in its turn.
def Expr.tour (e : Expr) : List Stop :=
  (.enter, .expr e) ::
    (match e with
      | .int32 .. => [(.visit .int32, .expr e)]
      | .float .. => [(.visit .float, .expr e)]
      | .ref .. => [(.visit .ref, .expr e)]
      | .binary _ _ left right =>
          (.start .binary, .expr e) :: left.tour ++ right.tour ++ [(.finish .binary, .expr e)]
      | .assign _ _ value =>
          (.start .assign, .expr e) :: value.tour ++ [(.finish .assign, .expr e)]
      | .ret _ value => (.start .ret, .expr e) :: value.tour ++ [(.finish .ret, .expr e)]
      | .conditional _ condition truePart falsePart =>
          (.start .conditional, .expr e) :: condition.tour ++ partTour truePart ++
            partTour falsePart ++ [(.finish .conditional, .expr e)]
      | .block _ _ children =>
          (.start .block, .expr e) :: childTour children ++ [(.finish .block, .expr e)]) ++
    [(.leave, .expr e)]
termination_by structural e

def partTour : Option Expr → List Stop
  | none => []
  | some e => e.tour
termination_by structural part => part

-- The value of every child of a block but the last is dropped.
def childTour : List Expr → List Stop
  | [] => []
  | [last] => last.tour
  | e :: next :: rest => e.tour ++ (.discard, .expr e) :: childTour (next :: rest)
termination_by structural es => es

end

def Function.tour (f : Function) : List Stop :=
  (.enter, .function f) ::
    ((.start .function, .function f) :: f.body.tour ++ [(.finish .function, .function f)]) ++
    [(.leave, .function f)]

def Module.tour (m : Module) : List Stop :=
  (.enter, .module m) ::
    ((.start .module, .module m) :: m.functions.flatMap Function.tour ++
      [(.finish .module, .module m)]) ++
    [(.leave, .module m)]

def Node.tour : Node → List Stop
  | expr e => e.tour
  | function f => f.tour
  | module m => m.tour

mutual

-- A node comes after its children.
def Expr.postorder (e : Expr) : List Expr :=
  (match e with
    | .int32 .. | .float .. | .ref .. => []
    | .binary _ _ left right => left.postorder ++ right.postorder
    | .assign _ _ value | .ret _ value => value.postorder
    | .conditional _ condition truePart falsePart =>
        condition.postorder ++ postorderPart truePart ++ postorderPart falsePart
    | .block _ _ children => postorderAll children) ++
  [e]
termination_by structural e

def postorderPart : Option Expr → List Expr
  | none => []
  | some e => e.postorder
termination_by structural part => part

def postorderAll : List Expr → List Expr
  | [] => []
  | e :: rest => e.postorder ++ postorderAll rest
termination_by structural es => es

end

def Function.postorder (f : Function) : List Node :=
  f.body.postorder.map Node.expr ++ [.function f]

def Node.postorder : Node → List Node
  | expr e => e.postorder.map expr
  | function f => f.postorder
  | module m => m.functions.flatMap Function.postorder ++ [module m]

-- The number of values a block drops; nothing else drops any.
def Expr.dropped : Expr → Nat
  | block _ _ children => children.length - 1
  | _ => 0

def Node.dropped : Node → Nat
  | expr e => e.dropped
  | function _ | module _ => 0

def Call.stop (c : Call) : Stop :=
  (c.hook, c.node)

namespace Step

def stop? : Step → Option Stop
  | call c => some c.stop
  | note _ => none
  | fail _ => none

@[simp] theorem filterMap_call (c : Call) (rest : List Step) :
    (call c :: rest).filterMap stop? = c.stop :: rest.filterMap stop? := rfl

@[simp] theorem filterMap_note (entry : Entry) (rest : List Step) :
    (note entry :: rest).filterMap stop? = rest.filterMap stop? := rfl

-- Where no step fails, every call is made.
theorem map_calls_of_fault?_eq_none {steps : List Step} (h : fault? steps = none) :
    (calls steps).map Call.stop = steps.filterMap stop? := by
  induction steps with
  | nil => rfl
  | cons step rest ih =>
      cases step with
      | call c => simp [calls, ih h]
      | note entry => simpa [calls] using ih h
      | fail error => cases h

theorem filterMap_checkUse (here : Context) (v : Variable) (id : NodeId) :
    (checkUse here v id).filterMap stop? = [] := by
  unfold checkUse
  split <;> rfl

theorem filterMap_checkOperands (id : NodeId) (left right : Expr) :
    (checkOperands id left right).filterMap stop? = [] := by
  unfold checkOperands
  split <;> rfl

end Step

namespace Expr

open Step

theorem partSteps_tour {part : Option Expr}
    (h : ∀ e ∈ part, ∀ outer, (e.steps outer).filterMap stop? = e.tour) (here : Context) :
    (partSteps here part).filterMap stop? = partTour part := by
  cases part with
  | none => rfl
  | some e => exact h e rfl here

theorem childSteps_tour {es : List Expr}
    (h : ∀ e ∈ es, ∀ outer, (e.steps outer).filterMap stop? = e.tour) (inside : Context)
    (index : Nat) :
    (childSteps inside index (index + es.length) es).filterMap stop? = childTour es := by
  induction es generalizing index with
  | nil => rfl
  | cons e rest ih =>
      have he := h e List.mem_cons_self inside
      have hrest := ih (fun x hx => h x (List.mem_cons_of_mem _ hx)) (index + 1)
      cases rest with
      | nil =>
          rw [childSteps_last (by rfl)]
          exact he
      | cons next rest =>
          have hcount : index + (e :: next :: rest).length = index + 1 + (next :: rest).length := by
            simp only [List.length_cons]
            omega
          rw [hcount, childSteps_more hcount, List.filterMap_append, he, filterMap_call, hrest]
          rfl

theorem steps_tour (e : Expr) (outer : Context) : (e.steps outer).filterMap stop? = e.tour := by
  induction e generalizing outer with
  | int32 id value => rfl
  | float id value => rfl
  | ref id target =>
      simp [steps, tour, filterMap_checkUse, Call.stop, Call.hook, Node.kind, kind]
  | binary id operation left right hl hr =>
      simp [steps, tour, filterMap_checkOperands, Call.stop, Call.hook, Node.kind, kind, hl,
        hr]
  | assign id target value ih =>
      simp [steps, tour, filterMap_checkUse, Call.stop, Call.hook, Node.kind, kind, ih]
  | ret id value ih => simp [steps, tour, Call.stop, Call.hook, Node.kind, kind, ih]
  | conditional id condition truePart falsePart hc ht hf =>
      simp [steps, tour, Call.stop, Call.hook, Node.kind, kind, hc, partSteps_tour ht,
        partSteps_tour hf]
  | block id scope children ih =>
      have hchildren := childSteps_tour ih
        ((outer.within (.expr (block id scope children))).opening scope) 0
      rw [Nat.zero_add] at hchildren
      simp [steps, tour, Call.stop, Call.hook, Node.kind, kind, hchildren, scopeEntered,
        scopeLeft]

end Expr

theorem Function.steps_tour (f : Function) (outer : Context) :
    (f.steps outer).filterMap Step.stop? = f.tour := by
  simp [steps, tour, Call.stop, Call.hook, Node.kind, Expr.steps_tour]

theorem Node.steps_tour (root : Node) : root.steps.filterMap Step.stop? = root.tour := by
  cases root with
  | expr e => exact e.steps_tour .outside
  | function f => exact f.steps_tour .outside
  | module m =>
      simp [steps, Module.steps, tour, Module.tour, Call.stop, Call.hook, kind,
        List.filterMap_flatMap, Function.steps_tour]

def stopsAt (hook : Hook) (stops : List Stop) : List Node :=
  (stops.filter (·.1 = hook)).map (·.2)

theorem stopsAt_append (hook : Hook) (xs ys : List Stop) :
    stopsAt hook (xs ++ ys) = stopsAt hook xs ++ stopsAt hook ys := by
  simp [stopsAt]

-- These nodes are entered and those are left, in their order, and so many values
-- are dropped. Nodes are started in the order they are entered, and finished in the
-- order they are left.
structure Surveys (stops : List Stop) (entered left : List Node) (dropped : Nat) : Prop where
  started : ∀ kind, (stopsAt (.start kind) stops).Sublist entered
  finished : ∀ kind, (stopsAt (.finish kind) stops).Sublist left
  entered : stopsAt .enter stops = entered
  left : stopsAt .leave stops = left
  dropped : (stopsAt .discard stops).length = dropped

namespace Surveys

theorem nil : Surveys [] [] [] 0 := ⟨fun _ => .slnil, fun _ => .slnil, rfl, rfl, rfl⟩

theorem discard (node : Node) : Surveys [(.discard, node)] [] [] 1 :=
  ⟨fun _ => .slnil, fun _ => .slnil, rfl, rfl, rfl⟩

variable {xs ys : List Stop} {entered left entered' left' : List Node} {dropped dropped' : Nat}

theorem append (hx : Surveys xs entered left dropped) (hy : Surveys ys entered' left' dropped') :
    Surveys (xs ++ ys) (entered ++ entered') (left ++ left') (dropped + dropped') where
  entered := by rw [stopsAt_append, hx.entered, hy.entered]
  left := by rw [stopsAt_append, hx.left, hy.left]
  dropped := by rw [stopsAt_append, List.length_append, hx.dropped, hy.dropped]
  started kind := by
    rw [stopsAt_append]
    exact (hx.started kind).append (hy.started kind)
  finished kind := by
    rw [stopsAt_append]
    exact (hx.finished kind).append (hy.finished kind)

-- Coming to a node and leaving it, and its own hooks in between.
theorem leaf (kind : Kind) (node : Node) :
    Surveys ((.enter, node) :: [(.visit kind, node)] ++ [(.leave, node)]) [node] [node] 0 :=
  ⟨fun _ => List.nil_sublist _, fun _ => List.nil_sublist _, rfl, rfl, rfl⟩

theorem node (kind : Kind) (node : Node) (h : Surveys xs entered left dropped) :
    Surveys ((.enter, node) :: ((.start kind, node) :: xs ++ [(.finish kind, node)]) ++
      [(.leave, node)]) (node :: entered) (left ++ [node]) dropped := by
  have hopen : Surveys [(.enter, node), (.start kind, node)] [node] [] 0 := by
    refine ⟨fun other => ?_, fun _ => .slnil, rfl, rfl, rfl⟩
    by_cases hkind : kind = other
    · simp [stopsAt, hkind]
    · simp [stopsAt, hkind]
  have hclose : Surveys [(.finish kind, node), (.leave, node)] [] [node] 0 := by
    refine ⟨fun _ => .slnil, fun other => ?_, rfl, rfl, rfl⟩
    by_cases hkind : kind = other
    · simp [stopsAt, hkind]
    · simp [stopsAt, hkind]
  simpa using hopen.append (h.append hclose)

theorem flatMap {α : Type} {as : List α} {stops : α → List Stop} {entered left : α → List Node}
    {dropped : α → Nat} (h : ∀ a ∈ as, Surveys (stops a) (entered a) (left a) (dropped a)) :
    Surveys (as.flatMap stops) (as.flatMap entered) (as.flatMap left) (as.map dropped).sum := by
  induction as with
  | nil => exact nil
  | cons a rest ih =>
      simp only [List.flatMap_cons, List.map_cons, List.sum_cons]
      exact (h a List.mem_cons_self).append (ih fun x hx => h x (List.mem_cons_of_mem _ hx))

end Surveys

namespace Expr

def droppedBelow (es : List Expr) : Nat :=
  (es.map dropped).sum

@[simp] theorem droppedBelow_cons (e : Expr) (rest : List Expr) :
    droppedBelow (e :: rest) = e.dropped + droppedBelow rest := rfl

@[simp] theorem droppedBelow_append (xs ys : List Expr) :
    droppedBelow (xs ++ ys) = droppedBelow xs + droppedBelow ys := by
  simp [droppedBelow]

-- What the tour of an expression comes to.
def Surveyed (e : Expr) : Prop :=
  Surveys e.tour (e.preorder.map Node.expr) (e.postorder.map Node.expr) (droppedBelow e.preorder)

theorem partTour_surveys {part : Option Expr} (h : ∀ e ∈ part, e.Surveyed) :
    Surveys (partTour part) ((preorderPart part).map Node.expr)
      ((postorderPart part).map Node.expr) (droppedBelow (preorderPart part)) := by
  cases part with
  | none => exact .nil
  | some e => exact h e rfl

theorem childTour_surveys {es : List Expr} (h : ∀ e ∈ es, e.Surveyed) :
    Surveys (childTour es) ((preorderAll es).map Node.expr) ((postorderAll es).map Node.expr)
      (es.length - 1 + droppedBelow (preorderAll es)) := by
  induction es with
  | nil => exact .nil
  | cons e rest ih =>
      have he := h e List.mem_cons_self
      have hrest := ih fun x hx => h x (List.mem_cons_of_mem _ hx)
      cases rest with
      | nil =>
          have hlast : Surveys (childTour [e]) _ _ _ := he
          simpa [preorderAll, postorderAll] using hlast
      | cons next rest =>
          have hall := he.append ((Surveys.discard (.expr e)).append hrest)
          have hcount : droppedBelow e.preorder +
                (1 + ((next :: rest).length - 1 + droppedBelow (preorderAll (next :: rest)))) =
              (e :: next :: rest).length - 1 + droppedBelow (preorderAll (e :: next :: rest)) := by
            simp only [preorderAll, droppedBelow_append, List.length_cons]
            omega
          rw [hcount] at hall
          simpa [childTour, preorderAll, postorderAll] using hall

theorem surveyed (e : Expr) : e.Surveyed := by
  induction e with
  | int32 id value => exact .leaf _ _
  | float id value => exact .leaf _ _
  | ref id target => exact .leaf _ _
  | binary id operation left right hl hr =>
      have h := Surveys.node .binary (.expr (binary id operation left right)) (hl.append hr)
      simpa [Surveyed, tour, preorder, postorder, dropped] using h
  | assign id target value ih =>
      have h := Surveys.node .assign (.expr (assign id target value)) ih
      simpa [Surveyed, tour, preorder, postorder, dropped] using h
  | ret id value ih =>
      have h := Surveys.node .ret (.expr (ret id value)) ih
      simpa [Surveyed, tour, preorder, postorder, dropped] using h
  | conditional id condition truePart falsePart hc ht hf =>
      have h := Surveys.node .conditional (.expr (conditional id condition truePart falsePart))
        (hc.append ((partTour_surveys ht).append (partTour_surveys hf)))
      simpa [Surveyed, tour, preorder, postorder, dropped] using h
  | block id scope children ih =>
      have h := Surveys.node .block (.expr (block id scope children)) (childTour_surveys ih)
      simpa [Surveyed, tour, preorder, postorder, dropped] using h

theorem postorderPart_eq (part : Option Expr) :
    postorderPart part = part.toList.flatMap postorder := by
  cases part <;> simp [postorderPart]

theorem postorderAll_eq (es : List Expr) : postorderAll es = es.flatMap postorder := by
  induction es with
  | nil => rfl
  | cons e rest ih => simp [postorderAll, ih]

theorem postorder_eq (e : Expr) : e.postorder = e.children.flatMap postorder ++ [e] := by
  cases e <;> simp [postorder, children, postorderPart_eq, postorderAll_eq]

end Expr

namespace Node

theorem function_surveyed (f : Function) :
    Surveys f.tour (preorder (.function f)) f.postorder
      (((preorder (.function f)).map dropped).sum) := by
  have h := Surveys.node .function (.function f) f.body.surveyed
  simpa [Function.tour, Function.postorder, preorder, Expr.droppedBelow, dropped,
    Function.comp_def] using h

-- A tour enters the nodes in their order, leaves each after what is below it,
-- and drops what the blocks on its way drop.
theorem surveyed (root : Node) :
    Surveys root.tour root.preorder root.postorder (root.preorder.map dropped).sum := by
  cases root with
  | expr e =>
      have h := e.surveyed
      simpa [Expr.Surveyed, Expr.droppedBelow, tour, preorder, postorder, dropped,
        Function.comp_def] using h
  | function f => exact function_surveyed f
  | module m =>
      have hfunctions : Surveys (m.functions.flatMap Function.tour) _ _ _ :=
        .flatMap fun f _ => function_surveyed f
      have hsum : (m.functions.map fun f => ((preorder (.function f)).map dropped).sum).sum =
          ((preorder (.module m)).map dropped).sum := by
        simp [preorder, dropped, List.flatMap_def, List.map_flatten, List.sum_flatten,
          Function.comp_def]
      rw [hsum] at hfunctions
      exact .node .module (.module m) hfunctions

theorem postorder_eq (node : Node) :
    node.postorder = node.children.flatMap postorder ++ [node] := by
  cases node with
  | expr e =>
      simp [postorder, children, e.postorder_eq, List.map_flatMap, List.flatMap_map]
  | function f => simp [postorder, Function.postorder, children]
  | module m =>
      simp only [postorder, children, List.flatMap_map]

theorem postorder_perm (root : Node) : root.postorder.Perm root.preorder := by
  induction root using induct_children with
  | step root ih =>
      rw [postorder_eq, preorder_eq]
      exact ((List.Perm.flatMap_left _ ih).append_right [root]).trans List.perm_append_comm

end Node

-- A visitor that never fails is called along the tour of an accepted tree, after
-- it has set up and before it cleans up. On the tour every node is entered once
-- and left once, and each block drops all its values but one.
theorem walk_tour (root : Node) (hchecked : (typeCheck root).run.value = .ok ()) {σ : Type}
    {visitor : Visitor σ} (h : visitor.NeverFails) (s : σ) :
    (∃ calls t, Action.effect (Walker.walk visitor.audited root) ⟨s, []⟩ =
        (.ok (), ⟨t, ⟨.setUp, .ok ()⟩ :: granted calls ++ [⟨.cleanUp, .ok ()⟩]⟩) ∧
      calls.map Call.stop = root.tour) ∧
    stopsAt .enter root.tour = root.preorder ∧
    stopsAt .leave root.tour = root.postorder ∧
    root.postorder.Perm root.preorder ∧
    (stopsAt .discard root.tour).length = (root.preorder.map Node.dropped).sum := by
  have hfault : root.fault? = none := by
    rw [value_typeCheck, verdict_eq_ok_iff] at hchecked
    exact hchecked
  obtain ⟨t, hwalk⟩ := Visitor.audited_walk_of_neverFails h root s
  rw [hfault, ← Walker.walk_eq] at hwalk
  have htour : root.calls.map Call.stop = root.tour := by
    rw [← root.steps_tour]
    exact Step.map_calls_of_fault?_eq_none hfault
  have hsurvey := root.surveyed
  exact ⟨⟨root.calls, t, hwalk, htour⟩, hsurvey.entered, hsurvey.left, root.postorder_perm,
    hsurvey.dropped⟩

-- A block of three within a block of two drops three values in all; the part the
-- conditional lacks has no place on the tour.
theorem walk_tour_nested :
    let x : Variable := ⟨⟨1⟩, "x", .int32⟩
    let choice : Expr := .conditional ⟨3⟩ (.ref ⟨1⟩ x) none (some (.ret ⟨2⟩ (.int32 ⟨4⟩ 1)))
    let inner : Expr := .block ⟨7⟩ ⟨[]⟩ [choice, .float ⟨5⟩ 0, .assign ⟨6⟩ x (.int32 ⟨8⟩ 2)]
    let root : Node := .function ⟨⟨11⟩, "f", .int32, ⟨[x]⟩, .block ⟨10⟩ ⟨[]⟩ [inner, .int32 ⟨9⟩ 3]⟩
    (typeCheck root).run.value = .ok () ∧ typeChecker.NeverFails ∧
      (∃ calls t, Action.effect (Walker.walk typeChecker.audited root) ⟨0, []⟩ =
          (.ok (), ⟨t, ⟨.setUp, .ok ()⟩ :: granted calls ++ [⟨.cleanUp, .ok ()⟩]⟩) ∧
        calls.map Call.stop = root.tour) ∧
      (stopsAt .discard root.tour).length = 3 := by
  intro x choice inner root
  have hchecked : (typeCheck root).run.value = .ok () := by decide +kernel
  obtain ⟨hcalls, -, -, -, hdropped⟩ := walk_tour root hchecked typeChecker_neverFails 0
  have hthree : (root.preorder.map Node.dropped).sum = 3 := by decide +kernel
  exact ⟨hchecked, typeChecker_neverFails, hcalls, hdropped.trans hthree⟩

end TreeLang
