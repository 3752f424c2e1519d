import TreeLang.Proofs.Tree.Induction
import TreeLang.Walk.Step

namespace TreeLang

-- The scope a node opens.
def Node.scope? : Node → Option Scope
  | expr (.block _ scope _) => some scope
  | function f => some f.parameters
  | _ => none

-- Within a node, its own scope is the innermost.
def Context.inside (here : Context) (node : Node) : Context :=
  { here with scopes := node.scope?.toList ++ here.scopes }

-- A node is come to and left outside its own scope.
def Moment.onEdge : Moment → Bool
  | enter | leave => true
  | start | visit | finish | discard => false

namespace Expr

-- The steps of an expression between coming to it and leaving it. Only these
-- two calls depend on where the expression stands.
def interior (here : Context) (e : Expr) : List Step :=
  match e with
  | int32 .. | float .. => [.call ⟨.visit, .expr e, here⟩]
  | ref id target => Step.checkUse here target id ++ [.call ⟨.visit, .expr e, here⟩]
  | binary id _ left right =>
      .call ⟨.start, .expr e, here⟩ :: (left.steps here ++ (right.steps here ++
        (Step.checkOperands id left right ++ [.call ⟨.finish, .expr e, here⟩])))
  | assign id target value =>
      Step.checkUse here target id ++ .call ⟨.start, .expr e, here⟩ ::
        (value.steps here ++ [.call ⟨.finish, .expr e, here⟩])
  | ret _ value =>
      .call ⟨.start, .expr e, here⟩ :: (value.steps here ++ [.call ⟨.finish, .expr e, here⟩])
  | conditional _ condition truePart falsePart =>
      .call ⟨.start, .expr e, here⟩ :: (condition.steps here ++ (partSteps here truePart ++
        (partSteps here falsePart ++ [.call ⟨.finish, .expr e, here⟩])))
  | block id scope children =>
      Step.scopeEntered id (here.opening scope) ::
        .call ⟨.start, .expr e, here.opening scope⟩ ::
          (childSteps (here.opening scope) 0 children.length children ++
            [.call ⟨.finish, .expr e, here.opening scope⟩, Step.scopeLeft id])

theorem steps_eq (outer : Context) (e : Expr) :
    e.steps outer =
      .call ⟨.enter, .expr e, outer.within (.expr e)⟩ ::
        (e.interior (outer.within (.expr e)) ++
          [.call ⟨.leave, .expr e, outer.within (.expr e)⟩]) := by
  cases e <;> simp [steps, interior]

theorem partSteps_eq (here : Context) (part : Option Expr) :
    partSteps here part = part.toList.flatMap (steps here) := by
  cases part <;> simp [partSteps]

-- The value of every child of a block but the last is dropped. The children still to
-- be counted are those still to come, so the index tells the last one.

theorem childSteps_last {inside : Context} {index count : Nat} (hcount : index + 1 = count)
    (e : Expr) : childSteps inside index count [e] = e.steps inside := by
  simp [childSteps, discardsResult, hcount]

theorem childSteps_more {inside : Context} {index count : Nat} {e next : Expr}
    {rest : List Expr} (hcount : index + (e :: next :: rest).length = count) :
    childSteps inside index count (e :: next :: rest) =
      e.steps inside ++ .call ⟨.discard, .expr e, inside⟩ ::
        childSteps inside (index + 1) count (next :: rest) := by
  have hdiscard : discardsResult (some .block) index count = true := by
    simp only [List.length_cons] at hcount
    simp only [discardsResult, Bool.and_eq_true, decide_eq_true_eq, true_and]
    omega
  rw [childSteps, hdiscard]
  simp

theorem call_mem_childSteps {inside : Context} {index count : Nat} {es : List Expr} {c : Call}
    (h : .call c ∈ childSteps inside index count es) :
    ∃ e ∈ es, .call c ∈ e.steps inside ∨ c = ⟨.discard, .expr e, inside⟩ := by
  induction es generalizing index with
  | nil => cases h
  | cons e rest ih =>
      simp only [childSteps, List.mem_append] at h
      rcases h with (h | h) | h
      · exact ⟨e, List.mem_cons_self, .inl h⟩
      · split at h
        · have hc : c = ⟨.discard, .expr e, inside⟩ := by simpa using h
          exact ⟨e, List.mem_cons_self, .inr hc⟩
        · cases h
      · obtain ⟨x, hx, hcall⟩ := ih h
        exact ⟨x, List.mem_cons_of_mem _ hx, hcall⟩

theorem call_notMem_checkUse {here : Context} {v : Variable} {id : NodeId} {c : Call} :
    .call c ∉ Step.checkUse here v id := by
  unfold Step.checkUse
  split <;> simp

theorem call_notMem_checkOperands {id : NodeId} {left right : Expr} {c : Call} :
    .call c ∉ Step.checkOperands id left right := by
  unfold Step.checkOperands
  split <;> simp

-- What a call within an expression is: one about the expression itself or about
-- a child whose value is dropped, both made inside its scope, or one within a child.
inductive Within (inside : Context) (e : Expr) (c : Call) : Prop where
  | own (node : c.node = .expr e) (inner : c.moment.onEdge = false)
      (kept : c.moment ≠ .discard) (context : c.context = inside)
  | dropped (child : Expr) (mem : child ∈ e.children) (block : e.kind = .block)
      (call : c = ⟨.discard, .expr child, inside⟩)
  | below (child : Expr) (mem : child ∈ e.children) (call : .call c ∈ child.steps inside)

theorem call_mem_interior {here : Context} {e : Expr} {c : Call} (h : .call c ∈ e.interior here) :
    Within (here.inside (.expr e)) e c := by
  cases e with
  | int32 id value =>
      obtain rfl : c = ⟨.visit, .expr (int32 id value), here⟩ := by simpa [interior] using h
      exact .own rfl rfl (by simp) rfl
  | float id value =>
      obtain rfl : c = ⟨.visit, .expr (float id value), here⟩ := by simpa [interior] using h
      exact .own rfl rfl (by simp) rfl
  | ref id target =>
      obtain rfl : c = ⟨.visit, .expr (ref id target), here⟩ := by
        simpa [interior, call_notMem_checkUse] using h
      exact .own rfl rfl (by simp) rfl
  | binary id operation left right =>
      simp only [interior, List.mem_cons, List.mem_append, call_notMem_checkOperands, false_or,
        List.not_mem_nil, or_false, Step.call.injEq] at h
      rcases h with rfl | h | h | rfl
      · exact .own rfl rfl (by simp) rfl
      · exact .below left (by simp [children]) h
      · exact .below right (by simp [children]) h
      · exact .own rfl rfl (by simp) rfl
  | assign id target value =>
      simp only [interior, List.mem_cons, List.mem_append, call_notMem_checkUse, false_or,
        List.not_mem_nil, or_false, Step.call.injEq] at h
      rcases h with rfl | h | rfl
      · exact .own rfl rfl (by simp) rfl
      · exact .below value (by simp [children]) h
      · exact .own rfl rfl (by simp) rfl
  | ret id value =>
      simp only [interior, List.mem_cons, List.mem_append, List.not_mem_nil, or_false,
        Step.call.injEq] at h
      rcases h with rfl | h | rfl
      · exact .own rfl rfl (by simp) rfl
      · exact .below value (by simp [children]) h
      · exact .own rfl rfl (by simp) rfl
  | conditional id condition truePart falsePart =>
      simp only [interior, partSteps_eq, List.mem_cons, List.mem_append, List.mem_flatMap,
        List.not_mem_nil, or_false, Step.call.injEq] at h
      rcases h with rfl | h | ⟨part, hpart, h⟩ | ⟨part, hpart, h⟩ | rfl
      · exact .own rfl rfl (by simp) rfl
      · exact .below condition (by simp [children]) h
      · exact .below part (by simp [children, hpart]) h
      · exact .below part (by simp [children, hpart]) h
      · exact .own rfl rfl (by simp) rfl
  | block id scope children =>
      simp only [interior, Step.scopeEntered, Step.scopeLeft, List.mem_cons, List.mem_append,
        List.not_mem_nil, or_false, Step.call.injEq, reduceCtorEq, false_or] at h
      rcases h with rfl | h | rfl
      · exact .own rfl rfl (by simp) rfl
      · obtain ⟨child, hchild, h | rfl⟩ := call_mem_childSteps h
        · exact .below child hchild h
        · exact .dropped child hchild rfl rfl
      · exact .own rfl rfl (by simp) rfl

theorem call_mem_steps {outer : Context} {e : Expr} {c : Call} (h : .call c ∈ e.steps outer) :
    ∃ x ∈ e.preorder, c.node = .expr x := by
  induction e using induct_children generalizing outer with
  | step e ih =>
      simp only [steps_eq, List.mem_cons, List.mem_append, List.not_mem_nil, or_false,
        Step.call.injEq] at h
      rcases h with rfl | h | rfl
      · exact ⟨e, e.self_mem_preorder, rfl⟩
      · cases call_mem_interior h with
        | own hnode => exact ⟨e, e.self_mem_preorder, hnode⟩
        | dropped child hchild _ hcall =>
            have hmem := (child_preorder_sublist hchild).subset child.self_mem_preorder
            exact ⟨child, hmem, by rw [hcall]⟩
        | below child hchild hcall =>
            obtain ⟨x, hx, hnode⟩ := ih child hchild hcall
            exact ⟨x, (child_preorder_sublist hchild).subset hx, hnode⟩
      · exact ⟨e, e.self_mem_preorder, rfl⟩

-- Every call within an expression is about one, and those on leaving are about
-- others than the expression itself.
theorem call_about_of_mem_interior {here : Context} {e : Expr} {c : Call}
    (h : .call c ∈ e.interior here) :
    ∃ x, c.node = .expr x ∧ (c.moment = .leave → x ∈ e.children.flatMap preorder) := by
  cases call_mem_interior h with
  | own hnode hinner => exact ⟨e, hnode, fun hleave => by simp [hleave, Moment.onEdge] at hinner⟩
  | dropped child hchild _ hcall =>
      subst hcall
      exact ⟨child, rfl, by simp⟩
  | below child hchild hcall =>
      obtain ⟨x, hx, hnode⟩ := call_mem_steps hcall
      exact ⟨x, hnode, fun _ => List.mem_flatMap.mpr ⟨child, hchild, hx⟩⟩

end Expr

end TreeLang
