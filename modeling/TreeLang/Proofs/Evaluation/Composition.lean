import TreeLang.Evaluation.Direct
import TreeLang.Proofs.Static.Sites

namespace TreeLang

namespace Expr

-- The faults a direct evaluation looks out for are those of sites.

theorem violates_of_violation? {scopes : List Scope} {e : Expr} {error : Error}
    (h : e.violation? scopes = some error) : ∃ site : Site, site.Violates error := by
  rw [violation?_eq_findSome?] at h
  obtain ⟨_, site, _, _, herror, _⟩ := List.findSome?_eq_some_iff.mp h
  exact ⟨site, Site.violates_of_error? herror⟩

theorem violates_of_partViolation? {scopes : List Scope} {part : Option Expr} {error : Error}
    (h : partViolation? scopes part = some error) : ∃ site : Site, site.Violates error := by
  cases part with
  | none => cases h
  | some e => exact violates_of_violation? h

theorem violates_of_childViolation? {scopes : List Scope} {es : List Expr} {error : Error}
    (h : childViolation? scopes es = some error) : ∃ site : Site, site.Violates error := by
  induction es with
  | nil => cases h
  | cons e rest ih =>
      cases he : e.violation? scopes with
      | none => exact ih (by simpa [childViolation?, he] using h)
      | some first =>
          obtain rfl : first = error := by simpa [childViolation?, he] using h
          exact violates_of_violation? he

end Expr

-- Something that can be said of a direct evaluation piece by piece: it holds of
-- every elementary action that an expression within `root` can need, and of
-- actions in sequence if it holds of each.
structure Composes (root : Expr) (P : ∀ {α : Type}, Direct α → Prop) : Prop where
  pure {α : Type} (a : α) : P (Pure.pure a : Direct α)
  bind {α β : Type} {first : Direct α} {next : α → Direct β} (hfirst : P first)
    (hnext : ∀ a, P (next a)) : P (first >>= next)
  obey {fault : Option Error} (h : ∀ error ∈ fault, ∃ site : Site, site.Violates error) :
    P (TreeLang.obey fault)
  read {id : NodeId} {target : Variable} (h : .ref id target ∈ root.preorder) :
    P (Expr.readDirectly id target)
  apply {id : NodeId} {operation : Operation} {left right : Expr}
    (h : .binary id operation left right ∈ root.preorder) (l r : Value) :
    P (liftM (operation.apply l r id) : Direct Value)
  insert {id : NodeId} {target : Variable} {e : Expr} (h : .assign id target e ∈ root.preorder)
    (value : Value) : P (modify (·.insert target.id value) : Direct PUnit)
  zero {id : NodeId} {condition : Expr} {truePart falsePart : Option Expr}
    (h : .conditional id condition truePart falsePart ∈ root.preorder) :
    P (liftM ((Expr.conditional id condition truePart falsePart).type.zero id) : Direct Value)

namespace Composes

variable {root : Expr} {P : ∀ {α : Type}, Direct α → Prop}

theorem obey_use (h : Composes root P) (scopes : List Scope) (e : Expr) {v : Variable}
    (hused : e.used? = some v) : P (TreeLang.obey (useError? scopes v e.id)) :=
  h.obey fun _ herror => ⟨_, Site.violates_of_useError? hused herror⟩

theorem obey_operands (h : Composes root P) (id : NodeId) (operation : Operation)
    (left right : Expr) : P (TreeLang.obey (operandError? id left right)) := by
  refine h.obey fun error herror => ⟨⟨[], .binary id operation left right⟩, ?_⟩
  exact Site.violates_of_error? herror

theorem obey_all (h : Composes root P) (scopes : List Scope) (e : Expr) :
    P (TreeLang.obey (e.violation? scopes)) :=
  h.obey fun _ => Expr.violates_of_violation?

theorem obey_part (h : Composes root P) (scopes : List Scope) (part : Option Expr) :
    P (TreeLang.obey (Expr.partViolation? scopes part)) :=
  h.obey fun _ => Expr.violates_of_partViolation?

theorem obey_children (h : Composes root P) (scopes : List Scope) (es : List Expr) :
    P (TreeLang.obey (Expr.childViolation? scopes es)) :=
  h.obey fun _ => Expr.violates_of_childViolation?

theorem part (h : Composes root P) {part : Option Expr}
    (hpart : ∀ e ∈ part, ∀ scopes, P (e.evaluateDirectly scopes)) (scopes : List Scope) :
    P (Expr.evaluatePart scopes part) := by
  cases part with
  | none => exact h.pure none
  | some e => exact h.bind (hpart e rfl scopes) fun ending => h.pure _

theorem children (h : Composes root P) {es : List Expr}
    (hes : ∀ e ∈ es, ∀ scopes, P (e.evaluateDirectly scopes)) (scopes : List Scope) :
    P (Expr.evaluateAll scopes es) := by
  induction es with
  | nil => exact h.pure _
  | cons e rest ih =>
      have he := hes e List.mem_cons_self scopes
      have hrest := ih fun x hx => hes x (List.mem_cons_of_mem _ hx)
      cases rest with
      | nil => exact he
      | cons next rest =>
          simp only [Expr.evaluateAll]
          refine h.bind he fun ending => ?_
          cases ending with
          | returned value => exact h.bind (h.obey_children _ _) fun _ => h.pure _
          | normal value => exact hrest

theorem evaluateDirectly (h : Composes root P) (e : Expr) (he : e ∈ root.preorder)
    (scopes : List Scope) : P (e.evaluateDirectly scopes) := by
  induction e generalizing scopes with
  | int32 id value => exact h.pure _
  | float id value => exact h.pure _
  | ref id target =>
      exact h.bind (h.obey_use scopes (.ref id target) rfl) fun _ =>
        h.bind (h.read he) fun value => h.pure _
  | binary id operation left right hl hr =>
      have hleft := hl (Expr.child_mem_preorder he (by simp [Expr.children])) scopes
      have hright := hr (Expr.child_mem_preorder he (by simp [Expr.children])) scopes
      simp only [Expr.evaluateDirectly]
      refine h.bind hleft fun ending => ?_
      cases ending with
      | returned value =>
          exact h.bind (h.obey_all _ _) fun _ =>
            h.bind (h.obey_operands id operation left right) fun _ => h.pure _
      | normal l =>
          refine h.bind hright fun ending =>
            h.bind (h.obey_operands id operation left right) fun _ => ?_
          cases ending with
          | returned value => exact h.pure _
          | normal r => exact h.bind (h.apply he l r) fun value => h.pure _
  | assign id target value ih =>
      have hvalue := ih (Expr.child_mem_preorder he (by simp [Expr.children])) scopes
      simp only [Expr.evaluateDirectly]
      refine h.bind (h.obey_use scopes (.assign id target value) rfl) fun _ =>
        h.bind hvalue fun ending => ?_
      cases ending with
      | returned v => exact h.pure _
      | normal v => exact h.bind (h.insert he v) fun _ => h.pure _
  | ret id value ih =>
      have hvalue := ih (Expr.child_mem_preorder he (by simp [Expr.children])) scopes
      exact h.bind hvalue fun ending => h.pure _
  | conditional id condition truePart falsePart hc ht hf =>
      have hcondition := hc (Expr.child_mem_preorder he (by simp [Expr.children])) scopes
      have htrue : P (Expr.evaluatePart scopes truePart) := by
        refine h.part ?_ scopes
        rintro e rfl
        exact ht e rfl (Expr.child_mem_preorder he (by simp [Expr.children]))
      have hfalse : P (Expr.evaluatePart scopes falsePart) := by
        refine h.part ?_ scopes
        rintro e rfl
        exact hf e rfl (Expr.child_mem_preorder he (by simp [Expr.children]))
      simp only [Expr.evaluateDirectly]
      refine h.bind hcondition fun ending => ?_
      cases ending with
      | returned value =>
          exact h.bind (h.obey_part _ _) fun _ => h.bind (h.obey_part _ _) fun _ => h.pure _
      | normal value =>
          cases hvalue : value.truthy with
          | true =>
              simp only [hvalue, if_true, pure_bind]
              refine h.bind htrue fun chosen => h.bind (h.obey_part _ _) fun _ => ?_
              cases chosen with
              | some ending => exact h.pure _
              | none => exact h.bind (h.zero he) fun value => h.pure _
          | false =>
              simp only [hvalue, Bool.false_eq_true, if_false]
              refine h.bind (h.obey_part _ _) fun _ => h.bind hfalse fun chosen => ?_
              cases chosen with
              | some ending => exact h.pure _
              | none => exact h.bind (h.zero he) fun value => h.pure _
  | block id scope children ih =>
      refine h.children (fun e hmem => ?_) _
      exact ih e hmem (Expr.child_mem_preorder he hmem)

end Composes

end TreeLang
