import TreeLang.Evaluation.Direct
import TreeLang.Proofs.Tree.Induction
import TreeLang.Static.Liveness

namespace TreeLang

variable {α β : Type}

-- Two evaluations from different stores come out alike: with one error, or with
-- one result and stores that fit it.
inductive Alike (fits : α → Store → Store → Prop) :
    Except Error (α × Store) → Except Error (α × Store) → Prop where
  | ok {a : α} {s t : Store} (h : fits a s t) : Alike fits (.ok (a, s)) (.ok (a, t))
  | error (error : Error) : Alike fits (.error error) (.error error)

namespace Alike

variable {fits : α → Store → Store → Prop} {fits' : β → Store → Store → Prop} {s t : Store}

theorem bind {first : Direct α} {next : α → Direct β}
    (h : Alike fits (first.run s) (first.run t))
    (hnext : ∀ a s' t', fits a s' t' → Alike fits' ((next a).run s') ((next a).run t')) :
    Alike fits' ((first >>= next).run s) ((first >>= next).run t) := by
  rw [StateT.run_bind, StateT.run_bind]
  generalize first.run s = left at h ⊢
  generalize first.run t = right at h ⊢
  cases h with
  | ok h => exact hnext _ _ _ h
  | error error => exact .error error

-- What only applies an operation or finds a zero gives the same anywhere.
theorem lift {result : Except Error α} (h : ∀ a, fits a s t) :
    Alike fits ((liftM result : Direct α).run s) ((liftM result : Direct α).run t) := by
  cases result with
  | error error => exact .error error
  | ok a => exact .ok (h a)

theorem obey {fault : Option Error} {next : Direct β}
    (h : Alike fits' (next.run s) (next.run t)) :
    Alike fits' ((do TreeLang.obey fault; next : Direct β).run s)
      ((do TreeLang.obey fault; next : Direct β).run t) := by
  cases fault with
  | none => exact h
  | some error => exact .error error

end Alike

def Store.AgreeOn (ids : List VariableId) (s t : Store) : Prop :=
  ∀ id ∈ ids, s.find? id = t.find? id

namespace Store.AgreeOn

variable {ids : List VariableId} {s t : Store}

theorem mono {fewer : List VariableId} (h : s.AgreeOn ids t) (hsubset : fewer ⊆ ids) :
    s.AgreeOn fewer t :=
  fun id hid => h id (hsubset hid)

-- One variable more is the same in both once it is written in both.
theorem insert {target : VariableId} (h : s.AgreeOn (ids.filter (· ≠ target)) t) (value : Value) :
    (s.insert target value).AgreeOn ids (t.insert target value) := by
  intro id hid
  rw [find?_insert, find?_insert]
  by_cases hsame : target = id
  · rw [if_pos hsame, if_pos hsame]
  · rw [if_neg hsame, if_neg hsame]
    exact h id (List.mem_filter.mpr ⟨hid, by simpa using Ne.symm hsame⟩)

end Store.AgreeOn

-- Only what comes to its end is followed by anything that could read the store.
def Leaves (after : List VariableId) : Ending → Store → Store → Prop
  | .normal _, s, t => s.AgreeOn after t
  | .returned _, _, _ => True

def LeavesPart (after : List VariableId) : Option Ending → Store → Store → Prop
  | none, s, t => s.AgreeOn after t
  | some ending, s, t => Leaves after ending s t

namespace Expr

-- Stores that agree on the live variables make no difference.
def Heeds (e : Expr) : Prop :=
  ∀ scopes after (s t : Store), s.AgreeOn (e.live after) t →
    Alike (Leaves after) ((e.evaluateDirectly scopes).run s) ((e.evaluateDirectly scopes).run t)

-- An operation that fails, or a zero that is missing, does so from any store.
theorem alike_normal {after : List VariableId} {s t : Store} (h : s.AgreeOn after t)
    (result : Except Error Value) :
    Alike (Leaves after) ((do return .normal (← liftM result) : Direct Ending).run s)
      ((do return .normal (← liftM result) : Direct Ending).run t) := by
  have hvalue : Alike (fun _ s t => s.AgreeOn after t)
      ((liftM result : Direct Value).run s) ((liftM result : Direct Value).run t) :=
    .lift fun _ => h
  exact hvalue.bind fun value _ _ h => .ok h

theorem heeds_ref (id : NodeId) (target : Variable) : (ref id target).Heeds := by
  intro scopes after s t h
  have hread : s.find? target.id = t.find? target.id := h target.id List.mem_cons_self
  have hafter : s.AgreeOn after t := h.mono (List.subset_cons_self _ _)
  have hvalue : Alike (fun _ s t => s.AgreeOn after t)
      ((readDirectly id target).run s) ((readDirectly id target).run t) := by
    simp only [readDirectly, StateT.run_bind, StateT.run_get, pure_bind, hread]
    cases t.find? target.id with
    | some value => exact .ok hafter
    | none => exact .lift fun _ => hafter
  simp only [evaluateDirectly]
  exact .obey (hvalue.bind fun value s' t' h' => .ok h')

theorem heeds_binary {id : NodeId} {operation : Operation} {left right : Expr} (hl : left.Heeds)
    (hr : right.Heeds) : (binary id operation left right).Heeds := by
  intro scopes after s t h
  simp only [evaluateDirectly]
  refine (hl scopes (right.live after) s t h).bind fun ending s' t' h' => ?_
  cases ending with
  | returned value => exact .obey (.obey (.ok trivial))
  | normal l =>
      refine (hr scopes after s' t' h').bind fun ending s'' t'' h'' => .obey ?_
      cases ending with
      | returned value => exact .ok trivial
      | normal r => exact alike_normal h'' _

theorem heeds_assign {id : NodeId} {target : Variable} {value : Expr} (hv : value.Heeds) :
    (assign id target value).Heeds := by
  intro scopes after s t h
  simp only [evaluateDirectly]
  refine .obey ((hv scopes _ s t h).bind fun ending s' t' h' => ?_)
  cases ending with
  | returned v => exact .ok trivial
  | normal v => exact .ok (Store.AgreeOn.insert h' v)

theorem heeds_ret {id : NodeId} {value : Expr} (hv : value.Heeds) : (ret id value).Heeds := by
  intro scopes after s t h
  simp only [evaluateDirectly]
  exact (hv scopes [] s t h).bind fun ending _ _ _ => .ok trivial

theorem heeds_part {part : Option Expr} (h : ∀ e ∈ part, e.Heeds) {scopes : List Scope}
    {after : List VariableId} {s t : Store} (hagree : s.AgreeOn (livePart part after) t) :
    Alike (LeavesPart after) ((evaluatePart scopes part).run s)
      ((evaluatePart scopes part).run t) := by
  cases part with
  | none => exact .ok hagree
  | some e => exact (h e rfl scopes after s t hagree).bind fun ending _ _ h => .ok h

theorem heeds_conditional {id : NodeId} {condition : Expr} {truePart falsePart : Option Expr}
    (hc : condition.Heeds) (ht : ∀ e ∈ truePart, e.Heeds) (hf : ∀ e ∈ falsePart, e.Heeds) :
    (conditional id condition truePart falsePart).Heeds := by
  intro scopes after s t h
  simp only [evaluateDirectly]
  refine (hc scopes _ s t h).bind fun ending s' t' h' => ?_
  cases ending with
  | returned value => exact .obey (.obey (.ok trivial))
  | normal value =>
      have htrue : s'.AgreeOn (livePart truePart after) t' :=
        Store.AgreeOn.mono h' (List.subset_append_left _ _)
      have hfalse : s'.AgreeOn (livePart falsePart after) t' :=
        Store.AgreeOn.mono h' (List.subset_append_right _ _)
      cases hvalue : value.truthy with
      | true =>
          simp only [hvalue, if_true, pure_bind]
          refine (heeds_part ht htrue).bind fun chosen s'' t'' h'' => .obey ?_
          cases chosen with
          | some ending => exact .ok h''
          | none => exact alike_normal h'' _
      | false =>
          simp only [hvalue, Bool.false_eq_true, if_false]
          refine .obey ((heeds_part hf hfalse).bind fun chosen s'' t'' h'' => ?_)
          cases chosen with
          | some ending => exact .ok h''
          | none => exact alike_normal h'' _

theorem heeds_children {es : List Expr} (h : ∀ e ∈ es, e.Heeds) {scopes : List Scope}
    {after : List VariableId} {s t : Store} (hagree : s.AgreeOn (liveAll es after) t) :
    Alike (Leaves after) ((evaluateAll scopes es).run s) ((evaluateAll scopes es).run t) := by
  induction es generalizing s t with
  | nil => exact .ok hagree
  | cons e rest ih =>
      have he := h e List.mem_cons_self
      have hrest : ∀ x ∈ rest, x.Heeds := fun x hx => h x (List.mem_cons_of_mem _ hx)
      cases rest with
      | nil => exact he scopes after s t hagree
      | cons next rest =>
          simp only [evaluateAll]
          refine (he scopes _ s t hagree).bind fun ending s' t' h' => ?_
          cases ending with
          | returned value => exact .obey (.ok trivial)
          | normal value => exact ih hrest h'

theorem heeds (e : Expr) : e.Heeds := by
  induction e with
  | int32 id value => exact fun scopes after s t h => .ok h
  | float id value => exact fun scopes after s t h => .ok h
  | ref id target => exact heeds_ref id target
  | binary id operation left right hl hr => exact heeds_binary hl hr
  | assign id target value ih => exact heeds_assign ih
  | ret id value ih => exact heeds_ret ih
  | conditional id condition truePart falsePart hc ht hf => exact heeds_conditional hc ht hf
  | block id scope children ih => exact fun scopes after s t h => heeds_children ih h

end Expr

-- The value of a function depends on the store only in its live variables.
theorem Function.alike (f : Function) {s t : Store} (h : s.AgreeOn f.live t) :
    f.evaluateDirectly.run' s = f.evaluateDirectly.run' t := by
  have hbody := f.body.heeds [f.parameters] [] s t h
  rw [StateT.run'_eq, StateT.run'_eq, evaluateDirectly, StateT.run_bind, StateT.run_bind]
  generalize (f.body.evaluateDirectly [f.parameters]).run s = left at hbody ⊢
  generalize (f.body.evaluateDirectly [f.parameters]).run t = right at hbody ⊢
  cases hbody with
  | ok h => rfl
  | error error => rfl

end TreeLang
