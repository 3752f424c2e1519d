import TreeLang.Evaluation.Direct
import TreeLang.Proofs.Static.Sites

namespace TreeLang

-- The failures no static rule excludes, at the nodes that can have them. There
-- is arithmetic for numbers only, integers have no quotient by zero, and
-- pointers have no zero to begin with or to stand for a missing part.
inductive Expr.Fails : Expr → Error → Prop where
  | divided {id : NodeId} {left right : Expr} (htype : right.type = .int32) :
      Fails (.binary id .div left right) { cause := .divisionByZero, node := some id }
  | unsupported {id : NodeId} {operation : Operation} {left right : Expr}
      (htype : right.type = .void ∨ right.type = .bool) :
      Fails (.binary id operation left right)
        { cause := .unhandledCase s!"{operation.text} on {right.type.text}", node := some id }
  | unread {id : NodeId} {target : Variable} (htype : target.type = .pointer) :
      Fails (.ref id target) { cause := .unhandledCase target.type.text, node := some id }
  | missing {id : NodeId} {condition : Expr} {truePart falsePart : Option Expr}
      (hmissing : truePart = none ∨ falsePart = none)
      (htype : (conditional id condition truePart falsePart).type = .pointer) :
      Fails (.conditional id condition truePart falsePart)
        { cause := .unhandledCase (conditional id condition truePart falsePart).type.text,
          node := some id }

theorem Expr.Fails.cause {e : Expr} {error : Error} (h : e.Fails error) :
    error.cause = .divisionByZero ∨ ∃ case, error.cause = .unhandledCase case := by
  cases h with
  | divided => exact Or.inl rfl
  | unsupported => exact Or.inr ⟨_, rfl⟩
  | unread => exact Or.inr ⟨_, rfl⟩
  | missing => exact Or.inr ⟨_, rfl⟩

section Sound

variable {α β : Type} {nodes : List Expr} {fits : α → Prop}

-- A result that fits, or a failure of one of these nodes.
def Sound (nodes : List Expr) (fits : α → Prop) : Except Error α → Prop
  | .ok a => fits a
  | .error error => ∃ e ∈ nodes, e.Fails error

theorem Sound.bind {fits : α × Store → Prop} {fits' : β × Store → Prop} {first : Direct α}
    {next : α → Direct β} {store : Store} (h : Sound nodes fits (first.run store))
    (hnext : ∀ a store', fits (a, store') → Sound nodes fits' ((next a).run store')) :
    Sound nodes fits' ((first >>= next).run store) := by
  rw [StateT.run_bind]
  cases hd : first.run store with
  | error error =>
      rw [hd] at h
      exact h
  | ok outcome =>
      rw [hd] at h
      exact hnext _ _ h

-- What only applies an operation or finds a zero does not touch the store.
theorem Sound.lift {kept : Store → Prop} {result : Except Error α} {store : Store}
    (h : Sound nodes fits result) (hstore : kept store) :
    Sound nodes (fun (a, store') => fits a ∧ kept store')
      ((liftM result : Direct α).run store) := by
  cases result with
  | error error => exact h
  | ok a => exact ⟨h, hstore⟩

theorem Sound.obey {fits' : β × Store → Prop} {fault : Option Error} {next : Direct β}
    {store : Store} (hlawful : fault = none) (hnext : Sound nodes fits' (next.run store)) :
    Sound nodes fits' ((do TreeLang.obey fault; next).run store) := by
  subst hlawful
  exact hnext

end Sound

theorem sound_zero {nodes : List Expr} {e : Expr} (he : e ∈ nodes) {type : DataType} {id : NodeId}
    (hfails : type = .pointer →
      e.Fails { cause := .unhandledCase type.text, node := some id }) :
    Sound nodes (·.type = type) (type.zero id) := by
  cases type with
  | void => rfl
  | bool => rfl
  | int32 => rfl
  | float => rfl
  | double => rfl
  | pointer => exact ⟨e, he, hfails rfl⟩

-- Operands of one type give a value of that type, if any.
theorem sound_apply {nodes : List Expr} {id : NodeId} {operation : Operation} {left right : Expr}
    (he : .binary id operation left right ∈ nodes) {l r : Value} (hl : l.type = right.type)
    (hr : r.type = right.type) :
    Sound nodes (·.type = right.type) (operation.apply l r id) := by
  have hunsupported : r.type = .void ∨ r.type = .bool →
      ∃ e ∈ nodes, e.Fails
        { cause := .unhandledCase s!"{operation.text} on {r.type.text}", node := some id } := by
    intro htype
    rw [hr] at htype ⊢
    exact ⟨_, he, .unsupported htype⟩
  rw [← hr] at hl ⊢
  cases r with
  | void =>
      cases l <;> try contradiction
      exact hunsupported (Or.inl rfl)
  | bool b =>
      cases l <;> try contradiction
      exact hunsupported (Or.inr rfl)
  | int32 n =>
      cases l <;> try contradiction
      simp only [Operation.apply]
      split
      · next hzero =>
          obtain ⟨rfl, _⟩ : operation = .div ∧ n = 0 := by simpa using hzero
          exact ⟨_, he, .divided hr.symm⟩
      · rfl
  | float x =>
      cases l <;> try contradiction
      rfl
  | double x =>
      cases l <;> try contradiction
      rfl

-- The variables of an expression, as they are used within it.
def Expr.uses (e : Expr) : List Variable :=
  e.preorder.filterMap used?

theorem Expr.mem_uses {root e : Expr} (he : e ∈ root.preorder) {v : Variable}
    (hused : e.used? = some v) : v ∈ root.uses :=
  List.mem_filterMap.mpr ⟨e, he, hused⟩

-- Variables of one identity are one variable.
def Identified (used : List Variable) : Prop :=
  ∀ v ∈ used, ∀ w ∈ used, v.id = w.id → v = w

instance (used : List Variable) : Decidable (Identified used) :=
  inferInstanceAs (Decidable (∀ v ∈ used, ∀ w ∈ used, v.id = w.id → v = w))

-- Each of these variables holds a value of its own type, if any.
def Store.Typed (used : List Variable) (store : Store) : Prop :=
  ∀ v ∈ used, ∀ value ∈ store.find? v.id, value.type = v.type

namespace Store.Typed

variable {used : List Variable} {store : Store}

theorem empty : Typed used {} := nofun

theorem insert (h : store.Typed used) (hidentified : Identified used) {target : Variable}
    (hmem : target ∈ used) {value : Value} (hvalue : value.type = target.type) :
    (store.insert target.id value).Typed used := by
  intro v hv stored hstored
  rw [Option.mem_def, find?_insert] at hstored
  by_cases hsame : target.id = v.id
  · obtain rfl := hidentified target hmem v hv hsame
    rw [if_pos rfl, Option.some_inj] at hstored
    rw [← hstored]
    exact hvalue
  · rw [if_neg hsame] at hstored
    exact h v hv stored hstored

end Store.Typed

end TreeLang
