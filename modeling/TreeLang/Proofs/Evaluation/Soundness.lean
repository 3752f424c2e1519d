import TreeLang.Proofs.Evaluation.Refinement
import TreeLang.Proofs.Evaluation.Typing
import TreeLang.Proofs.Naming
import TreeLang.Proofs.Static.TypeChecking

namespace TreeLang

-- What the checker leaves out. It compares operands, but nothing with the type
-- of a variable, of another part or of the function.
structure Function.Agreeing (f : Function) : Prop where
  assigned : ∀ id target value, .assign id target value ∈ f.body.preorder →
    value.type = target.type
  parts : ∀ id condition truePart falsePart,
    .conditional id condition (some truePart) (some falsePart) ∈ f.body.preorder →
    truePart.type = falsePart.type
  body : f.body.type = f.returnType
  returned : ∀ id value, .ret id value ∈ f.body.preorder →
    (Expr.ret id value).type = f.returnType

-- A value has the type of what was evaluated, or that of the function if it
-- was returned.
def Function.EndsWith (f : Function) (type : DataType) : Ending × Store → Prop
  | (.normal value, store) => value.type = type ∧ store.Typed f.body.uses
  | (.returned value, store) => value.type = f.returnType ∧ store.Typed f.body.uses

-- A typed evaluation of this expression keeps the types, wherever the static
-- rules accept it.
def Function.Keeps (f : Function) (e : Expr) : Prop :=
  ∀ scopes store, e.violation? scopes = none → store.Typed f.body.uses →
    Sound f.body.preorder (f.EndsWith e.type) ((e.evaluateDirectly scopes).run store)

namespace Function

variable {f : Function}

theorem keeps_ref {id : NodeId} {target : Variable}
    (he : .ref id target ∈ f.body.preorder) : f.Keeps (.ref id target) := by
  intro scopes store hlawful hstore
  have hmem : target ∈ f.body.uses := Expr.mem_uses he rfl
  have hread : Sound f.body.preorder
      (fun (value, store') => value.type = target.type ∧ store'.Typed f.body.uses)
      ((Expr.readDirectly id target).run store) := by
    simp only [Expr.readDirectly, StateT.run_bind, StateT.run_get, pure_bind]
    cases hfind : store.find? target.id with
    | some value => exact ⟨hstore target hmem value hfind, hstore⟩
    | none =>
        have hzero : Sound f.body.preorder (·.type = target.type) (target.type.zero id) :=
          sound_zero he fun htype => .unread htype
        exact hzero.lift hstore
  simp only [Expr.evaluateDirectly]
  exact .obey hlawful (hread.bind fun value store' h => h)

theorem keeps_binary {id : NodeId} {operation : Operation} {left right : Expr}
    (he : .binary id operation left right ∈ f.body.preorder) (hl : f.Keeps left)
    (hr : f.Keeps right) : f.Keeps (.binary id operation left right) := by
  intro scopes store hlawful hstore
  simp only [Expr.violation?, Option.orElse_eq_orElse, Option.orElse_eq_or,
    Option.or_eq_none_iff] at hlawful
  obtain ⟨hleft, hright, hoperands⟩ := hlawful
  have htypes : left.type = right.type := operandError?_eq_none_iff.mp hoperands
  simp only [Expr.evaluateDirectly]
  refine (hl scopes store hleft hstore).bind fun ending store' hends => ?_
  cases ending with
  | returned value => exact .obey hright (.obey hoperands hends)
  | normal l =>
      refine (hr scopes store' hright hends.2).bind fun ending store'' hends' => ?_
      refine .obey hoperands ?_
      cases ending with
      | returned value => exact hends'
      | normal r =>
          have happly := sound_apply he (hends.1.trans htypes) hends'.1
          exact (happly.lift hends'.2).bind fun value last h => h

theorem Agreeing.keeps_assign (h : f.Agreeing) (hidentified : Identified f.body.uses)
    {id : NodeId} {target : Variable} {value : Expr}
    (he : .assign id target value ∈ f.body.preorder) (hv : f.Keeps value) :
    f.Keeps (.assign id target value) := by
  intro scopes store hlawful hstore
  simp only [Expr.violation?, Option.orElse_eq_orElse, Option.orElse_eq_or,
    Option.or_eq_none_iff] at hlawful
  obtain ⟨huse, hvalue⟩ := hlawful
  simp only [Expr.evaluateDirectly]
  refine .obey huse ((hv scopes store hvalue hstore).bind fun ending store' hends => ?_)
  cases ending with
  | returned v => exact hends
  | normal v =>
      have htype : v.type = target.type := hends.1.trans (h.assigned id target value he)
      exact ⟨htype, hends.2.insert hidentified (Expr.mem_uses he rfl) htype⟩

theorem Agreeing.keeps_ret (h : f.Agreeing) {id : NodeId} {value : Expr}
    (he : .ret id value ∈ f.body.preorder) (hv : f.Keeps value) : f.Keeps (.ret id value) := by
  intro scopes store hlawful hstore
  simp only [Expr.evaluateDirectly]
  refine (hv scopes store hlawful hstore).bind fun ending store' hends => ?_
  cases ending with
  | returned v => exact hends
  | normal v => exact ⟨hends.1.trans (h.returned id value he), hends.2⟩

section Conditional

variable {id : NodeId} {condition : Expr} {truePart falsePart : Option Expr}

-- A part that is there has the type of its conditional, and stands for the
-- value of one that is missing.
def EndsPart (f : Function) (part : Option Expr) (type : DataType) :
    Option Ending × Store → Prop
  | (some ending, store) => f.EndsWith type (ending, store)
  | (none, store) => part = none ∧ store.Typed f.body.uses

theorem keeps_part {part : Option Expr} {type : DataType} (h : ∀ e ∈ part, f.Keeps e)
    (htype : ∀ e ∈ part, e.type = type) {scopes : List Scope} {store : Store}
    (hlawful : Expr.partViolation? scopes part = none) (hstore : store.Typed f.body.uses) :
    Sound f.body.preorder (f.EndsPart part type) ((Expr.evaluatePart scopes part).run store) := by
  cases part with
  | none => exact ⟨rfl, hstore⟩
  | some e =>
      rw [← htype e rfl]
      exact (h e rfl scopes store hlawful hstore).bind fun ending store' hends => hends

theorem keeps_conditional (h : f.Agreeing)
    (he : .conditional id condition truePart falsePart ∈ f.body.preorder)
    (hc : f.Keeps condition) (ht : ∀ e ∈ truePart, f.Keeps e) (hf : ∀ e ∈ falsePart, f.Keeps e) :
    f.Keeps (.conditional id condition truePart falsePart) := by
  intro scopes store hlawful hstore
  simp only [Expr.violation?, Option.orElse_eq_orElse, Option.orElse_eq_or,
    Option.or_eq_none_iff] at hlawful
  obtain ⟨hcondition, htrue, hfalse⟩ := hlawful
  have htruetype : ∀ e ∈ truePart,
      e.type = (Expr.conditional id condition truePart falsePart).type := by
    rintro e rfl
    rfl
  have hfalsetype : ∀ e ∈ falsePart,
      e.type = (Expr.conditional id condition truePart falsePart).type := by
    rintro e rfl
    cases truePart with
    | none => rfl
    | some other => exact (h.parts id condition other e he).symm
  have hzero : truePart = none ∨ falsePart = none → Sound f.body.preorder
      (·.type = (Expr.conditional id condition truePart falsePart).type)
      ((Expr.conditional id condition truePart falsePart).type.zero id) :=
    fun hmissing => sound_zero he fun htype => .missing hmissing htype
  simp only [Expr.evaluateDirectly]
  refine (hc scopes store hcondition hstore).bind fun ending store' hends => ?_
  cases ending with
  | returned value => exact .obey htrue (.obey hfalse hends)
  | normal value =>
      cases hvalue : value.truthy with
      | true =>
          simp only [hvalue, if_true, pure_bind]
          refine (keeps_part ht htruetype htrue hends.2).bind fun chosen store'' hends' => ?_
          refine .obey hfalse ?_
          cases chosen with
          | some ending => exact hends'
          | none =>
              have hmissing := hzero (.inl hends'.1)
              exact (hmissing.lift hends'.2).bind fun value last h => h
      | false =>
          simp only [hvalue, Bool.false_eq_true, if_false]
          refine .obey htrue ?_
          refine (keeps_part hf hfalsetype hfalse hends.2).bind fun chosen store'' hends' => ?_
          cases chosen with
          | some ending => exact hends'
          | none =>
              have hmissing := hzero (.inr hends'.1)
              exact (hmissing.lift hends'.2).bind fun value last h => h

end Conditional

theorem keeps_children {es : List Expr} (h : ∀ e ∈ es, f.Keeps e) {scopes : List Scope}
    {store : Store} (hlawful : Expr.childViolation? scopes es = none)
    (hstore : store.Typed f.body.uses) :
    Sound f.body.preorder (f.EndsWith (Expr.lastType es))
      ((Expr.evaluateAll scopes es).run store) := by
  induction es generalizing store with
  | nil => exact ⟨rfl, hstore⟩
  | cons e rest ih =>
      have he := h e List.mem_cons_self
      have hrest : ∀ x ∈ rest, f.Keeps x := fun x hx => h x (List.mem_cons_of_mem _ hx)
      simp only [Expr.childViolation?, Option.orElse_eq_orElse, Option.orElse_eq_or,
        Option.or_eq_none_iff] at hlawful
      obtain ⟨hfirst, hlater⟩ := hlawful
      cases rest with
      | nil => exact he scopes store hfirst hstore
      | cons next rest =>
          simp only [Expr.evaluateAll, Expr.lastType]
          refine (he scopes store hfirst hstore).bind fun ending store' hends => ?_
          cases ending with
          | returned value => exact .obey hlater hends
          | normal value => exact ih hrest hlater hends.2

-- The induction runs over the expressions within the body, so that each of
-- them is among the nodes a failure can be blamed on.
theorem Agreeing.keeps (h : f.Agreeing) (hidentified : Identified f.body.uses) (e : Expr)
    (he : e ∈ f.body.preorder) : f.Keeps e := by
  induction e with
  | int32 id value => exact fun scopes store _ hstore => ⟨rfl, hstore⟩
  | float id value => exact fun scopes store _ hstore => ⟨rfl, hstore⟩
  | ref id target => exact keeps_ref he
  | binary id operation left right hl hr =>
      have hleft : left ∈ f.body.preorder := Expr.child_mem_preorder he (by simp [Expr.children])
      have hright : right ∈ f.body.preorder := Expr.child_mem_preorder he (by simp [Expr.children])
      exact keeps_binary he (hl hleft) (hr hright)
  | assign id target value ih =>
      have hvalue : value ∈ f.body.preorder := Expr.child_mem_preorder he (by simp [Expr.children])
      exact h.keeps_assign hidentified he (ih hvalue)
  | ret id value ih =>
      have hvalue : value ∈ f.body.preorder := Expr.child_mem_preorder he (by simp [Expr.children])
      exact h.keeps_ret he (ih hvalue)
  | conditional id condition truePart falsePart hc ht hf =>
      have hcondition : condition ∈ f.body.preorder :=
        Expr.child_mem_preorder he (by simp [Expr.children])
      refine keeps_conditional h he (hc hcondition) ?_ ?_
      · rintro e rfl
        exact ht e rfl (Expr.child_mem_preorder he (by simp [Expr.children]))
      · rintro e rfl
        exact hf e rfl (Expr.child_mem_preorder he (by simp [Expr.children]))
  | block id scope children ih =>
      intro scopes store hlawful hstore
      have hchildren : ∀ child ∈ children, f.Keeps child :=
        fun child hchild => ih child hchild (Expr.child_mem_preorder he hchild)
      exact keeps_children hchildren hlawful hstore

theorem Agreeing.sound (h : f.Agreeing) (hidentified : Identified f.body.uses)
    (hlawful : f.violation? = none) :
    Sound f.body.preorder (·.type = f.returnType) (f.evaluateDirectly.run' {}) := by
  have hkeeps : f.Keeps f.body := h.keeps hidentified f.body f.body.self_mem_preorder
  have hbody := hkeeps [f.parameters] {} hlawful .empty
  rw [StateT.run'_eq, evaluateDirectly, StateT.run_bind]
  cases hrun : (f.body.evaluateDirectly [f.parameters]).run {} with
  | error error =>
      rw [hrun] at hbody
      exact hbody
  | ok outcome =>
      rw [hrun] at hbody
      rcases outcome with ⟨value | value, store⟩
      · exact hbody.1.trans h.body
      · exact hbody.1

end Function

-- What construction promises of a module: a tree with identities of its own,
-- functions told apart by their names and variables by their identities.
structure Module.WellFormed (m : Module) : Prop where
  tree : (Node.module m).WellFormed
  named : (m.functions.map (·.name)).Nodup
  identified : Identified (m.functions.flatMap (·.body.uses))

namespace Module.WellFormed

variable {m : Module} {f : Function}

theorem find? (h : m.WellFormed) (hf : f ∈ m.functions) : m.find? f.name = some f :=
  (find?_name_eq_some_iff h.named).mpr ⟨hf, rfl⟩

theorem uses (h : m.WellFormed) (hf : f ∈ m.functions) : Identified f.body.uses :=
  fun v hv w hw hid => h.identified v (List.mem_flatMap.mpr ⟨f, hf, hv⟩) w
    (List.mem_flatMap.mpr ⟨f, hf, hw⟩) hid

end Module.WellFormed

-- A function that passes the check and agrees evaluates to a value of its
-- type, or fails as no static rule excludes.
theorem evaluateFunction_sound {m : Module} (hm : m.WellFormed) {f : Function}
    (hf : f ∈ m.functions) (hchecked : (typeCheck (.function f)).run.value = .ok ())
    (h : f.Agreeing) :
    (∃ value, (evaluateFunction m f.name).run.value = .ok value ∧ value.type = f.returnType) ∨
    ∃ error, (evaluateFunction m f.name).run.value = .error error ∧
      (error.cause = .divisionByZero ∨ ∃ case, error.cause = .unhandledCase case) ∧
      ∃ e ∈ f.body.preorder, e.Fails error := by
  have hlawful : f.violation? = none := by
    rw [value_typeCheck, verdict_eq_ok_iff, Node.fault?_eq_violation?] at hchecked
    exact hchecked
  have hsound := h.sound (hm.uses hf) hlawful
  rw [← effect_evaluate_function {} (hm.tree.function hf).body] at hsound
  rw [value_evaluateFunction (hm.find? hf)]
  cases hrun : (Action.effect (evaluate (.function f)) {}).1 with
  | error error =>
      rw [hrun] at hsound
      obtain ⟨e, he, hfails⟩ := hsound
      exact Or.inr ⟨error, rfl, hfails.cause, e, he, hfails⟩
  | ok value =>
      rw [hrun] at hsound
      have htype : value.type = f.returnType := hsound
      left
      by_cases hvoid : f.returnType = .void
      · exact ⟨.void, if_pos hvoid, hvoid.symm⟩
      · exact ⟨value, by simp [hvoid, htype], htype⟩

-- With the parameter at zero, `y = x + 3; if (y) return y; y / x` returns before
-- it divides.
theorem evaluateFunction_sound_before_quotient :
    let x : Variable := ⟨⟨1⟩, "x", .int32⟩
    let y : Variable := ⟨⟨2⟩, "y", .int32⟩
    let sum : Expr := .assign ⟨1⟩ y (.binary ⟨2⟩ .add (.ref ⟨3⟩ x) (.int32 ⟨4⟩ 3))
    let early : Expr := .conditional ⟨5⟩ (.ref ⟨6⟩ y) (some (.ret ⟨7⟩ (.ref ⟨8⟩ y))) none
    let quotient : Expr := .binary ⟨9⟩ .div (.ref ⟨10⟩ y) (.ref ⟨11⟩ x)
    let f : Function :=
      ⟨⟨13⟩, "f", .int32, ⟨[x]⟩, .block ⟨12⟩ ⟨[y]⟩ [sum, early, quotient]⟩
    let m : Module := ⟨⟨14⟩, "m", [f]⟩
    m.WellFormed ∧ f ∈ m.functions ∧ (typeCheck (.function f)).run.value = .ok () ∧
      f.Agreeing ∧ ∃ value, (evaluateFunction m f.name).run.value = .ok value ∧
        value.type = f.returnType := by
  intro x y sum early quotient f m
  have hm : m.WellFormed := by
    refine ⟨⟨by decide, ?_⟩, by decide, by decide⟩
    simp [m, f, sum, early, quotient, Node.preorder, Expr.preorder, Expr.preorderAll,
      Expr.preorderPart]
  have hf : f ∈ m.functions := List.mem_singleton.mpr rfl
  have hchecked : (typeCheck (.function f)).run.value = .ok () := by decide +kernel
  have hagreeing : f.Agreeing := by
    refine ⟨?_, ?_, rfl, ?_⟩ <;>
      simp +contextual [f, sum, early, quotient, x, y, Expr.preorder, Expr.preorderAll,
        Expr.preorderPart, Expr.type]
  have hrun : (evaluateFunction m f.name).run.value = .ok (.int32 3) := by decide +kernel
  have hvalue : ∃ value, (evaluateFunction m f.name).run.value = .ok value ∧
      value.type = f.returnType := by
    rcases evaluateFunction_sound hm hf hchecked hagreeing with hvalue | ⟨error, herror, _⟩
    · exact hvalue
    · rw [hrun] at herror
      cases herror
  exact ⟨hm, hf, hchecked, hagreeing, hvalue⟩

end TreeLang
