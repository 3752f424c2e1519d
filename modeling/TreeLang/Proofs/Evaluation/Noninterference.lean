import TreeLang.Proofs.Evaluation.Skipping

namespace TreeLang

open TreeLang.Action

variable {p q : Expr}

section Functions

-- A function is entered by a machine that is not suppressed, and what a return in it
-- has left is gone when it ends.
theorem Function.unaffected {f : Function} (hwf : f.body.WellFormed) (hp : p.Only f.body)
    (htype : q.type = p.type) {outer : Context} (hscopes : outer.scopes = [])
    (hplain : (outer.within (.function f)).part? = none) (values : List Value) (store : Store)
    (branches : List Bool) (hviolation : f.violation? = none)
    (hreplaced : (f.replace p.id q).violation? = none) :
    SameUnless p f.evaluateDirectly (f.replace p.id q).evaluateDirectly store (f.steps outer)
      { values, store, branches } := by
  have hinside : ((outer.within (.function f)).opening f.parameters).scopes = [f.parameters] :=
    congrArg (f.parameters :: ·) hscopes
  have hbody := (Expr.unaffected f.body hwf hp htype).steps hp.self
    ((outer.within (.function f)).opening f.parameters) [] store [] rfl
  rw [hinside] at hbody
  simp only [Function.evaluateDirectly, Function.steps, List.cons_append]
  refine .call (Machine.effect_enter_plain _ _ _ (.inl hplain)) ?_
  refine .call (Machine.effect_start_function f _ _) (.append_left ?_ _)
  exact (hbody hviolation hreplaced).followed fun _ _ => rfl

theorem unaffected_functions {fs : List Function} (hwf : ∀ f ∈ fs, f.body.WellFormed)
    (hp : ∀ f ∈ fs, p.Only f.body) (htype : q.type = p.type) (outer : Context)
    (hscopes : outer.scopes = []) (hplain : ∀ f, (outer.within (.function f)).part? = none)
    (values : List Value) (store : Store) (branches : List Bool)
    (hviolation : ∀ f ∈ fs, f.violation? = none)
    (hreplaced : ∀ f ∈ fs, (f.replace p.id q).violation? = none) :
    SameUnless p (evaluateFunctions fs) (evaluateFunctions (fs.map (·.replace p.id q))) store
      (fs.flatMap (·.steps outer)) { values, store, branches } := by
  induction fs generalizing values store branches with
  | nil => exact .inl rfl
  | cons f rest ih =>
      have hmem := List.mem_cons_self (a := f) (l := rest)
      have hf := Function.unaffected (hwf f hmem) (hp f hmem) htype hscopes (hplain f) values store
        branches (hviolation f hmem) (hreplaced f hmem)
      cases rest with
      | nil => exact hf.append_left []
      | cons next rest =>
          have hagrees := Function.agrees (hwf f hmem) hscopes (hplain f) values store branches
          simp only [List.flatMap_cons, List.map_cons, evaluateFunctions]
          refine .bind hagrees hf fun value store' m' hproduces => ?_
          obtain ⟨pending, rfl⟩ := hproduces
          exact ih (fun x hx => hwf x (List.mem_cons_of_mem _ hx))
            (fun x hx => hp x (List.mem_cons_of_mem _ hx)) [value] store' pending
            (fun x hx => hviolation x (List.mem_cons_of_mem _ hx))
            (fun x hx => hreplaced x (List.mem_cons_of_mem _ hx))

end Functions

theorem Module.unaffected {mod : Module} (hwf : (Node.module mod).WellFormed)
    (hp : ∀ f ∈ mod.functions, p.Only f.body) (htype : q.type = p.type)
    (hviolation : (Node.module mod).violation? = none)
    (hreplaced : ((Node.module mod).replace p.id q).violation? = none) :
    SameUnless p (evaluateFunctions mod.functions)
      (evaluateFunctions (mod.functions.map (·.replace p.id q))) {} (Node.module mod).steps {} := by
  have hafter : ∀ f ∈ mod.functions, (f.replace p.id q).violation? = none := by
    intro f hf
    exact List.findSome?_eq_none_iff.mp hreplaced _ (List.mem_map_of_mem hf)
  simp only [Node.steps, Module.steps, List.cons_append]
  refine .call rfl (.call rfl (.append_left ?_ _))
  exact unaffected_functions (fun f hf => (hwf.function hf).body) hp htype
    (Context.outside.within (.module mod)) rfl (fun _ => rfl) [] {} []
    (List.findSome?_eq_none_iff.mp hviolation) hafter

section Roots

variable {root : Node}

theorem SameUnless.evaluate {direct direct' : Direct Value} {steps : List Step} {m : Machine}
    (h : SameUnless p direct direct' {} steps m) :
    direct.run' {} = direct'.run' {} ∨ Enters p false steps m :=
  h.imp_left fun h => congrArg (Prod.fst <$> ·) h

-- Whatever the root is: the results are the same, or the machine comes to the
-- expression and is not suppressed then.
theorem evaluate_replace_or_enters (hwf : root.WellFormed)
    (hp : ∀ e, .expr e ∈ root.preorder → e.id = p.id → e = p) (htype : q.type = p.type)
    (hreplace : (root.replace p.id q).WellFormed) (hviolation : root.violation? = none)
    (hreplaced : (root.replace p.id q).violation? = none) (m m' : Machine) :
    (effect (evaluate root) m).1 = (effect (evaluate (root.replace p.id q)) m').1 ∨
      Enters p false root.steps {} := by
  cases root with
  | expr e =>
      have honly : p.Only e := fun x hx => hp x (List.mem_map_of_mem hx)
      have hsame := (Expr.unaffected e hwf.expr honly htype).steps honly.self .outside [] {} [] rfl
        hviolation hreplaced
      rw [effect_evaluate_expr m hwf.expr, Node.replace, effect_evaluate_expr m' hreplace.expr]
      exact (hsame.followed fun _ _ => rfl).evaluate
  | function f =>
      have honly : p.Only f.body := fun x hx => hp x (by simp [Node.preorder, hx])
      have hsame : SameUnless p f.evaluateDirectly (f.replace p.id q).evaluateDirectly {}
          (f.steps .outside) {} :=
        Function.unaffected hwf.body honly htype rfl rfl [] {} [] hviolation hreplaced
      rw [effect_evaluate_function m hwf.body, Node.replace,
        effect_evaluate_function m' hreplace.body]
      exact hsame.evaluate
  | module mod =>
      have honly : ∀ f ∈ mod.functions, p.Only f.body := by
        intro f hf x hx
        refine hp x ?_
        simp only [Node.preorder, List.mem_cons, List.mem_flatMap]
        exact .inr ⟨f, hf, .inr (List.mem_map_of_mem hx)⟩
      rw [effect_evaluate_module m hwf, Node.replace, effect_evaluate_module m' hreplace]
      exact (Module.unaffected hwf honly htype hviolation hreplaced).evaluate

-- A walk comes to the nodes of the tree, and to each of them once.

theorem enters_split {node : Node} {before after : List Step} {here : Context}
    (h : root.steps = before ++ .call ⟨.enter, node, here⟩ :: after) :
    root.preorder = stopsAt .enter (before.filterMap Step.stop?) ++ node ::
      stopsAt .enter (after.filterMap Step.stop?) := by
  rw [← root.surveyed.entered, ← root.steps_tour, h, List.filterMap_append, stopsAt_append]
  rfl

theorem mem_stopsAt_enter {steps : List Step} {node : Node} {here : Context}
    (h : .call ⟨.enter, node, here⟩ ∈ steps) :
    node ∈ stopsAt .enter (steps.filterMap Step.stop?) := by
  have hstop : (Hook.enter, node) ∈ steps.filterMap Step.stop? :=
    List.mem_filterMap.mpr ⟨_, h, rfl⟩
  exact List.mem_map.mpr ⟨_, List.mem_filter.mpr ⟨hstop, by simp⟩, rfl⟩

theorem enters_once (hdistinct : root.preorder.Nodup) {node : Node}
    {before before' after after' : List Step} {here here' : Context}
    (h : root.steps = before ++ .call ⟨.enter, node, here⟩ :: after)
    (h' : root.steps = before' ++ .call ⟨.enter, node, here'⟩ :: after') :
    before = before' ∧ here = here' := by
  rw [enters_split h, List.nodup_middle, List.nodup_cons, List.mem_append, not_or] at hdistinct
  obtain ⟨⟨hbefore, hafter⟩, -⟩ := hdistinct
  have hsplits := h.symm.trans h'
  rw [List.append_cons_inj_of_notMem (mt mem_stopsAt_enter hbefore)
    (mt mem_stopsAt_enter hafter)] at hsplits
  obtain ⟨rfl, hcall, -⟩ := hsplits
  exact ⟨rfl, by simpa using hcall⟩

theorem not_enters_false (hdistinct : root.preorder.Nodup) {m : Machine}
    (hskips : Enters p true root.steps m) : ¬ Enters p false root.steps m := by
  rintro ⟨before, here, after, left, hsplit, hrun, hleft⟩
  obtain ⟨before', here', after', left', hsplit', hrun', hleft'⟩ := hskips
  obtain ⟨rfl, rfl⟩ := enters_once hdistinct hsplit hsplit'
  rw [hrun] at hrun'
  cases hrun'
  rw [hleft] at hleft'
  cases hleft'

end Roots

-- An evaluation skips an expression: it comes to it, and the machine is suppressed
-- then. That is so within a part that is not taken, and after a return.
def Node.Skips (root : Node) (p : Expr) : Prop :=
  Enters p true root.steps {}

-- What an evaluation skips has no influence on its result. Any expression of the same
-- type can be put in its place, if its identities are in use nowhere else and the tree
-- still passes the check: the value stays the same, and so does the error.
theorem evaluate_replace_skipped {root : Node} (hwf : root.WellFormed)
    (hchecked : (typeCheck root).run.value = .ok ()) (hskips : root.Skips p)
    (hq : q.WellFormed) (htype : q.type = p.type)
    (hfresh : ∀ id ∈ (Node.expr q).ids, id ∈ root.ids → id ∈ (Node.expr p).ids)
    (hreplaced : (typeCheck (root.replace p.id q)).run.value = .ok ()) (m m' : Machine) :
    (effect (evaluate (root.replace p.id q)) m').1 = (effect (evaluate root) m).1 := by
  have hdistinct : root.preorder.Nodup := .of_map _ hwf.distinct
  have hp : .expr p ∈ root.preorder := by
    obtain ⟨before, here, after, left, hsplit, -⟩ := hskips
    rw [enters_split hsplit]
    exact List.mem_append_right _ List.mem_cons_self
  have honly : ∀ e, .expr e ∈ root.preorder → e.id = p.id → e = p := by
    intro e he hid
    exact Node.expr.inj (List.inj_on_of_nodup_map hwf.distinct he hp hid)
  have hreplace := Node.wellFormed_replace hwf hp hq hfresh
  rw [value_typeCheck, verdict_eq_ok_iff, Node.fault?_eq_violation?] at hchecked hreplaced
  rcases evaluate_replace_or_enters hwf honly htype hreplace hchecked hreplaced m m'
    with hsame | henters
  · exact hsame.symm
  · exact absurd henters (not_enters_false hdistinct hskips)

-- An assignment in a part that is not taken makes way for the return of a quotient
-- by zero.
theorem evaluate_replace_skipped_quotient :
    let x : Variable := ⟨⟨1⟩, "x", .int32⟩
    let p : Expr := .assign ⟨3⟩ x (.int32 ⟨2⟩ 5)
    let q : Expr := .ret ⟨9⟩ (.binary ⟨8⟩ .div (.int32 ⟨2⟩ 1) (.int32 ⟨7⟩ 0))
    let choice : Expr := .conditional ⟨4⟩ (.int32 ⟨1⟩ 0) (some p) none
    let body : Expr := .block ⟨6⟩ ⟨[]⟩ [choice, .ref ⟨5⟩ x]
    let root : Node := .function ⟨⟨10⟩, "f", .int32, ⟨[x]⟩, body⟩
    root.WellFormed ∧ (typeCheck root).run.value = .ok () ∧ root.Skips p ∧
      (typeCheck (root.replace p.id q)).run.value = .ok () ∧
      (effect (evaluate (root.replace p.id q)) {}).1 = .ok (.int32 0) := by
  intro x p q choice body root
  have hwf : root.WellFormed := by
    refine ⟨by decide, ?_⟩
    simp [root, body, choice, p, Node.preorder, Expr.preorder, Expr.preorderPart,
      Expr.preorderAll]
  have hchecked : (typeCheck root).run.value = .ok () := by decide +kernel
  have hskips : root.Skips p := by
    let inFunction := (Context.outside.within root).opening ⟨[x]⟩
    let inBody := (inFunction.within (.expr body)).opening ⟨[]⟩
    let skipped : Machine := { branches := [false], skipUntil := some p.id }
    exact ⟨root.steps.take 10, (inBody.within (.expr choice)).within (.expr p),
      root.steps.drop 11, skipped, rfl, rfl, rfl⟩
  have hq : q.WellFormed := by
    refine ⟨by decide, ?_⟩
    simp [q, Expr.preorder]
  have hreplaced : (typeCheck (root.replace p.id q)).run.value = .ok () := by decide +kernel
  have hevaluate : (effect (evaluate root) {}).1 = .ok (.int32 0) := by decide +kernel
  have hsame := evaluate_replace_skipped hwf hchecked hskips hq rfl (by decide) hreplaced {} {}
  exact ⟨hwf, hchecked, hskips, hreplaced, hsame.trans hevaluate⟩

end TreeLang
