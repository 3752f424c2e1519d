import TreeLang.Proofs.Printing.Layout
import TreeLang.Proofs.Static.TypeChecking

namespace TreeLang

namespace Step

-- The nodes that are come to before the first failing step, each with the number of
-- nodes above it.
def entered (steps : List Step) : List (Nat × Node) :=
  entries ((calls steps).map call)

@[simp] theorem entered_nil : entered [] = [] := rfl

@[simp] theorem entered_enter (node : Node) (context : Context) (rest : List Step) :
    entered (call ⟨.enter, node, context⟩ :: rest) =
      (context.depth - 1, node) :: entered rest := rfl

@[simp] theorem entered_call {moment : Moment} (h : moment ≠ .enter) (node : Node)
    (context : Context) (rest : List Step) :
    entered (call ⟨moment, node, context⟩ :: rest) = entered rest :=
  entries_call h node context _

@[simp] theorem entered_note (entry : Entry) (rest : List Step) :
    entered (note entry :: rest) = entered rest := rfl

@[simp] theorem entered_fail (error : Error) (rest : List Step) :
    entered (fail error :: rest) = [] := rfl

theorem entered_append (xs ys : List Step) :
    entered (xs ++ ys) = entered xs ++ if (fault? xs).isNone then entered ys else [] := by
  rw [entered, calls_append, List.map_append, entries_append]
  split <;> rfl

theorem entered_of_fault?_eq_none {steps : List Step} (h : fault? steps = none) :
    entered steps = entries steps := by
  induction steps with
  | nil => rfl
  | cons step rest ih =>
      cases step with
      | call c =>
          rcases c with ⟨moment, node, context⟩
          by_cases hmoment : moment = .enter
          · subst hmoment
            exact congrArg _ (ih h)
          · rw [entered_call hmoment, entries_call hmoment]
            exact ih h
      | note entry => exact ih h
      | fail error => cases h

theorem entered_prefix (steps : List Step) : entered steps <+: entries steps := by
  induction steps with
  | nil => exact List.prefix_rfl
  | cons step rest ih =>
      cases step with
      | call c =>
          rcases c with ⟨moment, node, context⟩
          by_cases hmoment : moment = .enter
          · subst hmoment
            exact (List.prefix_cons_inj _).mpr ih
          · rw [entered_call hmoment, entries_call hmoment]
            exact ih
      | note entry => exact ih
      | fail error => exact List.nil_prefix

end Step

-- The last expression that is come to before this one is judged: a use of a variable is
-- judged at once, and operands when all that is below them has been gone through.
def Expr.lastBefore? (e : Expr) : Option Expr :=
  if e.isBinary then e.preorder.getLast? else some e

theorem Expr.getLast?_outline (e : Expr) (depth : Nat) :
    ∃ depth' last, e.preorder.getLast? = some last ∧
      (e.rose.outline depth).getLast? = some (depth', .expr last) := by
  have hne : e.preorder ≠ [] := List.ne_nil_of_mem e.self_mem_preorder
  have hnodes : (e.rose.outline depth).map Prod.snd = e.preorder.map Node.expr :=
    Node.outline_nodes (.expr e) depth
  have hlast := congrArg List.getLast? hnodes
  rw [List.getLast?_map, List.getLast?_map, List.getLast?_eq_some_getLast hne, Option.map_some,
    Option.map_eq_some_iff] at hlast
  obtain ⟨⟨depth', node⟩, hentry, rfl⟩ := hlast
  exact ⟨depth', _, List.getLast?_eq_some_getLast hne, hentry⟩

namespace Step

-- If the steps fail, then at the violation of one of these sites, and they have come no
-- further than is needed to find it.
def Halts (steps : List Step) (sites : List Site) : Prop :=
  ∀ error, fault? steps = some error →
    ∃ site ∈ sites, site.Violates error ∧
      ∃ depth last, site.expr.lastBefore? = some last ∧
        (entered steps).getLast? = some (depth, .expr last)

namespace Halts

variable {xs ys : List Step} {sites more : List Site}

theorem of_no_fault (h : fault? xs = none) : Halts xs sites := by
  intro error herror
  cases h.symm.trans herror

theorem mono (h : Halts xs sites) (hsub : sites ⊆ more) : Halts xs more := by
  intro error herror
  obtain ⟨site, hsite, hhalt⟩ := h error herror
  exact ⟨site, hsub hsite, hhalt⟩

theorem append (hx : Halts xs sites) (hy : Halts ys more) : Halts (xs ++ ys) (sites ++ more) := by
  intro error herror
  rw [fault?_append] at herror
  cases hfault : fault? xs with
  | some first =>
      rw [hfault] at herror
      obtain rfl := Option.some.inj herror
      obtain ⟨site, hsite, hhalt⟩ := hx first hfault
      refine ⟨site, List.mem_append_left _ hsite, ?_⟩
      simpa [entered_append, hfault] using hhalt
  | none =>
      rw [hfault] at herror
      obtain ⟨site, hsite, herror, depth, last, hlast, hentered⟩ := hy error herror
      refine ⟨site, List.mem_append_right _ hsite, herror, depth, last, hlast, ?_⟩
      rw [entered_append, hfault, Option.isNone_none, if_pos rfl, List.getLast?_append, hentered]
      rfl

theorem call (c : Call) (h : Halts xs sites) : Halts (.call c :: xs) sites := by
  have hcall : Halts [.call c] [] := of_no_fault rfl
  exact hcall.append h

theorem note (entry : Entry) (h : Halts xs sites) : Halts (.note entry :: xs) sites := by
  have hnote : Halts [.note entry] [] := of_no_fault rfl
  exact hnote.append h

theorem followed (h : Halts xs sites) (ys : List Step) (hy : fault? ys = none) :
    Halts (xs ++ ys) sites := by
  have hmore : Halts ys [] := of_no_fault hy
  simpa using h.append hmore

theorem flatMap {α : Type} {as : List α} {steps : α → List Step} {sites : α → List Site}
    (h : ∀ a ∈ as, Halts (steps a) (sites a)) : Halts (as.flatMap steps) (as.flatMap sites) := by
  induction as with
  | nil => exact of_no_fault rfl
  | cons a rest ih =>
      obtain ⟨ha, hrest⟩ := List.forall_mem_cons.mp h
      exact ha.append (ih hrest)

-- Nothing fails on coming to an expression or on leaving it.
theorem edges {e : Expr} {outer : Context} (h : Halts (e.interior (outer.within (.expr e))) sites) :
    Halts (e.steps outer) sites := by
  rw [Expr.steps_eq]
  exact .call _ (h.followed _ rfl)

theorem check_use {e : Expr} {v : Variable} (hused : e.used? = some v) (outer : Context) :
    Halts (.call ⟨.enter, .expr e, outer.within (.expr e)⟩ ::
      checkUse (outer.within (.expr e)) v e.id) [⟨outer.scopes, e⟩] := by
  have hplain : e.isBinary = false := by
    cases e with
    | binary id operation left right => cases hused
    | _ => rfl
  have hscopes : (outer.within (.expr e)).scopes = outer.scopes := rfl
  rw [checkUse_eq, hscopes, ← Site.error?_of_used hused]
  cases herror : Site.error? ⟨outer.scopes, e⟩ with
  | none => exact of_no_fault rfl
  | some first =>
      intro error h
      obtain rfl := Option.some.inj h
      have hviolates := Site.error?_eq_some_iff.mp herror
      refine ⟨_, List.mem_singleton_self _, hviolates, outer.depth, e, ?_, rfl⟩
      simp [Expr.lastBefore?, hplain]

-- A use of a variable is judged right after it has been come to.
theorem use {e : Expr} {v : Variable} (hused : e.used? = some v) {outer : Context}
    (hsteps : e.interior (outer.within (.expr e)) = checkUse (outer.within (.expr e)) v e.id ++ xs)
    (h : Halts xs sites) : Halts (e.steps outer) (⟨outer.scopes, e⟩ :: sites) := by
  have hall := (check_use hused outer).append
    (h.followed [.call ⟨.leave, .expr e, outer.within (.expr e)⟩] rfl)
  rw [Expr.steps_eq, hsteps]
  simpa using hall

-- Operands are judged once the right one has been gone through.
theorem operands {right : Expr} {here : Context} (h : Halts (right.steps here) sites)
    (id : NodeId) (operation : Operation) (left : Expr) (scopes : List Scope) :
    Halts (right.steps here ++ checkOperands id left right)
      (sites ++ [⟨scopes, .binary id operation left right⟩]) := by
  cases hfault : fault? (right.steps here) with
  | some first =>
      intro error herror
      rw [fault?_append, hfault] at herror
      obtain ⟨site, hsite, hhalt⟩ := h error (hfault.trans herror)
      refine ⟨site, List.mem_append_left _ hsite, ?_⟩
      simpa [entered_append, hfault] using hhalt
  | none =>
      have hsite : Site.error? ⟨scopes, .binary id operation left right⟩ =
        operandError? id left right := rfl
      intro error herror
      rw [fault?_append, hfault] at herror
      unfold checkOperands at herror ⊢
      cases hoperands : operandError? id left right with
      | none =>
          rw [hoperands] at herror
          cases herror
      | some first =>
          rw [hoperands] at herror
          obtain rfl := Option.some.inj herror
          obtain ⟨depth, last, hlast, houtline⟩ := right.getLast?_outline here.depth
          refine ⟨_, List.mem_append_right _ (List.mem_singleton_self _),
            Site.error?_eq_some_iff.mp (hsite.trans hoperands), depth, last, ?_, ?_⟩
          · simp [Expr.lastBefore?, Expr.isBinary, Expr.kind, Expr.preorder, List.getLast?_cons,
              List.getLast?_append, hlast]
          · rw [entered_append, hfault, entered_of_fault?_eq_none hfault, right.entries_steps]
            simpa using houtline

end Halts

end Step

open Step

namespace Expr

theorem partSteps_halt {part : Option Expr}
    (h : ∀ e ∈ part, ∀ outer, Halts (e.steps outer) (e.sites outer.scopes)) (here : Context) :
    Halts (partSteps here part) (partSites here.scopes part) := by
  cases part with
  | none => exact .of_no_fault rfl
  | some e => exact h e rfl here

theorem childSteps_halt {es : List Expr}
    (h : ∀ e ∈ es, ∀ outer, Halts (e.steps outer) (e.sites outer.scopes)) (inside : Context)
    (index count : Nat) :
    Halts (childSteps inside index count es) (childSites inside.scopes es) := by
  induction es generalizing index with
  | nil => exact .of_no_fault rfl
  | cons e rest ih =>
      obtain ⟨he, hrest⟩ := List.forall_mem_cons.mp h
      have hdiscard : fault? (if discardsResult (some .block) index count then
          [.call ⟨.discard, .expr e, inside⟩] else []) = none := by
        split <;> rfl
      exact ((he inside).followed _ hdiscard).append (ih hrest (index + 1))

theorem steps_halt (e : Expr) (outer : Context) :
    Halts (e.steps outer) (e.sites outer.scopes) := by
  induction e generalizing outer with
  | int32 id value => exact .of_no_fault rfl
  | float id value => exact .of_no_fault rfl
  | ref id target => exact .use rfl rfl (.of_no_fault rfl)
  | binary id operation left right hl hr =>
      obtain ⟨here, hhere⟩ : ∃ here,
        here = outer.within (.expr (binary id operation left right)) := ⟨_, rfl⟩
      have hscopes : outer.scopes = here.scopes := by rw [hhere]; rfl
      have hall := ((hl here).append ((hr here).operands id operation left here.scopes)).followed
        [.call ⟨.finish, .expr (binary id operation left right), here⟩] rfl
      refine .edges ?_
      simp only [interior, ← hhere, hscopes]
      exact .call _ (by simpa [sites] using hall)
  | assign id target value ih =>
      have hvalue := ih (outer.within (.expr (assign id target value)))
      exact .use rfl rfl (.call _ (hvalue.followed _ rfl))
  | ret id value ih =>
      have hvalue := ih (outer.within (.expr (ret id value)))
      refine .edges (.call _ (Halts.mono ?_ (List.subset_cons_self _ _)))
      exact hvalue.followed _ rfl
  | conditional id condition truePart falsePart hc ht hf =>
      obtain ⟨here, hhere⟩ : ∃ here,
        here = outer.within (.expr (conditional id condition truePart falsePart)) := ⟨_, rfl⟩
      have hscopes : outer.scopes = here.scopes := by rw [hhere]; rfl
      have hparts := (hc here).append ((partSteps_halt ht here).append
        ((partSteps_halt hf here).followed
          [.call ⟨.finish, .expr (conditional id condition truePart falsePart), here⟩] rfl))
      simp only [sites, List.cons_append, List.append_assoc, hscopes]
      refine .edges ?_
      simp only [interior, ← hhere]
      exact .call _ (hparts.mono (List.subset_cons_self _ _))
  | block id scope children ih =>
      have hchildren := childSteps_halt ih
        ((outer.within (.expr (block id scope children))).opening scope) 0 children.length
      refine .edges (.note _ (.call _ (Halts.mono ?_ (List.subset_cons_self _ _))))
      exact hchildren.followed _ rfl

end Expr

theorem Function.steps_halt (f : Function) (outer : Context) :
    Halts (f.steps outer) (f.body.sites (f.parameters :: outer.scopes)) := by
  have hbody := f.body.steps_halt ((outer.within (.function f)).opening f.parameters)
  simp only [steps, List.cons_append]
  exact .call _ (.call _ (hbody.followed _ rfl))

theorem Node.steps_halt (root : Node) : Halts root.steps root.sites := by
  cases root with
  | expr e => exact e.steps_halt .outside
  | function f => exact f.steps_halt .outside
  | module m =>
      have hfunctions : Halts (m.functions.flatMap (·.steps (Context.outside.within (.module m))))
          (m.functions.flatMap fun f => f.body.sites [f.parameters]) :=
        .flatMap fun f _ => f.steps_halt (Context.outside.within (.module m))
      simp only [steps, sites, Module.steps, List.cons_append]
      exact .call _ (.call _ (hfunctions.followed _ rfl))

namespace Node

variable {root : Node}

-- The nodes a walk comes to that nothing but the tree itself can end, each with the number
-- of nodes above it.
def entered (root : Node) : List (Nat × Node) :=
  entries (root.calls.map .call)

theorem entered_eq_outline (h : root.fault? = none) : root.entered = root.rose.outline 0 :=
  (Step.entered_of_fault?_eq_none h).trans root.entries_steps

theorem entered_prefix_outline (root : Node) : root.entered <+: root.rose.outline 0 := by
  rw [← root.entries_steps]
  exact Step.entered_prefix root.steps

-- A walk of which that is known comes to all nodes in pre-order or, if a rule is broken in
-- the tree, to the first of them, up to the last that is needed to see it.
structure Reached (root : Node) (entries : List (Nat × Node)) (checked : Except Error Unit) :
    Prop where
  order : entries.map Prod.snd <+: root.preorder
  depth : ∀ entry ∈ entries, ∃ path, root.Path path entry.2 ∧ path.length = entry.1 + 1
  whole : checked = .ok () → entries.map Prod.snd = root.preorder
  halted : ∀ error, checked = .error error → ∃ site, root.Contains site ∧ site.Violates error ∧
    ∃ depth last, site.expr.lastBefore? = some last ∧
      entries.getLast? = some (depth, .expr last)

theorem entered_reached (root : Node) : root.Reached root.entered (typeCheck root).run.value := by
  have horder := root.entered_prefix_outline
  rw [value_typeCheck]
  refine ⟨?_, fun entry hentry => ?_, fun hok => ?_, fun error herror => ?_⟩
  · rw [← root.outline_nodes 0]
    exact horder.map Prod.snd
  · obtain ⟨path, hpath, hdepth⟩ := path_of_mem_outline (horder.subset hentry)
    exact ⟨path, hpath, by omega⟩
  · rw [entered_eq_outline (verdict_eq_ok_iff.mp hok), root.outline_nodes 0]
  · obtain ⟨site, hsite, hhalt⟩ := root.steps_halt error (verdict_eq_error_iff.mp herror)
    exact ⟨site, mem_sites_iff.mp hsite, hhalt⟩

end Node

end TreeLang
