import TreeLang.Proofs.Static.Sites
import TreeLang.Proofs.Walk.Interior
import TreeLang.Proofs.Walk.Traversal

namespace TreeLang

-- The call by which a visitor learns that the operands of an expression agree.
def Call.finishesBinary (c : Call) : Bool :=
  c.moment = .finish && c.node.kind = .binary

def Site.isSound (site : Site) : Bool :=
  site.error?.isNone

theorem Site.isSound_iff {site : Site} : site.isSound = true ↔ site.Lawful := by
  rw [isSound, Option.isNone_iff_eq_none, error?_eq_none_iff]

namespace Step

theorem checkUse_eq (here : Context) (v : Variable) (id : NodeId) :
    checkUse here v id =
      match useError? here.scopes v id with
      | none => []
      | some error => [fail error] := by
  simp only [checkUse, Context.resolveDeclared, Context.resolve, Context.resolve?, useError?]
  cases h : here.scopes.findSome? (·.find? v.name) with
  | none => rfl
  | some found => by_cases hv : found = v <;> simp [hv, bind, Except.bind]

-- Steps judge sites in their order: they fail at the first unlawful one, and
-- finish the binary expressions before it.
structure Judges (steps : List Step) (sites : List Site) : Prop where
  fault : fault? steps = sites.findSome? Site.error?
  finished : (calls steps).countP Call.finishesBinary =
    (sites.takeWhile Site.isSound).countP (·.expr.isBinary)

namespace Judges

theorem nil : Judges [] [] := ⟨rfl, rfl⟩

theorem note {steps : List Step} {sites : List Site} (entry : Entry) (h : Judges steps sites) :
    Judges (.note entry :: steps) sites :=
  ⟨h.fault, h.finished⟩

theorem call {c : Call} {steps : List Step} {sites : List Site}
    (hc : c.finishesBinary = false) (h : Judges steps sites) : Judges (.call c :: steps) sites where
  fault := h.fault
  finished := by simp [calls, hc, h.finished]

theorem append {xs ys : List Step} {as bs : List Site} (hx : Judges xs as) (hy : Judges ys bs) :
    Judges (xs ++ ys) (as ++ bs) where
  fault := by simp [fault?_append, List.findSome?_append, hx.fault, hy.fault]
  finished := by
    rw [calls_append, List.countP_append, hx.finished, hx.fault]
    cases h : as.findSome? Site.error? with
    | none =>
        have hall : ∀ site ∈ as, Site.isSound site = true := by
          intro site hsite
          simp [Site.isSound, List.findSome?_eq_none_iff.mp h site hsite]
        have hself : (as ++ []).takeWhile Site.isSound = as ++ [] :=
          List.takeWhile_append_of_pos hall
        rw [List.append_nil] at hself
        simp [List.takeWhile_append_of_pos hall, hself, hy.finished]
    | some error =>
        obtain ⟨before, site, after, rfl, herror, hbefore⟩ := List.findSome?_eq_some_iff.mp h
        have hall : ∀ site ∈ before, Site.isSound site = true := by
          intro site hsite
          simp [Site.isSound, hbefore site hsite]
        have hstop : Site.isSound site = false := by simp [Site.isSound, herror]
        simp [List.takeWhile_append_of_pos hall, hstop]

theorem followed {xs ys : List Step} {sites : List Site} (hx : Judges xs sites)
    (hy : Judges ys []) : Judges (xs ++ ys) sites := by
  simpa only [List.append_nil] using hx.append hy

theorem flatMap {α : Type} {xs : List α} {steps : α → List Step} {sites : α → List Site}
    (h : ∀ x ∈ xs, Judges (steps x) (sites x)) :
    Judges (xs.flatMap steps) (xs.flatMap sites) := by
  induction xs with
  | nil => exact nil
  | cons x rest ih =>
      simp only [List.flatMap_cons]
      exact (h x List.mem_cons_self).append (ih fun y hy => h y (List.mem_cons_of_mem _ hy))

theorem refusal {site : Site} {error : Error} (h : site.error? = some error) (rest : List Step) :
    Judges (.fail error :: rest) [site] where
  fault := by simp [fault?, h]
  finished := by simp [calls, Site.isSound, h]

theorem approval {steps : List Step} {site : Site} (h : site.error? = none)
    (hfault : fault? steps = none)
    (hcount : (calls steps).countP Call.finishesBinary = if site.expr.isBinary then 1 else 0) :
    Judges steps [site] where
  fault := by simp [hfault, h]
  finished := by
    simp only [hcount, Site.isSound, h, Option.isNone_none, List.takeWhile_cons_of_pos,
      List.takeWhile_nil, List.countP_singleton]

theorem use (here : Context) (e : Expr) {v : Variable} (hused : e.used? = some v) :
    Judges (checkUse here v e.id) [⟨here.scopes, e⟩] := by
  have hsite : Site.error? ⟨here.scopes, e⟩ = useError? here.scopes v e.id :=
    Site.error?_of_used hused
  have hbinary : e.isBinary = false := by cases e <;> first | rfl | cases hused
  rw [checkUse_eq]
  cases herror : useError? here.scopes v e.id with
  | none => exact approval (hsite.trans herror) rfl (by simp [calls, hbinary])
  | some error => exact refusal (hsite.trans herror) []

theorem operands {scopes : List Scope} {here : Context} {id : NodeId} {operation : Operation}
    {left right : Expr} :
    Judges (checkOperands id left right ++
        [.call ⟨.finish, .expr (.binary id operation left right), here⟩])
      [⟨scopes, .binary id operation left right⟩] := by
  have herror : Site.error? ⟨scopes, .binary id operation left right⟩ =
    operandError? id left right := rfl
  unfold checkOperands
  cases h : operandError? id left right with
  | none => exact approval (herror.trans h) rfl rfl
  | some error => exact refusal (herror.trans h) _

-- Most expressions are lawful, whatever their children are.
theorem nothing {steps : List Step} {sites : List Site} {site : Site} (herror : site.error? = none)
    (hbinary : site.expr.isBinary = false) (h : Judges steps sites) :
    Judges steps (site :: sites) := by
  have hsite : Judges [] [site] := approval herror rfl (by simp [calls, hbinary])
  exact hsite.append h

-- Nothing is judged on coming to an expression or on leaving it.
theorem edges {e : Expr} {outer : Context} {sites : List Site}
    (h : Judges (e.interior (outer.within (.expr e))) sites) : Judges (e.steps outer) sites := by
  rw [Expr.steps_eq]
  exact .call rfl (h.followed (.call rfl .nil))

end Judges

end Step

open Step

namespace Expr

theorem partSteps_judge {part : Option Expr}
    (h : ∀ e ∈ part, ∀ outer, Judges (e.steps outer) (e.sites outer.scopes)) (here : Context) :
    Judges (partSteps here part) (partSites here.scopes part) := by
  cases part with
  | none => exact .nil
  | some e => exact h e rfl here

theorem childSteps_judge {es : List Expr}
    (h : ∀ e ∈ es, ∀ outer, Judges (e.steps outer) (e.sites outer.scopes)) (inside : Context)
    (index count : Nat) :
    Judges (childSteps inside index count es) (childSites inside.scopes es) := by
  induction es generalizing index with
  | nil => exact .nil
  | cons e rest ih =>
      have he := h e List.mem_cons_self inside
      have hrest := ih (fun x hx => h x (List.mem_cons_of_mem _ hx)) (index + 1)
      have hdiscard : Judges (if discardsResult (some .block) index count then
          [.call ⟨.discard, .expr e, inside⟩] else []) [] := by
        split
        · exact .call rfl .nil
        · exact .nil
      exact (he.followed hdiscard).append hrest

theorem steps_judge (e : Expr) (outer : Context) :
    Judges (e.steps outer) (e.sites outer.scopes) := by
  induction e generalizing outer with
  | int32 id value => exact .edges (.nothing rfl rfl (.call rfl .nil))
  | float id value => exact .edges (.nothing rfl rfl (.call rfl .nil))
  | ref id target =>
      have huse := Judges.use (outer.within (.expr (ref id target))) (ref id target) rfl
      exact .edges (huse.followed (.call rfl .nil))
  | binary id operation left right hl hr =>
      have hleft := hl (outer.within (.expr (binary id operation left right)))
      have hright := hr (outer.within (.expr (binary id operation left right)))
      simp only [sites, List.append_assoc]
      exact .edges (.call rfl (hleft.append (hright.append .operands)))
  | assign id target value ih =>
      have huse := Judges.use (outer.within (.expr (assign id target value)))
        (assign id target value) rfl
      have hvalue := ih (outer.within (.expr (assign id target value)))
      exact .edges (huse.append (.call rfl (hvalue.followed (.call rfl .nil))))
  | ret id value ih =>
      have hvalue := ih (outer.within (.expr (ret id value)))
      exact .edges (.nothing rfl rfl (.call rfl (hvalue.followed (.call rfl .nil))))
  | conditional id condition truePart falsePart hc ht hf =>
      obtain ⟨here, hhere⟩ : ∃ here,
        here = outer.within (.expr (conditional id condition truePart falsePart)) := ⟨_, rfl⟩
      have hscopes : outer.scopes = here.scopes := by rw [hhere]; rfl
      have hcondition := hc here
      have htrue := partSteps_judge ht here
      have hfalse := partSteps_judge hf here
      simp only [sites, List.cons_append, List.append_assoc, hscopes]
      refine .edges (.nothing rfl rfl ?_)
      simp only [interior, ← hhere]
      exact .call rfl (hcondition.append (htrue.append (hfalse.followed (.call rfl .nil))))
  | block id scope children ih =>
      have hchildren := childSteps_judge ih
        ((outer.within (.expr (block id scope children))).opening scope) 0 children.length
      refine .edges (.nothing rfl rfl (.note _ (.call rfl ?_)))
      exact hchildren.followed (.call rfl (.note _ .nil))

-- A walk over an expression is stopped by its first violation, if at all.
theorem fault?_steps (e : Expr) (outer : Context) :
    fault? (e.steps outer) = e.violation? outer.scopes := by
  rw [(e.steps_judge outer).fault, violation?_eq_findSome?]

end Expr

theorem Function.steps_judge (f : Function) (outer : Context) :
    Judges (f.steps outer) (f.body.sites (f.parameters :: outer.scopes)) := by
  have hbody := f.body.steps_judge ((outer.within (.function f)).opening f.parameters)
  simp only [steps, List.cons_append]
  exact .call rfl (.call rfl (hbody.followed (.call rfl (.call rfl .nil))))

theorem Node.steps_judge (root : Node) : Judges root.steps root.sites := by
  cases root with
  | expr e => exact e.steps_judge .outside
  | function f => exact f.steps_judge .outside
  | module m =>
      simp only [steps, sites, Module.steps, List.cons_append]
      have hfunctions : ∀ outer : Context, outer.scopes = [] →
          Judges (m.functions.flatMap (·.steps outer))
            (m.functions.flatMap fun f => f.body.sites [f.parameters]) := by
        intro outer houter
        refine .flatMap fun f _ => ?_
        simpa only [houter] using f.steps_judge outer
      have hinside := hfunctions (Context.outside.within (.module m)) rfl
      exact .call rfl (.call rfl (hinside.followed (.call rfl (.call rfl .nil))))

theorem Node.fault?_eq_violation? (root : Node) : root.fault? = root.violation? := by
  rw [fault?, root.steps_judge.fault, violation?_eq_findSome?]

end TreeLang
