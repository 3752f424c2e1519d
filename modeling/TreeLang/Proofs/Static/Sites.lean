import TreeLang.Proofs.Tree.Induction
import TreeLang.Static.Violation

namespace TreeLang

-- An expression within a tree, with the scopes that enclose it there, the
-- innermost first.
structure Site where
  scopes : List Scope
  expr : Expr

namespace Expr

-- The scopes around the children of an expression.
def scopesInside (scopes : List Scope) : Expr → List Scope
  | block _ scope _ => scope :: scopes
  | _ => scopes

-- The variable an expression itself reads or writes.
def used? : Expr → Option Variable
  | ref _ target | assign _ target _ => some target
  | _ => none

def isBinary (e : Expr) : Bool :=
  e.kind = .binary

mutual

-- The sites of an expression in the order they are judged: the operands of a
-- binary expression come before it, the children of any other after it.
def sites (scopes : List Scope) : Expr → List Site
  | int32 id value => [⟨scopes, int32 id value⟩]
  | float id value => [⟨scopes, float id value⟩]
  | ref id target => [⟨scopes, ref id target⟩]
  | binary id operation left right =>
      left.sites scopes ++ right.sites scopes ++ [⟨scopes, binary id operation left right⟩]
  | assign id target value => ⟨scopes, assign id target value⟩ :: value.sites scopes
  | ret id value => ⟨scopes, ret id value⟩ :: value.sites scopes
  | conditional id condition truePart falsePart =>
      ⟨scopes, conditional id condition truePart falsePart⟩ ::
        condition.sites scopes ++ partSites scopes truePart ++ partSites scopes falsePart
  | block id scope children =>
      ⟨scopes, block id scope children⟩ :: childSites (scope :: scopes) children
termination_by structural e => e

def partSites (scopes : List Scope) : Option Expr → List Site
  | none => []
  | some e => e.sites scopes
termination_by structural part => part

def childSites (scopes : List Scope) : List Expr → List Site
  | [] => []
  | e :: rest => e.sites scopes ++ childSites scopes rest
termination_by structural es => es

end

end Expr

def Node.sites : Node → List Site
  | expr e => e.sites []
  | function f => f.body.sites [f.parameters]
  | module m => m.functions.flatMap fun f => f.body.sites [f.parameters]

-- The same without an order, from the root downwards.
inductive Node.Contains : Node → Site → Prop where
  | expr {e : Expr} : Contains (.expr e) ⟨[], e⟩
  | function {f : Function} : Contains (.function f) ⟨[f.parameters], f.body⟩
  | module {m : Module} {f : Function} (hf : f ∈ m.functions) :
      Contains (.module m) ⟨[f.parameters], f.body⟩
  | child {root : Node} {scopes : List Scope} {parent child : Expr}
      (hparent : Contains root ⟨scopes, parent⟩) (hchild : child ∈ parent.children) :
      Contains root ⟨parent.scopesInside scopes, child⟩

-- Among these scopes, the innermost one that declares the name of the variable
-- declares that very variable.
def Denotes (scopes : List Scope) (v : Variable) : Prop :=
  ∃ inner scope outer, scopes = inner ++ scope :: outer ∧
    (∀ s ∈ inner, s.find? v.name = none) ∧ scope.find? v.name = some v

namespace Site

-- Names mean what they are used for, and operands have one type.
def Lawful (site : Site) : Prop :=
  match site.expr with
  | .ref _ target | .assign _ target _ => Denotes site.scopes target
  | .binary _ _ left right => left.type = right.type
  | _ => True

-- The ways not to be lawful, and how each is reported.
inductive Violates : Site → Error → Prop where
  | undeclared {scopes : List Scope} {e : Expr} {v : Variable} (hused : e.used? = some v)
      (hnone : ∀ s ∈ scopes, s.find? v.name = none) :
      Violates ⟨scopes, e⟩ { cause := .undeclaredVariable v.name, node := some e.id }
  | shadowed {inner outer : List Scope} {scope : Scope} {e : Expr} {v found : Variable}
      (hused : e.used? = some v) (hinner : ∀ s ∈ inner, s.find? v.name = none)
      (hfound : scope.find? v.name = some found) (hother : found ≠ v) :
      Violates ⟨inner ++ scope :: outer, e⟩
        { cause := .shadowedVariable v.name, node := some e.id }
  | mismatched {scopes : List Scope} {id : NodeId} {operation : Operation} {left right : Expr}
      (htypes : left.type ≠ right.type) :
      Violates ⟨scopes, .binary id operation left right⟩
        { cause := .operandMismatch left.type right.type, node := some id }

-- The same decided.
def error? (site : Site) : Option Error :=
  match site.expr with
  | .ref id target | .assign id target _ => useError? site.scopes target id
  | .binary id _ left right => operandError? id left right
  | _ => none

end Site

theorem findSome?_eq_some_split {scopes : List Scope} {name : String} {found : Variable} :
    scopes.findSome? (·.find? name) = some found ↔
      ∃ inner scope outer, scopes = inner ++ scope :: outer ∧
        (∀ s ∈ inner, s.find? name = none) ∧ scope.find? name = some found := by
  rw [List.findSome?_eq_some_iff]
  constructor
  · rintro ⟨inner, scope, outer, hsplit, hfound, hinner⟩
    exact ⟨inner, scope, outer, hsplit, hinner, hfound⟩
  · rintro ⟨inner, scope, outer, hsplit, hinner, hfound⟩
    exact ⟨inner, scope, outer, hsplit, hfound, hinner⟩

theorem useError?_eq_none_iff {scopes : List Scope} {v : Variable} {id : NodeId} :
    useError? scopes v id = none ↔ Denotes scopes v := by
  rw [Denotes, ← findSome?_eq_some_split]
  cases h : scopes.findSome? (·.find? v.name) with
  | none => simp [useError?, h]
  | some found => simp [useError?, h]

theorem operandError?_eq_none_iff {id : NodeId} {left right : Expr} :
    operandError? id left right = none ↔ left.type = right.type := by
  simp [operandError?]

namespace Site

theorem error?_eq_none_iff {site : Site} : site.error? = none ↔ site.Lawful := by
  rcases site with ⟨scopes, e⟩
  cases e <;> simp [error?, Lawful, useError?_eq_none_iff, operandError?_eq_none_iff]

theorem violates_of_useError? {scopes : List Scope} {e : Expr} {v : Variable} {error : Error}
    (hused : e.used? = some v) (h : useError? scopes v e.id = some error) :
    Violates ⟨scopes, e⟩ error := by
  unfold useError? at h
  split at h
  · rename_i hnone
    obtain rfl := Option.some.inj h
    exact .undeclared hused (List.findSome?_eq_none_iff.mp hnone)
  · rename_i found hfound
    obtain ⟨inner, scope, outer, rfl, hinner, hscope⟩ := findSome?_eq_some_split.mp hfound
    by_cases hv : found = v
    · simp [hv] at h
    · rw [if_neg hv] at h
      obtain rfl := Option.some.inj h
      exact .shadowed hused hinner hscope hv

theorem violates_of_error? {site : Site} {error : Error} (h : site.error? = some error) :
    site.Violates error := by
  rcases site with ⟨scopes, e⟩
  cases e with
  | ref id target => exact violates_of_useError? rfl h
  | assign id target value => exact violates_of_useError? rfl h
  | binary id operation left right =>
      by_cases htypes : left.type = right.type
      · simp [error?, operandError?, htypes] at h
      · simp only [error?, operandError?, if_neg htypes, Option.some.injEq] at h
        subst h
        exact .mismatched htypes
  | int32 id value => simp [error?] at h
  | float id value => simp [error?] at h
  | ret id value => simp [error?] at h
  | conditional id condition truePart falsePart => simp [error?] at h
  | block id scope children => simp [error?] at h

theorem error?_of_used {scopes : List Scope} {e : Expr} {v : Variable} (hused : e.used? = some v) :
    error? ⟨scopes, e⟩ = useError? scopes v e.id := by
  cases e with
  | ref id target =>
      obtain rfl := Option.some.inj hused
      rfl
  | assign id target value =>
      obtain rfl := Option.some.inj hused
      rfl
  | _ => cases hused

theorem error?_eq_some_iff {site : Site} {error : Error} :
    site.error? = some error ↔ site.Violates error := by
  constructor
  · exact violates_of_error?
  · intro h
    cases h with
    | undeclared hused hnone =>
        rw [error?_of_used hused, useError?, List.findSome?_eq_none_iff.mpr hnone]
    | shadowed hused hinner hfound hother =>
        rw [error?_of_used hused, useError?,
          findSome?_eq_some_split.mpr ⟨_, _, _, rfl, hinner, hfound⟩]
        simp [hother]
    | mismatched htypes => simp [error?, operandError?, htypes]

end Site

namespace Expr

theorem partSites_eq (scopes : List Scope) (part : Option Expr) :
    partSites scopes part = part.toList.flatMap (sites scopes) := by
  cases part <;> simp [partSites]

theorem childSites_eq (scopes : List Scope) (es : List Expr) :
    childSites scopes es = es.flatMap (sites scopes) := by
  induction es with
  | nil => rfl
  | cons e rest ih => simp [childSites, ih]

theorem mem_sites_iff {scopes : List Scope} {e : Expr} {site : Site} :
    site ∈ e.sites scopes ↔
      site = ⟨scopes, e⟩ ∨ ∃ child ∈ e.children, site ∈ child.sites (e.scopesInside scopes) := by
  cases e with
  | binary id operation left right =>
      simp only [sites, children, scopesInside, List.mem_append, List.mem_cons]
      grind
  | conditional id condition truePart falsePart =>
      simp only [sites, children, scopesInside, partSites_eq, List.mem_append, List.mem_cons,
        List.mem_flatMap, List.cons_append, Option.mem_toList]
      grind
  | _ => simp [sites, children, scopesInside, childSites_eq]

theorem child_mem_sites {scopes inside : List Scope} {e parent child : Expr}
    (hparent : ⟨inside, parent⟩ ∈ e.sites scopes) (hchild : child ∈ parent.children) :
    ⟨parent.scopesInside inside, child⟩ ∈ e.sites scopes := by
  induction e using induct_children generalizing scopes with
  | step e ih =>
      rcases mem_sites_iff.mp hparent with heq | ⟨c, hc, hmem⟩
      · obtain ⟨rfl, rfl⟩ := Site.mk.inj heq
        exact mem_sites_iff.mpr (.inr ⟨child, hchild, mem_sites_iff.mpr (.inl rfl)⟩)
      · exact mem_sites_iff.mpr (.inr ⟨c, hc, ih c hc hmem⟩)

theorem contains_of_mem_sites {root : Node} {scopes : List Scope} {e : Expr} {site : Site}
    (he : root.Contains ⟨scopes, e⟩) (h : site ∈ e.sites scopes) : root.Contains site := by
  induction e using induct_children generalizing scopes with
  | step e ih =>
      rcases mem_sites_iff.mp h with rfl | ⟨child, hchild, hmem⟩
      · exact he
      · exact ih child hchild (.child he hchild) hmem

-- The first violation is that of the first site with one.
theorem violation?_eq_findSome? (scopes : List Scope) (e : Expr) :
    e.violation? scopes = (e.sites scopes).findSome? Site.error? := by
  induction e generalizing scopes with
  | int32 id value => rfl
  | float id value => rfl
  | ref id target => simp [violation?, sites, Site.error?]
  | binary id operation left right hl hr =>
      simp [violation?, sites, List.findSome?_append, hl, hr, Site.error?]
  | assign id target value ih =>
      cases h : useError? scopes target id <;>
        simp [violation?, sites, Site.error?, h, ih]
  | ret id value ih => simp [violation?, sites, List.findSome?_cons, Site.error?, ih]
  | conditional id condition truePart falsePart hc ht hf =>
      have hpart : ∀ part : Option Expr, (∀ e ∈ part, ∀ scopes,
          e.violation? scopes = (e.sites scopes).findSome? Site.error?) →
          partViolation? scopes part = (partSites scopes part).findSome? Site.error? := by
        intro part h
        cases part with
        | none => rfl
        | some e => exact h e rfl scopes
      simp [violation?, sites, List.findSome?_cons, List.findSome?_append, Site.error?, hc,
        hpart truePart ht, hpart falsePart hf]
  | block id scope children ih =>
      have hchildren : childViolation? (scope :: scopes) children =
          (childSites (scope :: scopes) children).findSome? Site.error? := by
        clear id
        induction children with
        | nil => rfl
        | cons e rest hrest =>
            simp [childViolation?, childSites, List.findSome?_append, ih e List.mem_cons_self,
              hrest fun e he => ih e (List.mem_cons_of_mem _ he)]
      simp [violation?, sites, List.findSome?_cons, Site.error?, hchildren]

end Expr

namespace Node

theorem violation?_eq_findSome? (root : Node) :
    root.violation? = root.sites.findSome? Site.error? := by
  cases root with
  | expr e => exact e.violation?_eq_findSome? []
  | function f => exact f.body.violation?_eq_findSome? [f.parameters]
  | module m =>
      simp only [violation?, sites]
      induction m.functions with
      | nil => rfl
      | cons f rest ih =>
          have hf : f.violation? = (f.body.sites [f.parameters]).findSome? Site.error? :=
            f.body.violation?_eq_findSome? [f.parameters]
          rw [List.findSome?_cons, List.flatMap_cons, List.findSome?_append, ← hf, ih]
          cases f.violation? <;> rfl

theorem mem_sites_iff {root : Node} {site : Site} : site ∈ root.sites ↔ root.Contains site := by
  constructor
  · intro h
    cases root with
    | expr e => exact Expr.contains_of_mem_sites .expr h
    | function f => exact Expr.contains_of_mem_sites .function h
    | module m =>
        obtain ⟨f, hf, hsite⟩ := List.mem_flatMap.mp h
        exact Expr.contains_of_mem_sites (.module hf) hsite
  · intro h
    induction h with
    | expr => exact Expr.mem_sites_iff.mpr (.inl rfl)
    | function => exact Expr.mem_sites_iff.mpr (.inl rfl)
    | module hf => exact List.mem_flatMap.mpr ⟨_, hf, Expr.mem_sites_iff.mpr (.inl rfl)⟩
    | @child root scopes parent child _ hchild ih =>
        cases root with
        | expr e => exact Expr.child_mem_sites ih hchild
        | function f => exact Expr.child_mem_sites ih hchild
        | module m =>
            obtain ⟨f, hf, hparent⟩ := List.mem_flatMap.mp ih
            exact List.mem_flatMap.mpr ⟨f, hf, Expr.child_mem_sites hparent hchild⟩

end Node

end TreeLang
