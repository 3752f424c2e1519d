import TreeLang.Proofs.Tree.Path

namespace TreeLang

-- A tree of labels: each has children of its own, in order.
inductive Rose (α : Type) where
  | node (label : α) (children : List (Rose α))

namespace Rose

variable {α β : Type}

mutual

def map (f : α → β) : Rose α → Rose β
  | node label children => node (f label) (mapAll f children)
termination_by structural t => t

def mapAll (f : α → β) : List (Rose α) → List (Rose β)
  | [] => []
  | t :: rest => t.map f :: mapAll f rest
termination_by structural ts => ts

end

mutual

-- The labels in pre-order, each with the depth it has if the root has this one.
def outline (depth : Nat) : Rose α → List (Nat × α)
  | node label children => (depth, label) :: outlineAll (depth + 1) children
termination_by structural t => t

def outlineAll (depth : Nat) : List (Rose α) → List (Nat × α)
  | [] => []
  | t :: rest => t.outline depth ++ outlineAll depth rest
termination_by structural ts => ts

end

@[elab_as_elim, induction_eliminator]
theorem induct {P : Rose α → Prop}
    (node : ∀ label children, (∀ t ∈ children, P t) → P (node label children))
    (t : Rose α) : P t := by
  refine @Rose.rec α P (fun ts => ∀ t ∈ ts, P t) node ?_ ?_ t
  · intro t ht
    cases ht
  · intro head tail hhead htail
    exact List.forall_mem_cons.mpr ⟨hhead, htail⟩

theorem mapAll_eq (f : α → β) (ts : List (Rose α)) : mapAll f ts = ts.map (map f) := by
  induction ts with
  | nil => rfl
  | cons t rest ih => rw [mapAll, ih, List.map_cons]

theorem outlineAll_eq (depth : Nat) (ts : List (Rose α)) :
    outlineAll depth ts = ts.flatMap (outline depth) := by
  induction ts with
  | nil => rfl
  | cons t rest ih => rw [outlineAll, ih, List.flatMap_cons]

theorem outline_map (f : α → β) (t : Rose α) (depth : Nat) :
    (t.map f).outline depth = (t.outline depth).map (Prod.map id f) := by
  induction t generalizing depth with
  | node label children ih =>
      simp only [map, outline, mapAll_eq, outlineAll_eq, List.flatMap_map, List.map_cons,
        List.map_flatMap, Prod.map, id]
      exact congrArg _ (List.flatMap_congr fun t ht => ih t ht (depth + 1))

-- What begins no deeper than this, if anything.
def Shallow (depth : Nat) (entries : List (Nat × α)) : Prop :=
  ∀ entry ∈ entries.head?, entry.1 ≤ depth

theorem shallow_nil (depth : Nat) : Shallow depth ([] : List (Nat × α)) := by
  simp [Shallow]

theorem Shallow.succ {depth : Nat} {entries : List (Nat × α)} (h : Shallow depth entries) :
    Shallow (depth + 1) entries :=
  fun entry hentry => Nat.le_succ_of_le (h entry hentry)

theorem shallow_outlineAll_append {depth : Nat} {rest : List (Nat × α)} (ts : List (Rose α))
    (hrest : Shallow depth rest) : Shallow depth (outlineAll depth ts ++ rest) := by
  cases ts with
  | nil => exact hrest
  | cons t ts =>
      cases t with
      | node label children => simp [Shallow, outlineAll, outline]

theorem outlineAll_ne_shallow {depth : Nat} {t : Rose α} {ts : List (Rose α)}
    {more rest : List (Nat × α)} (hrest : Shallow depth rest) :
    outlineAll (depth + 1) (t :: ts) ++ more ≠ rest := by
  rintro rfl
  cases t with
  | node label children =>
      simp only [Shallow, outlineAll, outline, List.cons_append, List.head?_cons,
        Option.mem_some_iff, forall_eq'] at hrest
      omega

-- The outline shows where the tree ends: where it gets as shallow as it began.
def Delimited (t : Rose α) : Prop :=
  ∀ (depth : Nat) (t' : Rose α) (rest rest' : List (Nat × α)), Shallow depth rest →
    Shallow depth rest' → t.outline depth ++ rest = t'.outline depth ++ rest' →
    t = t' ∧ rest = rest'

theorem outlineAll_append_inj {depth : Nat} {ts ts' : List (Rose α)} {rest rest' : List (Nat × α)}
    (htrees : ∀ t ∈ ts, t.Delimited) (hrest : Shallow depth rest) (hrest' : Shallow depth rest')
    (h : outlineAll (depth + 1) ts ++ rest = outlineAll (depth + 1) ts' ++ rest') :
    ts = ts' ∧ rest = rest' := by
  induction ts generalizing ts' with
  | nil =>
      cases ts' with
      | nil => exact ⟨rfl, h⟩
      | cons t' ts' => exact absurd h.symm (outlineAll_ne_shallow hrest)
  | cons t ts ih =>
      cases ts' with
      | nil => exact absurd h (outlineAll_ne_shallow hrest')
      | cons t' ts' =>
          obtain ⟨htree, hothers⟩ := List.forall_mem_cons.mp htrees
          rw [outlineAll, outlineAll, List.append_assoc, List.append_assoc] at h
          obtain ⟨rfl, hmore⟩ := htree _ t' _ _ (shallow_outlineAll_append ts hrest.succ)
            (shallow_outlineAll_append ts' hrest'.succ) h
          obtain ⟨rfl, rfl⟩ := ih hothers hmore
          exact ⟨rfl, rfl⟩

theorem delimited (t : Rose α) : t.Delimited := by
  intro depth t' rest rest' hrest hrest' h
  induction t generalizing depth t' rest rest' with
  | node label children ih =>
      cases t' with
      | node label' children' =>
          obtain ⟨hlabel, hbelow⟩ := List.cons.inj h
          obtain ⟨-, rfl⟩ := Prod.mk.inj hlabel
          have htrees : ∀ t ∈ children, t.Delimited :=
            fun t ht depth t' rest rest' => ih t ht depth t' rest rest'
          obtain ⟨rfl, rfl⟩ := outlineAll_append_inj htrees hrest hrest' hbelow
          exact ⟨rfl, rfl⟩

-- Depths and labels show the whole tree.
theorem outline_injective (depth : Nat) : Function.Injective (outline (α := α) depth) := by
  intro t t' h
  have happend : t.outline depth ++ [] = t'.outline depth ++ [] := congrArg (· ++ []) h
  exact (t.delimited depth t' [] [] (shallow_nil depth) (shallow_nil depth) happend).1

end Rose

open Rose in
mutual

-- The tree of the nodes.
def Expr.rose : Expr → Rose Node
  | .int32 id value => node (.expr (.int32 id value)) []
  | .float id value => node (.expr (.float id value)) []
  | .ref id target => node (.expr (.ref id target)) []
  | .binary id operation left right =>
      node (.expr (.binary id operation left right)) [left.rose, right.rose]
  | .assign id target value => node (.expr (.assign id target value)) [value.rose]
  | .ret id value => node (.expr (.ret id value)) [value.rose]
  | .conditional id condition truePart falsePart =>
      node (.expr (.conditional id condition truePart falsePart))
        (condition.rose :: rosePart truePart ++ rosePart falsePart)
  | .block id scope children => node (.expr (.block id scope children)) (roseAll children)
termination_by structural e => e

def rosePart : Option Expr → List (Rose Node)
  | none => []
  | some e => [e.rose]
termination_by structural part => part

def roseAll : List Expr → List (Rose Node)
  | [] => []
  | e :: rest => e.rose :: roseAll rest
termination_by structural es => es

end

def Function.rose (f : Function) : Rose Node :=
  .node (.function f) [f.body.rose]

def Node.rose : Node → Rose Node
  | expr e => e.rose
  | function f => f.rose
  | module m => .node (.module m) (m.functions.map Function.rose)

theorem rosePart_eq (part : Option Expr) : rosePart part = part.toList.map Expr.rose := by
  cases part <;> simp [rosePart]

theorem roseAll_eq (es : List Expr) : roseAll es = es.map Expr.rose := by
  induction es with
  | nil => rfl
  | cons e rest ih => rw [roseAll, ih, List.map_cons]

theorem Expr.rose_eq (e : Expr) : e.rose = .node (.expr e) (e.children.map rose) := by
  cases e <;> simp [rose, children, rosePart_eq, roseAll_eq]

theorem Node.rose_eq (node : Node) : node.rose = .node node (node.children.map rose) := by
  cases node with
  | expr e =>
    rw [rose, e.rose_eq, children, List.map_map]
    rfl
  | function f => rfl
  | module m => simp [rose, children, Function.rose, Function.comp_def]

namespace Node

theorem outline_eq (node : Node) (depth : Nat) :
    node.rose.outline depth =
      (depth, node) :: node.children.flatMap (·.rose.outline (depth + 1)) := by
  rw [rose_eq, Rose.outline, Rose.outlineAll_eq, List.flatMap_map]

theorem outline_nodes (root : Node) (depth : Nat) :
    (root.rose.outline depth).map Prod.snd = root.preorder := by
  induction root using induct_children generalizing depth with
  | step root ih =>
      rw [outline_eq, preorder_eq, List.map_cons, List.map_flatMap]
      exact congrArg _ (List.flatMap_congr fun child hchild => ih child hchild (depth + 1))

-- The depths are those of the ways down from the root.
theorem path_of_mem_outline {root node : Node} {depth depth' : Nat}
    (h : (depth', node) ∈ root.rose.outline depth) :
    ∃ path, root.Path path node ∧ depth' + 1 = depth + path.length := by
  induction root using induct_children generalizing depth with
  | step root ih =>
      rw [outline_eq, List.mem_cons, List.mem_flatMap] at h
      rcases h with heq | ⟨child, hchild, hbelow⟩
      · obtain ⟨rfl, rfl⟩ := Prod.mk.inj heq
        exact ⟨[node], .self node, rfl⟩
      · obtain ⟨path, hpath, hdepth⟩ := ih child hchild hbelow
        refine ⟨root :: path, .down hchild hpath, ?_⟩
        rw [List.length_cons]
        omega

end Node

end TreeLang
