import TreeLang.Proofs.Tree.Path
import TreeLang.Proofs.Tree.WellFormed
import TreeLang.Proofs.Walk.Audit
import TreeLang.Proofs.Walk.Walker

namespace TreeLang

-- What a node itself declares under a name.
def Node.declares? (node : Node) (name : String) : Option Variable :=
  node.scope?.bind (·.find? name)

-- The nodes of a path whose scopes are in effect at a call about the last one.
def Moment.enclosing (moment : Moment) (path : List Node) : List Node :=
  if moment.onEdge then path.dropLast else path

-- The node a call is made at is the one it is about. Only a dropped value is
-- told of at the block that drops it.
def Call.MadeAt (c : Call) (node : Node) : Prop :=
  if c.moment = .discard then node.kind = .block ∧ c.node ∈ node.children else c.node = node

-- A call below a node is made at the end of a path from there, and has that path
-- and the scopes along it on top of what there was outside.
structure Call.Below (c : Call) (outer : Context) (top : Node) (path : List Node) (node : Node) :
    Prop where
  reaches : top.Path path node
  madeAt : c.MadeAt node
  nodes : c.context.path = path.reverse ++ outer.path
  scopes : c.context.scopes =
    ((c.moment.enclosing path).filterMap Node.scope?).reverse ++ outer.scopes

namespace Call.Below

variable {c : Call} {outer : Context} {top child node : Node} {path : List Node}

theorem edge (hnode : c.node = top) (hmoment : c.moment.onEdge = true)
    (hcontext : c.context = outer.within top) : c.Below outer top [top] top where
  reaches := .self top
  madeAt := by
    have hkept : c.moment ≠ .discard := fun hdiscard => by simp [hdiscard, Moment.onEdge] at hmoment
    simpa [MadeAt, hkept] using hnode
  nodes := by simp [hcontext, Context.within]
  scopes := by simp [hcontext, Context.within, Moment.enclosing, hmoment]

theorem inner (hmoment : c.moment.onEdge = false) (hat : c.MadeAt top)
    (hcontext : c.context = (outer.within top).inside top) : c.Below outer top [top] top where
  reaches := .self top
  madeAt := hat
  nodes := by simp [hcontext, Context.within, Context.inside]
  scopes := by
    rw [hcontext, Moment.enclosing, hmoment]
    cases hs : top.scope? <;> simp [Context.within, Context.inside, hs]

theorem down (hchild : child ∈ top.children)
    (h : c.Below ((outer.within top).inside top) child path node) :
    c.Below outer top (top :: path) node where
  reaches := .down hchild h.reaches
  madeAt := h.madeAt
  nodes := by simp [h.nodes, Context.within, Context.inside]
  scopes := by
    have henclosing : c.moment.enclosing (top :: path) = top :: c.moment.enclosing path := by
      simp only [Moment.enclosing, List.dropLast_cons_of_ne_nil h.reaches.ne_nil]
      split <;> rfl
    rw [h.scopes, henclosing]
    cases hs : top.scope? <;> simp [Context.within, Context.inside, hs]

end Call.Below

theorem Expr.call_below (e : Expr) {outer : Context} {c : Call} (h : .call c ∈ e.steps outer) :
    ∃ path node, c.Below outer (.expr e) path node := by
  induction e using induct_children generalizing outer with
  | step e ih =>
      simp only [steps_eq, List.mem_cons, List.mem_append, List.not_mem_nil, or_false,
        Step.call.injEq] at h
      rcases h with rfl | h | rfl
      · exact ⟨_, _, .edge rfl rfl rfl⟩
      · cases call_mem_interior h with
        | own hnode hmoment hkept hcontext =>
            exact ⟨_, _, .inner hmoment (by simpa [Call.MadeAt, hkept] using hnode) hcontext⟩
        | dropped child hchild hblock hcall =>
            subst hcall
            exact ⟨_, _, .inner rfl ⟨hblock, List.mem_map_of_mem hchild⟩ rfl⟩
        | below child hchild hcall =>
            obtain ⟨path, node, hbelow⟩ := ih child hchild hcall
            exact ⟨_, node, hbelow.down (List.mem_map_of_mem hchild)⟩
      · exact ⟨_, _, .edge rfl rfl rfl⟩

theorem Function.call_below (f : Function) {outer : Context} {c : Call}
    (h : .call c ∈ f.steps outer) : ∃ path node, c.Below outer (.function f) path node := by
  simp only [steps, List.mem_cons, List.mem_append, List.cons_append, List.not_mem_nil, or_false,
    Step.call.injEq] at h
  rcases h with rfl | rfl | h | rfl | rfl
  · exact ⟨_, _, .edge rfl rfl rfl⟩
  · exact ⟨_, _, .inner rfl rfl rfl⟩
  · obtain ⟨path, node, hbelow⟩ := f.body.call_below h
    exact ⟨_, node, hbelow.down List.mem_cons_self⟩
  · exact ⟨_, _, .inner rfl rfl rfl⟩
  · exact ⟨_, _, .edge rfl rfl rfl⟩

theorem Module.call_below (m : Module) {outer : Context} {c : Call}
    (h : .call c ∈ m.steps outer) : ∃ path node, c.Below outer (.module m) path node := by
  simp only [steps, List.mem_cons, List.mem_append, List.cons_append, List.mem_flatMap,
    List.not_mem_nil, or_false, Step.call.injEq] at h
  rcases h with rfl | rfl | ⟨f, hf, h⟩ | rfl | rfl
  · exact ⟨_, _, .edge rfl rfl rfl⟩
  · exact ⟨_, _, .inner rfl rfl rfl⟩
  · obtain ⟨path, node, hbelow⟩ := f.call_below h
    exact ⟨_, node, hbelow.down (List.mem_map_of_mem hf)⟩
  · exact ⟨_, _, .inner rfl rfl rfl⟩
  · exact ⟨_, _, .edge rfl rfl rfl⟩

theorem Node.call_below (root : Node) {c : Call} (h : .call c ∈ root.steps) :
    ∃ path node, c.Below .outside root path node := by
  cases root with
  | expr e => exact e.call_below h
  | function f => exact f.call_below h
  | module m => exact m.call_below h

namespace Context

-- A name is looked up along a path from its end.
theorem resolve?_eq {context : Context} {path : List Node}
    (h : context.scopes = (path.filterMap Node.scope?).reverse) (name : String) :
    context.resolve? name = path.reverse.findSome? (·.declares? name) := by
  simp only [resolve?, h, ← List.filterMap_reverse, ← List.head?_filterMap,
    List.filterMap_filterMap, Node.declares?]

theorem resolve?_eq_some_iff {context : Context} {path : List Node}
    (h : context.scopes = (path.filterMap Node.scope?).reverse) {name : String} {v : Variable} :
    context.resolve? name = some v ↔
      ∃ above node below, path = above ++ node :: below ∧ node.declares? name = some v ∧
        ∀ n ∈ below, n.declares? name = none := by
  rw [resolve?_eq h, List.findSome?_eq_some_iff]
  constructor
  · rintro ⟨below, node, above, hpath, hfound, hbelow⟩
    rw [List.reverse_eq_append_iff] at hpath
    refine ⟨above.reverse, node, below.reverse, by simpa using hpath, hfound, ?_⟩
    simpa using hbelow
  · rintro ⟨above, node, below, rfl, hfound, hbelow⟩
    exact ⟨below.reverse, node, above.reverse, by simp, hfound, by simpa using hbelow⟩

theorem resolve?_eq_none_iff {context : Context} {path : List Node}
    (h : context.scopes = (path.filterMap Node.scope?).reverse) {name : String} :
    context.resolve? name = none ↔ ∀ n ∈ path, n.declares? name = none := by
  rw [resolve?_eq h, List.findSome?_eq_none_iff]
  simp

end Context

-- All that a context shows of the place of a call: the path from the root to the
-- node it is made at and, from the root on, the scopes along it. A name means what
-- the last node that declares it there means by it.
structure Call.Placed (c : Call) (root : Node) (path : List Node) (node : Node) : Prop where
  reaches : root.Path path node
  madeAt : c.MadeAt node
  ancestry : c.context.ancestry = path
  current : c.context.current? = some node
  parent : c.context.parent? = path.dropLast.getLast?
  depth : c.context.depth = path.length
  scopes : c.context.scopes.reverse = (c.moment.enclosing path).filterMap Node.scope?
  resolved : ∀ name v, c.context.resolve? name = some v ↔
    ∃ above declaring below, c.moment.enclosing path = above ++ declaring :: below ∧
      declaring.declares? name = some v ∧ ∀ n ∈ below, n.declares? name = none
  unresolved : ∀ name, c.context.resolve? name = none ↔
    ∀ n ∈ c.moment.enclosing path, n.declares? name = none

theorem Call.Below.placed {c : Call} {root node : Node} {path : List Node}
    (h : c.Below .outside root path node) : c.Placed root path node := by
  have hnodes : c.context.path = path.reverse := by simpa [Context.outside] using h.nodes
  have hscopes : c.context.scopes = ((c.moment.enclosing path).filterMap Node.scope?).reverse := by
    simpa [Context.outside] using h.scopes
  exact
    { reaches := h.reaches
      madeAt := h.madeAt
      ancestry := by rw [Context.ancestry, hnodes, List.reverse_reverse]
      current := by rw [Context.current?, hnodes, List.head?_reverse, h.reaches.getLast?]
      parent := by
        rw [Context.parent?, hnodes, ← List.head?_tail, List.tail_reverse, List.head?_reverse]
      depth := by rw [Context.depth, hnodes, List.length_reverse]
      scopes := by rw [hscopes, List.reverse_reverse]
      resolved := fun _ _ => Context.resolve?_eq_some_iff hscopes
      unresolved := fun _ => Context.resolve?_eq_none_iff hscopes }

-- A walker that pushes and pops its place does what the steps of the tree say.
-- Every call it makes, also if it fails later, is made where the context says, and
-- wherever it succeeds with a part of a tree, it is back at the place it came from.
theorem walk_placed (root : Node) {σ : Type} (visitor : Visitor σ) (s : σ) :
    Walker.walk visitor root = walk visitor root ∧
    (∃ exchanges,
      Action.effect (Walker.walk visitor.audited root) ⟨s, []⟩ =
        ((Action.effect (Walker.walk visitor root) s).1,
          ⟨(Action.effect (Walker.walk visitor root) s).2, exchanges⟩) ∧
      ∀ c answer, ⟨.call c, answer⟩ ∈ exchanges → ∃ path node, c.Placed root path node) ∧
    (∀ node place t walker,
      Action.effect (Walker.walkNode visitor node) ⟨place, t⟩ = (.ok (), walker) →
        walker.context = place) ∧
    (root.WellFormed → ∀ node path other,
      root.Path path node → root.Path other node → path = other) := by
  refine ⟨Walker.walk_eq visitor root, ?_, fun _ _ _ _ hrun => Walker.walkNode_arrives hrun,
    fun hroot node path other h hother => h.unique (.of_map _ hroot.distinct) hother⟩
  obtain ⟨exchanges, hrun, hattended⟩ := visitor.audited_walk_attended s root
  simp only [Walker.walk_eq]
  refine ⟨exchanges, hrun, fun c answer hc => ?_⟩
  have hstep := Step.call_mem_of_mem_calls (hattended.call_mem hc)
  obtain ⟨path, node, hbelow⟩ := root.call_below hstep
  exact ⟨path, node, hbelow.placed⟩

end TreeLang
