import TreeLang.Proofs.Static.Judgement
import TreeLang.Proofs.Walk.Tour

namespace TreeLang

-- A line that a walk writes between its first and its last one, with what it is about: the
-- scope of a block that is entered, at the end of a path from the root, or left, or
-- operands that agree.
inductive Mark where
  | entered (path : List Node) (block : Node)
  | left (block : Node)
  | checked (binary : Node) (type : DataType)

def Node.opensScope (node : Node) : Bool :=
  node.kind = .function || node.kind = .block

namespace Mark

def entry : Mark → Entry
  | entered path block =>
      let depth := path.countP Node.opensScope
      { level := .trace, component := .walker,
        message := s!"entered scope of block {block.id.text} (scope depth {depth})" }
  | left block =>
      { level := .trace, component := .walker,
        message := s!"left scope of block {block.id.text}" }
  | checked binary type =>
      { level := .trace, component := .typeChecker,
        message := s!"binary {binary.id.text} checked as {type.text}" }

def entered? : Mark → Option Node
  | entered _ block => some block
  | left _ | checked .. => none

def left? : Mark → Option Node
  | left block => some block
  | entered .. | checked .. => none

def checked? : Mark → Option Node
  | checked binary _ => some binary
  | entered .. | left _ => none

def step (mark : Mark) : Step :=
  .note mark.entry

end Mark

-- From these blocks whose scopes have been entered and not yet left, the innermost first,
-- lines lead to those: a scope that is left is the innermost.
inductive Bracketed : List Node → List Mark → List Node → Prop where
  | nil (blocks : List Node) : Bracketed blocks [] blocks
  | entered {blocks blocks' : List Node} {marks : List Mark} (path : List Node) (block : Node)
      (rest : Bracketed (block :: blocks) marks blocks') :
      Bracketed blocks (.entered path block :: marks) blocks'
  | left {blocks blocks' : List Node} {marks : List Mark} (block : Node)
      (rest : Bracketed blocks marks blocks') :
      Bracketed (block :: blocks) (.left block :: marks) blocks'
  | checked {blocks blocks' : List Node} {marks : List Mark} (binary : Node) (type : DataType)
      (rest : Bracketed blocks marks blocks') :
      Bracketed blocks (.checked binary type :: marks) blocks'

namespace Bracketed

variable {blocks blocks' blocks'' : List Node} {marks marks' : List Mark}

theorem append (h : Bracketed blocks marks blocks') (h' : Bracketed blocks' marks' blocks'') :
    Bracketed blocks (marks ++ marks') blocks'' := by
  induction h with
  | nil blocks => exact h'
  | entered path block rest ih => exact .entered path block (ih h')
  | left block rest ih => exact .left block (ih h')
  | checked binary type rest ih => exact .checked binary type (ih h')

-- The scopes that have been entered are those that have been left and those that are open.
theorem entered_perm (h : Bracketed blocks marks blocks') :
    (marks.filterMap Mark.entered? ++ blocks).Perm (marks.filterMap Mark.left? ++ blocks') := by
  induction h with
  | nil blocks => exact .refl _
  | @entered blocks blocks' marks path block rest ih =>
      exact List.perm_middle.symm.trans ih
  | @left blocks blocks' marks block rest ih =>
      exact List.perm_middle.trans (ih.cons block)
  | checked binary type rest ih => exact ih

end Bracketed

def blocksOf (nodes : List Node) : List Node :=
  nodes.filter (·.kind = .block)

mutual

-- What a walk has to write about a tree below the nodes `above`.
def Expr.transcript (above : List Node) (e : Expr) : List Mark :=
  let path := above ++ [.expr e]
  match e with
  | .int32 .. | .float .. | .ref .. => []
  | .binary _ _ left right =>
      left.transcript path ++ right.transcript path ++ [.checked (.expr e) right.type]
  | .assign _ _ value | .ret _ value => value.transcript path
  | .conditional _ condition truePart falsePart =>
      condition.transcript path ++ partTranscript path truePart ++ partTranscript path falsePart
  | .block _ _ children =>
      .entered path (.expr e) :: childTranscript path children ++ [.left (.expr e)]
termination_by structural e

def partTranscript (above : List Node) : Option Expr → List Mark
  | none => []
  | some e => e.transcript above
termination_by structural part => part

def childTranscript (above : List Node) : List Expr → List Mark
  | [] => []
  | e :: rest => e.transcript above ++ childTranscript above rest
termination_by structural es => es

end

def Function.transcript (above : List Node) (f : Function) : List Mark :=
  f.body.transcript (above ++ [.function f])

def Node.transcript (above : List Node) : Node → List Mark
  | expr e => e.transcript above
  | function f => f.transcript above
  | module m => m.functions.flatMap (·.transcript (above ++ [.module m]))

namespace Call

-- The lines right before a call, which are written even if it is refused then.
def heralds (c : Call) : List Mark :=
  match c.moment, c.node with
  | .start, .expr (.block ..) => [.entered c.context.ancestry c.node]
  | .finish, .expr (.binary _ _ _ right) => [.checked c.node right.type]
  | _, _ => []

-- The line right after a call.
def sequels (c : Call) : List Mark :=
  match c.moment, c.node with
  | .finish, .expr (.block ..) => [.left c.node]
  | _, _ => []

-- The blocks whose scopes are in effect at a call, the innermost first.
def openBlocks (c : Call) : List Node :=
  blocksOf (if c.moment.onEdge then c.context.path.tail else c.context.path)

-- A call within these blocks about which nothing is written.
structure Silent (c : Call) (blocks : List Node) : Prop where
  heralds : c.heralds = []
  sequels : c.sequels = []
  within : c.openBlocks = blocks

end Call

-- A node that is come to from this place in a tree, where the scopes along the way to it
-- are in effect.
structure Stands (root : Node) (outer : Context) (node : Node) : Prop where
  reaches : root.Path (outer.within node).ancestry node
  scopes : outer.scopes = outer.path.filterMap Node.scope?

theorem Context.ancestry_within (context : Context) (node : Node) :
    (context.within node).ancestry = context.ancestry ++ [node] :=
  List.reverse_cons

namespace Stands

variable {root node : Node} {outer : Context}

theorem top (root : Node) : Stands root .outside root :=
  ⟨.self root, rfl⟩

theorem scopes_inside (h : Stands root outer node) :
    ((outer.within node).inside node).scopes = (node :: outer.path).filterMap Node.scope? := by
  cases hscope : node.scope? <;> simp [Context.inside, Context.within, h.scopes, hscope]

theorem child {below : Node} (h : Stands root outer node) (hbelow : below ∈ node.children) :
    Stands root ((outer.within node).inside node) below where
  reaches := by
    rw [Context.ancestry_within]
    exact h.reaches.extend hbelow
  scopes := h.scopes_inside

theorem opensScope_eq (node : Node) : node.opensScope = node.scope?.isSome := by
  cases node with
  | expr e => cases e <;> rfl
  | function f => rfl
  | module m => rfl

-- The scopes within a node are as many as there are functions and blocks on the way to it.
theorem scopeDepth_inside (h : Stands root outer node) :
    ((outer.within node).inside node).scopeDepth =
      (outer.within node).ancestry.countP Node.opensScope := by
  rw [Context.scopeDepth, h.scopes_inside, List.length_filterMap_eq_countP, Context.ancestry,
    List.countP_reverse]
  exact List.countP_congr fun node _ => by rw [opensScope_eq]

end Stands

-- What a line says is true of the tree: the path leads to the block, or the operands agree.
def Mark.Sound (root : Node) : Mark → Prop
  | entered path block => root.Path path block ∧ block.kind = .block
  | left block => block.kind = .block
  | checked binary type => ∃ id operation left right,
      binary = .expr (.binary id operation left right) ∧ left.type = type ∧ right.type = type

-- A rule that is broken at a node, within these blocks.
def Breaks (root : Node) (blocks : List Node) (error : Error) : Prop :=
  ∃ path e, root.Path path (.expr e) ∧ blocks = (blocksOf path).reverse ∧
    Site.Violates ⟨(path.filterMap Node.scope?).reverse, e⟩ error

-- Steps that write these lines with their calls, and lead from open blocks to open ones.
-- What comes after a step that fails is of no concern.
inductive Narrates (root : Node) : List Node → List Step → List Mark → List Node → Prop where
  | nil (blocks : List Node) : Narrates root blocks [] [] blocks
  | call {blocks blocks' blocks'' : List Node} {steps : List Step} {marks : List Mark} (c : Call)
      (before : Bracketed blocks c.heralds c.openBlocks)
      (after : Bracketed c.openBlocks c.sequels blocks')
      (sound : ∀ mark ∈ c.heralds ++ c.sequels, mark.Sound root)
      (rest : Narrates root blocks' steps marks blocks'') :
      Narrates root blocks
        (c.heralds.map Mark.step ++ .call c :: (c.sequels.map Mark.step ++ steps))
        (c.heralds ++ c.sequels ++ marks) blocks''
  | fail {blocks : List Node} {error : Error} (breaks : Breaks root blocks error)
      (steps : List Step) (marks : List Mark) (blocks' : List Node) :
      Narrates root blocks (.fail error :: steps) marks blocks'

namespace Narrates

variable {root : Node} {blocks blocks' blocks'' : List Node} {steps steps' : List Step}
  {marks marks' : List Mark}

theorem append (h : Narrates root blocks steps marks blocks')
    (h' : Narrates root blocks' steps' marks' blocks'') :
    Narrates root blocks (steps ++ steps') (marks ++ marks') blocks'' := by
  induction h with
  | nil blocks => exact h'
  | call c before after sound rest ih => simpa using Narrates.call c before after sound (ih h')
  | fail breaks steps marks => exact .fail breaks _ _ _

theorem flatMap {α : Type} {as : List α} {steps : α → List Step} {marks : α → List Mark}
    (h : ∀ a ∈ as, Narrates root blocks (steps a) (marks a) blocks) :
    Narrates root blocks (as.flatMap steps) (as.flatMap marks) blocks := by
  induction as with
  | nil => exact .nil blocks
  | cons a rest ih =>
      obtain ⟨ha, hrest⟩ := List.forall_mem_cons.mp h
      exact ha.append (ih hrest)

theorem silent {c : Call} (hc : c.Silent blocks) (h : Narrates root blocks steps marks blocks') :
    Narrates root blocks (.call c :: steps) marks blocks' := by
  have hbefore : Bracketed blocks c.heralds c.openBlocks := by
    rw [hc.heralds, hc.within]
    exact .nil blocks
  have hafter : Bracketed c.openBlocks c.sequels blocks := by
    rw [hc.sequels, hc.within]
    exact .nil blocks
  have hsound : ∀ mark ∈ c.heralds ++ c.sequels, mark.Sound root := by
    simp [hc.heralds, hc.sequels]
  simpa [hc.heralds, hc.sequels] using Narrates.call c hbefore hafter hsound h

theorem then_silent (h : Narrates root blocks steps marks blocks') {c : Call}
    (hc : c.Silent blocks') : Narrates root blocks (steps ++ [.call c]) marks blocks' := by
  simpa using h.append (.silent hc (.nil _))

end Narrates

theorem Stands.breaks {root : Node} {outer : Context} {e : Expr} {error : Error}
    (h : Stands root outer (.expr e)) (hkind : e.kind ≠ .block)
    (herror : Site.error? ⟨outer.scopes, e⟩ = some error) :
    Breaks root (blocksOf outer.path) error := by
  have hscope : Node.scope? (.expr e) = none := by
    cases e with
    | block id scope children => exact absurd rfl hkind
    | _ => rfl
  have hpath : (outer.within (.expr e)).ancestry.reverse = .expr e :: outer.path :=
    List.reverse_reverse _
  refine ⟨_, e, h.reaches, ?_, ?_⟩
  · rw [blocksOf, blocksOf, ← List.filter_reverse, hpath, List.filter_cons_of_neg]
    simp [Node.kind, hkind]
  · rw [← List.filterMap_reverse, hpath, List.filterMap_cons_none hscope, ← h.scopes]
    exact Site.error?_eq_some_iff.mp herror

open Step

namespace Expr

variable {root : Node} {outer : Context}

-- Nothing is written on coming to an expression or on leaving it.
theorem narrates_edges {e : Expr} {marks : List Mark}
    (h : Narrates root (blocksOf outer.path) (e.interior (outer.within (.expr e))) marks
      (blocksOf outer.path)) :
    Narrates root (blocksOf outer.path) (e.steps outer) marks (blocksOf outer.path) := by
  rw [steps_eq]
  refine .silent ⟨rfl, rfl, rfl⟩ ?_
  exact h.then_silent ⟨rfl, rfl, rfl⟩

theorem narrates_use {e : Expr} {v : Variable} (h : Stands root outer (.expr e))
    (hused : e.used? = some v) :
    Narrates root (blocksOf outer.path) (checkUse (outer.within (.expr e)) v e.id) []
      (blocksOf outer.path) := by
  have hkind : e.kind ≠ .block := by
    cases e with
    | block id scope children => cases hused
    | _ => exact Kind.noConfusion
  have hscopes : (outer.within (.expr e)).scopes = outer.scopes := rfl
  rw [checkUse_eq, hscopes, ← Site.error?_of_used hused]
  cases herror : Site.error? ⟨outer.scopes, e⟩ with
  | none => exact .nil _
  | some error => exact .fail (h.breaks hkind herror) _ _ _

theorem narrates_operands {id : NodeId} {operation : Operation} {left right : Expr}
    (h : Stands root outer (.expr (binary id operation left right))) :
    let node := Node.expr (binary id operation left right)
    Narrates root (blocksOf outer.path)
      (Step.checkOperands id left right ++ [.call ⟨.finish, node, outer.within node⟩])
      [.checked node right.type] (blocksOf outer.path) := by
  intro node
  have hsite : Site.error? ⟨outer.scopes, binary id operation left right⟩ =
    operandError? id left right := rfl
  unfold Step.checkOperands
  cases herror : operandError? id left right with
  | none =>
      have hsound : (Mark.checked node right.type).Sound root :=
        ⟨id, operation, left, right, rfl, operandError?_eq_none_iff.mp herror, rfl⟩
      exact .call ⟨.finish, node, outer.within node⟩ (.checked _ _ (.nil _)) (.nil _)
        (List.forall_mem_singleton.mpr hsound) (.nil _)
  | some error => exact .fail (h.breaks Kind.noConfusion (hsite.trans herror)) _ _ _

theorem narrates_part {part : Option Expr} {here : Context}
    (h : ∀ e ∈ part, Narrates root (blocksOf here.path) (e.steps here)
      (e.transcript here.ancestry) (blocksOf here.path)) :
    Narrates root (blocksOf here.path) (partSteps here part)
      (partTranscript here.ancestry part) (blocksOf here.path) := by
  cases part with
  | none => exact .nil _
  | some e => exact h e rfl

theorem narrates_children {es : List Expr} {inside : Context}
    (h : ∀ e ∈ es, Narrates root (blocksOf inside.path) (e.steps inside)
      (e.transcript inside.ancestry) (blocksOf inside.path)) (index count : Nat) :
    Narrates root (blocksOf inside.path) (childSteps inside index count es)
      (childTranscript inside.ancestry es) (blocksOf inside.path) := by
  induction es generalizing index with
  | nil => exact .nil _
  | cons e rest ih =>
      obtain ⟨he, hrest⟩ := List.forall_mem_cons.mp h
      have hdiscard : Narrates root (blocksOf inside.path)
          (if discardsResult (some .block) index count then
            [.call ⟨.discard, .expr e, inside⟩] else []) [] (blocksOf inside.path) := by
        split
        · exact .silent ⟨rfl, rfl, rfl⟩ (.nil _)
        · exact .nil _
      have hfirst := he.append hdiscard
      rw [List.append_nil] at hfirst
      exact hfirst.append (ih hrest (index + 1))

theorem steps_narrate (e : Expr) (h : Stands root outer (.expr e)) :
    Narrates root (blocksOf outer.path) (e.steps outer) (e.transcript outer.ancestry)
      (blocksOf outer.path) := by
  induction e generalizing outer with
  | int32 id value => exact narrates_edges (.silent ⟨rfl, rfl, rfl⟩ (.nil _))
  | float id value => exact narrates_edges (.silent ⟨rfl, rfl, rfl⟩ (.nil _))
  | ref id target => exact narrates_edges ((narrates_use h rfl).then_silent ⟨rfl, rfl, rfl⟩)
  | binary id operation left right hl hr =>
      have hleft := hl (h.child (by simp [Node.children, children]))
      have hright := hr (h.child (by simp [Node.children, children]))
      simp only [transcript, ← Context.ancestry_within, List.append_assoc]
      refine narrates_edges (.silent ⟨rfl, rfl, rfl⟩ ?_)
      exact hleft.append (hright.append (narrates_operands h))
  | assign id target value ih =>
      have hvalue := ih (h.child (by simp [Node.children, children]))
      simp only [transcript, ← Context.ancestry_within]
      refine narrates_edges ((narrates_use h rfl).append (.silent ⟨rfl, rfl, rfl⟩ ?_))
      exact hvalue.then_silent ⟨rfl, rfl, rfl⟩
  | ret id value ih =>
      have hvalue := ih (h.child (by simp [Node.children, children]))
      simp only [transcript, ← Context.ancestry_within]
      exact narrates_edges (.silent ⟨rfl, rfl, rfl⟩ (hvalue.then_silent ⟨rfl, rfl, rfl⟩))
  | conditional id condition truePart falsePart hc ht hf =>
      have hcondition := hc (h.child (by simp [Node.children, children]))
      have htrue := narrates_part fun e he =>
        ht e he (h.child (by simp [Node.children, children, Option.mem_def.mp he]))
      have hfalse := narrates_part fun e he =>
        hf e he (h.child (by simp [Node.children, children, Option.mem_def.mp he]))
      simp only [transcript, ← Context.ancestry_within, List.append_assoc]
      refine narrates_edges (.silent ⟨rfl, rfl, rfl⟩ ?_)
      exact hcondition.append (htrue.append (hfalse.then_silent ⟨rfl, rfl, rfl⟩))
  | block id scope children ih =>
      let node := Node.expr (block id scope children)
      let inside := (outer.within node).inside node
      have hentered : scopeEntered id inside =
          (Mark.entered (outer.within node).ancestry node).step := by
        rw [scopeEntered, h.scopeDepth_inside]
        rfl
      have hinterior : interior (outer.within node) (block id scope children) =
          (Mark.entered (outer.within node).ancestry node).step :: .call ⟨.start, node, inside⟩ ::
            (childSteps inside 0 children.length children ++
              [.call ⟨.finish, node, inside⟩, (Mark.left node).step]) :=
        congrArg (· :: _) hentered
      have hchildren := narrates_children (fun e he =>
        ih e he (h.child (List.mem_map_of_mem he))) 0 children.length
      have hleft : Narrates root (blocksOf inside.path)
          [.call ⟨.finish, node, inside⟩, (Mark.left node).step] [.left node]
          (blocksOf outer.path) :=
        .call ⟨.finish, node, inside⟩ (.nil _) (.left node (.nil _))
          (List.forall_mem_singleton.mpr rfl) (.nil _)
      simp only [transcript, ← Context.ancestry_within]
      refine narrates_edges ?_
      rw [hinterior]
      exact .call ⟨.start, node, inside⟩ (.entered _ node (.nil _)) (.nil _)
        (List.forall_mem_singleton.mpr ⟨h.reaches, rfl⟩) (hchildren.append hleft)

end Expr

theorem Function.steps_narrate {root : Node} {outer : Context} (f : Function)
    (h : Stands root outer (.function f)) :
    Narrates root (blocksOf outer.path) (f.steps outer) (f.transcript outer.ancestry)
      (blocksOf outer.path) := by
  let node := Node.function f
  let inside := (outer.within node).inside node
  have hends : Narrates root (blocksOf outer.path)
      [.call ⟨.finish, node, inside⟩, .call ⟨.leave, node, outer.within node⟩] []
      (blocksOf outer.path) :=
    .silent ⟨rfl, rfl, rfl⟩ (.silent ⟨rfl, rfl, rfl⟩ (.nil _))
  have hbody := f.body.steps_narrate (h.child (by simp [Node.children]))
  have hall := hbody.append hends
  rw [List.append_nil] at hall
  simp only [transcript, ← Context.ancestry_within]
  exact .silent ⟨rfl, rfl, rfl⟩ (.silent ⟨rfl, rfl, rfl⟩ hall)

theorem Node.steps_narrate (root : Node) : Narrates root [] root.steps (root.transcript []) [] := by
  have hroot := Stands.top root
  cases root with
  | expr e => exact e.steps_narrate hroot
  | function f => exact f.steps_narrate hroot
  | module m =>
      have hfunctions : Narrates (module m) [] (m.functions.flatMap _) (m.functions.flatMap _) [] :=
        .flatMap fun f hf => f.steps_narrate (hroot.child (List.mem_map_of_mem hf))
      let here := Context.outside.within (module m)
      have hends : Narrates (module m) []
          [.call ⟨.finish, module m, here⟩, .call ⟨.leave, module m, here⟩] [] [] :=
        .silent ⟨rfl, rfl, rfl⟩ (.silent ⟨rfl, rfl, rfl⟩ (.nil _))
      have hall := hfunctions.append hends
      rw [List.append_nil] at hall
      exact .silent ⟨rfl, rfl, rfl⟩ (.silent ⟨rfl, rfl, rfl⟩ hall)

theorem partTranscript_eq (path : List Node) (part : Option Expr) :
    partTranscript path part = part.toList.flatMap (Expr.transcript path) := by
  cases part <;> simp [partTranscript]

theorem childTranscript_eq (path : List Node) (es : List Expr) :
    childTranscript path es = es.flatMap (Expr.transcript path) := by
  induction es with
  | nil => rfl
  | cons e rest ih => simp [childTranscript, ih]

namespace Node

-- What is written about a node itself before what is below it, and after.

def opening (path : List Node) (node : Node) : List Mark :=
  if node.kind = .block then [.entered path node] else []

def closing (node : Node) : List Mark :=
  match node with
  | expr (.binary _ _ _ right) => [.checked node right.type]
  | expr (.block ..) => [.left node]
  | _ => []

theorem transcript_eq (above : List Node) (node : Node) :
    node.transcript above = node.opening (above ++ [node]) ++
      node.children.flatMap (transcript (above ++ [node])) ++ node.closing := by
  cases node with
  | expr e =>
      cases e <;> simp [transcript, Expr.transcript, partTranscript_eq, childTranscript_eq, opening,
        closing, children, Expr.children, kind, Expr.kind, List.flatMap_map]
  | function f => simp [transcript, Function.transcript, opening, closing, children, kind]
  | module m => simp [transcript, opening, closing, children, kind, List.flatMap_map]

variable (above : List Node) (node : Node)

theorem transcript_entered :
    (node.transcript above).filterMap Mark.entered? = blocksOf node.preorder := by
  induction node using induct_children generalizing above with
  | step node ih =>
      have hopening : (node.opening (above ++ [node])).filterMap Mark.entered? =
          blocksOf [node] := by
        by_cases hkind : node.kind = .block <;> simp [opening, blocksOf, hkind, Mark.entered?]
      have hclosing : node.closing.filterMap Mark.entered? = [] := by
        unfold closing
        split <;> rfl
      have hchildren : (node.children.flatMap (transcript (above ++ [node]))).filterMap
          Mark.entered? = node.children.flatMap fun child => blocksOf child.preorder := by
        rw [List.filterMap_flatMap]
        exact List.flatMap_congr fun child hchild => ih child hchild _
      have hnodes : blocksOf (node :: node.children.flatMap preorder) =
          blocksOf [node] ++ node.children.flatMap fun child => blocksOf child.preorder := by
        rw [blocksOf, ← List.singleton_append, List.filter_append, List.filter_flatMap]
        rfl
      rw [transcript_eq, preorder_eq, List.filterMap_append, List.filterMap_append, hopening,
        hclosing, hchildren, List.append_nil, hnodes]

-- What is written after what is below a node comes in post-order.
theorem transcript_closing {pick : Mark → Option Node} {picked : Node → Bool}
    (hopening : ∀ path block, pick (.entered path block) = none)
    (hclosing : ∀ node : Node, node.closing.filterMap pick = [node].filter picked) :
    (node.transcript above).filterMap pick = node.postorder.filter picked := by
  induction node using induct_children generalizing above with
  | step node ih =>
      have hopening : (node.opening (above ++ [node])).filterMap pick = [] := by
        unfold opening
        split <;> simp [hopening]
      have hchildren : (node.children.flatMap (transcript (above ++ [node]))).filterMap pick =
          node.children.flatMap fun child => child.postorder.filter picked := by
        rw [List.filterMap_flatMap]
        exact List.flatMap_congr fun child hchild => ih child hchild _
      rw [transcript_eq, postorder_eq, List.filterMap_append, List.filterMap_append, hopening,
        hclosing, hchildren, List.nil_append]
      simp only [List.filter_append, List.filter_flatMap]

theorem transcript_left :
    (node.transcript above).filterMap Mark.left? = blocksOf node.postorder := by
  refine transcript_closing above node (fun _ _ => rfl) fun node => ?_
  rcases node with e | f | m
  · cases e <;> rfl
  · rfl
  · rfl

theorem transcript_checked :
    (node.transcript above).filterMap Mark.checked? =
      node.postorder.filter (·.kind = .binary) := by
  refine transcript_closing above node (fun _ _ => rfl) fun node => ?_
  rcases node with e | f | m
  · cases e <;> rfl
  · rfl
  · rfl

end Node

end TreeLang
