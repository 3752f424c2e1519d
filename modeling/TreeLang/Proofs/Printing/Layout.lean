import TreeLang.Proofs.Printing.Plain
import TreeLang.Proofs.Static.Enclosing
import TreeLang.Proofs.Tree.Rose
import TreeLang.Proofs.Validity
import TreeLang.Proofs.Walk.Interior

namespace TreeLang

open TreeLang.Action

namespace Step

-- A node that is come to, with the number of nodes above it.
def entry? : Step → Option (Nat × Node)
  | call ⟨.enter, node, context⟩ => some (context.depth - 1, node)
  | _ => none

def entries (steps : List Step) : List (Nat × Node) :=
  steps.filterMap entry?

@[simp] theorem entries_nil : entries [] = [] := rfl

@[simp] theorem entries_append (xs ys : List Step) :
    entries (xs ++ ys) = entries xs ++ entries ys :=
  List.filterMap_append

@[simp] theorem entries_enter (node : Node) (outer : Context) (rest : List Step) :
    entries (call ⟨.enter, node, outer.within node⟩ :: rest) =
      (outer.depth, node) :: entries rest := rfl

@[simp] theorem entries_call {moment : Moment} (h : moment ≠ .enter) (node : Node)
    (context : Context) (rest : List Step) :
    entries (call ⟨moment, node, context⟩ :: rest) = entries rest := by
  cases moment with
  | enter => exact absurd rfl h
  | _ => rfl

@[simp] theorem entries_note (entry : Entry) (rest : List Step) :
    entries (note entry :: rest) = entries rest := rfl

theorem entries_checkUse (here : Context) (v : Variable) (id : NodeId) :
    entries (checkUse here v id) = [] := by
  unfold checkUse
  split <;> rfl

theorem entries_checkOperands (id : NodeId) (left right : Expr) :
    entries (checkOperands id left right) = [] := by
  unfold checkOperands
  split <;> rfl

end Step

namespace Expr

open Step

variable {depth : Nat}

theorem entries_partSteps {part : Option Expr} {here : Context}
    (h : ∀ e ∈ part, entries (e.steps here) = e.rose.outline depth) :
    entries (partSteps here part) = part.toList.flatMap (·.rose.outline depth) := by
  cases part with
  | none => rfl
  | some e => simpa [partSteps] using h e rfl

theorem entries_childSteps {es : List Expr} {inside : Context}
    (h : ∀ e ∈ es, entries (e.steps inside) = e.rose.outline depth) (index count : Nat) :
    entries (childSteps inside index count es) = es.flatMap (·.rose.outline depth) := by
  induction es generalizing index with
  | nil => rfl
  | cons e rest ih =>
      obtain ⟨he, hrest⟩ := List.forall_mem_cons.mp h
      have hdiscard : entries (if discardsResult (some .block) index count then
          [.call ⟨.discard, .expr e, inside⟩] else []) = [] := by
        split <;> rfl
      rw [childSteps, entries_append, entries_append, hdiscard, he, ih hrest, List.append_nil,
        List.flatMap_cons]

-- Between coming to an expression and leaving it, the walk comes to what is below it.
theorem entries_interior {e : Expr} {here : Context}
    (h : ∀ child ∈ e.children,
      entries (child.steps (here.inside (.expr e))) = child.rose.outline depth) :
    entries (e.interior here) = e.children.flatMap (·.rose.outline depth) := by
  cases e with
  | int32 id value => rfl
  | float id value => rfl
  | ref id target => simp [interior, entries_checkUse, children]
  | binary id operation left right =>
      have hleft : entries (left.steps here) = left.rose.outline depth :=
        h left (by simp [children])
      have hright : entries (right.steps here) = right.rose.outline depth :=
        h right (by simp [children])
      simp [interior, entries_checkOperands, children, hleft, hright]
  | assign id target value =>
      have hvalue : entries (value.steps here) = value.rose.outline depth :=
        h value (by simp [children])
      simp [interior, entries_checkUse, children, hvalue]
  | ret id value =>
      have hvalue : entries (value.steps here) = value.rose.outline depth :=
        h value (by simp [children])
      simp [interior, children, hvalue]
  | conditional id condition truePart falsePart =>
      have hcondition : entries (condition.steps here) = condition.rose.outline depth :=
        h condition (by simp [children])
      have htrue : entries (partSteps here truePart) = _ :=
        entries_partSteps fun e he => h e (by simp [children, Option.mem_def.mp he])
      have hfalse : entries (partSteps here falsePart) = _ :=
        entries_partSteps fun e he => h e (by simp [children, Option.mem_def.mp he])
      simp [interior, children, hcondition, htrue, hfalse]
  | block id scope children =>
      have hchildren : entries (childSteps (here.opening scope) 0 children.length children) = _ :=
        entries_childSteps h 0 children.length
      simp [interior, scopeEntered, scopeLeft, hchildren, Expr.children]

-- A walk comes to the nodes in pre-order, as deep as they are below its root.
theorem entries_steps (e : Expr) (outer : Context) :
    entries (e.steps outer) = e.rose.outline outer.depth := by
  induction e using induct_children generalizing outer with
  | step e ih =>
      have hbelow : entries (e.interior (outer.within (.expr e))) = _ :=
        entries_interior fun child hchild => ih child hchild _
      rw [steps_eq, entries_enter, entries_append, entries_call (by decide), entries_nil,
        List.append_nil, hbelow, rose_eq, Rose.outline, Rose.outlineAll_eq, List.flatMap_map]
      rfl

end Expr

open Step

theorem Function.entries_steps (f : Function) (outer : Context) :
    entries (f.steps outer) = f.rose.outline outer.depth := by
  let inside := (outer.within (.function f)).opening f.parameters
  have hbody : entries (f.body.steps inside) = f.body.rose.outline (outer.depth + 1) :=
    f.body.entries_steps inside
  simp [steps, inside, hbody, rose, Rose.outline, Rose.outlineAll]

theorem Node.entries_steps (root : Node) : entries root.steps = root.rose.outline 0 := by
  cases root with
  | expr e => exact e.entries_steps .outside
  | function f => exact f.entries_steps .outside
  | module m =>
      let here := Context.outside.within (.module m)
      have hfunctions : entries (m.functions.flatMap (·.steps here)) =
          m.functions.flatMap (·.rose.outline 1) := by
        rw [entries, List.filterMap_flatMap]
        exact List.flatMap_congr fun f _ => f.entries_steps here
      simp [steps, Module.steps, here, hfunctions, rose, Rose.outline, Rose.outlineAll_eq,
        List.flatMap_map]
      rfl

-- A tab for each node above, the label, and the end of the line.
def line (depth : Nat) (label : String) : List Char :=
  List.replicate depth '\t' ++ label.toList ++ ['\n']

-- The lines of a tree of labels.
def Rose.layout (t : Rose String) : List Char :=
  (t.outline 0).flatMap fun entry => line entry.1 entry.2

theorem Node.layout_describe (root : Node) :
    (root.rose.map describe).layout =
      (root.rose.outline 0).flatMap fun entry => line entry.1 entry.2.describe := by
  rw [Rose.layout, Rose.outline_map, List.flatMap_map]
  rfl

section Printed

theorem effect_writeAll_line (id : NodeId) (depth : Nat) (label written : String) :
    ∃ text,
      effect (writeAll .text id [indentation depth, label, "\n"]) written = (.ok (), text) ∧
        text.toList = written.toList ++ line (depth - 1) label := by
  refine ⟨written ++ indentation depth ++ label ++ "\n", rfl, ?_⟩
  simp [line, indentation]

theorem effect_printer_other {ω : Type} {sink : Sink ω} {c : Call} (hmoment : c.moment ≠ .enter)
    (s : ω) : effect ((printer sink).call c) s = (.ok (), s) := by
  rcases c with ⟨moment, node, context⟩
  cases moment with
  | enter => exact absurd rfl hmoment
  | _ => rfl

-- A walk that meets no fault writes one line for each node it comes to.
theorem effect_traverse_printer {steps : List Step} (hfault : fault? steps = none)
    (written : String) :
    ∃ text, effect ((printer .text).traverse steps) written = (.ok (), text) ∧
      text.toList = written.toList ++
        (entries steps).flatMap fun entry => line entry.1 entry.2.describe := by
  induction steps generalizing written with
  | nil => exact ⟨written, rfl, by simp⟩
  | cons step rest ih =>
      cases step with
      | call c =>
          rcases c with ⟨moment, node, context⟩
          by_cases hmoment : moment = .enter
          · subst hmoment
            obtain ⟨more, hline, hmore⟩ :=
              effect_writeAll_line node.id context.depth node.describe written
            obtain ⟨text, hrest, htext⟩ := ih hfault more
            have hcall : effect ((printer .text).call ⟨.enter, node, context⟩) written =
                (.ok (), more) := hline
            refine ⟨text, (Visitor.effect_traverse_call_ok hcall rest).trans hrest, ?_⟩
            rw [htext, hmore, List.append_assoc]
            rfl
          · have hcall : effect ((printer .text).call ⟨moment, node, context⟩) written =
                (.ok (), written) := effect_printer_other hmoment written
            rw [Visitor.effect_traverse_call_ok hcall, entries_call hmoment]
            exact ih hfault written
      | note entry => exact ih hfault written
      | fail error => cases hfault

end Printed

theorem fault?_of_prettyPrint {root : Node} {text : String}
    (h : (prettyPrint root).run.value = .ok text) : root.fault? = none := by
  cases hfault : root.fault? with
  | none => rfl
  | some error =>
      rw [prettyPrint_error_iff.mpr hfault] at h
      cases h

-- Text that is printed is the layout of the tree of the labels.
theorem toList_of_prettyPrint {root : Node} {text : String}
    (h : (prettyPrint root).run.value = .ok text) :
    text.toList = (root.rose.map Node.describe).layout := by
  obtain ⟨printed, hrun, hprinted⟩ := effect_traverse_printer (fault?_of_prettyPrint h) ""
  have hstart : effect (printer .text).setUp "" = (.ok (), "") := rfl
  have hwalk : effect (walk (printer .text) root) "" = (.ok (), printed) := by
    rw [effect_walk, effect_bind_ok hstart, hrun]
    rfl
  rw [prettyPrint, value_startingFrom, effect_bind_ok hwalk, effect_get] at h
  obtain rfl := Except.ok.inj h
  rw [hprinted, root.entries_steps, root.layout_describe]
  rfl

section Decoding

variable {depth depth' : Nat} {label label' : String}

theorem newline_notMem_indented (h : Plain label) :
    '\n' ∉ List.replicate depth '\t' ++ label.toList := by
  intro hmem
  rcases List.mem_append.mp hmem with htabs | hlabel
  · exact absurd (List.eq_of_mem_replicate htabs) (by decide)
  · exact (h _ hlabel).1 rfl

theorem count_tab_indented (depth : Nat) (h : Plain label) :
    (List.replicate depth '\t' ++ label.toList).count '\t' = depth := by
  have hlabel : label.toList.count '\t' = 0 :=
    List.count_eq_zero_of_not_mem fun hmem => (h _ hmem).2 rfl
  rw [List.count_append, List.count_replicate_self, hlabel, Nat.add_zero]

-- What comes before the first newline can be read back, and so can what comes after it.
theorem newline_split_inj {front front' rest rest' : List Char} (hfront : '\n' ∉ front)
    (hfront' : '\n' ∉ front') (h : front ++ '\n' :: rest = front' ++ '\n' :: rest') :
    front = front' ∧ rest = rest' := by
  rcases splits_cases h with hmem | hmem | ⟨rfl, -, rfl⟩
  · exact absurd hmem hfront'
  · exact absurd hmem hfront
  · exact ⟨rfl, rfl⟩

theorem line_append_inj {rest rest' : List Char} (hlabel : Plain label) (hlabel' : Plain label')
    (h : line depth label ++ rest = line depth' label' ++ rest') :
    depth = depth' ∧ label = label' ∧ rest = rest' := by
  simp only [line, List.append_assoc, List.singleton_append] at h
  rw [← List.append_assoc, ← List.append_assoc] at h
  obtain ⟨hindented, hrest⟩ := newline_split_inj (newline_notMem_indented hlabel)
    (newline_notMem_indented hlabel') h
  have hdepth : depth = depth' := by
    rw [← count_tab_indented depth hlabel, hindented, count_tab_indented depth' hlabel']
  subst hdepth
  exact ⟨rfl, String.toList_inj.mp (List.append_cancel_left hindented), hrest⟩

theorem count_newline_line (h : Plain label) : (line depth label).count '\n' = 1 := by
  rw [line, List.count_append, List.count_eq_zero_of_not_mem (newline_notMem_indented h)]
  rfl

theorem flatMap_line_inj {entries entries' : List (Nat × String)}
    (hplain : ∀ entry ∈ entries, Plain entry.2) (hplain' : ∀ entry ∈ entries', Plain entry.2)
    (h : (entries.flatMap fun entry => line entry.1 entry.2) =
      entries'.flatMap fun entry => line entry.1 entry.2) : entries = entries' := by
  induction entries generalizing entries' with
  | nil =>
      cases entries' with
      | nil => rfl
      | cons entry' rest' => simp [line] at h
  | cons entry rest ih =>
      cases entries' with
      | nil => simp [line] at h
      | cons entry' rest' =>
          obtain ⟨hentry, hrest⟩ := List.forall_mem_cons.mp hplain
          obtain ⟨hentry', hrest'⟩ := List.forall_mem_cons.mp hplain'
          rw [List.flatMap_cons, List.flatMap_cons] at h
          obtain ⟨hdepth, hlabel, hmore⟩ := line_append_inj hentry hentry' h
          rw [ih hrest hrest' hmore, Prod.ext hdepth hlabel]

theorem count_newline_flatMap_line {entries : List (Nat × String)}
    (hplain : ∀ entry ∈ entries, Plain entry.2) :
    (entries.flatMap fun entry => line entry.1 entry.2).count '\n' = entries.length := by
  induction entries with
  | nil => rfl
  | cons entry rest ih =>
      obtain ⟨hentry, hrest⟩ := List.forall_mem_cons.mp hplain
      rw [List.flatMap_cons, List.count_append, count_newline_line hentry, ih hrest,
        List.length_cons, Nat.add_comm]

theorem Rose.layout_inj {t t' : Rose String} (hplain : ∀ entry ∈ t.outline 0, Plain entry.2)
    (hplain' : ∀ entry ∈ t'.outline 0, Plain entry.2) (h : t.layout = t'.layout) : t = t' :=
  outline_injective 0 (flatMap_line_inj hplain hplain' h)

end Decoding

namespace Node

variable {root : Node}

theorem Regular.of_scope? {node : Node} {scope : Scope} (h : node.Regular)
    (hscope : node.scope? = some scope) : scope.Regular := by
  cases node with
  | expr e =>
      cases e with
      | block id opened children =>
          obtain rfl := Option.some.inj hscope
          exact h.2
      | _ => cases hscope
  | function f =>
      obtain rfl := Option.some.inj hscope
      exact h.2
  | module m => cases hscope

theorem Proper.of_mem {top : Node} (h : top.Proper) (hroot : root ∈ top.preorder) :
    root.Proper := by
  induction top using induct_children with
  | step top ih =>
      rw [preorder_eq, List.mem_cons, List.mem_flatMap] at hroot
      rcases hroot with rfl | ⟨child, hchild, hroot⟩
      · exact h
      · exact ih child hchild ((proper_iff.mp h).2 child hchild) hroot

-- A name that is found in a scope around an expression has been checked.
theorem Proper.identifier_of_find? (h : root.Proper) {site : Site} (hsite : root.Contains site)
    {scope : Scope} (hscope : scope ∈ site.scopes) {name : String} {found : Variable}
    (hfound : scope.find? name = some found) : Identifier name := by
  obtain ⟨node, hnode, hopened, -⟩ := hsite.enclosed scope hscope
  have hname : found.name = name := by simpa using List.find?_some hfound
  rw [← hname]
  exact ((h node hnode).of_scope? hopened).named found (List.mem_of_find?_eq_some hfound)

-- What is read or written where the walk meets no fault is declared above.
theorem Proper.identifier_of_used (h : root.Proper) (hfault : root.fault? = none) {e : Expr}
    {v : Variable} (he : .expr e ∈ root.preorder) (hused : e.used? = some v) :
    Identifier v.name := by
  obtain ⟨scopes, hsite⟩ := contains_of_mem he
  have hdenotes : Denotes scopes v := by
    have hlawful := hsite.lawful hfault
    cases e with
    | ref id target =>
        obtain rfl := Option.some.inj hused
        exact hlawful
    | assign id target value =>
        obtain rfl := Option.some.inj hused
        exact hlawful
    | _ => cases hused
  obtain ⟨inner, scope, outer, hscopes, -, hfound⟩ := hdenotes
  exact h.identifier_of_find? hsite (by simp [hscopes]) hfound

theorem Proper.plain (h : root.Proper) (hfault : root.fault? = none) :
    ∀ node ∈ root.preorder, Plain node.describe := by
  intro node hnode
  refine plain_describe (h node hnode) ?_
  rintro e v rfl hused
  exact h.identifier_of_used hfault hnode hused

-- A tree that came about in a workshop, or a part of one.
def Built (root : Node) : Prop :=
  ∃ w : Workshop, w.Reachable ∧ ∃ top ∈ w.held, root ∈ top.preorder

theorem Built.proper (h : root.Built) : root.Proper := by
  obtain ⟨w, hreachable, top, htop, hroot⟩ := h
  exact (hreachable.proper.held top htop).of_mem hroot

theorem Proper.plain_entries (h : root.Proper) (hfault : root.fault? = none) :
    ∀ entry ∈ (root.rose.map describe).outline 0, Plain entry.2 := by
  rw [Rose.outline_map]
  refine List.forall_mem_map.mpr fun entry hentry => h.plain hfault entry.2 ?_
  rw [← root.outline_nodes 0]
  exact List.mem_map_of_mem hentry

theorem Proper.count_newline (h : root.Proper) (hfault : root.fault? = none) :
    (root.rose.map describe).layout.count '\n' = root.preorder.length := by
  rw [Rose.layout, count_newline_flatMap_line (h.plain_entries hfault), Rose.outline_map,
    List.length_map, ← root.outline_nodes 0, List.length_map]

end Node

-- The text has one line for each node, in pre-order, with as many tabs as there are nodes
-- above it. No name or literal breaks or indents a line, and so the text shows the shape of
-- the tree and all its labels.
theorem prettyPrint_layout (root : Node) (text : String)
    (h : (prettyPrint root).run.value = .ok text) :
    text.toList = ((root.rose.outline 0).flatMap fun entry =>
      List.replicate entry.1 '\t' ++ entry.2.describe.toList ++ ['\n']) ∧
    (root.rose.outline 0).map Prod.snd = root.preorder ∧
    (∀ entry ∈ root.rose.outline 0, ∃ path, root.Path path entry.2 ∧
      path.length = entry.1 + 1) ∧
    (root.Built →
      (∀ node ∈ root.preorder, Plain node.describe) ∧
      text.toList.count '\n' = root.preorder.length ∧
      ∀ other : Node, other.Built → (prettyPrint other).run.value = .ok text →
        other.rose.map Node.describe = root.rose.map Node.describe) := by
  have hfault := fault?_of_prettyPrint h
  have htext := toList_of_prettyPrint h
  refine ⟨htext.trans root.layout_describe, root.outline_nodes 0, ?_, fun hbuilt => ⟨?_, ?_, ?_⟩⟩
  · intro entry hentry
    obtain ⟨path, hpath, hdepth⟩ := Node.path_of_mem_outline hentry
    exact ⟨path, hpath, by omega⟩
  · exact hbuilt.proper.plain hfault
  · rw [htext]
    exact hbuilt.proper.count_newline hfault
  · intro other hother hprinted
    have hplain := hbuilt.proper.plain_entries hfault
    have hplain' := hother.proper.plain_entries (fault?_of_prettyPrint hprinted)
    exact Rose.layout_inj hplain' hplain ((toList_of_prettyPrint hprinted).symm.trans htext)

-- Two blocks of one workshop that differ in their identities only.
theorem prettyPrint_layout_twins :
    ∃ x : Variable, ∃ root twin : Node, x = ⟨⟨1⟩, "x", .int32⟩ ∧
      root = .expr (.block ⟨2⟩ ⟨[x]⟩ [.ref ⟨1⟩ x]) ∧
      twin = .expr (.block ⟨4⟩ ⟨[x]⟩ [.ref ⟨3⟩ x]) ∧ root.Built ∧ twin.Built ∧
      (prettyPrint root).run.value = .ok "Block:(x:Int32)\n\tVariableRef: x\n" ∧
      (∀ node ∈ root.preorder, Plain node.describe) ∧
      twin.rose.map Node.describe = root.rose.map Node.describe := by
  obtain ⟨x, hx, hdeclare⟩ : ∃ x : Variable, x = ⟨⟨1⟩, "x", .int32⟩ ∧
      BlockBuilder.declare {} x = { scope := { declared := [x] } } := ⟨_, rfl, rfl⟩
  let block (n : UInt32) : Expr := .block ⟨n + 1⟩ ⟨[x]⟩ [.ref ⟨n⟩ x]
  have hmade : ∀ (n : UInt32) (exprs : List Expr),
      Workshop.Reachable { supply := ⟨⟨n⟩, ⟨1⟩⟩, exprs, blockBuilders := [{}] } →
      Workshop.Reachable
        { supply := ⟨⟨n + 1 + 1⟩, ⟨1⟩⟩, exprs := block n :: exprs, blockBuilders := [{}] } := by
    intro n exprs h
    have hkind : (Expr.ref ⟨n⟩ x).kind ≠ .block := Kind.noConfusion
    have hdeclared := h.step (.block (.refl _) (.declare x))
    rw [hdeclare] at hdeclared
    have hfilled := (hdeclared.step (.node hkind rfl (.refl _))).step
      (.block (.refl _) (.add (.refl _)))
    exact hfilled.step (.block (.refl _) (.build rfl))
  have hboth := hmade 3 [block 1] (hmade 1 [] (.step .start .newBlock))
  have hroot : (Node.expr (block 1)).Built :=
    ⟨_, hboth, _, by simp [Workshop.held], Node.self_mem_preorder _⟩
  have htwin : (Node.expr (block 3)).Built :=
    ⟨_, hboth, _, by simp [Workshop.held], Node.self_mem_preorder _⟩
  refine ⟨x, .expr (block 1), .expr (block 3), hx, rfl, rfl, hroot, htwin, ?_⟩
  have htext : (prettyPrint (.expr (block 1))).run.value =
      .ok "Block:(x:Int32)\n\tVariableRef: x\n" := by
    subst hx
    decide +kernel
  have htext' : (prettyPrint (.expr (block 3))).run.value =
      .ok "Block:(x:Int32)\n\tVariableRef: x\n" := by
    subst hx
    decide +kernel
  obtain ⟨-, -, -, hbuilt⟩ := prettyPrint_layout _ _ htext
  obtain ⟨hplain, -, hsame⟩ := hbuilt hroot
  exact ⟨htext, hplain, hsame _ htwin htext'⟩

end TreeLang
