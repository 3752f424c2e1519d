import TreeLang.Draft
import TreeLang.Proofs.Evaluation.Moves
import TreeLang.Proofs.Evaluation.Refinement
import TreeLang.Proofs.Static.Enclosing
import TreeLang.Proofs.Walk.Occurrence

namespace TreeLang

open TreeLang.Action

namespace Machine

variable {c : Call} {m m' : Machine} {target : VariableId}

-- What is stored for a variable changes with its assignments only, and stays stored.

theorem Moves.find?_eq (h : Moves c m m')
    (hnot : ¬ (m.suppressed = false ∧ c.Assigns target)) :
    m'.store.find? target = m.store.find? target := by
  cases h with
  | restacks values branches => rfl
  | skips hrun => rfl
  | resumes => rfl
  | @assigns other hrun hassigns value =>
      have hother : other ≠ target := fun heq => hnot ⟨hrun, heq ▸ hassigns⟩
      rw [Store.find?_insert, if_neg hother]
  | returns hrun hreturns values value => rfl
  | opens f hnode => rfl
  | closes f hnode values => rfl

theorem Moves.find?_ne_none (h : Moves c m m') (hm : m.store.find? target ≠ none) :
    m'.store.find? target ≠ none := by
  cases h with
  | restacks values branches => exact hm
  | skips hrun => exact hm
  | resumes => exact hm
  | @assigns other hrun hassigns value =>
      rw [Store.find?_insert]
      split
      · exact Option.some_ne_none value
      · exact hm
  | returns hrun hreturns values value => exact hm
  | opens f hnode => exact hm
  | closes f hnode values => exact hm

theorem find?_of_call (hassigns : c.Assigns target) (hrun : m.suppressed = false)
    (h : effect (evaluator.call c) m = (.ok (), m')) : m'.store.find? target ≠ none := by
  rcases c with ⟨moment, node, context⟩
  obtain ⟨rfl, id, v, e, rfl, rfl⟩ := hassigns
  change effect (unlessSuppressed (finishAssign v)) m = _ at h
  rw [effect_unlessSuppressed, hrun] at h
  rcases m with ⟨_ | ⟨value, rest⟩, store, branches, skipUntil, returned⟩
  · cases h
  · cases h
    change (store.insert v.id value).find? v.id ≠ none
    rw [Store.find?_insert, if_pos rfl]
    exact Option.some_ne_none value

theorem find?_ne_none_iff_executes {steps : List Step} (hm : m.store.find? target = none)
    (hrun : effect (evaluator.traverse steps) m = (.ok (), m')) :
    m'.store.find? target ≠ none ↔ Executes (Call.Assigns target) steps m := by
  refine brought_about_iff_executes (I := fun m => m.store.find? target ≠ none)
    (fun c _ s t hmoves hnot hs => ?_) (fun c _ s t hmoves => hmoves.find?_ne_none)
    (fun c s t hassigns hrunning => find?_of_call hassigns hrunning) hrun (by simp [hm])
  rwa [hmoves.find?_eq hnot]

theorem find?_of_not_executes {steps : List Step}
    (hrun : effect (evaluator.traverse steps) m = (.ok (), m'))
    (hnot : ¬ Executes (Call.Assigns target) steps m) :
    m'.store.find? target = m.store.find? target :=
  kept_of_not_executes (I := fun s => s.store.find? target = m.store.find? target)
    (fun _ _ _ _ hmoves hnot hs => (hmoves.find?_eq hnot).trans hs) hrun hnot rfl

-- A reading leaves its result on the stack, or fails with it.
def given (m : Machine) : Except Error Value → Except Error Unit × Machine
  | .ok value => (.ok (), { m with values := value :: m.values })
  | .error error => (.error error, m)

theorem effect_visit_ref_running (hrun : m.suppressed = false) (id : NodeId) (v : Variable)
    (here : Context) :
    effect (evaluator.call ⟨.visit, .expr (.ref id v), here⟩) m =
      m.given ((m.store.find? v.id).elim (v.type.zero id) .ok) := by
  rcases m with ⟨values, store, branches, skipUntil, returned⟩
  obtain ⟨rfl, rfl⟩ : skipUntil = none ∧ returned = none := suppressed_eq_false_iff.mp hrun
  rw [effect_visit_ref]
  cases store.find? v.id with
  | some value => rfl
  | none =>
      rw [Option.elim_none]
      cases v.type.zero id with
      | ok value => rfl
      | error error => rfl

end Machine

-- The scope a node opens has a variable of this identity.
def Node.Declares (node : Node) (target : VariableId) : Prop :=
  ∃ scope, node.scope? = some scope ∧ ∃ v ∈ scope.declared, v.id = target

theorem Denotes.declared {scopes : List Scope} {v : Variable} (h : Denotes scopes v) :
    ∃ scope ∈ scopes, v ∈ scope.declared := by
  obtain ⟨inner, scope, outer, rfl, -, hfind⟩ := h
  exact ⟨scope, by simp, List.mem_of_find?_eq_some hfind⟩

section Entry

variable {root : Node} {id : NodeId} {scope : Scope} {children : List Expr}
  {before after : List Step} {here : Context} {target : VariableId}

-- An assignment is below a node that declares its variable.
theorem below_declaring (hfault : root.fault? = none) {assignId : NodeId} {v : Variable}
    {value : Expr} (hmem : .expr (.assign assignId v value) ∈ root.preorder) :
    ∃ node ∈ root.preorder, node.Declares v.id ∧
      .expr (.assign assignId v value) ∈ node.children.flatMap Node.preorder := by
  obtain ⟨scopes, hcontains⟩ := Node.contains_of_mem hmem
  obtain ⟨declaring, hdeclaring, hv⟩ := Denotes.declared (hcontains.lawful hfault)
  obtain ⟨node, hnode, hscope, hbelow⟩ := hcontains.enclosed declaring hdeclaring
  exact ⟨node, hnode, ⟨declaring, hscope, v, hv, rfl⟩, hbelow⟩

-- If a block is alone in declaring a variable, all assignments to it are within the
-- block, and so come after its start.
theorem not_assigns_before (hdistinct : root.preorder.Nodup) (hfault : root.fault? = none)
    (hsplit : root.steps =
      before ++ .call ⟨.start, .expr (.block id scope children), here⟩ :: after)
    (honly : ∀ node ∈ root.preorder, node.Declares target →
      node = .expr (.block id scope children))
    {c : Call} (hc : .call c ∈ before) : ¬ c.Assigns target := by
  rcases c with ⟨moment, node, context⟩
  rintro ⟨rfl, assignId, v, value, rfl, rfl⟩
  have htour : root.tour = before.filterMap Step.stop? ++
      (.start .block, .expr (.block id scope children)) :: after.filterMap Step.stop? := by
    rw [← root.steps_tour, hsplit, List.filterMap_append]
    rfl
  have hstop : (.finish .assign, .expr (.assign assignId v value)) ∈
      before.filterMap Step.stop? := List.mem_filterMap.mpr ⟨_, hc, rfl⟩
  have hmem : .expr (.assign assignId v value) ∈ root.preorder := by
    refine root.postorder_perm.subset ((root.surveyed.finished .assign).subset ?_)
    rw [mem_stopsAt, htour]
    exact List.mem_append_left _ hstop
  obtain ⟨node, hnode, hdeclares, hbelow⟩ := below_declaring hfault hmem
  obtain rfl := honly node hnode hdeclares
  have hwithin : .assign assignId v value ∈ children.flatMap Expr.preorder := by
    simpa [Node.children, Expr.children, Node.preorder, List.flatMap_map] using hbelow
  refine notMem_before_block hdistinct hwithin ?_ htour hstop
  simp [Expr.tour]

end Entry

-- What a variable of a block has in it when it is first read there is what the run so
-- far has left: the value of an assignment, wherever in the tree, or zero if none was
-- executed. None was if no other node declares the variable.
theorem block_first_read {root : Node} (hwf : root.WellFormed)
    (hchecked : (typeCheck root).run.value = .ok ()) {id readId : NodeId} {scope : Scope}
    {children : List Expr} {v : Variable} {before inside after : List Step}
    {here there : Context}
    (hsplit : root.steps =
      before ++ .call ⟨.start, .expr (.block id scope children), here⟩ ::
        (inside ++ .call ⟨.visit, .expr (.ref readId v), there⟩ :: after))
    {m m' : Machine} (hbefore : effect (evaluator.traverse before) {} = (.ok (), m))
    (hinside : effect (evaluator.traverse
      (.call ⟨.start, .expr (.block id scope children), here⟩ :: inside)) m = (.ok (), m'))
    (hrun : m'.suppressed = false) (hfirst : ¬ Executes (Call.Assigns v.id) inside m) :
    (¬ Executes (Call.Assigns v.id) before {} →
      effect (evaluator.call ⟨.visit, .expr (.ref readId v), there⟩) m' =
        m'.given (v.type.zero readId)) ∧
    (Executes (Call.Assigns v.id) before {} → ∃ value, m.store.find? v.id = some value ∧
      effect (evaluator.call ⟨.visit, .expr (.ref readId v), there⟩) m' = m'.given (.ok value)) ∧
    ((∀ node ∈ root.preorder, node.Declares v.id → node = .expr (.block id scope children)) →
      ¬ Executes (Call.Assigns v.id) before {}) := by
  have hthrough : effect (evaluator.traverse inside) m = (.ok (), m') := hinside
  have hkept := Machine.find?_of_not_executes hthrough hfirst
  have hread := Machine.effect_visit_ref_running hrun readId v there
  have hstored : m.store.find? v.id ≠ none ↔ Executes (Call.Assigns v.id) before {} :=
    Machine.find?_ne_none_iff_executes rfl hbefore
  rw [hkept] at hread
  refine ⟨fun hnot => ?_, fun hexecutes => ?_, fun honly => ?_⟩
  · rw [hread, not_ne_iff.mp (mt hstored.mp hnot)]
    rfl
  · obtain ⟨value, hvalue⟩ := Option.ne_none_iff_exists'.mp (hstored.mpr hexecutes)
    refine ⟨value, hvalue, ?_⟩
    rw [hread, hvalue]
    rfl
  · rintro ⟨earlier, c, later, -, rfl, -, -, hassigns⟩
    rw [value_typeCheck, verdict_eq_ok_iff] at hchecked
    exact not_assigns_before (.of_map _ hwf.distinct) hchecked hsplit honly (by simp) hassigns

-- A block that alone declares `x` reads zero before it assigns to it, though the block
-- around it has assigned to a variable of its own.
theorem block_first_read_alone :
    let x : Variable := ⟨⟨1⟩, "x", .int32⟩
    let y : Variable := ⟨⟨2⟩, "y", .int32⟩
    let read : Expr := .ref ⟨3⟩ x
    let inner : Expr := .block ⟨6⟩ ⟨[x]⟩ [read, .assign ⟨5⟩ x (.int32 ⟨4⟩ 7)]
    let root : Node := .expr (.block ⟨7⟩ ⟨[y]⟩ [.assign ⟨2⟩ y (.int32 ⟨1⟩ 5), inner])
    let there : Context := ⟨[.expr read, .expr inner, root], [⟨[x]⟩, ⟨[y]⟩]⟩
    let left : Machine := { store := ⟨[(y.id, .int32 5)]⟩ }
    root.WellFormed ∧ (typeCheck root).run.value = .ok () ∧
      (∀ node ∈ root.preorder, node.Declares x.id → node = .expr inner) ∧
      (root.steps.drop 15).head? = some (.call ⟨.visit, .expr read, there⟩) ∧
      effect (evaluator.traverse (root.steps.take 15)) {} = (.ok (), left) ∧
      effect (evaluator.call ⟨.visit, .expr read, there⟩) left = left.given (.ok (.int32 0)) := by
  intro x y read inner root there left
  have hwf : root.WellFormed := by
    refine ⟨by decide, ?_⟩
    simp [root, inner, read, Node.preorder, Expr.preorder, Expr.preorderAll]
  have hchecked : (typeCheck root).run.value = .ok () := by decide +kernel
  have honly : ∀ node ∈ root.preorder, node.Declares x.id → node = .expr inner := by
    simp [root, inner, read, Node.preorder, Expr.preorder, Expr.preorderAll, Node.Declares,
      Node.scope?, x, y]
  have hreached : effect (evaluator.traverse (root.steps.take 15)) {} = (.ok (), left) := by
    decide +kernel
  have hbefore : effect (evaluator.traverse (root.steps.take 13)) {} = (.ok (), left) := by
    decide +kernel
  let here : Context := ⟨[.expr inner, root], [⟨[x]⟩, ⟨[y]⟩]⟩
  let come : Step := .call ⟨.enter, .expr read, there⟩
  have hsplit : root.steps = root.steps.take 13 ++ .call ⟨.start, .expr inner, here⟩ ::
      ([come] ++ .call ⟨.visit, .expr read, there⟩ :: root.steps.drop 16) :=
    (List.take_append_drop 13 root.steps).symm
  have hinside : effect (evaluator.traverse [.call ⟨.start, .expr inner, here⟩, come]) left =
      (.ok (), left) := rfl
  have hfirst : ¬ Executes (Call.Assigns x.id) [come] left := by
    have hcome : effect (evaluator.traverse [come]) left = (.ok (), left) := rfl
    rw [← Machine.find?_ne_none_iff_executes rfl hcome]
    decide
  obtain ⟨hzero, -, hnone⟩ := block_first_read hwf hchecked hsplit hbefore hinside rfl hfirst
  exact ⟨hwf, hchecked, honly, rfl, hreached, hzero (hnone honly)⟩

-- Two blocks declare `x` and the builders accept them. The first one assigns 5 to `x`,
-- with which the second one starts, though alone it starts with zero.
theorem block_first_read_leftover :
    let x : Variable := ⟨⟨1⟩, "x", .int32⟩
    let first : Expr := .block ⟨3⟩ ⟨[x]⟩ [.assign ⟨2⟩ x (.int32 ⟨1⟩ 5)]
    let second : Expr := .block ⟨5⟩ ⟨[x]⟩ [.ref ⟨4⟩ x]
    let root : Expr := .block ⟨6⟩ ⟨[]⟩ [first, second]
    let draft : ExprDraft Variable :=
      .block [] [.block [x] [.assign x (.int32 5)], .block [x] [.ref x]]
    (effect (draft.construct id) {}).1 = .ok root ∧
      (typeCheck (.expr root)).run.value = .ok () ∧
      (effect (evaluate (.expr root)) {}).1 = .ok (.int32 5) ∧
      (effect (evaluate (.expr second)) {}).1 = .ok (.int32 0) :=
  ⟨rfl, by decide +kernel, by decide +kernel, by decide +kernel⟩

end TreeLang
