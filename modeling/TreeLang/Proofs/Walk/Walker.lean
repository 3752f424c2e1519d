import TreeLang.Proofs.Walk.Interior
import TreeLang.Proofs.Walk.Traversal
import TreeLang.Walk.Walker

namespace TreeLang

-- What follows a computation may use its value alone.
theorem Logged.bind_congr {α β : Type} {logged : Logged α} {f g : α → Logged β}
    (h : f logged.value = g logged.value) : logged >>= f = logged >>= g := by
  simp only [bind, h]

namespace Walker

open TreeLang.Action

variable {σ : Type}

-- From one place on, an action of the walker is to the visitor and the log what
-- these steps are, and if it succeeds it ends in the other place.
def Takes (visitor : Visitor σ) (action : Action (Walker σ) Unit) (steps : List Step)
    (before after : Context) : Prop :=
  ∀ s, ∃ context,
    action.run.run ⟨before, s⟩ =
      (fun ran => (ran.1, ⟨context, ran.2⟩)) <$> (visitor.traverse steps).run.run s ∧
    ((effect (visitor.traverse steps) s).1 = .ok () → context = after)

namespace Takes

variable {visitor : Visitor σ} {first rest : Action (Walker σ) Unit} {xs ys : List Step}
  {before middle after : Context}

theorem append (hfirst : Takes visitor first xs before middle)
    (hrest : Takes visitor rest ys middle after) :
    Takes visitor (do first; rest) (xs ++ ys) before after := by
  intro s
  obtain ⟨context, hrun, hcontext⟩ := hfirst s
  rw [Visitor.traverse_append]
  simp only [effect, ExceptT.run_bind, StateT.run_bind, hrun] at hcontext ⊢
  rcases hran : (visitor.traverse xs).run.run s with ⟨⟨result, t⟩, log⟩
  rw [hran] at hcontext
  cases result with
  | error error => exact ⟨context, rfl, fun hok => by cases hok⟩
  | ok value =>
      obtain rfl := hcontext rfl
      obtain ⟨context, hrun, hcontext⟩ := hrest t
      refine ⟨context, ?_, hcontext⟩
      rw [bind_map_left, map_bind]
      exact Logged.bind_congr hrun

theorem nil (visitor : Visitor σ) (place : Context) : Takes visitor (pure ()) [] place place :=
  fun _ => ⟨place, rfl, fun _ => rfl⟩

theorem move (visitor : Visitor σ) (change : Context → Context) (place : Context) :
    Takes visitor (Walker.move change) [] place (change place) :=
  fun _ => ⟨change place, rfl, fun _ => rfl⟩

theorem inform (visitor : Visitor σ) (step : Step) (place : Context) :
    Takes visitor (Walker.inform (visitor.step step)) [step] place place := by
  have htold : visitor.traverse [step] = visitor.step step := by simp [Visitor.traverse]
  rw [Takes, htold]
  exact fun s => ⟨place, rfl, fun _ => rfl⟩

theorem fail (visitor : Visitor σ) (error : Error) (place after : Context) :
    Takes visitor (throw error) [.fail error] place after :=
  fun _ => ⟨place, rfl, fun hok => by cases hok⟩

theorem here {next : Context → Action (Walker σ) Unit}
    (h : Takes visitor (next before) xs before after) :
    Takes visitor (do next (← Walker.here)) xs before after := h

theorem call (visitor : Visitor σ) (moment : Moment) (node : Node) (place : Context) :
    Takes visitor (Walker.call visitor moment node) [.call ⟨moment, node, place⟩] place place :=
  (inform visitor (.call ⟨moment, node, place⟩) place).here

theorem enter (visitor : Visitor σ) (node : Node) (outer : Context) :
    Takes visitor (Walker.enter visitor node) [.call ⟨.enter, node, outer.within node⟩] outer
      (outer.within node) :=
  (move visitor (·.within node) outer).append (call visitor .enter node _)

theorem leave (visitor : Visitor σ) (node : Node) (outer : Context) :
    Takes visitor (Walker.leave visitor node) [.call ⟨.leave, node, outer.within node⟩]
      (outer.within node) outer :=
  (call visitor .leave node _).append (move visitor _ _)

theorem openScope (visitor : Visitor σ) (scope : Scope) (place : Context) :
    Takes visitor (Walker.openScope scope) [] place (place.opening scope) :=
  move visitor (·.opening scope) place

theorem closeScope (visitor : Visitor σ) (scope : Scope) (place : Context) :
    Takes visitor Walker.closeScope [] (place.opening scope) place :=
  move visitor _ (place.opening scope)

theorem scopeEntered (visitor : Visitor σ) (id : NodeId) (place : Context) :
    Takes visitor (do Walker.inform (visitor.step (Step.scopeEntered id (← Walker.here))))
      [Step.scopeEntered id place] place place :=
  here (inform visitor (Step.scopeEntered id place) place)

theorem checkUse (visitor : Visitor σ) (v : Variable) (id : NodeId) (place : Context) :
    Takes visitor (Walker.checkUse v id) (Step.checkUse place v id) place place := by
  refine here ?_
  unfold Step.checkUse
  cases place.resolveDeclared v id with
  | ok found => exact nil visitor place
  | error error => exact fail visitor error place place

theorem checkOperands (visitor : Visitor σ) (id : NodeId) (left right : Expr) (place : Context) :
    Takes visitor (Action.stateless (TreeLang.checkOperands id left right))
      (Step.checkOperands id left right) place place := by
  unfold Step.checkOperands TreeLang.checkOperands
  cases operandError? id left right with
  | none => exact inform visitor (.note (operandsChecked id right)) place
  | some error => exact fail visitor error place place

theorem arrives {action : Action (Walker σ) Unit} (h : Takes visitor action xs before after)
    {s : σ} {walker : Walker σ} (hrun : effect action ⟨before, s⟩ = (.ok (), walker)) :
    walker.context = after := by
  obtain ⟨context, hsame, hcontext⟩ := h s
  rw [effect, hsame] at hrun
  obtain ⟨hok, rfl⟩ := Prod.mk.inj hrun
  exact hcontext hok

variable {inner : Action (Walker σ) Unit}

-- A node is opened and closed around what is done at it.
theorem around (node : Node) {outer : Context}
    (h : Takes visitor inner xs (outer.within node) (outer.within node)) :
    Takes visitor (do Walker.enter visitor node; inner; Walker.leave visitor node)
      (.call ⟨.enter, node, outer.within node⟩ ::
        (xs ++ [.call ⟨.leave, node, outer.within node⟩])) outer outer :=
  (enter visitor node outer).append (h.append (leave visitor node outer))

theorem between (node : Node) {place : Context} (h : Takes visitor inner xs place place) :
    Takes visitor
      (do Walker.call visitor .start node; inner; Walker.call visitor .finish node)
      (.call ⟨.start, node, place⟩ :: (xs ++ [.call ⟨.finish, node, place⟩])) place place :=
  (call visitor .start node place).append (h.append (call visitor .finish node place))

end Takes

section Walks

variable (visitor : Visitor σ)

theorem walkPart_takes {part : Option Expr} {place : Context}
    (h : ∀ e ∈ part, Takes visitor (walkExpr visitor e) (e.steps place) place place) :
    Takes visitor (walkPart visitor part) (partSteps place part) place place := by
  cases part with
  | none => exact .nil visitor place
  | some e => exact h e rfl

-- The block is the last node on the path again after each of its children.
theorem walkChildren_takes {inside : Context} {es : List Expr}
    (hblock : inside.current?.map Node.kind = some .block)
    (h : ∀ e ∈ es, Takes visitor (walkExpr visitor e) (e.steps inside) inside inside)
    (index count : Nat) :
    Takes visitor (walkChildren visitor index count es) (childSteps inside index count es) inside
      inside := by
  induction es generalizing index with
  | nil => exact .nil visitor inside
  | cons e rest ih =>
      have he := h e List.mem_cons_self
      have hrest := ih (fun x hx => h x (List.mem_cons_of_mem _ hx)) (index + 1)
      simp only [walkChildren, childSteps, List.append_assoc]
      refine he.append (.here ?_)
      rw [hblock]
      split
      · exact (Takes.call visitor .discard (.expr e) inside).append hrest
      · exact hrest

-- By the time the next child is walked the walker is back at its parent, so each
-- child is walked from the place its steps are said for.
theorem walkExpr_takes (e : Expr) (outer : Context) :
    Takes visitor (walkExpr visitor e) (e.steps outer) outer outer := by
  induction e generalizing outer with
  | int32 id value =>
      let node := Node.expr (.int32 id value)
      have h := (Takes.call visitor .visit node (outer.within node)).around node
      rw [walkExpr, Expr.steps_eq]
      simpa only [Expr.interior] using h
  | float id value =>
      let node := Node.expr (.float id value)
      have h := (Takes.call visitor .visit node (outer.within node)).around node
      rw [walkExpr, Expr.steps_eq]
      simpa only [Expr.interior] using h
  | ref id target =>
      let node := Node.expr (.ref id target)
      let here := outer.within node
      have h := ((Takes.checkUse visitor target id here).append
        (.call visitor .visit node here)).around node
      rw [walkExpr, Expr.steps_eq]
      simpa only [Expr.interior, bind_assoc] using h
  | binary id operation left right hl hr =>
      let node := Node.expr (.binary id operation left right)
      let here := outer.within node
      have h := (((hl here).append ((hr here).append
        (.checkOperands visitor id left right here))).between node).around node
      rw [walkExpr, Expr.steps_eq]
      simpa only [Expr.interior, bind_assoc, List.append_assoc] using h
  | assign id target value ih =>
      let node := Node.expr (.assign id target value)
      let here := outer.within node
      have h := ((Takes.checkUse visitor target id here).append
        ((ih here).between node)).around node
      rw [walkExpr, Expr.steps_eq]
      simpa only [Expr.interior, bind_assoc] using h
  | ret id value ih =>
      let node := Node.expr (.ret id value)
      have h := ((ih (outer.within node)).between node).around node
      rw [walkExpr, Expr.steps_eq]
      simpa only [Expr.interior, bind_assoc] using h
  | conditional id condition truePart falsePart hc ht hf =>
      let node := Node.expr (.conditional id condition truePart falsePart)
      let here := outer.within node
      have htrue := walkPart_takes visitor fun e he => ht e he here
      have hfalse := walkPart_takes visitor fun e he => hf e he here
      have h := (((hc here).append (htrue.append hfalse)).between node).around node
      rw [walkExpr, Expr.steps_eq]
      simpa only [Expr.interior, bind_assoc, List.append_assoc] using h
  | block id scope children ih =>
      let node := Node.expr (.block id scope children)
      let here := outer.within node
      let inside := here.opening scope
      have hblock : inside.current?.map Node.kind = some .block := rfl
      have hchildren := walkChildren_takes visitor hblock (fun e he => ih e he inside) 0
        children.length
      have hinside := (Takes.scopeEntered visitor id inside).append (hchildren.between node)
      have hclose := (Takes.closeScope visitor scope here).append
        (.inform visitor (Step.scopeLeft id) here)
      have h := ((Takes.openScope visitor scope here).append (hinside.append hclose)).around node
      rw [walkExpr, Expr.steps_eq]
      simpa only [Expr.interior, bind_assoc, List.append_assoc, List.cons_append,
        List.nil_append] using h

theorem walkFunction_takes (f : Function) (outer : Context) :
    Takes visitor (walkFunction visitor f) (f.steps outer) outer outer := by
  let node := Node.function f
  let here := outer.within node
  have hbody := (walkExpr_takes visitor f.body (here.opening f.parameters)).between node
  have h := ((Takes.openScope visitor f.parameters here).append
    (hbody.append (.closeScope visitor f.parameters here))).around node
  simpa only [walkFunction, Function.steps, bind_assoc, List.append_assoc, List.cons_append,
    List.nil_append, List.append_nil] using h

theorem walkFunctions_takes (fs : List Function) (place : Context) :
    Takes visitor (walkFunctions visitor fs) (fs.flatMap (·.steps place)) place place := by
  induction fs with
  | nil => exact .nil visitor place
  | cons f rest ih => exact (walkFunction_takes visitor f place).append ih

theorem walkModule_takes (m : Module) (outer : Context) :
    Takes visitor (walkModule visitor m) (m.steps outer) outer outer := by
  let node := Node.module m
  have hfunctions := walkFunctions_takes visitor m.functions (outer.within node)
  have h := (hfunctions.between node).around node
  simpa only [walkModule, Module.steps, bind_assoc, List.append_assoc, List.cons_append,
    List.nil_append] using h

theorem walkNode_takes (root : Node) :
    Takes visitor (walkNode visitor root) root.steps .outside .outside := by
  cases root with
  | expr e => exact walkExpr_takes visitor e .outside
  | function f => exact walkFunction_takes visitor f .outside
  | module m => exact walkModule_takes visitor m .outside

end Walks

-- A walk that succeeds leaves the walker where it was, wherever that is.
theorem walkNode_arrives {visitor : Visitor σ} {node : Node} {place : Context} {s : σ}
    {walker : Walker σ}
    (hrun : effect (walkNode visitor node) ⟨place, s⟩ = (.ok (), walker)) :
    walker.context = place := by
  cases node with
  | expr e => exact (walkExpr_takes visitor e place).arrives hrun
  | function f => exact (walkFunction_takes visitor f place).arrives hrun
  | module m => exact (walkModule_takes visitor m place).arrives hrun

theorem settingOut_eq {visitor : Visitor σ} {action : Action (Walker σ) Unit} {steps : List Step}
    {after : Context} (h : Takes visitor action steps .outside after) :
    settingOut action = visitor.traverse steps := by
  refine ExceptT.ext (StateT.ext fun s => ?_)
  obtain ⟨context, hrun, -⟩ := h s
  have hleft : (settingOut action).run.run s =
      (fun ran => (ran.1, ran.2.state)) <$> action.run.run ⟨.outside, s⟩ := rfl
  simp [hleft, hrun]

-- A walker that keeps its place by hand does what the steps of the tree say.
theorem walk_eq (visitor : Visitor σ) (root : Node) :
    walk visitor root = TreeLang.walk visitor root := by
  simp only [walk, TreeLang.walk, settingOut_eq (walkNode_takes visitor root)]

end Walker

end TreeLang
