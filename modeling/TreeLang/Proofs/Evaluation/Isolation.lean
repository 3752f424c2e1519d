import TreeLang.Builder.Module
import TreeLang.Draft
import TreeLang.Proofs.Evaluation.Composition
import TreeLang.Proofs.Evaluation.Liveness
import TreeLang.Proofs.Evaluation.Refinement

namespace TreeLang

open TreeLang.Action

section Spares

variable {α β : Type} {id : VariableId}

-- Whatever the action does to the store, this variable is as before.
def Spares (id : VariableId) (action : Direct α) : Prop :=
  ∀ s a t, action.run s = .ok (a, t) → t.find? id = s.find? id

namespace Spares

theorem pure (a : α) : Spares id (Pure.pure a : Direct α) := by
  intro s b t h
  cases h
  rfl

theorem bind {first : Direct α} {next : α → Direct β} (hfirst : Spares id first)
    (hnext : ∀ a, Spares id (next a)) : Spares id (first >>= next) := by
  intro s b t h
  rw [StateT.run_bind] at h
  cases hrun : first.run s with
  | error error =>
      rw [hrun] at h
      cases h
  | ok outcome =>
      rw [hrun] at h
      exact (hnext _ _ _ _ h).trans (hfirst _ _ _ hrun)

theorem lift (result : Except Error α) : Spares id (liftM result : Direct α) := by
  intro s b t h
  cases result with
  | error error => cases h
  | ok a =>
      cases h
      rfl

theorem obey (fault : Option Error) : Spares id (TreeLang.obey fault) := by
  cases fault with
  | none => exact pure ()
  | some error => exact lift (.error error)

theorem read (node : NodeId) (target : Variable) : Spares id (Expr.readDirectly node target) := by
  intro s value t h
  simp only [Expr.readDirectly, StateT.run_bind, StateT.run_get, pure_bind] at h
  cases hfind : s.find? target.id with
  | some stored =>
      rw [hfind] at h
      cases h
      rfl
  | none =>
      rw [hfind] at h
      exact lift _ _ _ _ h

theorem insert {target : VariableId} (h : target ≠ id) (value : Value) :
    Spares id (modify (·.insert target value) : Direct PUnit) := by
  intro s b t hrun
  cases hrun
  rw [Store.find?_insert, if_neg h]

end Spares

namespace Expr

theorem written?_ne {root e : Expr} (he : e ∈ root.preorder) (h : id ∉ root.assigned) :
    e.written? ≠ some id :=
  fun hwritten => h (List.mem_filterMap.mpr ⟨e, he, hwritten⟩)

-- An expression within `root` spares what is not assigned anywhere in it.
theorem spares_composes {root : Expr} (h : id ∉ root.assigned) : Composes root (Spares id) where
  pure := .pure
  bind := .bind
  obey _ := .obey _
  read _ := .read _ _
  apply _ _ _ := .lift _
  insert hassign value := .insert (fun heq => written?_ne hassign h (congrArg some heq)) value
  zero _ := .lift _

end Expr

-- Of what the functions before the last one have done, only what they assigned
-- is left when the last one is evaluated.
theorem evaluateFunctions_last {earlier : List Function} {last : Function} {s t : Store}
    {value : Value}
    (h : (evaluateFunctions (earlier ++ [last])).run s = .ok (value, t)) :
    ∃ left, last.evaluateDirectly.run left = .ok (value, t) ∧
      ∀ id, (∀ f ∈ earlier, id ∉ f.body.assigned) → left.find? id = s.find? id := by
  induction earlier generalizing s with
  | nil => exact ⟨s, h, fun _ _ => rfl⟩
  | cons f rest ih =>
      obtain ⟨next, others, hothers⟩ : ∃ next others, rest ++ [last] = next :: others :=
        List.exists_cons_of_ne_nil (by simp)
      rw [List.cons_append, hothers] at h
      simp only [evaluateFunctions, StateT.run_bind] at h
      rw [hothers] at ih
      cases hrun : f.evaluateDirectly.run s with
      | error error =>
          rw [hrun] at h
          cases h
      | ok outcome =>
          rw [hrun] at h
          obtain ⟨left, hlast, hleft⟩ := ih h
          refine ⟨left, hlast, fun id hid => ?_⟩
          have hbody : Spares id (f.body.evaluateDirectly [f.parameters]) :=
            (Expr.spares_composes (hid f List.mem_cons_self)).evaluateDirectly f.body
              f.body.self_mem_preorder _
          have hf : Spares id f.evaluateDirectly := hbody.bind fun ending => .pure _
          have hrest := hleft id fun x hx => hid x (List.mem_cons_of_mem _ hx)
          exact hrest.trans (hf _ _ _ hrun)

end Spares

-- A module has the value its last function has alone, unless a function before
-- it assigns a variable the last one can read before it writes it.
theorem evaluate_module_last {m : Module} (hwf : (Node.module m).WellFormed)
    {earlier : List Function} {last : Function} (hsplit : m.functions = earlier ++ [last])
    (hapart : ∀ f ∈ earlier, ∀ id ∈ f.body.assigned, id ∉ last.live) (machine : Machine)
    {value : Value} (hvalue : (effect (evaluate (.module m)) machine).1 = .ok value) :
    (effect (evaluate (.function last)) {}).1 = .ok value := by
  have hlast : last ∈ m.functions := by simp [hsplit]
  rw [effect_evaluate_module machine hwf, hsplit, StateT.run'_eq] at hvalue
  rw [effect_evaluate_function {} (hwf.function hlast).body]
  cases hrun : (evaluateFunctions (earlier ++ [last])).run {} with
  | error error =>
      rw [hrun] at hvalue
      cases hvalue
  | ok outcome =>
      rw [hrun] at hvalue
      obtain ⟨left, hleft, hspared⟩ := evaluateFunctions_last hrun
      have hagree : left.AgreeOn last.live {} :=
        fun id hid => hspared id fun f hf hassigned => hapart f hf id hassigned hid
      rw [← last.alike hagree, StateT.run'_eq, hleft]
      exact hvalue

-- Both functions declare `x`. The first one returns from a conditional after it
-- has assigned 5 to `x`; the second one assigns `x` before it reads it.
theorem evaluate_module_last_rewritten :
    let x : Variable := ⟨⟨1⟩, "x", .int32⟩
    let early : Expr :=
      .conditional ⟨3⟩ (.assign ⟨2⟩ x (.int32 ⟨1⟩ 5)) (some (.ret ⟨5⟩ (.ref ⟨4⟩ x))) none
    let first : Function := ⟨⟨8⟩, "f", .int32, ⟨[]⟩, .block ⟨7⟩ ⟨[x]⟩ [early, .int32 ⟨6⟩ 2]⟩
    let product : Expr := .binary ⟨13⟩ .mul (.ref ⟨11⟩ x) (.int32 ⟨12⟩ 3)
    let last : Function :=
      ⟨⟨15⟩, "g", .int32, ⟨[]⟩, .block ⟨14⟩ ⟨[x]⟩ [.assign ⟨10⟩ x (.int32 ⟨9⟩ 2), product]⟩
    let m : Module := ⟨⟨16⟩, "m", [first, last]⟩
    (Node.module m).WellFormed ∧ m.functions = [first] ++ [last] ∧
      (∀ f ∈ [first], ∀ id ∈ f.body.assigned, id ∉ last.live) ∧
      (effect (evaluate (.module m)) {}).1 = .ok (.int32 6) ∧
      (effect (evaluate (.function last)) {}).1 = .ok (.int32 6) := by
  intro x early first product last m
  have hwf : (Node.module m).WellFormed := by
    refine ⟨by decide, ?_⟩
    simp [m, first, last, early, product, Node.preorder, Expr.preorder, Expr.preorderAll,
      Expr.preorderPart]
  have hapart : ∀ f ∈ [first], ∀ id ∈ f.body.assigned, id ∉ last.live := by decide
  have hvalue : (effect (evaluate (.module m)) {}).1 = .ok (.int32 6) := by decide +kernel
  exact ⟨hwf, rfl, hapart, hvalue, evaluate_module_last hwf rfl hapart {} hvalue⟩

-- Both functions declare `x` and the builders accept them. The first one assigns
-- 5 to `x`, which the second one reads, though alone it reads 0.
theorem evaluate_module_leaks :
    let x : Variable := ⟨⟨1⟩, "x", .int32⟩
    let first : Function :=
      ⟨⟨4⟩, "f", .int32, ⟨[]⟩, .block ⟨3⟩ ⟨[x]⟩ [.assign ⟨2⟩ x (.int32 ⟨1⟩ 5)]⟩
    let last : Function := ⟨⟨7⟩, "g", .int32, ⟨[]⟩, .block ⟨6⟩ ⟨[x]⟩ [.ref ⟨5⟩ x]⟩
    let m : Module := ⟨⟨8⟩, "m", [first, last]⟩
    let draft : ModuleDraft Variable :=
      { name := "m",
        functions :=
          [{ name := "f", returnType := .int32, parameters := [], declared := [x],
             children := [.assign x (.int32 5)], body := none },
           { name := "g", returnType := .int32, parameters := [], declared := [x],
             children := [.ref x], body := none }] }
    (effect (draft.construct id) {}).1 = .ok m ∧
      (effect (evaluate (.module m)) {}).1 = .ok (.int32 5) ∧
      (effect (evaluate (.function last)) {}).1 = .ok (.int32 0) := by
  exact ⟨rfl, by decide +kernel, by decide +kernel⟩

end TreeLang
