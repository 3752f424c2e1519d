import TreeLang.Proofs.Builder.Outcome
import TreeLang.Proofs.Naming

namespace TreeLang

-- A builder is left as it was, or as a new one is.
def Atomic {β : Type} (before new left : β) : Prop :=
  left = before ∨ left = new

-- A build has failed and has left this builder.
def Refused {α β : Type} (left : β) (outcome : (Except Error α × β) × Supply) : Prop :=
  ∃ error rest, outcome = ((.error error, left), rest)

namespace ModuleBuilder

theorem atomic_of_refused {builder left : ModuleBuilder} {supply : Supply}
    (h : Refused left (builder.build.effect supply)) :
    Atomic builder { name := builder.name } left := by
  obtain ⟨error, rest, hbuild⟩ := h
  have houtcome := ModuleBuilder.outcome_of_build hbuild
  cases houtcome with
  | misnamed hname => exact .inl rfl
  | duplicate hname hduplicate => exact .inr rfl

end ModuleBuilder

namespace BlockBuilder

variable {builder left : BlockBuilder} {supply : Supply}

theorem refused_iff : (∃ left, Refused left (builder.build.effect supply)) ↔
    builder.scope.fault ≠ none ∨ builder.children = [] := by
  have houtcome := builder.build_outcome supply
  generalize builder.build.effect supply = outcome at houtcome ⊢
  cases houtcome with
  | scopeFault hfault => exact iff_of_true ⟨_, _, _, rfl⟩ (.inl (by simp [hfault]))
  | empty hfault hempty => exact iff_of_true ⟨_, _, _, rfl⟩ (.inr hempty)
  | built hfault hne => simp [Refused, hfault, hne]

theorem eq_new_iff : builder = {} ↔ builder.scope = {} ∧ builder.children = [] := by
  cases builder
  simp

-- Children are left behind by a fault of the scope, and by nothing else.
theorem atomic_iff_of_refused (later : Supply) (h : Refused left (builder.build.effect supply)) :
    (Atomic builder {} left ∧ ∃ again, Refused again (left.build.effect later)) ↔
      builder.scope.fault = none ∨ builder.children = [] := by
  obtain ⟨error, rest, hbuild⟩ := h
  have houtcome := BlockBuilder.outcome_of_build hbuild
  rw [refused_iff]
  cases houtcome with
  | scopeFault hfault =>
      have hother : { children := builder.children } ≠ builder := by
        intro heq
        rw [← heq] at hfault
        cases hfault
      simp [Atomic, hother, hfault]
  | empty hfault hempty => simp [Atomic, hfault]

end BlockBuilder

namespace FunctionBuilder

variable {builder left : FunctionBuilder} {supply : Supply}

def renewed (builder : FunctionBuilder) : FunctionBuilder :=
  { name := builder.name, returnType := builder.returnType }

theorem refused_iff : (∃ left, Refused left (builder.build.effect supply)) ↔
    isIdentifier builder.name = false ∨ builder.parameters.fault ≠ none ∨
      (builder.body ≠ none ∧ builder.block.children ≠ []) ∨
      (builder.body = none ∧
        (builder.block.scope.fault ≠ none ∨ builder.block.children = [])) := by
  have houtcome := builder.build_outcome supply
  generalize builder.build.effect supply = outcome at houtcome ⊢
  cases houtcome with
  | misnamed hname => exact iff_of_true ⟨_, _, _, rfl⟩ (.inl (isIdentifier_of_error hname))
  | parameterFault hname hfault =>
      exact iff_of_true ⟨_, _, _, rfl⟩ (.inr (.inl (by simp [hfault])))
  | twoBodies hname hfault hbody hne =>
      exact iff_of_true ⟨_, _, _, rfl⟩ (.inr (.inr (.inl ⟨by simp [hbody], hne⟩)))
  | given hname hfault hbody hempty =>
      simp [Refused, isIdentifier_of_ok hname, hfault, hbody, hempty]
  | blockFault hname hfault hbody hblock =>
      cases hblock with
      | scopeFault hscope => simp [Refused, isIdentifier_of_ok hname, hfault, hbody, hscope]
      | empty hscope hempty => simp [Refused, isIdentifier_of_ok hname, hfault, hbody, hempty]
  | collected hname hfault hbody hblock =>
      cases hblock with
      | built hscope hne => simp [Refused, isIdentifier_of_ok hname, hfault, hbody, hscope, hne]

-- The parts are taken out one after the other, so a failure leaves those that
-- come after the faulty one.
theorem atomic_iff_of_refused (later : Supply) (h : Refused left (builder.build.effect supply)) :
    (Atomic builder builder.renewed left ∧ ∃ again, Refused again (left.build.effect later)) ↔
      isIdentifier builder.name = false ∨
        (builder.body = none ∧ builder.block.children = [] ∧
          (builder.parameters.fault = none ∨ builder.block.scope = {})) := by
  obtain ⟨error, rest, hbuild⟩ := h
  have houtcome := FunctionBuilder.outcome_of_build hbuild
  rw [refused_iff]
  cases houtcome with
  | misnamed hname =>
      have hinvalid := isIdentifier_of_error hname
      exact iff_of_true ⟨.inl rfl, .inl hinvalid⟩ (.inl hinvalid)
  | parameterFault hname hfault =>
      have hother : { builder with parameters := {} } ≠ builder := by
        intro heq
        rw [← heq] at hfault
        cases hfault
      simp only [Atomic, hother, renewed, isIdentifier_of_ok hname, hfault,
        BlockBuilder.eq_new_iff, FunctionBuilder.mk.injEq]
      grind
  | twoBodies hname hfault hbody hne =>
      have hother : { builder with parameters := {}, body := none } ≠ builder := by
        intro heq
        rw [← heq] at hbody
        cases hbody
      simp [Atomic, hother, renewed, isIdentifier_of_ok hname, hbody, BlockBuilder.eq_new_iff, hne]
  | blockFault hname hfault hbody hblock =>
      cases hblock with
      | scopeFault hscope =>
          simp +contextual [Atomic, renewed, isIdentifier_of_ok hname, hfault, hbody]
      | empty hscope hempty =>
          simp [Atomic, renewed, isIdentifier_of_ok hname, hfault, hbody, hempty]

end FunctionBuilder

-- Where a failed build is atomic: always for scopes and modules, for blocks
-- unless a fault of the scope leaves children, and for functions unless it
-- leaves a part that comes after the faulty one. Where blocks and functions are
-- left whole, a build right after a failed one fails too.
theorem failed_build_atomic_iff (supply later : Supply) :
    (∀ (builder left : ScopeBuilder) (error : Error),
      builder.build = (.error error, left) → left = {}) ∧
    (∀ builder left : ModuleBuilder, Refused left (builder.build.effect supply) →
      Atomic builder { name := builder.name } left) ∧
    (∀ builder left : BlockBuilder, Refused left (builder.build.effect supply) →
      ((Atomic builder {} left ∧ ∃ again, Refused again (left.build.effect later)) ↔
        builder.scope.fault = none ∨ builder.children = [])) ∧
    (∀ builder left : FunctionBuilder, Refused left (builder.build.effect supply) →
      ((Atomic builder builder.renewed left ∧ ∃ again, Refused again (left.build.effect later)) ↔
        isIdentifier builder.name = false ∨
          (builder.body = none ∧ builder.block.children = [] ∧
            (builder.parameters.fault = none ∨ builder.block.scope = {})))) := by
  refine ⟨fun builder left error h => ?_, fun _ _ => ModuleBuilder.atomic_of_refused,
    fun _ _ => BlockBuilder.atomic_iff_of_refused later,
    fun _ _ => FunctionBuilder.atomic_iff_of_refused later⟩
  have hleft := builder.build_snd
  rw [h] at hleft
  exact hleft

-- A block with two variables of one name fails to build, and keeps its child but
-- not the fault: it is then built without variables. A function with a parameter
-- and two bodies fails to build, and is then built without the parameter.
theorem failed_build_keeps_parts :
    let x : Variable := ⟨⟨1⟩, "x", .int32⟩
    let other : Variable := ⟨⟨2⟩, "x", .int32⟩
    let seven : Expr := .int32 ⟨1⟩ 7
    let block : BlockBuilder := ((({} : BlockBuilder).declare x).declare other).add seven
    let blockLeft : BlockBuilder := { children := [seven] }
    let functionLeft : FunctionBuilder :=
      { name := "f", returnType := .int32, block := ({} : BlockBuilder).add seven }
    let function : FunctionBuilder := (functionLeft.addParameter x).withBody (.int32 ⟨2⟩ 8)
    let supply : Supply := ⟨⟨3⟩, ⟨3⟩⟩
    (block.build.effect supply).1 =
        (.error { cause := .redeclaredVariable "x" }, blockLeft) ∧
      ¬ Atomic block {} blockLeft ∧
      (blockLeft.build.effect supply).1 = (.ok (.block ⟨3⟩ ⟨[]⟩ [seven]), {}) ∧
      (function.build.effect supply).1 = (.error FunctionBuilder.twoBodies, functionLeft) ∧
      ¬ Atomic function function.renewed functionLeft ∧
      (functionLeft.build.effect supply).1 =
        (.ok ⟨⟨4⟩, "f", .int32, ⟨[]⟩, .block ⟨3⟩ ⟨[]⟩ [seven]⟩, functionLeft.renewed) := by
  refine ⟨rfl, ?_, rfl, rfl, ?_, rfl⟩
  · rintro (hsame | hnew)
    · exact absurd (congrArg (·.scope.fault.isSome) hsame) (by decide)
    · exact absurd (congrArg (·.children.length) hnew) (by decide)
  · rintro (hsame | hnew)
    · exact absurd (congrArg (·.body.isSome) hsame) (by decide)
    · exact absurd (congrArg (·.block.children.length) hnew) (by decide)

end TreeLang
