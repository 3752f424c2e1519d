import TreeLang.Proofs.Builder.Regularity

namespace TreeLang

-- The fault a builder keeps is that of a variable it was given.
def ScopeBuilder.Justified (builder : ScopeBuilder) : Prop :=
  ∀ error ∈ builder.fault, ∃ declared v, fault? declared v = some error

namespace ScopeBuilder

theorem justified_new : Justified {} := by simp [Justified]

theorem Justified.add {builder : ScopeBuilder} (h : builder.Justified) (v : Variable) :
    (builder.add v).Justified := by
  have haddition := builder.add_addition v
  generalize builder.add v = added at haddition ⊢
  cases haddition with
  | ignored hfault => exact h
  | @refused error hfault herror =>
      intro raised hraised
      obtain rfl := Option.some.inj hraised
      exact ⟨_, _, herror⟩
  | declared hfault hname hnew => exact h

theorem Justified.build {builder : ScopeBuilder} (h : builder.Justified) {error : Error}
    (hbuild : builder.build.1 = .error error) : ∃ declared v, fault? declared v = some error := by
  cases hfault : builder.fault with
  | none =>
      rw [build_of_no_fault hfault] at hbuild
      cases hbuild
  | some kept =>
      rw [build_of_fault hfault] at hbuild
      obtain rfl := Except.error.inj hbuild
      exact h kept hfault

-- There are two faults: a name that may not be declared, and one that is declared.
theorem fault?_cases {declared : List Variable} {v : Variable} {error : Error}
    (h : fault? declared v = some error) :
    checkIdentifier "variable" v.name = .error error ∨
      Identifier v.name ∧ error = { cause := .redeclaredVariable v.name } := by
  cases hname : checkIdentifier "variable" v.name with
  | error raised =>
      simp only [fault?, hname] at h
      exact .inl (congrArg _ (Option.some.inj h))
  | ok _ =>
      simp only [fault?, hname] at h
      split at h
      · exact .inr ⟨isIdentifier_iff.mp (isIdentifier_of_ok hname), (Option.some.inj h).symm⟩
      · cases h

end ScopeBuilder

-- The scope of a block is taken whenever the block is built.
theorem BlockBuilder.Outcome.scope_eq {builder left : BlockBuilder} {result : Except Error Expr}
    {supply rest : Supply} (h : builder.Outcome supply ((result, left), rest)) :
    left.scope = {} := by
  cases h <;> rfl

theorem ModuleBuilder.mem_of_duplicate? {earlier : List String} {fs : List Function} {f : Function}
    (h : duplicate? earlier fs = some f) : f ∈ fs := by
  induction fs generalizing earlier with
  | nil => cases h
  | cons g rest ih =>
      rw [duplicate?] at h
      split at h
      · obtain rfl := Option.some.inj h
        exact List.mem_cons_self
      · exact List.mem_cons_of_mem _ (ih h)

namespace Workshop

-- The same of every scope that is being collected, be it by a builder of its own or for a
-- block or a function.
structure Justified (w : Workshop) : Prop where
  scopeBuilders : ∀ builder ∈ w.scopeBuilders, builder.Justified
  blockBuilders : ∀ builder ∈ w.blockBuilders, builder.scope.Justified
  functionBuilders : ∀ builder ∈ w.functionBuilders,
    builder.parameters.Justified ∧ builder.block.scope.Justified

open ScopeBuilder (justified_new)

theorem BlockStep.justified {builder left : BlockBuilder} {exprs exprs' : List Expr}
    {supply supply' : Supply} (hstep : BlockStep builder exprs supply left exprs' supply')
    (h : builder.scope.Justified) : left.scope.Justified := by
  cases hstep with
  | declare v => exact h.add v
  | add htaken => exact h
  | build hbuild =>
      rw [(BlockBuilder.outcome_of_build hbuild).scope_eq]
      exact justified_new

-- A build of a function takes scopes and adds nothing to any.
theorem justified_function {builder left : FunctionBuilder} {result : Except Error Function}
    {supply rest : Supply} (houtcome : builder.Outcome supply ((result, left), rest))
    (h : builder.parameters.Justified ∧ builder.block.scope.Justified) :
    left.parameters.Justified ∧ left.block.scope.Justified := by
  cases houtcome with
  | misnamed hname => exact h
  | parameterFault hname hfault => exact ⟨justified_new, h.2⟩
  | twoBodies hname hfault hbody hne => exact ⟨justified_new, h.2⟩
  | given hname hfault hbody hempty => exact ⟨justified_new, h.2⟩
  | blockFault hname hfault hbody hblock =>
      refine ⟨justified_new, ?_⟩
      simpa only [hblock.scope_eq] using justified_new
  | collected hname hfault hbody hblock =>
      refine ⟨justified_new, ?_⟩
      simpa only [hblock.scope_eq] using justified_new

theorem Step.justified {w w' : Workshop} (hstep : Step w w') (h : w.Justified) : w'.Justified := by
  cases hstep with
  | node hkind hid howned => exact { h with }
  | newScope =>
      exact { h with
        scopeBuilders := List.forall_mem_cons.mpr ⟨justified_new, h.scopeBuilders⟩ }
  | declare v htaken =>
      obtain ⟨hbuilder, hrest⟩ := forall_taken h.scopeBuilders htaken
      exact { h with scopeBuilders := List.forall_mem_cons.mpr ⟨hbuilder.add v, hrest⟩ }
  | @buildScope builder rest htaken =>
      obtain ⟨-, hrest⟩ := forall_taken h.scopeBuilders htaken
      have hleft : builder.build.2.Justified := by
        rw [builder.build_snd]
        exact justified_new
      exact { h with scopeBuilders := List.forall_mem_cons.mpr ⟨hleft, hrest⟩ }
  | newBlock =>
      exact { h with
        blockBuilders := List.forall_mem_cons.mpr ⟨justified_new, h.blockBuilders⟩ }
  | block htaken hstep =>
      obtain ⟨hbuilder, hrest⟩ := forall_taken h.blockBuilders htaken
      exact { h with
        blockBuilders := List.forall_mem_cons.mpr ⟨hstep.justified hbuilder, hrest⟩ }
  | newFunction name returnType =>
      exact { h with
        functionBuilders :=
          List.forall_mem_cons.mpr ⟨⟨justified_new, justified_new⟩, h.functionBuilders⟩ }
  | addParameter v htaken =>
      obtain ⟨⟨hparameters, hblock⟩, hrest⟩ := forall_taken h.functionBuilders htaken
      exact { h with
        functionBuilders := List.forall_mem_cons.mpr ⟨⟨hparameters.add v, hblock⟩, hrest⟩ }
  | functionBlock htaken hstep =>
      obtain ⟨⟨hparameters, hblock⟩, hrest⟩ := forall_taken h.functionBuilders htaken
      exact { h with
        functionBuilders :=
          List.forall_mem_cons.mpr ⟨⟨hparameters, hstep.justified hblock⟩, hrest⟩ }
  | withBody htaken hbody =>
      obtain ⟨hbuilder, hrest⟩ := forall_taken h.functionBuilders htaken
      exact { h with functionBuilders := List.forall_mem_cons.mpr ⟨hbuilder, hrest⟩ }
  | buildFunction htaken hbuild =>
      obtain ⟨hbuilder, hrest⟩ := forall_taken h.functionBuilders htaken
      have hleft := justified_function (FunctionBuilder.outcome_of_build hbuild) hbuilder
      exact { h with functionBuilders := List.forall_mem_cons.mpr ⟨hleft, hrest⟩ }
  | newModule name => exact { h with }
  | addFunction htaken hfunction => exact { h with }
  | buildModule htaken hbuild => exact { h with }

theorem Reachable.justified {w : Workshop} (h : Reachable w) : w.Justified := by
  induction h with
  | start => constructor <;> simp
  | step _ hstep ih => exact hstep.justified ih

end Workshop

end TreeLang
