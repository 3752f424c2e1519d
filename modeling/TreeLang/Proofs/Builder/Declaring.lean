import TreeLang.Builder.Scope
import TreeLang.Proofs.Naming

namespace TreeLang

-- What is promised of the declarations of one level: names that may be declared,
-- none of them twice.
structure Scope.Regular (scope : Scope) : Prop where
  named : ∀ v ∈ scope.declared, Identifier v.name
  distinct : (scope.declared.map (·.name)).Nodup

namespace Scope

theorem regular_empty : Regular ⟨[]⟩ := ⟨by simp, by simp⟩

-- A scope is faithful when, besides, it means by a name the one variable that
-- bears it. Regular scopes are.
structure Faithful (scope : Scope) : Prop where
  regular : scope.Regular
  bearer : ∀ name v, scope.find? name = some v ↔ v ∈ scope.declared ∧ v.name = name

theorem Regular.faithful {scope : Scope} (h : scope.Regular) : scope.Faithful :=
  ⟨h, fun _ _ => find?_name_eq_some_iff h.distinct⟩

theorem Regular.concat {declared : List Variable} (h : Regular ⟨declared⟩) {v : Variable}
    (hname : Identifier v.name) (hnew : ∀ u ∈ declared, u.name ≠ v.name) :
    Regular ⟨declared ++ [v]⟩ where
  named := by
    intro u hu
    rcases List.mem_append.mp hu with hu | hu
    · exact h.named u hu
    · rwa [List.mem_singleton.mp hu]
  distinct := by
    simp only [List.map_append, List.map_cons, List.map_nil]
    refine List.nodup_append.mpr ⟨h.distinct, List.nodup_singleton _, ?_⟩
    intro name hname other hother
    obtain ⟨u, hu, rfl⟩ := List.mem_map.mp hname
    rw [List.mem_singleton.mp hother]
    exact hnew u hu

end Scope

namespace ScopeBuilder

theorem fault?_eq_none_iff {declared : List Variable} {v : Variable} :
    fault? declared v = none ↔ Identifier v.name ∧ ∀ u ∈ declared, u.name ≠ v.name := by
  rw [← isIdentifier_iff]
  cases hname : isIdentifier v.name with
  | false => simp [fault?, checkIdentifier, hname]
  | true => simp [fault?, checkIdentifier, hname]

-- What becomes of a builder a variable is added to: once there is a fault nothing
-- changes any more, and otherwise the variable is declared or is the fault.
inductive Addition (builder : ScopeBuilder) (v : Variable) : ScopeBuilder → Prop where
  | ignored (hfault : builder.fault ≠ none) : Addition builder v builder
  | refused {error : Error} (hfault : builder.fault = none)
      (herror : fault? builder.declared v = some error) :
      Addition builder v { builder with fault := some error }
  | declared (hfault : builder.fault = none) (hname : Identifier v.name)
      (hnew : ∀ u ∈ builder.declared, u.name ≠ v.name) :
      Addition builder v { builder with declared := builder.declared ++ [v] }

theorem add_addition (builder : ScopeBuilder) (v : Variable) :
    builder.Addition v (builder.add v) := by
  rcases builder with ⟨declared, _ | fault⟩
  · cases herror : fault? declared v with
    | some error =>
        simp only [add, herror]
        exact .refused rfl herror
    | none =>
        obtain ⟨hname, hnew⟩ := fault?_eq_none_iff.mp herror
        simp only [add, herror]
        exact .declared rfl hname hnew
  · exact .ignored (Option.some_ne_none fault)

theorem regular_add {builder : ScopeBuilder} (h : Scope.Regular ⟨builder.declared⟩)
    (v : Variable) : Scope.Regular ⟨(builder.add v).declared⟩ := by
  have haddition := builder.add_addition v
  generalize builder.add v = added at haddition ⊢
  cases haddition with
  | ignored hfault => exact h
  | refused hfault herror => exact h
  | declared hfault hname hnew => exact h.concat hname hnew

theorem add_of_no_fault {builder : ScopeBuilder} {v : Variable} (h : (builder.add v).fault = none) :
    builder.fault = none ∧ (builder.add v).declared = builder.declared ++ [v] ∧
      Identifier v.name ∧ ∀ u ∈ builder.declared, u.name ≠ v.name := by
  have haddition := builder.add_addition v
  generalize builder.add v = added at haddition h ⊢
  cases haddition with
  | ignored hfault => exact absurd h hfault
  | refused hfault herror => cases h
  | declared hfault hname hnew => exact ⟨hfault, rfl, hname, hnew⟩

-- Without a fault in the end, all that was added is declared, and would be on its
-- own too.
theorem addAll_of_no_fault {builder : ScopeBuilder} {vs : List Variable}
    (h : (builder.addAll vs).fault = none) :
    builder.fault = none ∧ (builder.addAll vs).declared = builder.declared ++ vs ∧
      Scope.Regular ⟨vs⟩ ∧ ∀ v ∈ vs, ∀ u ∈ builder.declared, u.name ≠ v.name := by
  induction vs generalizing builder with
  | nil => exact ⟨h, by simp [addAll], Scope.regular_empty, by simp⟩
  | cons v rest ih =>
      obtain ⟨hadded, hdeclared, hrest, hapart⟩ := ih h
      obtain ⟨hfault, hv, hname, hnew⟩ := add_of_no_fault hadded
      simp only [hv, List.mem_append, List.mem_singleton] at hapart
      refine ⟨hfault, ?_, ⟨?_, ?_⟩, ?_⟩
      · simpa [hv, addAll] using hdeclared
      · exact List.forall_mem_cons.mpr ⟨hname, hrest.named⟩
      · refine List.nodup_cons.mpr ⟨fun hmem => ?_, hrest.distinct⟩
        obtain ⟨w, hw, heq⟩ := List.mem_map.mp hmem
        exact hapart w hw v (.inr rfl) heq.symm
      · exact List.forall_mem_cons.mpr ⟨hnew, fun w hw u hu => hapart w hw u (.inl hu)⟩

theorem find?_addAll {builder : ScopeBuilder} {vs : List Variable}
    (h : (builder.addAll vs).fault = none) {v : Variable} (hv : v ∈ vs) :
    Scope.find? ⟨(builder.addAll vs).declared⟩ v.name = some v := by
  obtain ⟨-, hdeclared, hregular, hapart⟩ := addAll_of_no_fault h
  have hearlier : Scope.find? ⟨builder.declared⟩ v.name = none := by
    simpa [Scope.find?] using hapart v hv
  have hown : Scope.find? ⟨vs⟩ v.name = some v := (hregular.faithful.bearer _ _).mpr ⟨hv, rfl⟩
  simp only [Scope.find?] at hearlier hown ⊢
  rw [hdeclared, List.find?_append, hearlier, hown, Option.none_or]

end ScopeBuilder

end TreeLang
