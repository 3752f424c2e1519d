import Mathlib.Data.List.Induction
import TreeLang.Print
import TreeLang.Proofs.Builder.Declaring
import TreeLang.Proofs.Builder.Outcome

namespace TreeLang

namespace Scope

-- By name, and no name twice.
theorem Regular.sorted_pairwise {scope : Scope} (h : scope.Regular) :
    scope.sorted.Pairwise (·.name < ·.name) := by
  have hperm : scope.sorted.Perm scope.declared := List.mergeSort_perm ..
  have hle : scope.sorted.Pairwise (·.name ≤ ·.name) := by
    refine (List.pairwise_mergeSort ?_ ?_ scope.declared).imp (by simp)
    · intro u v w huv hvw
      simp only [decide_eq_true_eq] at huv hvw ⊢
      exact String.le_trans huv hvw
    · intro u v
      simpa using String.le_total u.name v.name
  have hne : scope.sorted.Pairwise (·.name ≠ ·.name) :=
    List.pairwise_map.mp ((hperm.map Variable.name).nodup_iff.mpr h.distinct)
  refine (hle.and hne).imp fun ⟨hle, hne⟩ => ?_
  exact String.not_le.mp fun hge => hne (String.le_antisymm hle hge)

theorem Regular.perm {vs vs' : List Variable} (h : Regular ⟨vs⟩) (hperm : vs'.Perm vs) :
    Regular ⟨vs'⟩ where
  named v hv := h.named v (hperm.mem_iff.mp hv)
  distinct := (hperm.map (·.name)).nodup_iff.mpr h.distinct

section Reordered

variable {vs vs' : List Variable} (h : Regular ⟨vs⟩) (hperm : vs'.Perm vs)

include h hperm

-- Neither a lookup nor the output shows the order of declaration.
theorem Regular.find?_perm (name : String) : find? ⟨vs'⟩ name = find? ⟨vs⟩ name := by
  refine Option.ext fun v => ?_
  rw [(h.perm hperm).faithful.bearer, h.faithful.bearer]
  exact and_congr_left' hperm.mem_iff

theorem Regular.sorted_perm : sorted ⟨vs'⟩ = sorted ⟨vs⟩ := by
  refine List.Perm.eq_of_pairwise (fun u v _ _ huv hvu => ?_) (h.perm hperm).sorted_pairwise
    h.sorted_pairwise ?_
  · exact absurd hvu (String.lt_asymm huv)
  · exact (List.mergeSort_perm ..).trans (hperm.trans (List.mergeSort_perm ..).symm)

theorem Regular.text_perm : text ⟨vs'⟩ = text ⟨vs⟩ := by
  rw [text, h.sorted_perm hperm, text]

end Reordered

end Scope

namespace ScopeBuilder

-- What a caller asks of a scope builder.
inductive Request where
  | add (v : Variable)
  | build

def serve (builder : ScopeBuilder) : Request → ScopeBuilder
  | .add v => builder.add v
  | .build => builder.build.2

def serveAll (builder : ScopeBuilder) (requests : List Request) : ScopeBuilder :=
  requests.foldl serve builder

def note (added : List Variable) : Request → List Variable
  | .add v => added ++ [v]
  | .build => []

-- The variables that were added since the last build, whatever came of it.
def pending (requests : List Request) : List Variable :=
  requests.foldl note []

theorem serve_addAll (added : List Variable) (request : Request) :
    serve (addAll {} added) request = addAll {} (note added request) := by
  cases request with
  | add v => simp [serve, note, addAll]
  | build => rw [serve, build_snd, note, addAll, List.foldl_nil]

-- A build leaves nothing behind, so a builder is what was added to a new one since.
theorem serveAll_addAll (requests : List Request) (added : List Variable) :
    serveAll (addAll {} added) requests = addAll {} (requests.foldl note added) := by
  induction requests generalizing added with
  | nil => rfl
  | cons request rest ih =>
      rw [serveAll, List.foldl_cons, serve_addAll]
      exact ih (note added request)

-- The variable cannot be declared after these.
def Clashes (before : List Variable) (v : Variable) : Prop :=
  ¬ Identifier v.name ∨ ∃ u ∈ before, u.name = v.name

-- Each of them can be declared after those before it.
def Clear (vs : List Variable) : Prop :=
  ∀ before v after, vs = before ++ v :: after → ¬ Clashes before v

theorem not_clashes_iff {before : List Variable} {v : Variable} :
    ¬ Clashes before v ↔ Identifier v.name ∧ ∀ u ∈ before, u.name ≠ v.name := by
  simp [Clashes]

theorem Clear.of_append {vs ws : List Variable} (h : Clear (vs ++ ws)) : Clear vs := by
  rintro before v after rfl
  exact h before v (after ++ ws) (by simp)

-- Being clear is what a scope is promised to be, said in the order of declaration.
theorem clear_iff_regular {vs : List Variable} : Clear vs ↔ Scope.Regular ⟨vs⟩ := by
  constructor
  · intro h
    induction vs using List.reverseRecOn with
    | nil => exact Scope.regular_empty
    | append_singleton vs v ih =>
        obtain ⟨hname, hnew⟩ := not_clashes_iff.mp (h vs v [] rfl)
        exact (ih h.of_append).concat hname hnew
  · rintro h before v after rfl
    have hdistinct := h.distinct
    rw [List.map_append, List.map_cons, List.nodup_middle, List.nodup_cons] at hdistinct
    refine not_clashes_iff.mpr ⟨h.named v (by simp), fun u hu heq => ?_⟩
    exact hdistinct.1 (List.mem_append_left _ (List.mem_map.mpr ⟨u, hu, heq⟩))

theorem Clear.concat {vs : List Variable} {v : Variable} (h : Clear vs) (hv : ¬ Clashes vs v) :
    Clear (vs ++ [v]) := by
  intro before w after hsplit
  rcases List.eq_nil_or_concat' after with rfl | ⟨after, u, rfl⟩
  · obtain ⟨rfl, hlast⟩ := List.append_inj' hsplit rfl
    obtain rfl := List.singleton_inj.mp hlast
    exact hv
  · have hsplit' : vs ++ [v] = (before ++ w :: after) ++ [u] := by simp [hsplit]
    exact h before w after (List.append_inj' hsplit' rfl).1

-- Unless there is no clash there is a first one.
theorem clear_or_first_clash (vs : List Variable) :
    Clear vs ∨ ∃ before v after, vs = before ++ v :: after ∧ Clear before ∧ Clashes before v := by
  induction vs using List.reverseRecOn with
  | nil => exact .inl (by simp [Clear])
  | append_singleton vs v ih =>
      rcases ih with hclear | ⟨before, w, after, rfl, hclear, hclash⟩
      · by_cases hclash : Clashes vs v
        · exact .inr ⟨vs, v, [], rfl, hclear, hclash⟩
        · exact .inl (hclear.concat hclash)
      · exact .inr ⟨before, w, after ++ [v], by simp, hclear, hclash⟩

section Add

variable {vs before : List Variable} {v : Variable}

theorem fault?_of_not_identifier (h : ¬ Identifier v.name) :
    fault? before v = some
      { cause := .invalidArgument "variable" s!"`{v.name}` is not a valid identifier" } := by
  have hname : isIdentifier v.name = false :=
    Bool.eq_false_iff.mpr fun hname => h (isIdentifier_iff.mp hname)
  simp [fault?, checkIdentifier, hname]

theorem fault?_of_redeclared (hname : Identifier v.name) (h : ∃ u ∈ before, u.name = v.name) :
    fault? before v = some { cause := .redeclaredVariable v.name } := by
  simpa [fault?, checkIdentifier, isIdentifier_iff.mpr hname] using h

theorem fault?_of_clashes (h : Clashes before v) : ∃ error, fault? before v = some error := by
  cases herror : fault? before v with
  | none => exact absurd h (not_clashes_iff.mpr (fault?_eq_none_iff.mp herror))
  | some error => exact ⟨error, rfl⟩

theorem add_of_fault {builder : ScopeBuilder} (h : builder.fault ≠ none) :
    builder.add v = builder := by
  have haddition := builder.add_addition v
  generalize builder.add v = added at haddition ⊢
  cases haddition with
  | ignored _ => rfl
  | refused hfault _ => exact absurd hfault h
  | declared hfault _ _ => exact absurd hfault h

theorem addAll_of_fault {builder : ScopeBuilder} (h : builder.fault ≠ none) :
    builder.addAll vs = builder := by
  induction vs with
  | nil => rfl
  | cons v rest ih =>
      rw [addAll, List.foldl_cons, add_of_fault h]
      exact ih

theorem addAll_append (builder : ScopeBuilder) (vs ws : List Variable) :
    builder.addAll (vs ++ ws) = (builder.addAll vs).addAll ws :=
  List.foldl_append

theorem addAll_clear (h : Clear vs) : addAll {} vs = { declared := vs } := by
  induction vs using List.reverseRecOn with
  | nil => rfl
  | append_singleton vs v ih =>
      have hnone : fault? vs v = none :=
        fault?_eq_none_iff.mpr (not_clashes_iff.mp (h vs v [] rfl))
      rw [addAll_append, ih h.of_append, addAll, List.foldl_cons, List.foldl_nil, add]
      simp only [hnone]

theorem build_clear (h : Clear vs) : (addAll {} vs).build = (.ok ⟨vs⟩, {}) := by
  rw [addAll_clear h]
  exact build_of_no_fault rfl

-- The first clash silences what is added after it.
theorem build_first_clash (h : Clear before) {error : Error}
    (herror : fault? before v = some error) (after : List Variable) :
    (addAll {} (before ++ v :: after)).build = (.error error, {}) := by
  have hfault : addAll {} (before ++ [v]) = { declared := before, fault := some error } := by
    rw [addAll_append, addAll_clear h, addAll, List.foldl_cons, List.foldl_nil, add]
    simp only [herror]
  have hall : addAll {} (before ++ v :: after) = { declared := before, fault := some error } := by
    rw [List.append_cons, addAll_append, hfault]
    exact addAll_of_fault (Option.some_ne_none error)
  rw [hall]
  exact build_of_fault rfl

theorem build_error_iff :
    (∃ error, (addAll {} vs).build.1 = .error error) ↔
      ∃ before v after, vs = before ++ v :: after ∧ Clashes before v := by
  constructor
  · rintro ⟨error, herror⟩
    rcases clear_or_first_clash vs with hclear | ⟨before, v, after, hsplit, -, hclash⟩
    · rw [build_clear hclear] at herror
      cases herror
    · exact ⟨before, v, after, hsplit, hclash⟩
  · rintro ⟨before, v, after, hsplit, hclash⟩
    rcases clear_or_first_clash vs with hclear | ⟨before', v', after', rfl, hclear, hfirst⟩
    · exact absurd hclash (hclear before v after hsplit)
    · obtain ⟨error, herror⟩ := fault?_of_clashes hfirst
      exact ⟨error, by rw [build_first_clash hclear herror]⟩

end Add

-- A build reports the first clash of what was added since the last one, or declares just
-- that, and the order it was added in does not show. The builder is left as a new one is.
theorem build_pending (requests : List Request) :
    (serveAll {} requests).build.2 = {} ∧
    ((∃ error, (serveAll {} requests).build.1 = .error error) ↔
      ∃ before v after, pending requests = before ++ v :: after ∧ Clashes before v) ∧
    (∀ before v after, pending requests = before ++ v :: after → Clear before →
      (¬ Identifier v.name → (serveAll {} requests).build.1 = .error
        { cause := .invalidArgument "variable" s!"`{v.name}` is not a valid identifier" }) ∧
      (Identifier v.name → (∃ u ∈ before, u.name = v.name) →
        (serveAll {} requests).build.1 = .error { cause := .redeclaredVariable v.name })) ∧
    ∀ scope, (serveAll {} requests).build.1 = .ok scope →
      scope.size = (pending requests).length ∧
      (∀ name v, scope.find? name = some v ↔ v ∈ pending requests ∧ v.name = name) ∧
      scope.sorted.Perm (pending requests) ∧ scope.sorted.Pairwise (·.name < ·.name) ∧
      ∀ others, (pending others).Perm (pending requests) →
        ∃ scope', (serveAll {} others).build.1 = .ok scope' ∧
          (∀ name, scope'.find? name = scope.find? name) ∧ scope'.sorted = scope.sorted ∧
          ∀ id children, (Expr.block id scope' children).describe =
            (Expr.block id scope children).describe := by
  have hserved : ∀ requests, serveAll {} requests = addAll {} (pending requests) :=
    fun requests => serveAll_addAll requests []
  rw [hserved]
  refine ⟨build_snd _, build_error_iff, ?_, ?_⟩
  · intro before v after hsplit hclear
    rw [hsplit]
    refine ⟨fun hname => ?_, fun hname hearlier => ?_⟩
    · rw [build_first_clash hclear (fault?_of_not_identifier hname)]
    · rw [build_first_clash hclear (fault?_of_redeclared hname hearlier)]
  · intro scope hscope
    rcases clear_or_first_clash (pending requests) with
      hclear | ⟨before, v, after, hsplit, -, hclash⟩
    · have hregular := clear_iff_regular.mp hclear
      rw [build_clear hclear] at hscope
      obtain rfl := Except.ok.inj hscope
      refine ⟨rfl, hregular.faithful.bearer, List.mergeSort_perm .., hregular.sorted_pairwise, ?_⟩
      intro others hperm
      have hothers := build_clear (clear_iff_regular.mpr (hregular.perm hperm))
      refine ⟨⟨pending others⟩, ?_, hregular.find?_perm hperm, hregular.sorted_perm hperm, ?_⟩
      · rw [hserved, hothers]
      · intro id children
        exact congrArg ("Block:" ++ ·) (hregular.text_perm hperm)
    · obtain ⟨error, herror⟩ := build_error_iff.mpr ⟨before, v, after, hsplit, hclash⟩
      rw [herror] at hscope
      cases hscope

-- A builder that has failed serves again: the second build has the two variables that were
-- added after the first, and the third reports the repeated name and not the bad one.
theorem build_pending_again :
    ∃ a b again bad : Variable, ∃ since later : List Request,
      a = ⟨⟨1⟩, "a", .int32⟩ ∧ b = ⟨⟨2⟩, "b", .int32⟩ ∧ again = ⟨⟨3⟩, "a", .float⟩ ∧
      bad = ⟨⟨4⟩, "1", .int32⟩ ∧ since = [.add bad, .add a, .build, .add b, .add a] ∧
      later = since ++ [.build, .add a, .add again, .add bad] ∧
      (serveAll {} since).build = (.ok ⟨[b, a]⟩, {}) ∧
      Scope.find? ⟨[b, a]⟩ "a" = some a ∧ (Scope.sorted ⟨[b, a]⟩).Perm [b, a] ∧
      (serveAll {} later).build.1 = .error { cause := .redeclaredVariable "a" } := by
  refine ⟨_, _, _, _, _, _, rfl, rfl, rfl, rfl, rfl, rfl, by decide, ?_⟩
  have hname : Identifier "a" := isIdentifier_iff.mp (by decide)
  have hclear : Clear [⟨⟨1⟩, "a", .int32⟩] :=
    clear_iff_regular.mpr ⟨by simpa using hname, List.nodup_singleton _⟩
  obtain ⟨-, hfind, hperm, -⟩ := (build_pending [.add ⟨⟨4⟩, "1", .int32⟩,
    .add ⟨⟨1⟩, "a", .int32⟩, .build, .add ⟨⟨2⟩, "b", .int32⟩, .add ⟨⟨1⟩, "a", .int32⟩]).2.2.2
      ⟨[⟨⟨2⟩, "b", .int32⟩, ⟨⟨1⟩, "a", .int32⟩]⟩ (by decide)
  refine ⟨(hfind _ _).mpr ⟨by decide, rfl⟩, hperm, ?_⟩
  refine ((build_pending _).2.2.1 _ ⟨⟨3⟩, "a", .float⟩ [⟨⟨4⟩, "1", .int32⟩] rfl hclear).2 hname ?_
  exact ⟨_, List.mem_singleton_self _, rfl⟩

end ScopeBuilder

end TreeLang
