import TreeLang.Proofs.Builder.Declaring
import TreeLang.Proofs.Builder.FailedBuild

namespace TreeLang.FunctionBuilder

-- What a caller asks of a function builder between two builds.
inductive Request where
  | parameter (v : Variable)
  | declare (v : Variable)
  | child (e : Expr)
  | body (e : Expr)

namespace Request

def parameter? : Request → Option Variable
  | parameter v => some v
  | _ => none

def declared? : Request → Option Variable
  | declare v => some v
  | _ => none

end Request

def take (builder : FunctionBuilder) : Request → FunctionBuilder
  | .parameter v => builder.addParameter v
  | .declare v => { builder with block := builder.block.declare v }
  | .child e => { builder with block := builder.block.add e }
  | .body e => builder.withBody e

def collect (builder : FunctionBuilder) (since : List Request) : FunctionBuilder :=
  since.foldl take builder

-- The variables that are meant for the parameters, and for the block.

def parametersOf (since : List Request) : List Variable :=
  since.filterMap Request.parameter?

def declaredOf (since : List Request) : List Variable :=
  since.filterMap Request.declared?

section Collect

variable {builder : FunctionBuilder} {since : List Request}

theorem collect_cons (request : Request) :
    builder.collect (request :: since) = (builder.take request).collect since := rfl

theorem collect_parameters :
    (builder.collect since).parameters = builder.parameters.addAll (parametersOf since) := by
  induction since generalizing builder with
  | nil => rfl
  | cons request rest ih =>
      rw [collect_cons, ih]
      cases request <;> rfl

theorem collect_scope :
    (builder.collect since).block.scope = builder.block.scope.addAll (declaredOf since) := by
  induction since generalizing builder with
  | nil => rfl
  | cons request rest ih =>
      rw [collect_cons, ih]
      cases request <;> rfl

theorem parametersOf_regular (h : (builder.collect since).parameters.fault = none) :
    Scope.Regular ⟨parametersOf since⟩ := by
  rw [collect_parameters] at h
  exact (ScopeBuilder.addAll_of_no_fault h).2.2.1

theorem declaredOf_regular (h : (builder.collect since).block.scope.fault = none) :
    Scope.Regular ⟨declaredOf since⟩ := by
  rw [collect_scope] at h
  exact (ScopeBuilder.addAll_of_no_fault h).2.2.1

theorem find?_parametersOf (h : (builder.collect since).parameters.fault = none) :
    ∀ v ∈ parametersOf since,
      Scope.find? ⟨(builder.collect since).parameters.declared⟩ v.name = some v := by
  rw [collect_parameters] at h ⊢
  exact fun _ => ScopeBuilder.find?_addAll h

theorem find?_declaredOf (h : (builder.collect since).block.scope.fault = none) :
    ∀ v ∈ declaredOf since,
      Scope.find? ⟨(builder.collect since).block.scope.declared⟩ v.name = some v := by
  rw [collect_scope] at h ⊢
  exact fun _ => ScopeBuilder.find?_addAll h

end Collect

-- Whatever a builder has been through, and whatever is asked of it since: when it
-- builds a function, all parameters are there, and without a body of its own so is
-- all that the block was to declare. Of a block beside a body nothing is taken, and
-- so it keeps what was to be declared, and the fault there may be.
theorem build_collected (builder : FunctionBuilder) (since : List Request) (supply : Supply) :
    (∀ f left rest, (builder.collect since).build.effect supply = ((.ok f, left), rest) →
      (∀ v ∈ parametersOf since, f.parameters.find? v.name = some v) ∧
      ((builder.collect since).body = none →
        ∃ id scope children, f.body = .block id scope children ∧
          ∀ v ∈ declaredOf since, scope.find? v.name = some v) ∧
      ∀ body, (builder.collect since).body = some body →
        f.body = body ∧ left.block = (builder.collect since).block) ∧
    (¬ Scope.Regular ⟨parametersOf since⟩ →
      ∃ left, Refused left ((builder.collect since).build.effect supply)) ∧
    ((builder.collect since).body = none → ¬ Scope.Regular ⟨declaredOf since⟩ →
      ∃ left, Refused left ((builder.collect since).build.effect supply)) := by
  refine ⟨?_, ?_, ?_⟩
  · intro f left rest hbuild
    have houtcome := (builder.collect since).build_outcome supply
    rw [hbuild] at houtcome
    cases houtcome with
    | given hname hfault hbody hempty =>
        refine ⟨find?_parametersOf hfault, ?_, ?_⟩
        · simp [hbody]
        · intro body hgiven
          rw [hbody, Option.some.injEq] at hgiven
          exact ⟨hgiven, rfl⟩
    | collected hname hfault hbody hblock =>
        cases hblock with
        | built hscope hne =>
            refine ⟨find?_parametersOf hfault, ?_, ?_⟩
            · intro _
              exact ⟨_, _, _, rfl, find?_declaredOf hscope⟩
            · simp [hbody]
  · intro hirregular
    exact refused_iff.mpr (.inr (.inl fun hfault => hirregular (parametersOf_regular hfault)))
  · intro hbody hirregular
    have hfault : (builder.collect since).block.scope.fault ≠ none :=
      fun hfault => hirregular (declaredOf_regular hfault)
    exact refused_iff.mpr (.inr (.inr (.inr ⟨hbody, .inl hfault⟩)))

-- With a body of its own, a function is built although its block was to declare
-- two variables of one name, and neither is declared anywhere in it.
theorem build_ignores_block :
    let x : Variable := ⟨⟨1⟩, "x", .int32⟩
    let other : Variable := ⟨⟨2⟩, "x", .int32⟩
    let seven : Expr := .int32 ⟨1⟩ 7
    let since : List Request := [.declare x, .declare other, .body seven]
    let clash : ScopeBuilder :=
      { declared := [x], fault := some { cause := .redeclaredVariable "x" } }
    let new : FunctionBuilder := { name := "f", returnType := .int32 }
    let f : Function := ⟨⟨2⟩, "f", .int32, ⟨[]⟩, seven⟩
    (new.collect since).build.effect ⟨⟨2⟩, ⟨3⟩⟩ =
        ((.ok f, { new with block := { scope := clash } }), ⟨⟨3⟩, ⟨3⟩⟩) ∧
      declaredOf since = [x, other] ∧ ¬ Scope.Regular ⟨declaredOf since⟩ := by
  refine ⟨rfl, rfl, fun hregular => ?_⟩
  exact absurd hregular.distinct (by decide)

end TreeLang.FunctionBuilder
