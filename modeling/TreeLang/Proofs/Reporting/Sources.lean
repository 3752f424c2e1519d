import TreeLang.Proofs.Builder.Faults
import TreeLang.Proofs.Builder.Wrapping
import TreeLang.Proofs.Printing.Interruption
import TreeLang.Proofs.Reporting.Lines
import TreeLang.Proofs.Validity

namespace TreeLang

open TreeLang.Action

namespace Error

-- The name that an error shows as it is although nothing is known of it: that of a variable
-- that is not declared where it is used, of a function that is not there, or of anything
-- that may not be called so.
inductive Names : Error → String → Prop where
  | undeclared (name : String) (node : Option NodeId) :
      Names { cause := .undeclaredVariable name, node } name
  | missing (name : String) (node : Option NodeId) :
      Names { cause := .missingEntryPoint name, node } name
  | invalid {argument name : String} {error : Error}
      (hargument : argument ∈ ["variable", "function", "module"])
      (h : checkIdentifier argument name = .error error) : Names error name

-- What an error shows as it is is on one line, unless it is such a name.
def Attributed (error : Error) : Prop :=
  (∀ text ∈ error.cause.raw, Unbroken text) ∨ ∃ name, error.Names name

variable {error : Error}

theorem Names.unbroken_iff {name : String} (h : error.Names name) :
    (∀ text ∈ error.cause.raw, Unbroken text) ↔ Unbroken name := by
  cases h with
  | undeclared name node => exact List.forall_mem_singleton
  | missing name node => exact List.forall_mem_singleton
  | invalid hargument h =>
      rw [checkIdentifier, isIdentifier_of_error h] at h
      obtain rfl := Except.error.inj h
      have harguments : ∀ text ∈ ["variable", "function", "module"], Unbroken text := by decide
      have hopen : Unbroken "`" := by decide
      have hclose : Unbroken "` is not a valid identifier" := by decide +kernel
      simp [Cause.raw, Text.toString_text, harguments _ hargument, hopen, hclose]

theorem Attributed.kept_iff (h : error.Attributed) :
    error.Kept ↔ ∀ name, error.Names name → Unbroken name := by
  rw [Error.kept_iff]
  constructor
  · exact fun hall name hname => hname.unbroken_iff.mp hall
  · intro hnames
    rcases h with hall | ⟨name, hname⟩
    · exact hall
    · exact hname.unbroken_iff.mpr (hnames name hname)

theorem attributed_of_raw_eq_nil (h : error.cause.raw = []) : error.Attributed :=
  .inl (by simp [h])

-- A name that is declared already has been checked.
theorem attributed_of_identifier {name : String} (h : error.cause.raw = [name])
    (hname : Identifier name) : error.Attributed := by
  refine .inl ?_
  rw [h]
  exact List.forall_mem_singleton.mpr hname.plain.unbroken

end Error

open Error (Attributed attributed_of_raw_eq_nil attributed_of_identifier)

section Construction

theorem checkIdentifier_attributed {argument name : String} {error : Error}
    (hargument : argument ∈ ["variable", "function", "module"])
    (h : checkIdentifier argument name = .error error) : error.Attributed :=
  .inr ⟨name, .invalid hargument h⟩

theorem ScopeBuilder.fault?_attributed {declared : List Variable} {v : Variable} {error : Error}
    (h : fault? declared v = some error) : error.Attributed := by
  rcases fault?_cases h with hname | ⟨hname, rfl⟩
  · exact checkIdentifier_attributed (by simp) hname
  · exact attributed_of_identifier rfl hname

theorem ScopeBuilder.Justified.attributed {builder : ScopeBuilder} (h : builder.Justified)
    {error : Error} (hfault : builder.fault = some error) : error.Attributed := by
  obtain ⟨declared, v, herror⟩ := h error hfault
  exact fault?_attributed herror

theorem BlockBuilder.Outcome.attributed {builder : BlockBuilder} {supply : Supply}
    {outcome : (Except Error Expr × BlockBuilder) × Supply} (h : builder.Outcome supply outcome)
    (hscope : builder.scope.Justified) {error : Error} (herror : outcome.1.1 = .error error) :
    error.Attributed := by
  cases h with
  | scopeFault hfault =>
      obtain rfl := Except.error.inj herror
      exact hscope.attributed hfault
  | empty hfault hempty =>
      obtain rfl := Except.error.inj herror
      exact attributed_of_raw_eq_nil rfl
  | built hfault hne => cases herror

theorem FunctionBuilder.twoBodies_attributed : twoBodies.Attributed := by
  have htexts : ∀ text ∈ twoBodies.cause.raw, Unbroken text :=
    List.forall_mem_cons.mpr ⟨by decide, List.forall_mem_singleton.mpr (by decide +kernel)⟩
  exact .inl htexts

theorem FunctionBuilder.Outcome.attributed {builder : FunctionBuilder} {supply : Supply}
    {outcome : (Except Error Function × FunctionBuilder) × Supply}
    (h : builder.Outcome supply outcome)
    (hscopes : builder.parameters.Justified ∧ builder.block.scope.Justified) {error : Error}
    (herror : outcome.1.1 = .error error) : error.Attributed := by
  cases h with
  | misnamed hname =>
      obtain rfl := Except.error.inj herror
      exact checkIdentifier_attributed (by simp) hname
  | parameterFault hname hfault =>
      obtain rfl := Except.error.inj herror
      exact hscopes.1.attributed hfault
  | twoBodies hname hfault hbody hne =>
      obtain rfl := Except.error.inj herror
      exact twoBodies_attributed
  | blockFault hname hfault hbody houtcome =>
      obtain rfl := Except.error.inj herror
      exact houtcome.attributed hscopes.2 rfl
  | given hname hfault hbody hempty => cases herror
  | collected hname hfault hbody hblock => cases herror

theorem ModuleBuilder.Outcome.attributed {builder : ModuleBuilder} {supply : Supply}
    {outcome : (Except Error Module × ModuleBuilder) × Supply}
    (h : builder.Outcome supply outcome) (hproper : builder.Proper) {error : Error}
    (herror : outcome.1.1 = .error error) : error.Attributed := by
  cases h with
  | misnamed hname =>
      obtain rfl := Except.error.inj herror
      exact checkIdentifier_attributed (by simp) hname
  | @duplicate f hname hduplicate =>
      obtain rfl := Except.error.inj herror
      have hf := hproper f (mem_of_duplicate? hduplicate)
      have hidentifier : Identifier f.name := (hf _ (Node.function f).self_mem_preorder).1
      exact attributed_of_identifier rfl hidentifier
  | built hname hdistinct => cases herror

-- A wrapper has one child and no variables, so that only its names can be wrong.
theorem expressionModule_attributed {moduleName functionName : String} {e : Expr}
    {supply : Supply} {error : Error}
    (h : (effect (expressionModule moduleName functionName e) supply).1 = .error error) :
    error.Attributed := by
  cases hfunction : checkIdentifier "function" functionName with
  | error raised =>
      simp only [expressionModule, FunctionBuilder.build, hfunction] at h
      obtain rfl := Except.error.inj h
      exact checkIdentifier_attributed (by simp) hfunction
  | ok _ =>
      cases hmodule : checkIdentifier "module" moduleName with
      | error raised =>
          simp only [expressionModule, FunctionBuilder.build, ModuleBuilder.build,
            ModuleBuilder.takeParts, hfunction, hmodule] at h
          obtain rfl := Except.error.inj h
          exact checkIdentifier_attributed (by simp) hmodule
      | ok _ =>
          have hm := isIdentifier_iff.mp (isIdentifier_of_ok hmodule)
          have hf := isIdentifier_iff.mp (isIdentifier_of_ok hfunction)
          rw [effect_expressionModule hm hf] at h
          cases h

end Construction

section Consumption

variable {root : Node} {error : Error}

-- A name is shadowed by a declaration of the same name, which has been checked.
theorem Node.Proper.fault_attributed (h : root.Proper) (hfault : root.fault? = some error) :
    error.Attributed := by
  rw [Node.fault?, root.steps_judge.fault] at hfault
  obtain ⟨before, ⟨scopes, e⟩, after, hsplit, herror, -⟩ := List.findSome?_eq_some_iff.mp hfault
  have hsite : root.Contains ⟨scopes, e⟩ := Node.mem_sites_iff.mp (by simp [hsplit])
  cases Site.violates_of_error? herror with
  | undeclared hused hnone => exact .inr ⟨_, .undeclared _ _⟩
  | shadowed hused hinner hfound hother =>
      exact attributed_of_identifier rfl (h.identifier_of_find? hsite (by simp) hfound)
  | mismatched htypes => exact attributed_of_raw_eq_nil rfl

theorem Operation.apply_attributed {operation : Operation} {l r : Value} {id : NodeId}
    (h : operation.apply l r id = .error error) : error.Attributed := by
  rcases Operation.apply_error h with rfl | rfl | rfl
  · exact attributed_of_raw_eq_nil rfl
  · have hcase : Unbroken (operation.text ++ " on " ++ l.type.text) := by
      simp only [unbroken_append_iff, unbroken_type, and_true]
      exact ⟨(plain_operation operation).unbroken, by decide⟩
    exact .inl (List.forall_mem_singleton.mpr hcase)
  · exact attributed_of_raw_eq_nil rfl

theorem DataType.zero_attributed {type : DataType} {id : NodeId}
    (h : type.zero id = .error error) : error.Attributed := by
  obtain rfl := DataType.zero_error h
  exact .inl (List.forall_mem_singleton.mpr (unbroken_type type))

theorem Expr.Raises.attributed {e : Expr} (h : e.Raises error) : error.Attributed := by
  cases h with
  | operation h => exact Operation.apply_attributed h
  | read h => exact DataType.zero_attributed h
  | missing h => exact DataType.zero_attributed h

theorem Error.Stuck.attributed (h : error.Stuck) : error.Attributed := by
  refine .inl ?_
  rcases h with h | h | h <;> rw [h] <;> exact List.forall_mem_singleton.mpr (by decide)

theorem writeError_attributed (node : Node) : (writeError node).Attributed :=
  .inl (List.forall_mem_singleton.mpr (by decide +kernel))

theorem evaluator_attributed (h : evaluator.Raises error) : error.Attributed := by
  obtain ⟨m, hset | ⟨c, hcall⟩ | hclean⟩ := h
  · cases hset
  · rcases Machine.evaluator_raises_or_stuck c m error _ (Prod.ext hcall rfl) with
      ⟨e, -, hraises⟩ | hstuck
    · exact hraises.attributed
    · exact hstuck.attributed
  · cases hclean

theorem evaluate_attributed (hroot : root.Proper) {m : Machine}
    (h : (effect (evaluate root) m).1 = .error error) : error.Attributed := by
  rcases hwalk : effect (walk evaluator root) m with ⟨raised | _, left⟩
  · rw [evaluate, effect_bind_error hwalk] at h
    obtain rfl := Except.error.inj h
    rcases walk_error (congrArg Prod.fst hwalk) with hfault | hraises
    · exact hroot.fault_attributed hfault
    · exact evaluator_attributed hraises
  · rw [evaluate, effect_bind_ok hwalk] at h
    exact (Machine.takeResult_stuck left error _ (Prod.ext h rfl)).attributed

theorem evaluateFunction_attributed {mod : Module} {name : String}
    (hroot : (Node.module mod).Proper)
    (h : (evaluateFunction mod name).run.value = .error error) : error.Attributed := by
  cases hfind : mod.find? name with
  | none =>
      simp only [evaluateFunction, hfind] at h
      obtain rfl := Except.error.inj h
      exact .inr ⟨name, .missing _ _⟩
  | some f =>
      have hf : (Node.function f).Proper :=
        (Node.proper_iff.mp hroot).2 _ (List.mem_map_of_mem (List.mem_of_find?_eq_some hfind))
      rw [value_evaluateFunction hfind] at h
      rcases hvalue : (effect (evaluate (.function f)) {}).1 with raised | value
      · rw [hvalue] at h
        obtain rfl := Except.error.inj h
        exact evaluate_attributed hf hvalue
      · rw [hvalue] at h
        dsimp only at h
        split at h
        · cases h
        · split at h
          · cases h
          · obtain rfl := Except.error.inj h
            exact attributed_of_raw_eq_nil rfl

theorem printer_attributed (hroot : root.Proper) {ω : Type} {sink : Sink ω} {s : ω}
    (h : (effect (walk (printer sink) root) s).1 = .error error) : error.Attributed := by
  have hwrites := walk_printer_writes sink root s
  generalize effect (walk (printer sink) root) s = outcome at hwrites h
  cases hwrites with
  | whole hfeed =>
      rw [value_typeCheck, verdict_eq_error_iff] at h
      exact hroot.fault_attributed h
  | broken hentries hbefore hrejects =>
      obtain rfl := Except.error.inj h
      exact writeError_attributed _

end Consumption

-- The errors that come from the building, the checking, the printing and the evaluation of
-- trees, whatever the variables, the functions and the modules are called. Of those that
-- end a walk, the ones that the visitor has made up are left out.
inductive Returned (error : Error) : Prop where
  | scope {w : Workshop} {builder : ScopeBuilder} (hw : w.Reachable)
      (hbuilder : builder ∈ w.scopeBuilders) (hrun : builder.build.1 = .error error)
  | block {w : Workshop} {builder : BlockBuilder} {supply : Supply} (hw : w.Reachable)
      (hbuilder : builder ∈ w.blockBuilders)
      (hrun : (builder.build.effect supply).1.1 = .error error)
  | functionBlock {w : Workshop} {builder : FunctionBuilder} {supply : Supply} (hw : w.Reachable)
      (hbuilder : builder ∈ w.functionBuilders)
      (hrun : (builder.block.build.effect supply).1.1 = .error error)
  | function {w : Workshop} {builder : FunctionBuilder} {supply : Supply} (hw : w.Reachable)
      (hbuilder : builder ∈ w.functionBuilders)
      (hrun : (builder.build.effect supply).1.1 = .error error)
  | module {w : Workshop} {builder : ModuleBuilder} {supply : Supply} (hw : w.Reachable)
      (hbuilder : builder ∈ w.moduleBuilders)
      (hrun : (builder.build.effect supply).1.1 = .error error)
  | wrapping {moduleName functionName : String} {e : Expr} {supply : Supply}
      (hrun : (effect (expressionModule moduleName functionName e) supply).1 = .error error)
  | walking {σ : Type} {visitor : Visitor σ} {root : Node} {s : σ} (hroot : root.Built)
      (hown : ¬ visitor.Raises error) (hrun : (effect (walk visitor root) s).1 = .error error)
  | checking {root : Node} (hroot : root.Built) (hrun : (typeCheck root).run.value = .error error)
  | printing {ω : Type} {sink : Sink ω} {root : Node} {s : ω} (hroot : root.Built)
      (hrun : (effect (walk (printer sink) root) s).1 = .error error)
  | evaluating {root : Node} {m : Machine} (hroot : root.Built)
      (hrun : (effect (evaluate root) m).1 = .error error)
  | calling {mod : Module} {name : String} (hroot : (Node.module mod).Built)
      (hrun : (evaluateFunction mod name).run.value = .error error)

theorem Returned.attributed {error : Error} (h : Returned error) : error.Attributed := by
  cases h with
  | scope hw hbuilder hrun =>
      obtain ⟨declared, v, herror⟩ := (hw.justified.scopeBuilders _ hbuilder).build hrun
      exact ScopeBuilder.fault?_attributed herror
  | @block w builder supply hw hbuilder hrun =>
      have hscope := hw.justified.blockBuilders builder hbuilder
      exact (builder.build_outcome supply).attributed hscope hrun
  | @functionBlock w builder supply hw hbuilder hrun =>
      have hscopes := hw.justified.functionBuilders builder hbuilder
      exact (builder.block.build_outcome supply).attributed hscopes.2 hrun
  | @function w builder supply hw hbuilder hrun =>
      have hscopes := hw.justified.functionBuilders builder hbuilder
      exact (builder.build_outcome supply).attributed hscopes hrun
  | @module w builder supply hw hbuilder hrun =>
      have hproper := hw.proper.moduleBuilders builder hbuilder
      exact (builder.build_outcome supply).attributed hproper hrun
  | wrapping hrun => exact expressionModule_attributed hrun
  | walking hroot hown hrun =>
      rcases walk_error hrun with hfault | hraises
      · exact hroot.proper.fault_attributed hfault
      · exact absurd hraises hown
  | checking hroot hrun =>
      rw [value_typeCheck, verdict_eq_error_iff] at hrun
      exact hroot.proper.fault_attributed hrun
  | printing hroot hrun => exact printer_attributed hroot.proper hrun
  | evaluating hroot hrun => exact evaluate_attributed hroot.proper hrun
  | calling hroot hrun => exact evaluateFunction_attributed hroot.proper hrun

-- A report starts with the name of the error. It has its two or three lines and no other,
-- unless a text with a line break is shown as it is, and then it has lines too many. Where
-- the error comes from the program itself, only a name of which nothing is known can be
-- such a text.
theorem report_lines (error : Error) :
    (error.lines.length = if error.node = none then 2 else 3) ∧
    (∃ rest others,
      Text.lines error.report = ("Error: " ++ error.cause.name ++ rest) :: others) ∧
    (¬ error.Kept → error.lines.length < (Text.lines error.report).length) ∧
    (error.Kept ↔ ∀ text ∈ error.cause.raw, Unbroken text) ∧
    (Returned error → (error.Kept ↔ ∀ name, error.Names name → Unbroken name)) :=
  ⟨Error.length_lines, error.lines_report_head, Error.length_lt_of_not_kept, Error.kept_iff,
    fun h => h.attributed.kept_iff⟩

theorem Node.built_ref (v : Variable) : (Node.expr (.ref ⟨1⟩ v)).Built := by
  have hkind : (Expr.ref ⟨1⟩ v).kind ≠ .block := Kind.noConfusion
  have hmade := Workshop.Reachable.start.step (.node hkind rfl (.refl _))
  exact ⟨_, hmade, _, by simp [Workshop.held], Node.self_mem_preorder _⟩

-- A name that could never be declared, but has no line break.
theorem report_lines_tab :
    let x : Variable := ⟨⟨1⟩, "a\tb", .int32⟩
    let error : Error := { cause := .undeclaredVariable x.name, node := some ⟨1⟩ }
    Returned error ∧ error.Kept ∧
      error.lines =
        ["Error: VariableNotDeclared (Variable `a\tb` is not declared in any enclosing scope)",
          "-> at node #1", "   variable \"a\\tb\" was not defined"] := by
  intro x error
  have hreturned : Returned error := .checking (Node.built_ref x) (by decide +kernel)
  have hraw : ∀ text ∈ error.cause.raw, Unbroken text := by decide
  obtain ⟨-, -, -, -, hnamed⟩ := report_lines error
  have hkept : error.Kept := (hnamed hreturned).mpr fun name hname => hname.unbroken_iff.mp hraw
  exact ⟨hreturned, hkept, by decide +kernel⟩

-- A name with two line breaks adds two lines to the report, of which one reads like the
-- line of another node.
theorem report_lines_forged :
    let x : Variable := ⟨⟨1⟩, "x\n-> at node #9\n", .int32⟩
    let root : Node := .expr (.ref ⟨1⟩ x)
    let error : Error := { cause := .undeclaredVariable x.name, node := some ⟨1⟩ }
    root.Built ∧ (typeCheck root).run.value = .error error ∧ Returned error ∧
      Text.lines error.report =
        ["Error: VariableNotDeclared (Variable `x", "-> at node #9",
          "` is not declared in any enclosing scope)", "-> at node #1",
          "   variable \"x\\n-> at node #9\\n\" was not defined"] ∧
      ¬ error.Kept := by
  intro x root error
  have hbuilt : root.Built := Node.built_ref x
  have hcheck : (typeCheck root).run.value = .error error := by decide +kernel
  have hbroken : ¬ error.Kept := by
    rw [Error.kept_iff]
    decide
  exact ⟨hbuilt, hcheck, .checking hbuilt hcheck, by decide +kernel, hbroken⟩

end TreeLang
