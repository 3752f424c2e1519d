import TreeLang.Value
import TreeLang.Action
import TreeLang.Identifier
import TreeLang.Walk.Recorder
import TreeLang.Walk.Walker
import TreeLang.TypeCheck
import TreeLang.Evaluation.Evaluate
import TreeLang.Print
import TreeLang.Main
import TreeLang.Evaluation.Direct
import TreeLang.Proofs.Effect
import TreeLang.Proofs.Tree.WellFormed
import TreeLang.Proofs.Walk.Traversal
import TreeLang.Proofs.Walk.Audit
import TreeLang.Proofs.Static.Judgement
import TreeLang.Proofs.Static.TypeChecking
import TreeLang.Proofs.Evaluation.Suppression
import TreeLang.Proofs.Evaluation.Agreement
import TreeLang.Proofs.Evaluation.Simulation
import TreeLang.Proofs.Evaluation.Refinement
import TreeLang.Proofs.Evaluation.Typing
import TreeLang.Proofs.Evaluation.Soundness
import TreeLang.Proofs.Evaluation.Liveness
import TreeLang.Proofs.Evaluation.Isolation
import TreeLang.Proofs.Builder.FailedBuild
import TreeLang.Proofs.Walk.Tour
import TreeLang.Proofs.Walk.Position
import TreeLang.Proofs.Builder.Declaring
import TreeLang.Proofs.Builder.Workshop
import TreeLang.Proofs.Builder.Regularity
import TreeLang.Proofs.Builder.Collecting
import TreeLang.Proofs.Evaluation.Composition
import TreeLang.Proofs.Evaluation.Raising
import TreeLang.Proofs.Evaluation.Resolving
import TreeLang.Proofs.Validity
import TreeLang.Proofs.Tree.Replace
import TreeLang.Proofs.Evaluation.Skipping
import TreeLang.Proofs.Evaluation.Noninterference
import TreeLang.Proofs.Evaluation.Moves
import TreeLang.Proofs.Evaluation.Discipline
import TreeLang.Proofs.Walk.Occurrence
import TreeLang.Proofs.Static.Enclosing
import TreeLang.Proofs.Evaluation.Lifetime
import TreeLang.Proofs.Builder.Ledger
import TreeLang.Proofs.Builder.Ownership
import TreeLang.Proofs.Builder.Numbering
import TreeLang.Proofs.Renaming.Basic
import TreeLang.Proofs.Renaming.Steps
import TreeLang.Proofs.Renaming.Following
import TreeLang.Proofs.Renaming.Evaluation
import TreeLang.Proofs.Renaming.Construction
import TreeLang.Proofs.Renaming.Script
import TreeLang.Proofs.Evaluation.Placement
import TreeLang.Proofs.Builder.Wrapping
import TreeLang.Proofs.Evaluation.Integers
import TreeLang.Proofs.Builder.Scoping
import TreeLang.Proofs.Tree.Rose
import TreeLang.Proofs.Printing.Plain
import TreeLang.Proofs.Printing.Layout
import TreeLang.Proofs.Builder.Conservation
import TreeLang.Proofs.Printing.Interruption
import TreeLang.Proofs.Walk.Transcript
import TreeLang.Proofs.Walk.Bracketing
import TreeLang.Proofs.Builder.Faults
import TreeLang.Proofs.Reporting.Lines
import TreeLang.Proofs.Reporting.Sources
