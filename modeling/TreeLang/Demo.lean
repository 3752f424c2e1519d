import TreeLang.Draft
import TreeLang.Evaluation.Evaluate
import TreeLang.Print
import TreeLang.TypeCheck

namespace TreeLang.Demo

def entryPoint : String := "sample"

def declarations : List (String × DataType) :=
  [("var1", .int32), ("var2", .int32)]

-- var1 = 12; var2 = var1 * 6; return var2
def draft {ν : Type} (var1 var2 : ν) : ModuleDraft ν :=
  { name := "SampleModule",
    functions :=
      [{ name := entryPoint, returnType := .int32, parameters := [], declared := [var1, var2],
         children :=
           [.assign var1 (.int32 12),
            .assign var2 (.binary .mul (.ref var1) (.int32 6)),
            .ret (.ref var2)],
         body := none }] }

def construct : Action Supply Module := do
  match ← freshVariables declarations with
  | [var1, var2] => (draft var1 var2).construct id
  | _ => throw { cause := .invalidState "the sample has two variables" }

def sample : Outcome Module :=
  construct.startingFrom {}

def say (text : String) : Action String Unit :=
  modify (· ++ text)

-- The state is what has been printed so far; `elapsed` is the time of the check.
def present (elapsed : String) : Action String Unit := do
  let m ← Action.stateless sample
  say (← Action.stateless (prettyPrint (.module m)))
  Action.stateless (typeCheck (.module m))
  say s!"Type checked in {elapsed}\n"
  let value ← Action.stateless (evaluateFunction m entryPoint)
  say s!"Evaluator result: {value.text}\n"
  say "JIT disabled (built without the `llvm` feature)\n"

-- What a run prints in all, and whether it ends well.
def run (elapsed : String) : Logged (String × Bool) := do
  let (result, printed) ← (present elapsed).run.run ""
  match result with
  | .ok () => return (printed, true)
  | .error error => return (printed ++ error.report ++ "\n", false)

end TreeLang.Demo
