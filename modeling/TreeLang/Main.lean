import TreeLang.Demo

namespace TreeLang

-- A time with the largest unit that leaves a whole part, and no zeros at the end.
def elapsedText (nanoseconds : Nat) : String :=
  let render (unit : Nat) (name : String) :=
    let places := (toString unit).length - 1
    let rest := toString (nanoseconds % unit)
    let digits := List.replicate (places - rest.length) '0' ++ rest.toList
    let kept := (digits.reverse.dropWhile (· = '0')).reverse
    let fraction := if kept.isEmpty then "" else "." ++ String.ofList kept
    toString (nanoseconds / unit) ++ fraction ++ name
  if 1000000000 ≤ nanoseconds then render 1000000000 "s"
  else if 1000000 ≤ nanoseconds then render 1000000 "ms"
  else if 1000 ≤ nanoseconds then render 1000 "µs"
  else toString nanoseconds ++ "ns"

def verbosity? : List String → Option Verbosity
  | [] | ["off"] => some .off
  | ["debug"] => some .debug
  | ["trace"] => some .trace
  | _ => none

def componentText : Component → String
  | .builder => "builder"
  | .walker => "walker"
  | .typeChecker => "type checker"
  | .evaluator => "evaluator"

-- The time one check of the sample takes.
def timeOfCheck : IO Nat := do
  let check := do typeCheck (.module (← Demo.sample))
  let start ← IO.monoNanosNow
  let entries ← IO.lazyPure fun _ => check.run.log.length
  let stop ← IO.monoNanosNow
  return if entries = 0 then 0 else stop - start

end TreeLang

-- The argument says how much of the log goes to standard error.
def main (arguments : List String) : IO UInt32 := do
  match TreeLang.verbosity? arguments with
  | none =>
      IO.eprintln "usage: treelang [off|debug|trace]"
      return 2
  | some verbosity =>
      let elapsed := TreeLang.elapsedText (← TreeLang.timeOfCheck)
      let presented := TreeLang.Demo.run elapsed
      for entry in presented.log do
        if verbosity.shows entry.level then
          IO.eprintln
            s!"[{entry.level.text} {TreeLang.componentText entry.component}] {entry.message}"
      let (printed, endsWell) := presented.value
      IO.print printed
      return if endsWell then 0 else 1
