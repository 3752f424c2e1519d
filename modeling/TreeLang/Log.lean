namespace TreeLang

inductive Level where
  | debug
  | trace
deriving DecidableEq, Repr

def Level.text : Level → String
  | debug => "DEBUG"
  | trace => "TRACE"

-- How much of the log is shown.
inductive Verbosity where
  | off
  | debug
  | trace
deriving DecidableEq, Repr

def Verbosity.shows : Verbosity → Level → Bool
  | off, _ => false
  | debug, level => level = .debug
  | trace, _ => true

-- The part of the program that wrote an entry.
inductive Component where
  | builder
  | walker
  | typeChecker
  | evaluator
deriving DecidableEq, Repr

structure Entry where
  level : Level
  component : Component
  message : String
deriving DecidableEq, Repr

-- A result and the entries written on the way to it, in order. The entries are
-- only ever added to, so no result can depend on what was written before.
structure Logged (α : Type) where
  value : α
  log : List Entry := []
deriving DecidableEq, Repr

namespace Logged

variable {α β : Type}

instance : Monad Logged where
  pure value := { value }
  bind logged next :=
    let continued := next logged.value
    { value := continued.value, log := logged.log ++ continued.log }

theorem value_bind (logged : Logged α) (next : α → Logged β) :
    (logged >>= next).value = (next logged.value).value := rfl

theorem log_bind (logged : Logged α) (next : α → Logged β) :
    (logged >>= next).log = logged.log ++ (next logged.value).log := rfl

instance : LawfulMonad Logged :=
  LawfulMonad.mk' Logged
    (fun logged => by
      cases logged
      exact congrArg _ (List.append_nil _))
    (fun _ _ => rfl)
    (fun _ _ _ => congrArg _ (List.append_assoc _ _ _))

end Logged

def emit (entry : Entry) : Logged Unit :=
  { value := (), log := [entry] }

end TreeLang
