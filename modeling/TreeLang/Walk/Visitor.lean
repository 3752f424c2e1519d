import TreeLang.Walk.Step

namespace TreeLang

-- What is done at the calls of a walk. Any of them may fail, which ends the
-- walk; `cleanUp` is called even then.
structure Visitor (σ : Type) where
  setUp : Action σ Unit := pure ()
  call : Call → Action σ Unit := fun _ => pure ()
  cleanUp : Action σ Unit := pure ()

namespace Visitor

variable {σ : Type}

-- Nothing is done at any call.
def idle : Visitor σ := {}

def step (visitor : Visitor σ) : Step → Action σ Unit
  | .call call => visitor.call call
  | .note entry => emit entry
  | .fail error => throw error

def traverse (visitor : Visitor σ) (steps : List Step) : Action σ Unit :=
  steps.forM visitor.step

end Visitor

def walkStarted (root : Node) : Entry :=
  { level := .debug, component := .walker, message := s!"walking tree rooted at {root.label}" }

def walkEnded (root : Node) : Except Error Unit → Entry
  | .ok () =>
      { level := .debug, component := .walker, message := s!"finished walking {root.label}" }
  | .error error =>
      { level := .debug, component := .walker,
        message := s!"walk of {root.label} failed: {error.cause.name}" }

-- A walk over the tree below `root`. The first error is the result: one of the
-- clean-up counts only if nothing failed before it.
def walk {σ : Type} (visitor : Visitor σ) (root : Node) : Action σ Unit :=
  ExceptT.mk do
    emit (walkStarted root)
    let traversed ← ExceptT.run do
      visitor.setUp
      visitor.traverse root.steps
    let cleaned ← visitor.cleanUp.run
    emit (walkEnded root traversed)
    return traversed *> cleaned

end TreeLang
