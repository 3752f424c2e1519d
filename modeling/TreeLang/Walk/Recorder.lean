import TreeLang.Walk.Visitor

namespace TreeLang

-- The hooks of a visitor, told apart by the moment and, where it matters, by
-- the kind of the node.
inductive Hook where
  | setUp
  | cleanUp
  | enter
  | leave
  | discard
  | start (kind : Kind)
  | visit (kind : Kind)
  | finish (kind : Kind)
deriving DecidableEq, Repr

def Call.hook (call : Call) : Hook :=
  match call.moment with
  | .enter => .enter
  | .leave => .leave
  | .discard => .discard
  | .start => .start call.node.kind
  | .visit => .visit call.node.kind
  | .finish => .finish call.node.kind

-- Anything a visitor is told during a walk.
inductive Signal where
  | setUp
  | call (call : Call)
  | cleanUp

namespace Signal

def hook : Signal → Hook
  | setUp => .setUp
  | call c => c.hook
  | cleanUp => .cleanUp

def node? : Signal → Option NodeId
  | call c => some c.node.id
  | setUp | cleanUp => none

end Signal

-- The order to fail at the nth signal of a hook, counted from one.
structure Refusal where
  hook : Hook
  nth : Nat
  message : String
deriving DecidableEq, Repr

namespace Refusal

def due (hook : Hook) (refusal : Refusal) : Bool :=
  refusal.hook = hook && refusal.nth = 1

-- After a signal of its hook, a refusal waits for one signal less.
def countDown (hook : Hook) (refusal : Refusal) : Refusal :=
  if refusal.hook = hook then { refusal with nth := refusal.nth - 1 } else refusal

end Refusal

-- What a recorder has seen, the refusals it still has to make, and the state
-- of the visitor behind it.
structure Recording (σ : Type) where
  signals : Array Signal
  refusals : List Refusal
  inner : σ

namespace Recording

variable {σ : Type}

def inside (action : Action σ Unit) : Action (Recording σ) Unit :=
  ExceptT.mk fun recording => do
    let (result, inner) ← action.run.run recording.inner
    return (result, { recording with inner })

def receive (passes : Hook → Bool) (signal : Signal) (action : Action σ Unit) :
    Action (Recording σ) Unit := do
  let recording ← get
  set { recording with
    signals := recording.signals.push signal
    refusals := recording.refusals.map (Refusal.countDown signal.hook) }
  match recording.refusals.find? (Refusal.due signal.hook) with
  | some refusal => throw { cause := .invalidState refusal.message, node := signal.node? }
  | none => if passes signal.hook then inside action else pure ()

end Recording

-- Notes every signal, refuses those it was told to refuse, and passes on the
-- others that `passes` allows.
def recorder {σ : Type} (passes : Hook → Bool) (inner : Visitor σ) :
    Visitor (Recording σ) where
  setUp := Recording.receive passes .setUp inner.setUp
  call call := Recording.receive passes (.call call) (inner.call call)
  cleanUp := Recording.receive passes .cleanUp inner.cleanUp

end TreeLang
