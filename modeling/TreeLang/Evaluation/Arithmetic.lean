import TreeLang.Error
import TreeLang.Value

namespace TreeLang

namespace Operation

-- Integers wrap around; division truncates toward zero, and only the quotient
-- of the least integer by -1 wraps.
def onInt32 : Operation → Int32 → Int32 → Int32
  | add, l, r => l + r
  | sub, l, r => l - r
  | mul, l, r => l * r
  | div, l, r => l / r

def onFloat : Operation → Float32 → Float32 → Float32
  | add, l, r => l + r
  | sub, l, r => l - r
  | mul, l, r => l * r
  | div, l, r => l / r

def onDouble : Operation → Float → Float → Float
  | add, l, r => l + r
  | sub, l, r => l - r
  | mul, l, r => l * r
  | div, l, r => l / r

-- Two numbers of one type are combined in that type; only integers cannot be
-- divided by zero. The node is to blame for a failure.
def apply (operation : Operation) (left right : Value) (node : NodeId) : Except Error Value :=
  match left, right with
  | .int32 l, .int32 r =>
      if operation = div && r == 0 then .error { cause := .divisionByZero, node := some node }
      else .ok (.int32 (operation.onInt32 l r))
  | .float l, .float r => .ok (.float (operation.onFloat l r))
  | .double l, .double r => .ok (.double (operation.onDouble l r))
  | l, r =>
      if l.type = r.type then
        let case := s!"{operation.text} on {l.type.text}"
        .error { cause := .unhandledCase case, node := some node }
      else .error { cause := .operandMismatch l.type r.type, node := some node }

end Operation

-- The value of a variable of this type before any assignment.
def DataType.zero (type : DataType) (node : NodeId) : Except Error Value :=
  match type.zero? with
  | some value => .ok value
  | none => .error { cause := .unhandledCase type.text, node := some node }

end TreeLang
