namespace TreeLang

-- The static type of an expression or a variable. Variables can be declared
-- with every one of them, but no value is a pointer.
inductive DataType where
  | void
  | bool
  | int32
  | pointer
  | float
  | double
deriving DecidableEq, Repr

-- The arithmetic a binary expression performs.
inductive Operation where
  | add
  | sub
  | mul
  | div
deriving DecidableEq, Repr

namespace DataType

def text : DataType → String
  | void => "void"
  | bool => "Bool"
  | int32 => "Int32"
  | pointer => "Pointer"
  | float => "Float"
  | double => "Double"

def isNumeric : DataType → Bool
  | int32 | float | double => true
  | void | bool | pointer => false

end DataType

namespace Operation

def text : Operation → String
  | add => "Add"
  | sub => "Sub"
  | mul => "Mul"
  | div => "Div"

end Operation

end TreeLang
