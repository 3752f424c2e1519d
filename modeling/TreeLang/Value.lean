import TreeLang.DataType
import TreeLang.Decimal.Fixed

namespace TreeLang

-- A scalar an expression evaluates to.
inductive Value where
  | void
  | bool (b : Bool)
  | int32 (n : Int32)
  | float (x : Float32)
  | double (x : Float)
deriving DecidableEq, Repr

-- What a variable holds before it is assigned; a pointer has no value at all.
def DataType.zero? : DataType → Option Value
  | .void => some .void
  | .bool => some (.bool false)
  | .int32 => some (.int32 0)
  | .float => some (.float 0)
  | .double => some (.double 0)
  | .pointer => none

namespace Value

def type : Value → DataType
  | void => .void
  | bool _ => .bool
  | int32 _ => .int32
  | float _ => .float
  | double _ => .double

-- The program's own equality: numbers of one type compare as numbers, so NaN
-- differs from itself and the two zeros are equal.
def same : Value → Value → Bool
  | void, void => true
  | bool a, bool b => a == b
  | int32 a, int32 b => a == b
  | float a, float b => a == b
  | double a, double b => a == b
  | _, _ => false

-- `true` and every number but zero choose the true part of a conditional.
def truthy : Value → Bool
  | void => false
  | bool b => b
  | int32 n => n != 0
  | float x => x != 0
  | double x => x != 0

def int32? : Value → Option Int32
  | int32 n => some n
  | _ => none

def float? : Value → Option Float32
  | float x => some x
  | _ => none

def double? : Value → Option Float
  | double x => some x
  | _ => none

end Value

-- Six places are written of every floating-point number.
def singleText (x : Float32) : String :=
  Decimal.fixed Decimal.single 6 x.toBits.toNat

def doubleText (x : Float) : String :=
  Decimal.fixed Decimal.double 6 x.toBits.toNat

def Value.text : Value → String
  | void => "void"
  | bool true => "true"
  | bool false => "false"
  | int32 n => toString n
  | float x => singleText x
  | double x => doubleText x

end TreeLang
