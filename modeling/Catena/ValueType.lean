/-!
# Types of values

The type tags that signatures, arrays and error messages use. `any` is not the type of a value: as a
condition it accepts every value, and it is the element type of an empty array.
-/

namespace Catena

/-- A type tag. -/
inductive ValueType
  | number
  | boolean
  | string
  | sequence
  | array
  | any
  deriving DecidableEq

namespace ValueType

/-- The name of a type in signatures and messages. -/
def name : ValueType → String
  | number => "num"
  | boolean => "bool"
  | string => "str"
  | sequence => "seq"
  | array => "array"
  | any => "any"

/-- Whether a condition of type `expected` accepts a value of type `found`. -/
def accepts (expected found : ValueType) : Bool :=
  expected == any || expected == found

end ValueType

end Catena
