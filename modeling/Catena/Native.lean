import Catena.ValueType

/-!
# Native functions

The functions that the language provides itself, grouped into namespaces: what each is called, what
it may use, and which types it asks for on the stack. What they do is in `Catena.Library`.
-/

namespace Catena

/-- The streams that a function may use. -/
structure Access where
  output : Bool
  input : Bool
  deriving DecidableEq

namespace Access

/-- No stream at all. -/
def nothing : Access := ⟨false, false⟩

/-- Writes only. -/
def printing : Access := ⟨true, false⟩

/-- Writes and reads. -/
def dialogue : Access := ⟨true, true⟩

end Access

/-- The native functions. -/
inductive Native
  | dup
  | dup2
  | discard
  | swap
  | rotate
  | print
  | println
  | inputNumber
  | inputString
  | exec
  | repeated
  | curry
  | arrayLength
  | arrayPush
  | arrayPop
  | arrayMap
  | lower
  | upper
  | reverse
  | format
  | random
  | floor
  | printStack
  | printArray
  deriving DecidableEq

/-- How a native function is found and called. -/
structure NativeEntry where
  /-- The namespace that holds the function. -/
  home : String
  name : String
  access : Access
  /-- The types asked for on the stack, top first. -/
  pre : List ValueType

namespace Native

/-- The entry of each native function. -/
def entry : Native → NativeEntry
  | dup => ⟨"stack", "dup", .nothing, [.any]⟩
  | dup2 => ⟨"stack", "dup2", .nothing, [.any, .any]⟩
  | discard => ⟨"stack", "pop", .nothing, [.any]⟩
  | swap => ⟨"stack", "swap", .nothing, [.any, .any]⟩
  | rotate => ⟨"stack", "rotate", .nothing, [.any, .any, .any]⟩
  | print => ⟨"io", "print", .printing, [.any]⟩
  | println => ⟨"io", "println", .printing, [.any]⟩
  | inputNumber => ⟨"io", "input_num", .dialogue, [.string]⟩
  | inputString => ⟨"io", "input_str", .dialogue, [.string]⟩
  | exec => ⟨"sequences", "exec", .nothing, [.sequence]⟩
  | repeated => ⟨"sequences", "repeat", .nothing, [.sequence, .number]⟩
  | curry => ⟨"sequences", "curry", .nothing, [.sequence, .any]⟩
  | arrayLength => ⟨"arrays", "len", .nothing, [.array]⟩
  | arrayPush => ⟨"arrays", "push", .nothing, [.any, .array]⟩
  | arrayPop => ⟨"arrays", "pop", .nothing, [.array]⟩
  | arrayMap => ⟨"arrays", "map", .nothing, [.sequence, .array]⟩
  | lower => ⟨"strings", "lower", .nothing, [.string]⟩
  | upper => ⟨"strings", "upper", .nothing, [.string]⟩
  | reverse => ⟨"strings", "reverse", .nothing, [.string]⟩
  | format => ⟨"strings", "sformat", .nothing, [.string]⟩
  | random => ⟨"maths", "random", .nothing, [.number, .number]⟩
  | floor => ⟨"maths", "floor", .nothing, [.number]⟩
  | printStack => ⟨"debug", "print_stack", .printing, []⟩
  | printArray => ⟨"debug", "print_array", .printing, [.array]⟩

/-- Every native function, in the order in which names are listed. -/
def all : List Native :=
  [dup, dup2, discard, swap, rotate, print, println, inputNumber, inputString, exec, repeated,
    curry, arrayLength, arrayPush, arrayPop, arrayMap, lower, upper, reverse, format, random, floor,
    printStack, printArray]

/-- The native function of a namespace with the given name. -/
def find? (home name : String) : Option Native :=
  all.find? fun n => n.entry.home == home && n.entry.name == name

/-- The native functions of a namespace. -/
def members (home : String) : List Native :=
  all.filter (·.entry.home == home)

end Native

end Catena
