import Catena.Fault
import Catena.Input

/-!
# The console

The text that a program has printed, the bytes that it can still read, and what may be wrong with
the output. A line is read up to and including its line feed; a line that is not UTF-8 is used up
all the same.
-/

namespace Catena

/-- What is wrong with the output. -/
inductive OutputFault
  /-- Nothing can be written. -/
  | write
  /-- Text is taken but never passed on. -/
  | flush
  deriving DecidableEq

/-- The streams of a program. -/
structure Console where
  printed : String := ""
  input : Input := {}
  fault : Option OutputFault := none

namespace Console

/-- Hands text to the output. Handing over nothing cannot fail. -/
def put (c : Console) (text : String) : Except Fault Unit × Console :=
  if text.isEmpty then (.ok (), c)
  else match c.fault with
    | some .write => (.error .sinkClosed, c)
    | _ => (.ok (), { c with printed := c.printed ++ text })

/-- Passes on all text handed over so far. -/
def flush (c : Console) : Except Fault Unit :=
  match c.fault with
  | some .flush => .error .sinkNotFlushed
  | _ => .ok ()

/-- Writes text and passes it on. -/
def write (c : Console) (text : String) : Except Fault Unit × Console :=
  match c.put text with
  | (.ok _, c) => (c.flush, c)
  | failed => failed

/-- The text that bytes spell in UTF-8. -/
def decode (bytes : List UInt8) : Except Fault String :=
  match String.fromUTF8? (ByteArray.mk bytes.toArray) with
  | some text => .ok text
  | none => .error .notText

/-- The lines of some bytes, without their line feeds. -/
def lines (bytes : List UInt8) : List (List UInt8) :=
  bytes.foldr
    (fun b rest => if b = lineFeed then [] :: rest else (b :: rest.headD []) :: rest.tail) [[]]

/-- Reads a line for a native function, with its line feed; at the end of the input it is empty. -/
def readLine (c : Console) : Except Fault String × Console :=
  let (line, input) := c.input.nativeLine
  (decode line, { c with input })

/-- Takes the printed text out of the console. -/
def drain (c : Console) : String × Console :=
  (c.printed, { c with printed := "" })

end Console

end Catena
