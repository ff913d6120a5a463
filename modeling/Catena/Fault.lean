/-!
# Faults of the outside world

What files and streams can answer instead of data, with the wording in which messages quote them.
-/

namespace Catena

/-- Why a file or a stream could not be used. -/
inductive Fault
  /-- No file or directory has this path. -/
  | notFound
  /-- The path goes on after a regular file. -/
  | notDirectory
  /-- A directory was read as a file. -/
  | isDirectory
  /-- A component of the path is longer than a name can be. -/
  | nameTooLong
  /-- The path holds the character that ends a path for the system. -/
  | nulInPath
  /-- The bytes are not UTF-8 text. -/
  | notText
  /-- The output takes no more text. -/
  | sinkClosed
  /-- The output took the text but could not pass it on. -/
  | sinkNotFlushed
  deriving DecidableEq

/-- How messages quote a fault. -/
def Fault.text : Fault → String
  | .notFound => "No such file or directory (os error 2)"
  | .notDirectory => "Not a directory (os error 20)"
  | .isDirectory => "Is a directory (os error 21)"
  | .nameTooLong => "File name too long (os error 36)"
  | .nulInPath => "file name contained an unexpected NUL byte"
  | .notText => "stream did not contain valid UTF-8"
  | .sinkClosed => "sink closed"
  | .sinkNotFlushed => "sink not flushed"

end Catena
