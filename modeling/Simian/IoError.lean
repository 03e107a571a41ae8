/-!
# Failures of input and output

The kinds of failure that a system tells apart, and what is said of each.
-/

namespace Simian

/-- The reasons for which input or output fails. -/
inductive IoError where
  | notFound
  | permissionDenied
  | connectionRefused
  | alreadyExists
  | wouldBlock
  | invalidInput
  | invalidData
  | timedOut
  | writeZero
  | interrupted
  | unexpectedEof
  | outOfMemory
  | other
  | isADirectory
  | notADirectory
  | brokenPipe
  | unsupported
deriving DecidableEq, Inhabited

def IoError.message : IoError → String
  | notFound => "entity not found"
  | permissionDenied => "permission denied"
  | connectionRefused => "connection refused"
  | alreadyExists => "entity already exists"
  | wouldBlock => "operation would block"
  | invalidInput => "invalid input parameter"
  | invalidData => "invalid data"
  | timedOut => "timed out"
  | writeZero => "write zero"
  | interrupted => "operation interrupted"
  | unexpectedEof => "unexpected end of file"
  | outOfMemory => "out of memory"
  | other => "other error"
  | isADirectory => "is a directory"
  | notADirectory => "not a directory"
  | brokenPipe => "broken pipe"
  | unsupported => "unsupported"

end Simian
