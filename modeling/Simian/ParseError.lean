import Simian.Token

/-!
# Parse errors

Why a statement could not be read, and at which token. The wording of each
error, of its label and of its note is fixed here.
-/

namespace Simian

/-- The reasons for which a statement cannot be read. -/
inductive ParseFault where
  /-- Another kind of token had to come next. -/
  | unexpectedToken (expected : String) (got : Token)
  /-- No expression begins with this token. -/
  | noExpression (token : Token)
  /-- The digits denote no 64-bit integer. -/
  | invalidInteger (literal : String)
deriving DecidableEq

/-- A fault and the span of the token that shows it. -/
structure ParseError where
  fault : ParseFault
  span : Span
deriving DecidableEq

namespace ParseFault

def message : ParseFault → String
  | unexpectedToken expected got =>
    "expected next token to be " ++ expected ++ ", got " ++ got.kind ++ " instead"
  | noExpression token => "no prefix parse function for " ++ token.kind ++ " found"
  | invalidInteger literal => "could not parse " ++ literal ++ " as integer"

/-- What stands under the source line that shows the fault. -/
def label : ParseFault → String
  | unexpectedToken .. => "Not expected this"
  | noExpression _ => "Cannot start an expression"
  | invalidInteger _ => "Integer literal out of range"

/-- A token as a note speaks of it. -/
def describeToken : Token → String
  | .int _ => "an Int"
  | .str _ => "a String"
  | .ident _ => "an Identifier"
  | .eof => "the end of input"
  | token =>
    if token.isReserved then "the keyword `" ++ token.literal ++ "`"
    else "`" ++ token.literal ++ "`"

/-- What is said below the source line. -/
def note : ParseFault → String
  | unexpectedToken expected got =>
    "Found " ++ describeToken got ++ ", expected `" ++ expected ++ "`"
  | noExpression token => "`" ++ token.literal ++ "` cannot begin an expression"
  | invalidInteger _ => "Integers must fit in 64 bits"

end ParseFault

def ParseError.message (e : ParseError) : String := e.fault.message

end Simian
