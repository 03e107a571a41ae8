import Simian.Parser.Stream
import Simian.Text.Utf8

/-!
# Source files

What can be found under a path, and how it becomes a program. A file that is not
text is refused as a whole, wherever the fault lies.

Reading leaves it to a decoder how bytes become characters, and what is wrong
with those that do not.
-/

namespace Simian

/-- What is found under a path. -/
inductive FileState where
  | refused (error : IoError)
  | file (bytes : List UInt8)

namespace FileState

/-- Nothing has that path. -/
def missing : FileState := refused .notFound

/-- A directory can be opened but not read. -/
def directory : FileState := refused .isADirectory

/-- The text of a file. -/
def text? : FileState → Except IoError String
  | refused error => .error error
  | file bytes => String.ofList <$> Text.allChars (Text.decodeUtf8 bytes)

/-- The text of a file and the program it holds, which is read while `decode` turns
the bytes into characters. An error on the way is told when the parser is done. -/
def readWith (decode : List UInt8 → List (Except IoError Char)) :
    FileState → Except IoError (String × Parsed)
  | refused error => .error error
  | file bytes =>
    let (parsed, feed) := parseFeed (.ofItems (decode bytes))
    (fun text => (text, parsed)) <$> feed.outcome

/-- The text of a file and the program it holds. -/
def read? (file : FileState) : Except IoError (String × Parsed) :=
  file.readWith Text.decodeUtf8

end FileState

end Simian
