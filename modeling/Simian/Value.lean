import Simian.Tree

/-!
# Values

What expressions evaluate to. Arrays, hashes, functions, macros and quotes each
carry an identity, given when they are made and kept when they are passed on;
closures refer to the scope they were made in by its number.

Two values are signals rather than data: `returned` on its way out of the
function that returned it, and `error`.
-/

namespace Simian

/-- The number of a scope in the store. -/
abbrev ScopeId := Nat

/-- The identity of a value that is made and not merely computed. -/
abbrev Identity := Nat

/-- The kinds of values. -/
inductive Kind where
  | integer
  | string
  | boolean
  | null
  | array
  | hash
  | function
  | builtin
  | returned
  | error
  | quote
  | macroKind
deriving DecidableEq, Inhabited

/-- The name of a kind in messages. -/
def Kind.name : Kind → String
  | integer => "INTEGER"
  | string => "STRING"
  | boolean => "BOOLEAN"
  | null => "NULL"
  | array => "ARRAY"
  | hash => "HASH"
  | function => "FUNCTION"
  | builtin => "BUILTIN"
  | returned => "RETURN_VALUE"
  | error => "ERROR"
  | quote => "QUOTE"
  | macroKind => "MACRO"

/-- What a hash knows of a key: its kind and a 64-bit digest of its contents. -/
structure HashKey where
  kind : Kind
  digest : UInt64
deriving DecidableEq, Inhabited

/-- One pair of a hash, under the hash key it is stored by. -/
structure Entry (α : Type) where
  hashKey : HashKey
  key : α
  value : α

/-- The functions that every program has. -/
inductive Builtin where
  | len
  | first
  | last
  | rest
  | push
  | puts
deriving DecidableEq, Inhabited

namespace Builtin

def name : Builtin → String
  | len => "len"
  | first => "first"
  | last => "last"
  | rest => "rest"
  | push => "push"
  | puts => "puts"

/-- All of them. -/
def all : List Builtin :=
  [len, first, last, rest, push, puts]

def ofName? (name : String) : Option Builtin :=
  all.find? (·.name == name)

end Builtin

inductive Value where
  | integer (n : Int64)
  | string (text : String)
  | boolean (b : Bool)
  | null
  | array (id : Identity) (elements : List Value)
  | hash (id : Identity) (entries : List (Entry Value))
  | function (id : Identity) (params : List Binder) (body : Block) (scope : ScopeId)
  | builtin (b : Builtin)
  | returned (value : Value)
  | error (message : String)
  | quote (id : Identity) (node : Expr)
  | macroValue (id : Identity) (params : List Binder) (body : Block) (scope : ScopeId)

instance : Inhabited Value := ⟨.null⟩

namespace Value

def kind : Value → Kind
  | integer _ => .integer
  | string _ => .string
  | boolean _ => .boolean
  | null => .null
  | array .. => .array
  | hash .. => .hash
  | function .. => .function
  | builtin _ => .builtin
  | returned _ => .returned
  | error _ => .error
  | quote .. => .quote
  | macroValue .. => .macroKind

def isError : Value → Bool
  | error _ => true
  | _ => false

/-- Only `false` and `null` count as false. -/
def isTruthy : Value → Bool
  | boolean false | null => false
  | _ => true

/-- Takes one wrapper off a returned value. -/
def unwrap : Value → Value
  | returned value => value
  | value => value

end Value

end Simian
