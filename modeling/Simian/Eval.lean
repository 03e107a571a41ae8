import Simian.Eval.Builtin
import Simian.Eval.Operator
import Simian.Eval.Quote

/-!
# Evaluation

One step of evaluation says what an expression means in terms of the meaning of
others, for which it takes the evaluator `eval` as an argument. The evaluator
itself ties the knot, down to a given depth of nesting.

Parts are evaluated from left to right and the first error ends the evaluation.
A returned value ends the statements it occurs among; a call and a program take
one wrapper off it, a block none.
-/

namespace Simian

namespace Eval

section Step

variable (eval : ScopeId → Expr → Eval Value)

/-- Evaluates a statement. -/
def statement (scope : ScopeId) : Stmt → Eval Value
  | .bind _ binder value => do
    let value ← eval scope value
    bind scope binder.name value
    return .null
  | .ret _ value => do
    let value ← eval scope value
    return .returned value
  | .expr _ value => eval scope value

/-- Evaluates statements in sequence, up to a returned value; `last` is the value
so far. -/
def statements (scope : ScopeId) (last : Value) : List Stmt → Eval Value
  | [] => pure last
  | s :: rest => do
    match ← statement eval scope s with
    | .returned value => return .returned value
    | value => statements scope value rest

def block (scope : ScopeId) (b : Block) : Eval Value :=
  statements eval scope .null b.statements

/-- Evaluates expressions in order. -/
def list (scope : ScopeId) : List Expr → Eval (List Value)
  | [] => pure []
  | e :: es => do
    let value ← eval scope e
    let values ← list scope es
    return value :: values

/-- Evaluates pairs in order and stores each of them. -/
def pairs (scope : ScopeId) (entries : List (Entry Value)) :
    List (Expr × Expr) → Eval (List (Entry Value))
  | [] => pure entries
  | (key, value) :: ps => do
    let key ← eval scope key
    match key.hashKey? with
    | none => raise (.unhashable key.kind)
    | some hashKey =>
      let value ← eval scope value
      pairs scope (Entry.insert ⟨hashKey, key, value⟩ entries) ps

/-- Calls a value. A function runs in a new scope inside the one it was made in. -/
def apply (callee : Value) (args : List Value) : Eval Value := do
  match callee with
  | .function _ params body scope =>
    if params.length = args.length then
      let inner ← enter scope params args
      let value ← block eval inner body
      settle value.unwrap
    else
      raise (.argumentCount args.length params.length)
  | .builtin builtin =>
    let value ← builtin.call args
    settle value
  | callee => raise (.notCallable callee.kind)

/-- The meaning of a name: what the scope says, or else a builtin. -/
def name (scope : ScopeId) (name : String) : Eval Value := do
  match (← get).lookup scope name with
  | some value => settle value
  | none =>
    match Builtin.ofName? name with
    | some builtin => return .builtin builtin
    | none => raise (.unboundName name)

/-- One step of evaluation. -/
def step (scope : ScopeId) : Expr → Eval Value
  | .int _ value => return .integer value
  | .str _ text => return .string text
  | .bool _ value => return .boolean value
  | .ident _ id => name scope id
  | .unary _ op right => do
    let right ← eval scope right
    ofExcept (applyUnary op right)
  | .binary _ op left right => do
    let left ← eval scope left
    let right ← eval scope right
    ofExcept (applyBinary op left right)
  | .index _ left index => do
    let left ← eval scope left
    let index ← eval scope index
    let value ← ofExcept (applyIndex left index)
    settle value
  | .cond _ condition consequence alternative => do
    let condition ← eval scope condition
    if condition.isTruthy then
      block eval scope consequence
    else
      match alternative with
      | some alternative => block eval scope alternative
      | none => return .null
  | .fn _ params body => newFunction params body scope
  | .macroLit .. => return .null
  | .call _ (.ident _ "quote") args =>
    match args with
    | [node] => quote (eval scope) node
    | args => raise (.argumentCount args.length 1)
  | .call _ callee args => do
    let callee ← eval scope callee
    let args ← list eval scope args
    apply eval callee args
  | .array _ elements => do
    let elements ← list eval scope elements
    newArray elements
  | .hash _ ps => do
    let entries ← pairs eval scope [] ps
    newHash entries

end Step

/-- Evaluates an expression whose evaluation nests at most `depth` deep. -/
def expr : (depth : Nat) → ScopeId → Expr → Eval Value
  | 0, _, _ => throw .exhausted
  | depth + 1, scope, e => step (expr depth) scope e

/-- Evaluates a program in a scope. -/
def program (depth : Nat) (scope : ScopeId) (p : Program) : Eval Value := do
  let value ← statements (expr depth) scope .null p.statements
  return value.unwrap

end Eval

end Simian
