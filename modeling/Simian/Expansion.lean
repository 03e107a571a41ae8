import Simian.Eval

/-!
# Macro expansion

Macros are defined and expanded before a program is evaluated. Defining takes
every top-level `let` of a macro literal out of the program and binds it in a
scope of macros; expanding replaces every call of a macro so bound by the
expression that its body, run on the quoted arguments, returns quoted.
-/

namespace Simian

/-- The reasons for which a macro call cannot be expanded. -/
inductive MacroFault where
  /-- The body returned something other than a quote. -/
  | notQuote (name : String) (got : Kind)
  /-- The body raised an error. -/
  | evaluation (message : String)
  | argumentCount (name : String) (got want : Nat)
deriving DecidableEq

/-- A fault and the span of the call that shows it. -/
structure MacroError where
  fault : MacroFault
  span : Span
deriving DecidableEq

namespace MacroFault

def message : MacroFault → String
  | notQuote name got =>
    "macro `" ++ name ++ "` must return a quoted node, got " ++ got.name
  | evaluation message => message
  | argumentCount name got want =>
    "wrong number of arguments to macro `" ++ name ++ "`. got=" ++ toString got ++
      ", want=" ++ toString want

/-- What stands under the source line that shows the fault. -/
def label : MacroFault → String
  | notQuote .. => "This call expands to a non quote"
  | evaluation _ => "Evaluation of the macro body failed"
  | argumentCount .. => "Wrong number of arguments"

end MacroFault

def MacroError.message (e : MacroError) : String := e.fault.message

/-- Takes the macro definitions out of a list of statements and binds them in
`scope`, in order; the other statements keep theirs. -/
def defineAll (scope : ScopeId) : List Stmt → Store → List Stmt × Store
  | [], store => ([], store)
  | .bind _ binder (.macroLit _ params body) :: rest, store =>
    let (id, store) := store.fresh
    defineAll scope rest (store.bind scope binder.name (.macroValue id params body scope))
  | s :: rest, store =>
    let (rest, store) := defineAll scope rest store
    (s :: rest, store)

/-- Takes the macro definitions out of a program and binds them in `scope`. -/
def Program.defineMacros (scope : ScopeId) (p : Program) (store : Store) : Program × Store :=
  let (statements, store) := defineAll scope p.statements store
  ({ p with statements }, store)

/-- Why an expansion ended without a program. -/
inductive Expansion.Halt where
  | failed (error : MacroError)
  /-- The bound on nested evaluations was reached. -/
  | exhausted
deriving DecidableEq

abbrev Expansion := EStateM Expansion.Halt Store

namespace Expansion

/-- An evaluation on behalf of the call at `span`. -/
def ofEval {α : Type} (span : Span) (eval : Eval α) : Expansion α := fun store =>
  match eval store with
  | .ok a store => .ok a store
  | .error (.raised message) store => .error (.failed ⟨.evaluation message, span⟩) store
  | .error .exhausted store => .error .exhausted store

/-- The quotes of expressions, each with an identity of its own. -/
def quoteAll : List Expr → Eval (List Value)
  | [] => pure []
  | e :: es => do
    let quote ← Eval.newQuote e
    let quotes ← quoteAll es
    return quote :: quotes

/-- Runs a macro's body, in a new scope inside the macro's own, on the quoted
arguments. -/
def runBody (depth : Nat) (params : List Binder) (body : Block) (scope : ScopeId)
    (args : List Expr) : Eval Value := do
  let quotes ← quoteAll args
  let inner ← Eval.enter scope params quotes
  let value ← Eval.block (Eval.expr depth) inner body
  return value.unwrap

/-- Expands the call of a macro. -/
def invoke (depth : Nat) (name : String) (params : List Binder) (body : Block) (scope : ScopeId)
    (span : Span) (args : List Expr) : Expansion Expr := do
  if params.length = args.length then
    match ← ofEval span (runBody depth params body scope args) with
    | .quote _ node => return node
    | .error message => throw (.failed ⟨.evaluation message, span⟩)
    | value => throw (.failed ⟨.notQuote name value.kind, span⟩)
  else
    throw (.failed ⟨.argumentCount name args.length params.length, span⟩)

/-- Replaces an expression that calls a macro bound in `scope`; leaves all else as
it is. -/
def replace (depth : Nat) (scope : ScopeId) : Expr → Expansion Expr
  | .call span (.ident s name) args => do
    match (← get).lookup scope name with
    | some (.macroValue _ params body inner) =>
      invoke depth name params body inner span args
    | _ => return .call span (.ident s name) args
  | e => return e

end Expansion

/-- Expands every macro call of a program. -/
def Program.expandMacros (depth : Nat) (scope : ScopeId) (p : Program) : Expansion Program :=
  p.transformM (Expansion.replace depth scope)

end Simian
