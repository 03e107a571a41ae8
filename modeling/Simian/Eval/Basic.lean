import Simian.Store
import Simian.Value.Fault

/-!
# Computations over the store

An evaluation changes the store and ends with a value, with an error, or short
of its bound. An error leaves the store as it was when the error arose.
-/

namespace Simian

/-- Why an evaluation ended without a value. -/
inductive Eval.Halt where
  | raised (message : String)
  /-- The bound on nested evaluations was reached. -/
  | exhausted
deriving DecidableEq

abbrev Eval := EStateM Eval.Halt Store

namespace Eval

def raise {α : Type} (fault : Fault) : Eval α :=
  throw (.raised fault.message)

/-- An error that turns up as the value of an expression is raised. -/
def settle : Value → Eval Value
  | .error message => throw (.raised message)
  | value => pure value

/-- A result of a pure operation. -/
def ofExcept {α : Type} : Except Fault α → Eval α
  | .ok a => pure a
  | .error fault => raise fault

def fresh : Eval Identity :=
  modifyGet Store.fresh

def newArray (elements : List Value) : Eval Value := do
  return .array (← fresh) elements

def newHash (entries : List (Entry Value)) : Eval Value := do
  return .hash (← fresh) entries

def newFunction (params : List Binder) (body : Block) (scope : ScopeId) : Eval Value := do
  return .function (← fresh) params body scope

def newQuote (node : Expr) : Eval Value := do
  return .quote (← fresh) node

def bind (scope : ScopeId) (name : String) (value : Value) : Eval Unit :=
  modify fun store => store.bind scope name value

/-- Binds parameters to arguments, from left to right. -/
def bindAll (scope : ScopeId) : List Binder → List Value → Eval Unit
  | param :: params, arg :: args => do
    bind scope param.name arg
    bindAll scope params args
  | _, _ => pure ()

/-- A new scope inside `outer`, in which the parameters are bound. -/
def enter (outer : ScopeId) (params : List Binder) (args : List Value) : Eval ScopeId := do
  let scope ← modifyGet fun store => store.newScope (some outer)
  bindAll scope params args
  return scope

/-- Runs an evaluation. A raised error becomes an error value; a bound that was
reached leaves no value. -/
def run (eval : Eval Value) (store : Store) : Option Value × Store :=
  match eval store with
  | .ok value store => (some value, store)
  | .error (.raised message) store => (some (.error message), store)
  | .error .exhausted store => (none, store)

end Eval

end Simian
