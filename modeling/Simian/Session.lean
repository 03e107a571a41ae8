import Simian.Expansion

/-!
# Sessions

A session keeps two scopes over any number of programs: one for the values that
they bind and one for the macros that they define.
-/

namespace Simian

structure Session where
  store : Store
  scope : ScopeId
  macros : ScopeId

namespace Session

/-- A session that has seen no program. -/
def new : Session :=
  let (scope, store) := Store.empty.newScope none
  let (macros, store) := store.newScope none
  { store, scope, macros }

/-- Collects the macros that a program defines, then expands it. -/
def expand (depth : Nat) (s : Session) (p : Program) :
    Except Expansion.Halt Program × Session :=
  let (p, store) := p.defineMacros s.macros s.store
  match p.expandMacros depth s.macros store with
  | .ok p store => (.ok p, { s with store })
  | .error halt store => (.error halt, { s with store })

/-- Evaluates a program, as it stands. -/
def eval (depth : Nat) (s : Session) (p : Program) : Option Value × Session :=
  let (value, store) := (Eval.program depth s.scope p).run s.store
  (value, { s with store })

/-- Takes away the text printed so far. -/
def takeOutput (s : Session) : String × Session :=
  let (output, store) := s.store.takeOutput
  (output, { s with store })

end Session

end Simian
