import Simian.Value

/-!
# The store

Scopes are numbered in the order in which they are made. A scope holds its own
bindings and refers to the scope around it, which was made before it. Looking a
name up goes outwards until a scope binds it; binding a name always writes to
the scope given. The store also counts the identities handed out and keeps the
text printed so far.
-/

namespace Simian

/-- Names and what they are bound to, each name once. -/
abbrev Bindings := List (String × Value)

/-- Binds a name, in place of an earlier binding of it. -/
def Bindings.set (name : String) (value : Value) : Bindings → Bindings
  | [] => [(name, value)]
  | (other, old) :: rest =>
    if other = name then (name, value) :: rest else (other, old) :: set name value rest

/-- After a binding its name means the new value and every other name what it
meant before. -/
theorem Bindings.lookup_set (name other : String) (value : Value) (bindings : Bindings) :
    List.lookup other (Bindings.set name value bindings) =
      if other = name then some value else List.lookup other bindings := by
  induction bindings with
  | nil =>
    by_cases h : other = name
    · simp [Bindings.set, h]
    · simp [Bindings.set, List.lookup_cons, beq_false_of_ne h, h]
  | cons pair rest ih =>
    obtain ⟨bound, old⟩ := pair
    by_cases hb : bound = name
    · subst hb
      by_cases h : other = bound
      · simp [Bindings.set, h]
      · simp [Bindings.set, List.lookup_cons, beq_false_of_ne h, h]
    · by_cases h : other = bound
      · subst h
        simp [Bindings.set, hb]
      · simp [Bindings.set, List.lookup_cons, hb, beq_false_of_ne h, ih]

structure Scope where
  bindings : Bindings
  outer : Option ScopeId
deriving Inhabited

structure Store where
  scopes : Array Scope
  nextId : Identity
  output : String
deriving Inhabited

namespace Store

def empty : Store :=
  { scopes := #[], nextId := 0, output := "" }

/-- Makes a scope; its number is that of the scopes made before. -/
def newScope (store : Store) (outer : Option ScopeId) : ScopeId × Store :=
  (store.scopes.size, { store with scopes := store.scopes.push { bindings := [], outer } })

/-- Binds a name in one scope. -/
def bind (store : Store) (scope : ScopeId) (name : String) (value : Value) : Store :=
  { store with
    scopes := store.scopes.modify scope fun s =>
      { s with bindings := Bindings.set name value s.bindings } }

/-- Looks a name up in a scope and those around it, `bound` scopes at most. -/
def find? (store : Store) (name : String) : (bound : Nat) → ScopeId → Option Value
  | 0, _ => none
  | bound + 1, id =>
    match store.scopes[id]? with
    | none => none
    | some scope =>
      match scope.bindings.lookup name with
      | some value => some value
      | none =>
        match scope.outer with
        | none => none
        | some outer => store.find? name bound outer

/-- What a name means in a scope. No chain of scopes is longer than the store. -/
def lookup (store : Store) (scope : ScopeId) (name : String) : Option Value :=
  store.find? name store.scopes.size scope

/-- Hands out an identity. -/
def fresh (store : Store) : Identity × Store :=
  (store.nextId, { store with nextId := store.nextId + 1 })

/-- Adds to the printed text. -/
def print (store : Store) (text : String) : Store :=
  { store with output := store.output ++ text }

/-- Takes away the text printed so far. -/
def takeOutput (store : Store) : String × Store :=
  (store.output, { store with output := "" })

@[simp]
theorem size_bind (store : Store) (scope : ScopeId) (name : String) (value : Value) :
    (store.bind scope name value).scopes.size = store.scopes.size := by
  simp [bind]

/-- Binding a name leaves every other scope as it was. -/
theorem getElem?_bind_of_ne (store : Store) {scope other : ScopeId} (name : String)
    (value : Value) (h : other ≠ scope) :
    (store.bind scope name value).scopes[other]? = store.scopes[other]? := by
  simp [bind, Array.getElem?_modify, h.symm]

end Store

end Simian
