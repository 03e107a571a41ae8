import Simian.Proofs.Store.Bindings
import Simian.Proofs.Store.Likeness

/-!
# What values can reach

A function reaches the scope it was made in. From a scope one reaches the scope around it and, through the functions in the values bound there, further scopes; the links may run in circles, as they do when a function is bound in the scope it was made in. Macros are left out: nothing calls them, so the scopes they were defined in are out of reach.

Two stores that agree on what some values can reach are alike as far as these values are concerned. Each scope within reach stands for itself, and whatever is made from then on in one store stands for what is made at the same point in the other.
-/

namespace Simian

/-- Every name is bound to the same in both scopes, and the scope around is the same. -/
structure Scope.Agree (a b : Scope) : Prop where
  outer : a.outer = b.outer
  bindings : ∀ name, a.bindings.lookup name = b.bindings.lookup name

namespace Store

/-- The scope can be reached from the values, in this store. -/
inductive Reachable (s : Store) (roots : List Value) : ScopeId → Prop
  | root {x : Value} {i : ScopeId} (hx : x ∈ roots) (hi : i ∈ x.scopes) : Reachable s roots i
  | outer {i j : ScopeId} {scope : Scope} (h : Reachable s roots i) (hscope : s.scopes[i]? = some scope)
      (houter : scope.outer = some j) : Reachable s roots j
  | bound {i j : ScopeId} {scope : Scope} {name : String} {x : Value} (h : Reachable s roots i)
      (hscope : s.scopes[i]? = some scope) (hx : scope.bindings.lookup name = some x) (hj : j ∈ x.scopes) :
      Reachable s roots j

/-- The value is one of the given ones, or bound in a scope that they reach. -/
def Reaches (s : Store) (roots : List Value) (x : Value) : Prop :=
  x ∈ roots ∨ ∃ (i : ScopeId) (scope : Scope) (name : String),
    s.Reachable roots i ∧ s.scopes[i]? = some scope ∧ scope.bindings.lookup name = some x

/-- The identity is that of a value within reach, or of one in it. -/
def Identifies (s : Store) (roots : List Value) (a : Identity) : Prop :=
  ∃ x, s.Reaches roots x ∧ a ∈ x.identities

/-- Whatever the values reach was made in this store: the scopes are there, and the identities were handed out. -/
structure Sound (s : Store) (roots : List Value) : Prop where
  scopes : ∀ {i}, s.Reachable roots i → i < s.scopes.size
  identities : ∀ {a}, s.Identifies roots a → a < s.nextId

/-- The stores agree on every scope that the values reach in the first. -/
def AgreeOnReach (s t : Store) (roots : List Value) : Prop :=
  ∀ i, s.Reachable roots i → Option.Rel Scope.Agree s.scopes[i]? t.scopes[i]?

variable {s t : Store} {roots : List Value} {i : ScopeId}

theorem Reaches.scopes {x : Value} (h : s.Reaches roots x) (hi : i ∈ x.scopes) : s.Reachable roots i := by
  rcases h with hx | ⟨j, scope, name, hj, hscope, hx⟩
  · exact .root hx hi
  · exact .bound hj hscope hx hi

/-- Nothing outside is reached from scopes that only lead to one another. -/
theorem Reachable.of_closed {P : ScopeId → Prop} (hi : s.Reachable roots i)
    (hroots : ∀ x ∈ roots, ∀ i ∈ x.scopes, P i)
    (hscopes : ∀ i scope, P i → s.scopes[i]? = some scope →
      (∀ j ∈ scope.outer, P j) ∧ ∀ b ∈ scope.bindings, ∀ j ∈ b.2.scopes, P j) : P i := by
  induction hi with
  | root hx hi => exact hroots _ hx _ hi
  | outer _ hscope houter ih => exact (hscopes _ _ ih hscope).1 _ houter
  | bound _ hscope hx hj ih => exact (hscopes _ _ ih hscope).2 _ (Bindings.mem_of_lookup hx) _ hj

theorem AgreeOnReach.exists_left (h : s.AgreeOnReach t roots) (hi : s.Reachable roots i) {b : Scope}
    (hb : t.scopes[i]? = some b) : ∃ a, s.scopes[i]? = some a ∧ a.Agree b := by
  have hsame := h i hi
  rw [hb] at hsame
  generalize s.scopes[i]? = a at hsame ⊢
  cases hsame with
  | some hab => exact ⟨_, rfl, hab⟩

/-- Stores that agree on what is within reach have the same scopes within reach. -/
theorem AgreeOnReach.reachable (h : s.AgreeOnReach t roots) (hi : t.Reachable roots i) : s.Reachable roots i := by
  induction hi with
  | root hx hi => exact .root hx hi
  | outer _ hb houter ih =>
    obtain ⟨a, ha, hab⟩ := h.exists_left ih hb
    exact .outer ih ha (hab.outer.trans houter)
  | bound _ hb hx hj ih =>
    obtain ⟨a, ha, hab⟩ := h.exists_left ih hb
    exact .bound ih ha ((hab.bindings _).trans hx) hj

theorem AgreeOnReach.symm (h : s.AgreeOnReach t roots) : t.AgreeOnReach s roots := by
  intro i hi
  have hsame := h i (h.reachable hi)
  generalize s.scopes[i]? = a at hsame ⊢
  generalize t.scopes[i]? = b at hsame ⊢
  cases hsame with
  | none => exact .none
  | some hab => exact .some ⟨hab.outer.symm, fun name => (hab.bindings name).symm⟩

theorem AgreeOnReach.identifies (h : s.AgreeOnReach t roots) {a : Identity} (ha : t.Identifies roots a) :
    s.Identifies roots a := by
  obtain ⟨x, hx | ⟨i, scope, name, hi, hscope, hx⟩, hmem⟩ := ha
  · exact ⟨x, .inl hx, hmem⟩
  · obtain ⟨scope', hscope', hsame⟩ := h.exists_left (h.reachable hi) hscope
    exact ⟨x, .inr ⟨i, scope', name, h.reachable hi, hscope', (hsame.bindings name).trans hx⟩, hmem⟩

end Store

/-! ### Renewal -/

/-- A number that is kept stands for itself; the numbers from `n` on stand for those from `n'` on. -/
def Renewed (kept : Nat → Prop) (n n' i j : Nat) : Prop :=
  (i = j ∧ kept i) ∨ ∃ k, i = n + k ∧ j = n' + k

section Renewed

variable {kept : Nat → Prop} {n n' i j i' j' : Nat}

theorem Renewed.eq_iff (hkept : ∀ i, kept i → i < n ∧ i < n') (hi : Renewed kept n n' i i')
    (hj : Renewed kept n n' j j') : i = j ↔ i' = j' := by
  rcases hi with ⟨rfl, hi⟩ | ⟨k, rfl, rfl⟩ <;> rcases hj with ⟨rfl, hj⟩ | ⟨l, rfl, rfl⟩
  · exact Iff.rfl
  · have hlt := hkept i hi
    omega
  · have hlt := hkept j hj
    omega
  · omega

theorem Renewed.eq (h : Renewed kept n n' i j) (hn : n = n') : i = j := by
  rcases h with ⟨rfl, _⟩ | ⟨k, rfl, rfl⟩
  · rfl
  · rw [hn]

end Renewed

/-- What the values reach stands for itself; what is made from here on in one store stands for what is made at the same point in the other. -/
def Matching.renewal (s t : Store) (roots : List Value) : Matching where
  scope := Renewed (s.Reachable roots) s.scopes.size t.scopes.size
  macroScope := Eq
  identity := Renewed (s.Identifies roots) s.nextId t.nextId
  span := Eq
  fault := True
  signal := True
  code _ := True

namespace Matching

variable {s t : Store} {roots : List Value}

theorem steady_renewal : (renewal s t roots).Steady where
  signal := trivial
  code _ := trivial
  span _ := rfl
  macroScope _ := rfl

/-- What is within reach is not mistaken for what is made later. -/
theorem oneToOne_renewal (hs : s.Sound roots) (ht : t.Sound roots) (h : s.AgreeOnReach t roots) :
    (renewal s t roots).OneToOne where
  scope := Renewed.eq_iff fun _ hi => ⟨hs.scopes hi, ht.scopes (h.symm.reachable hi)⟩
  identity := Renewed.eq_iff fun _ ha => ⟨hs.identities ha, ht.identities (h.symm.identifies ha)⟩

/-- Between stores that have made equally many scopes and identities, everything stands for itself. -/
theorem diagonal_renewal (hscopes : s.scopes.size = t.scopes.size) (hnext : s.nextId = t.nextId) :
    (renewal s t roots).Diagonal where
  scope h := Renewed.eq h hscopes
  macroScope h := h
  identity h := Renewed.eq h hnext
  span h := h

theorem alike_renewal {x : Value} (h : s.Reaches roots x) : x.Alike (renewal s t roots) x :=
  x.alike_self steady_renewal (fun _ hi => .inl ⟨rfl, h.scopes hi⟩) (fun _ ha => .inl ⟨rfl, x, h, ha⟩) fun _ => trivial

end Matching

namespace Store

variable {s t : Store} {roots : List Value}

theorem AgreeOnReach.alike_scope (h : s.AgreeOnReach t roots) {i : ScopeId} (hi : s.Reachable roots i) :
    Option.Rel (Scope.Alike (.renewal s t roots)) s.scopes[i]? t.scopes[i]? := by
  have hsame := h i hi
  cases ha : s.scopes[i]? with
  | none =>
    rw [ha] at hsame
    generalize t.scopes[i]? = b at hsame ⊢
    cases hsame with
    | none => exact .none
  | some a =>
    rw [ha] at hsame
    generalize t.scopes[i]? = b at hsame ⊢
    cases hsame with
    | some hab =>
      refine .some ⟨?_, fun name => ?_⟩
      · rw [← hab.outer]
        cases houter : a.outer with
        | none => exact .none
        | some o => exact .some (.inl ⟨rfl, .outer hi ha houter⟩)
      · rw [← hab.bindings name]
        cases hx : a.bindings.lookup name with
        | none => exact .none
        | some x => exact .some (Matching.alike_renewal (.inr ⟨i, a, name, hi, ha, hx⟩))

/-- Stores that agree on what the values reach are alike. -/
theorem AgreeOnReach.alike (h : s.AgreeOnReach t roots) :
    s.Alike (.renewal s t roots) s.output t.output t where
  scopes := by
    rintro i j (⟨rfl, hi⟩ | ⟨k, rfl, rfl⟩)
    · exact h.alike_scope hi
    · -- What is made next is in neither store yet.
      rw [Array.getElem?_eq_none (Nat.le_add_right ..), Array.getElem?_eq_none (Nat.le_add_right ..)]
      exact .none
  nextScope k := .inr ⟨k, rfl, rfl⟩
  nextIdentity k := .inr ⟨k, rfl, rfl⟩
  output := ⟨"", String.append_empty.symm, String.append_empty.symm⟩

end Store

end Simian
