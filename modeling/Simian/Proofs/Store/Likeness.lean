import Mathlib.Data.Finset.Card
import Simian.Proofs.Value.Likeness
import Simian.Store

/-!
# Stores alike up to what was made

Two stores are alike under a matching when the scopes that match have the same names in them, bound to values that are alike, inside scopes that match again. What is made next in one store matches what is made next in the other, and both have printed the same text since they were first compared. Every operation on the store keeps this.

Looking a name up depends on nothing but the scopes it goes through. It stops after as many scopes as the store has; no search that finds something goes on for longer, whatever the links between the scopes are.
-/

namespace Simian

namespace Store

variable {s : Store} {name : String} {bound : Nat} {i : ScopeId} {value : Value}

/-! ### How far a search goes -/

theorem find?_succ (h : s.find? name bound i = some value) : s.find? name (bound + 1) i = some value := by
  induction bound generalizing i with
  | zero => exact nomatch h
  | succ bound ih =>
    unfold find? at h ⊢
    split at h
    · exact nomatch h
    · split at h
      · exact h
      · split at h
        · exact nomatch h
        · exact ih h

theorem find?_mono {more : Nat} (hle : bound ≤ more) (h : s.find? name bound i = some value) :
    s.find? name more i = some value := by
  induction hle with
  | refl => exact h
  | step _ ih => exact find?_succ ih

/-- The search from the scope finds the name after as many steps outwards as given, and not before. -/
def FoundAfter (s : Store) (name : String) (steps : Nat) (i : ScopeId) : Prop :=
  s.find? name steps i = none ∧ (s.find? name (steps + 1) i).isSome

theorem FoundAfter.lt_size {steps : Nat} (h : s.FoundAfter name steps i) : i < s.scopes.size := by
  by_contra hge
  have hsome := h.2
  rw [find?, Array.getElem?_eq_none (Nat.le_of_not_lt hge)] at hsome
  exact nomatch hsome

/-- The scope around is one step nearer. -/
theorem FoundAfter.outer {steps : Nat} (h : s.FoundAfter name (steps + 1) i) : ∃ o, s.FoundAfter name steps o := by
  obtain ⟨hnone, hsome⟩ := h
  unfold find? at hnone hsome
  split at hsome
  · exact nomatch hsome
  · rename_i scope hscope
    rw [hscope] at hnone
    split at hsome
    · rename_i found hfound
      simp only [hfound] at hnone
      exact nomatch hnone
    · rename_i hfound
      simp only [hfound] at hnone
      split at hsome
      · exact nomatch hsome
      · rename_i o ho
        simp only [ho] at hnone
        exact ⟨o, hnone, hsome⟩

theorem FoundAfter.nearer {steps : Nat} (h : s.FoundAfter name steps i) :
    ∀ fewer ≤ steps, ∃ o, s.FoundAfter name fewer o := by
  induction steps generalizing i with
  | zero =>
    intro fewer hle
    obtain rfl := Nat.le_zero.mp hle
    exact ⟨i, h⟩
  | succ steps ih =>
    intro fewer hle
    rcases Nat.le_succ_iff.mp hle with hle | rfl
    · obtain ⟨o, ho⟩ := h.outer
      exact ih ho fewer hle
    · exact ⟨i, h⟩

theorem FoundAfter.le {steps steps' : Nat} (h : s.FoundAfter name steps i) (h' : s.FoundAfter name steps' i) :
    steps ≤ steps' := by
  by_contra hlt
  obtain ⟨value, hvalue⟩ := Option.isSome_iff_exists.mp h'.2
  have hfound := find?_mono (Nat.lt_of_not_le hlt) hvalue
  rw [h.1] at hfound
  exact nomatch hfound

/-- The scopes gone through are different ones, each a different number of steps away. -/
theorem FoundAfter.steps_lt {steps : Nat} (h : s.FoundAfter name steps i) : steps < s.scopes.size := by
  -- One scope for each number of steps: a different one each time, so there are at least as many as steps.
  choose! o ho using h.nearer
  have hmaps : Set.MapsTo o (Finset.range (steps + 1)) (Finset.range s.scopes.size) := by
    intro fewer hfewer
    rw [Finset.coe_range, Set.mem_Iio] at hfewer ⊢
    exact (ho fewer (Nat.le_of_lt_succ hfewer)).lt_size
  have hinj : Set.InjOn o (Finset.range (steps + 1)) := by
    intro a ha b hb hab
    rw [Finset.coe_range, Set.mem_Iio] at ha hb
    have hb' := ho b (Nat.le_of_lt_succ hb)
    rw [← hab] at hb'
    have ha' := ho a (Nat.le_of_lt_succ ha)
    exact Nat.le_antisymm (ha'.le hb') (hb'.le ha')
  have hcard := Finset.card_le_card_of_injOn o hmaps hinj
  rwa [Finset.card_range, Finset.card_range] at hcard

theorem exists_foundAfter (h : s.find? name bound i = some value) :
    ∃ steps, s.FoundAfter name steps i := by
  induction bound with
  | zero => exact nomatch h
  | succ bound ih =>
    cases hfind : s.find? name bound i with
    | none => exact ⟨bound, hfind, Option.isSome_iff_exists.mpr ⟨value, h⟩⟩
    | some earlier =>
      have hsame := find?_succ hfind
      rw [h] at hsame
      exact ih (hfind.trans hsame.symm)

theorem lookup_of_find? (h : s.find? name bound i = some value) : s.lookup i name = some value := by
  obtain ⟨steps, hsteps⟩ := exists_foundAfter h
  obtain ⟨found, hfound⟩ := Option.isSome_iff_exists.mp hsteps.2
  have hlookup : s.lookup i name = some found := find?_mono hsteps.steps_lt hfound
  have hmost : s.find? name (max bound s.scopes.size) i = some value := find?_mono (Nat.le_max_left ..) h
  have hmost' : s.find? name (max bound s.scopes.size) i = some found := find?_mono (Nat.le_max_right ..) hlookup
  rw [hlookup, ← hmost', hmost]

/-- A search for longer than the store has scopes finds no more. -/
theorem find?_eq_lookup (h : s.scopes.size ≤ bound) (i : ScopeId) : s.find? name bound i = s.lookup i name := by
  cases hlookup : s.lookup i name with
  | some value => exact find?_mono h hlookup
  | none =>
    cases hfind : s.find? name bound i with
    | none => rfl
    | some value => rw [← lookup_of_find? hfind, hlookup]

end Store

/-! ### Stores alike -/

/-- The same names are bound, to values that are alike, and the scopes around match. -/
structure Scope.Alike (m : Matching) (a b : Scope) : Prop where
  outer : Option.Rel m.scope a.outer b.outer
  bindings : ∀ name, Option.Rel (Value.Alike m) (a.bindings.lookup name) (b.bindings.lookup name)

/-- Matching scopes are alike, what is made next matches, and what was printed behind `before` and `before'` is the same. -/
structure Store.Alike (m : Matching) (before before' : String) (s t : Store) : Prop where
  scopes : ∀ {i j}, m.scope i j → Option.Rel (Scope.Alike m) s.scopes[i]? t.scopes[j]?
  nextScope : ∀ k, m.scope (s.scopes.size + k) (t.scopes.size + k)
  nextIdentity : ∀ k, m.identity (s.nextId + k) (t.nextId + k)
  output : ∃ text, s.output = before ++ text ∧ t.output = before' ++ text

namespace Store.Alike

variable {m : Matching} {before before' : String} {s t : Store} {i j : ScopeId}

theorem output_eq (h : s.Alike m before before t) : s.output = t.output := by
  obtain ⟨text, hs, ht⟩ := h.output
  rw [hs, ht]

theorem fresh (h : s.Alike m before before' t) : s.fresh.2.Alike m before before' t.fresh.2 where
  scopes := h.scopes
  nextScope := h.nextScope
  nextIdentity k := by
    have hnext := h.nextIdentity (1 + k)
    rwa [← Nat.add_assoc, ← Nat.add_assoc] at hnext
  output := h.output

theorem newScope (hm : m.OneToOne) (h : s.Alike m before before' t) (hscope : m.scope i j) :
    (s.newScope (some i)).2.Alike m before before' (t.newScope (some j)).2 where
  scopes {i' j'} hscope' := by
    have hiff : i' = s.scopes.size ↔ j' = t.scopes.size := hm.scope hscope' (h.nextScope 0)
    simp only [Store.newScope, Array.getElem?_push, hiff]
    split
    · exact .some ⟨.some hscope, fun _ => .none⟩
    · exact h.scopes hscope'
  nextScope k := by
    simp only [Store.newScope, Array.size_push, Nat.add_assoc]
    exact h.nextScope (1 + k)
  nextIdentity := h.nextIdentity
  output := h.output

theorem bind (hm : m.OneToOne) (h : s.Alike m before before' t) (hscope : m.scope i j) (name : String) {x y : Value}
    (hxy : x.Alike m y) : (s.bind i name x).Alike m before before' (t.bind j name y) where
  scopes {i' j'} hscope' := by
    have hsame := h.scopes hscope'
    simp only [Store.bind, Array.getElem?_modify, hm.scope hscope hscope']
    split
    · generalize s.scopes[i']? = a at hsame ⊢
      generalize t.scopes[j']? = b at hsame ⊢
      cases hsame with
      | none => exact .none
      | some hab =>
        refine .some ⟨hab.outer, fun other => ?_⟩
        rw [Bindings.lookup_set, Bindings.lookup_set]
        split
        · exact .some hxy
        · exact hab.bindings other
    · exact hsame
  nextScope k := by
    rw [Store.size_bind, Store.size_bind]
    exact h.nextScope k
  nextIdentity := h.nextIdentity
  output := h.output

theorem find? (h : s.Alike m before before' t) (hscope : m.scope i j) (name : String) (bound : Nat) :
    Option.Rel (Value.Alike m) (s.find? name bound i) (t.find? name bound j) := by
  induction bound generalizing i j with
  | zero => exact .none
  | succ bound ih =>
    have hsame := h.scopes hscope
    unfold Store.find?
    generalize s.scopes[i]? = a at hsame ⊢
    generalize t.scopes[j]? = b at hsame ⊢
    cases hsame with
    | none => exact .none
    | @some a b hab =>
      have hbindings := hab.bindings name
      have houter := hab.outer
      dsimp only
      generalize a.bindings.lookup name = x at hbindings ⊢
      generalize b.bindings.lookup name = y at hbindings ⊢
      cases hbindings with
      | some hxy => exact .some hxy
      | none =>
        generalize a.outer = o at houter ⊢
        generalize b.outer = o' at houter ⊢
        cases houter with
        | none => exact .none
        | some ho => exact ih ho

/-- The stores may differ in size, so the searches are compared at a bound that is large enough for both. -/
theorem lookup (h : s.Alike m before before' t) (hscope : m.scope i j) (name : String) :
    Option.Rel (Value.Alike m) (s.lookup i name) (t.lookup j name) := by
  rw [← find?_eq_lookup (Nat.le_max_left s.scopes.size t.scopes.size),
    ← find?_eq_lookup (Nat.le_max_right s.scopes.size t.scopes.size)]
  exact h.find? hscope name _

theorem print (h : s.Alike m before before' t) (text : String) :
    (s.print text).Alike m before before' (t.print text) where
  scopes := h.scopes
  nextScope := h.nextScope
  nextIdentity := h.nextIdentity
  output := by
    obtain ⟨printed, hs, ht⟩ := h.output
    refine ⟨printed ++ text, ?_, ?_⟩
    · rw [Store.print, hs, String.append_assoc]
    · rw [Store.print, ht, String.append_assoc]

end Store.Alike

end Simian
