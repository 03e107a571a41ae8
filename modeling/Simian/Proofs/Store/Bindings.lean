import Simian.Proofs.Value.Contents
import Simian.Store

/-!
# What is bound in a store

A property of all the values that the scopes of a store bind is kept by making a scope, which is empty, and by binding a value that has it; whatever a name is found to mean then has it too.
-/

namespace Simian

theorem Bindings.mem_of_lookup {bindings : Bindings} {name : String} {x : Value} (h : bindings.lookup name = some x) :
    (name, x) ∈ bindings := by
  obtain ⟨before, after, hbindings, _⟩ := List.lookup_eq_some_iff.mp h
  rw [hbindings]
  exact List.mem_append_right before (List.mem_cons_self ..)

namespace Store

/-- Every value that a scope binds has the property. -/
def Binds (P : Value → Prop) (s : Store) : Prop :=
  ∀ (i : ScopeId) (scope : Scope), s.scopes[i]? = some scope → ∀ b ∈ scope.bindings, P b.2

/-- No scope binds a value that holds one of the kind. -/
def FreeOf (kind : Kind) : Store → Prop :=
  Binds fun x => x.holds kind = false

namespace Binds

variable {P : Value → Prop} {s : Store}

theorem mono {Q : Value → Prop} (h : s.Binds P) (himp : ∀ x, P x → Q x) : s.Binds Q :=
  fun i scope hscope b hb => himp b.2 (h i scope hscope b hb)

theorem empty : Store.empty.Binds P := by
  intro i scope hscope
  exact nomatch hscope

theorem newScope (h : s.Binds P) (outer : Option ScopeId) : (s.newScope outer).2.Binds P := by
  intro i scope hscope b hb
  rw [Store.newScope, Array.getElem?_push] at hscope
  split at hscope
  · obtain rfl := Option.some.inj hscope
    exact nomatch hb
  · exact h i scope hscope b hb

theorem set {bindings : Bindings} {name : String} {value : Value} (hvalue : P value) (h : ∀ b ∈ bindings, P b.2) :
    ∀ b ∈ Bindings.set name value bindings, P b.2 := by
  induction bindings with
  | nil => exact List.forall_mem_singleton.mpr hvalue
  | cons b rest ih =>
    rw [List.forall_mem_cons] at h
    unfold Bindings.set
    split
    · exact List.forall_mem_cons.mpr ⟨hvalue, h.2⟩
    · exact List.forall_mem_cons.mpr ⟨h.1, ih h.2⟩

theorem bind (h : s.Binds P) (scope : ScopeId) (name : String) {value : Value} (hvalue : P value) :
    (s.bind scope name value).Binds P := by
  intro i inner hinner
  rw [Store.bind, Array.getElem?_modify] at hinner
  split at hinner
  · obtain ⟨old, hold, rfl⟩ := Option.map_eq_some_iff.mp hinner
    exact set hvalue (h i old hold)
  · exact h i inner hinner

theorem find? (h : s.Binds P) {name : String} {bound : Nat} {scope : ScopeId} {value : Value}
    (hfind : s.find? name bound scope = some value) : P value := by
  induction bound generalizing scope with
  | zero => exact nomatch hfind
  | succ bound ih =>
    unfold Store.find? at hfind
    split at hfind
    · exact nomatch hfind
    · rename_i inner hinner
      split at hfind
      · rename_i found hfound
        obtain rfl := Option.some.inj hfind
        exact h scope inner hinner _ (Bindings.mem_of_lookup hfound)
      · split at hfind
        · exact nomatch hfind
        · exact ih hfind

end Binds

end Store

end Simian
