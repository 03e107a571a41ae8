import Simian.Eval.Basic
import Simian.Proofs.Store.Bindings
import Simian.Proofs.Value.Vocabulary

/-!
# Effects on the store

What a computation that runs in a scope may do to the store: make new scopes, and write to the scope it runs in. All other scopes stay as they are, and the scopes around each scope never change. Besides, a computation may be held to a vocabulary: if everything bound in the store is within it, then so is everything bound afterwards, whether the computation ended with a value or not.

Both are proved together, since both are kept by sequencing; a computation ensures them when it does so from every store within the vocabulary.
-/

namespace Simian

namespace Store

/-! ### Frames -/

/-- Nothing but the bindings of the scope `own` differs between the stores, as far as the scopes of `before` go. -/
def Frame (own : ScopeId) (before after : Store) : Prop :=
  ∀ i < before.scopes.size,
    after.scopes[i]?.map Scope.outer = before.scopes[i]?.map Scope.outer ∧
      (i ≠ own → after.scopes[i]? = before.scopes[i]?)

variable {own : ScopeId} {s s₁ s₂ : Store}

theorem Frame.of_eq (h : s₁.scopes = s.scopes) : Frame own s s₁ := by
  intro i _
  rw [h]
  exact ⟨rfl, fun _ => rfl⟩

theorem Frame.size_le (h : Frame own s s₁) : s.scopes.size ≤ s₁.scopes.size := by
  refine Nat.le_of_not_lt fun hlt => ?_
  have houter := (h s₁.scopes.size hlt).1
  rw [Array.getElem?_eq_none (Nat.le_refl _), Array.getElem?_eq_getElem hlt] at houter
  exact nomatch houter

theorem Frame.trans (h : Frame own s s₁) (h' : Frame own s₁ s₂) : Frame own s s₂ := by
  intro i hi
  have hi' : i < s₁.scopes.size := Nat.lt_of_lt_of_le hi h.size_le
  refine ⟨(h' i hi').1.trans (h i hi).1, fun hne => ?_⟩
  exact ((h' i hi').2 hne).trans ((h i hi).2 hne)

theorem frame_bind (own : ScopeId) (s : Store) (name : String) (value : Value) :
    Frame own s (s.bind own name value) := by
  intro i _
  refine ⟨?_, fun hne => getElem?_bind_of_ne s name value hne⟩
  simp only [Store.bind, Array.getElem?_modify]
  split
  · rw [Option.map_map]
    rfl
  · rfl

/-- What runs in a scope of its own touches no scope that was there before. -/
theorem Frame.of_newScope {outer : Option ScopeId} (h : Frame s.scopes.size (s.newScope outer).2 s₁) :
    Frame own s s₁ := by
  intro i hi
  have hsame : (s.newScope outer).2.scopes[i]? = s.scopes[i]? :=
    Array.getElem?_push_lt hi |>.trans (Array.getElem?_eq_getElem hi).symm
  have hi' : i < (s.newScope outer).2.scopes.size := by
    rw [newScope, Array.size_push]
    omega
  have heq := (h i hi').2 (Nat.ne_of_lt hi)
  rw [hsame] at heq
  exact ⟨congrArg _ heq, fun _ => heq⟩

theorem Frame.getElem? (h : ∀ own, Frame own s s₁) : ∀ i < s.scopes.size, s₁.scopes[i]? = s.scopes[i]? :=
  fun i hi => (h (i + 1) i hi).2 (Nat.ne_of_lt (Nat.lt_succ_self i))

/-! ### Vocabulary -/

/-- Everything that is bound in the store is within the vocabulary. -/
def Within (v : Vocabulary) (s : Store) : Prop :=
  ∀ (i : ScopeId) (scope : Scope), s.scopes[i]? = some scope → ∀ b ∈ scope.bindings, b.2.within v = true

variable {v : Vocabulary}

theorem Within.of_eq (h : s.Within v) (heq : s₁.scopes = s.scopes) : s₁.Within v := by
  unfold Within
  rw [heq]
  exact h

theorem within_any (s : Store) : s.Within .any :=
  fun _ _ _ b _ => b.2.within_any

theorem within_empty (v : Vocabulary) : empty.Within v := by
  intro i scope hscope
  exact nomatch hscope

theorem Within.newScope (h : s.Within v) (outer : Option ScopeId) : (s.newScope outer).2.Within v :=
  Binds.newScope (P := fun x => x.within v = true) h outer

theorem Within.bind (h : s.Within v) (scope : ScopeId) (name : String) {value : Value}
    (hvalue : value.within v = true) : (s.bind scope name value).Within v :=
  Binds.bind (P := fun x => x.within v = true) h scope name hvalue

theorem Within.find? (h : s.Within v) {name : String} {bound : Nat} {scope : ScopeId} {value : Value}
    (hfind : s.find? name bound scope = some value) : value.within v = true :=
  Binds.find? (P := fun x => x.within v = true) h hfind

end Store

/-! ### Computations -/

/-- What holds of the result of a computation that began in the store `before`. -/
def Holds {ε α : Type} (v : Vocabulary) (own : ScopeId) (before : Store) (P : α → Prop) :
    EStateM.Result ε Store α → Prop
  | .ok a after => P a ∧ after.Within v ∧ Store.Frame own before after
  | .error _ after => after.Within v ∧ Store.Frame own before after

/-- Run in a store within the vocabulary, the computation gives values that satisfy `P`, keeps the store within the vocabulary and writes to no scope but `own`. -/
def Ensures {ε α : Type} (v : Vocabulary) (own : ScopeId) (P : α → Prop) (p : EStateM ε Store α) : Prop :=
  ∀ s : Store, s.Within v → Holds v own s P (p s)

section Ensures

variable {ε α β : Type} {v : Vocabulary} {own : ScopeId} {P : α → Prop} {Q : β → Prop}

theorem Ensures.pure {a : α} (h : P a) : Ensures v own P (Pure.pure a : EStateM ε Store α) :=
  fun _ hs => ⟨h, hs, .of_eq rfl⟩

theorem ensures_throw (e : ε) : Ensures v own P (throw e : EStateM ε Store α) :=
  fun _ hs => ⟨hs, .of_eq rfl⟩

theorem Holds.trans {s s₁ : Store} {r : EStateM.Result ε Store α} (h : Holds v own s₁ P r)
    (hframe : Store.Frame own s s₁) : Holds v own s P r := by
  cases r with
  | ok a s₂ => exact ⟨h.1, h.2.1, hframe.trans h.2.2⟩
  | error e s₂ => exact ⟨h.1, hframe.trans h.2⟩

/-- What runs in a scope made for it may be said to run in any other. -/
theorem Holds.of_newScope {s : Store} {outer : Option ScopeId} {r : EStateM.Result ε Store α}
    (h : Holds v s.scopes.size (s.newScope outer).2 P r) : Holds v own s P r := by
  cases r with
  | ok a s₁ => exact ⟨h.1, h.2.1, h.2.2.of_newScope⟩
  | error e s₁ => exact ⟨h.1, h.2.of_newScope⟩

theorem Holds.bind {p : EStateM ε Store α} {k : α → EStateM ε Store β} {s : Store}
    (h : Holds v own s P (p s)) (hk : ∀ a, P a → Ensures v own Q (k a)) : Holds v own s Q ((p >>= k) s) := by
  change Holds v own s Q (EStateM.bind p k s)
  rw [EStateM.bind]
  cases hp : p s with
  | ok a s₁ =>
    rw [hp] at h
    exact (hk a h.1 s₁ h.2.1).trans h.2.2
  | error e s₁ =>
    rw [hp] at h
    exact h

theorem Ensures.bind {p : EStateM ε Store α} {k : α → EStateM ε Store β} (h : Ensures v own P p)
    (hk : ∀ a, P a → Ensures v own Q (k a)) : Ensures v own Q (p >>= k) :=
  fun s hs => (h s hs).bind hk

theorem Ensures.ite {c : Prop} [Decidable c] {p q : EStateM ε Store α} (hp : Ensures v own P p)
    (hq : Ensures v own P q) : Ensures v own P (if c then p else q) := by
  split
  · exact hp
  · exact hq

/-- A change to the store that makes and binds nothing. -/
theorem ensures_modifyGet {f : Store → α × Store} (hvalue : ∀ s, P (f s).1)
    (hscopes : ∀ s, (f s).2.scopes = s.scopes) :
    Ensures v own P (modifyGet f : EStateM ε Store α) :=
  fun s hs => ⟨hvalue s, hs.of_eq (hscopes s), .of_eq (hscopes s)⟩

/-- What comes after a look at the store may rely on what names mean in it. -/
theorem ensures_get {k : Store → EStateM ε Store β} (hk : ∀ s : Store, s.Within v → Ensures v own Q (k s)) :
    Ensures v own Q (get >>= k) :=
  fun s hs => hk s hs s hs

end Ensures

end Simian
