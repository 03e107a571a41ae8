import Simian.Proofs.Store.Bindings
import Simian.Proofs.Store.Coupling
import Simian.Proofs.Value.Equality

/-!
# A record of what was made

Of all the values that were made a record could be kept, in the order of their identities. The store keeps none, but it counts the identities handed out: nothing is made under an identity that is not new, and what is made is only passed on afterwards. So for every store that came about by evaluations there is such a record, which has all that is bound, and whatever is made next is added at its end.

What a computation gives is said with the record at its end; what is in a record is in every longer one.
-/

namespace Simian

variable {made later : List Value}

theorem Value.Recorded.mono {x : Value} (h : x.Recorded made) (hle : made <+: later) : x.Recorded later := by
  refine h.imp fun y hy => ⟨fun id hid => ?_, hy.distinct⟩
  obtain ⟨hlt, hget⟩ := List.getElem?_eq_some_iff.mp (hy.recorded id hid)
  rw [← hget]
  exact List.prefix_iff_getElem?.mp hle id hlt

/-- What has neither an identity nor parts was computed and need not be recorded. -/
def Value.Computed (x : Value) : Prop :=
  x.identity? = none ∧ x.parts = []

theorem Value.Computed.recorded {x : Value} (h : x.Computed) : x.Recorded made := by
  obtain ⟨hid, hparts⟩ := h
  refine .intro ⟨fun id h => ?_, ?_⟩ fun y hy => ?_
  · rw [hid] at h
    exact nomatch h
  · cases x with
    | hash => exact nomatch hid
    | _ => exact trivial
  · rw [hparts] at hy
    exact absurd hy List.not_mem_nil

theorem Value.Recorded.returned {x : Value} (h : x.Recorded made) : (Value.returned x).Recorded made :=
  .intro ⟨fun _ hid => (nomatch hid), trivial⟩ (List.forall_mem_singleton.mpr h)

/-- A value made under the next identity is recorded when it is put at the end of the record. -/
theorem Value.recorded_concat {x : Value} (hid : x.identity? = some made.length) (hdistinct : x.KeysDistinct)
    (hparts : ∀ y ∈ x.parts, y.Recorded made) : x.Recorded (made ++ [x]) := by
  refine .intro ⟨fun id h => ?_, hdistinct⟩ fun y hy => (hparts y hy).mono (List.prefix_append made [x])
  obtain rfl := Option.some.inj (hid.symm.trans h)
  exact List.getElem?_concat_length

/-! ### Stores -/

/-- In the record is what was made in the store, one value for each identity handed out, and everything bound is recorded. -/
structure Store.Recorded (made : List Value) (s : Store) : Prop where
  length : made.length = s.nextId
  bound : s.Binds (Value.Recorded made)

namespace Store.Recorded

variable {s t : Store}

theorem of_eq (h : s.Recorded made) (hnext : t.nextId = s.nextId) (hscopes : t.scopes = s.scopes) : t.Recorded made where
  length := h.length.trans hnext.symm
  bound := by
    unfold Binds
    rw [hscopes]
    exact h.bound

theorem empty : Store.empty.Recorded [] := ⟨rfl, .empty⟩

theorem newScope (h : s.Recorded made) (outer : Option ScopeId) : (s.newScope outer).2.Recorded made :=
  ⟨h.length, h.bound.newScope outer⟩

theorem bind (h : s.Recorded made) (scope : ScopeId) (name : String) {x : Value} (hx : x.Recorded made) :
    (s.bind scope name x).Recorded made :=
  ⟨h.length, h.bound.bind scope name hx⟩

theorem fresh (h : s.Recorded made) (x : Value) : s.fresh.2.Recorded (made ++ [x]) where
  length := by
    rw [List.length_append, List.length_singleton, h.length]
    rfl
  bound := h.bound.mono fun _ hy => hy.mono (List.prefix_append made [x])

end Store.Recorded

/-! ### Computations -/

/-- What holds of the result of a computation that began with the record `before`; `Q` says it of a value, for the record at the end. -/
def Kept {ε α : Type} (before : List Value) (Q : List Value → α → Prop) : EStateM.Result ε Store α → Prop
  | .ok a s => ∃ made, before <+: made ∧ s.Recorded made ∧ Q made a
  | .error _ s => ∃ made, before <+: made ∧ s.Recorded made

/-- From a store whose record begins with `before` the computation leads to one whose record goes on, and gives values that satisfy `Q`. -/
def Records {ε α : Type} (before : List Value) (Q : List Value → α → Prop) (p : EStateM ε Store α) : Prop :=
  ∀ (made : List Value) (s : Store), before <+: made → s.Recorded made → Kept made Q (p s)

section Records

variable {ε α β : Type} {Q : List Value → α → Prop} {R : List Value → β → Prop} {p : EStateM ε Store α}

theorem Records.mono (h : Records made Q p) (hle : made <+: later) : Records later Q p :=
  fun now s hnow hs => h now s (hle.trans hnow) hs

theorem Records.pure {a : α} (h : ∀ later, made <+: later → Q later a) : Records made Q (Pure.pure a : EStateM ε Store α) :=
  fun now _ hnow hs => ⟨now, List.prefix_rfl, hs, h now hnow⟩

theorem records_throw (e : ε) : Records made Q (throw e : EStateM ε Store α) :=
  fun now _ _ hs => ⟨now, List.prefix_rfl, hs⟩

theorem Kept.trans {r : EStateM.Result ε Store α} (h : Kept later Q r) (hle : made <+: later) : Kept made Q r := by
  cases r with
  | ok a s =>
    obtain ⟨now, hnow, hs, ha⟩ := h
    exact ⟨now, hle.trans hnow, hs, ha⟩
  | error e s =>
    obtain ⟨now, hnow, hs⟩ := h
    exact ⟨now, hle.trans hnow, hs⟩

theorem Records.bind {q : α → EStateM ε Store β} (h : Records made Q p)
    (hq : ∀ later a, made <+: later → Q later a → Records later R (q a)) : Records made R (p >>= q) := by
  intro now s hnow hs
  change Kept now R (EStateM.bind p q s)
  rw [EStateM.bind]
  have hkept := h now s hnow hs
  cases hp : p s with
  | ok a s₁ =>
    rw [hp] at hkept
    obtain ⟨later, hlater, hs₁, ha⟩ := hkept
    exact (hq later a (hnow.trans hlater) ha later s₁ List.prefix_rfl hs₁).trans hlater
  | error e s₁ =>
    rw [hp] at hkept
    exact hkept

theorem Records.ite {c : Prop} [Decidable c] {q : EStateM ε Store α} (hp : Records made Q p) (hq : Records made Q q) :
    Records made Q (if c then p else q) := by
  split
  · exact hp
  · exact hq

/-- A change to the store that makes and binds nothing. -/
theorem records_modifyGet {f : Store → α × Store} (hvalue : ∀ s later, made <+: later → Q later (f s).1)
    (hstore : ∀ s now, s.Recorded now → (f s).2.Recorded now) : Records made Q (modifyGet f : EStateM ε Store α) :=
  fun now s hnow hs => ⟨now, List.prefix_rfl, hstore s now hs, hvalue s now hnow⟩

/-- What comes after a look at the store may rely on all that is bound being recorded. -/
theorem records_get {q : Store → EStateM ε Store β}
    (hq : ∀ s later, made <+: later → s.Recorded later → Records later R (q s)) : Records made R (get >>= q) :=
  fun now s hnow hs => hq s now hnow hs now s List.prefix_rfl hs

/-- A computation that keeps a record is coupled with itself on the stores that it may begin in. -/
theorem Records.coupled (h : Records made Q p) :
    Coupled (.same fun s => ∃ now, made <+: now ∧ s.Recorded now) Eq p p := by
  rintro s _ ⟨rfl, now, hnow, hs⟩
  have hkept := h now s hnow hs
  generalize p s = r at hkept ⊢
  cases r with
  | ok a s₁ =>
    obtain ⟨later, hlater, hs₁, _⟩ := hkept
    exact .ok rfl ⟨rfl, later, hnow.trans hlater, hs₁⟩
  | error e s₁ =>
    obtain ⟨later, hlater, hs₁⟩ := hkept
    exact .error rfl ⟨rfl, later, hnow.trans hlater, hs₁⟩

theorem records_of_coupled {S : α → α → Prop}
    (h : ∀ now, made <+: now → Coupled (.same fun s => ∃ later, now <+: later ∧ s.Recorded later) S p p) :
    Records made (fun _ _ => True) p := by
  intro now s hnow hs
  have hresults := h now hnow s s ⟨rfl, now, List.prefix_rfl, hs⟩
  generalize p s = r at hresults ⊢
  cases hresults with
  | ok _ hstore =>
    obtain ⟨later, hlater, hs₁⟩ := hstore.2
    exact ⟨later, hlater, hs₁, trivial⟩
  | error _ hstore => exact hstore.2
  | excused h _ => exact h.elim

end Records

end Simian
