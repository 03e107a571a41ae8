import Simian.Store

/-!
# Coupled runs

Two computations are run side by side, each on a store of its own. They are coupled when from related stores they come to the same kind of end, with related results and related stores again. One side may be excused: nothing is asked once the first run has ended in a way that does not count, as when it came to its bound.

A coupling is kept by sequencing, so two programs of the same make are coupled as soon as the operations on the store that they are made of are.
-/

namespace Simian

/-- How two runs are compared: which stores and which halts are related, and which halts of the first run do not count. -/
structure Coupling (ε : Type) where
  store : Store → Store → Prop
  halt : ε → ε → Prop
  excused : ε → Prop

variable {ε α β γ δ : Type} {c : Coupling ε} {R : α → β → Prop} {S : γ → δ → Prop}

inductive Coupling.Results (c : Coupling ε) (R : α → β → Prop) :
    EStateM.Result ε Store α → EStateM.Result ε Store β → Prop
  | ok {a : α} {b : β} {s t : Store} (hvalue : R a b) (hstore : c.store s t) : c.Results R (.ok a s) (.ok b t)
  | error {e e' : ε} {s t : Store} (hhalt : c.halt e e') (hstore : c.store s t) : c.Results R (.error e s) (.error e' t)
  | excused {e : ε} {s : Store} (h : c.excused e) (r : EStateM.Result ε Store β) : c.Results R (.error e s) r

/-- Both runs halt for the same reason, and the first is never excused. -/
structure Coupling.Exact (c : Coupling ε) : Prop where
  halt : ∀ {e e'}, c.halt e e' → e = e'
  excused : ∀ e, ¬ c.excused e

/-- From related stores the computations come to related results. -/
def Coupled (c : Coupling ε) (R : α → β → Prop) (p : EStateM ε Store α) (q : EStateM ε Store β) : Prop :=
  ∀ s t : Store, c.store s t → c.Results R (p s) (q t)

theorem Coupled.pure {a : α} {b : β} (h : R a b) :
    Coupled c R (Pure.pure a : EStateM ε Store α) (Pure.pure b) :=
  fun _ _ hstore => .ok h hstore

theorem coupled_throw {e e' : ε} (h : c.halt e e') : Coupled c R (throw e : EStateM ε Store α) (throw e') :=
  fun _ _ hstore => .error h hstore

theorem Coupled.bind {p : EStateM ε Store α} {q : EStateM ε Store β} {k : α → EStateM ε Store γ}
    {l : β → EStateM ε Store δ} (h : Coupled c R p q) (hk : ∀ a b, R a b → Coupled c S (k a) (l b)) :
    Coupled c S (p >>= k) (q >>= l) := by
  intro s t hstore
  change c.Results S (EStateM.bind p k s) (EStateM.bind q l t)
  rw [EStateM.bind, EStateM.bind]
  have hresults := h s t hstore
  generalize p s = r at hresults ⊢
  generalize q t = r' at hresults ⊢
  cases hresults with
  | ok hvalue hstore => exact hk _ _ hvalue _ _ hstore
  | error hhalt hstore => exact .error hhalt hstore
  | excused h r => exact .excused h _

theorem Coupled.mono {R' : α → β → Prop} {p : EStateM ε Store α} {q : EStateM ε Store β} (h : Coupled c R p q)
    (himp : ∀ a b, R a b → R' a b) : Coupled c R' p q := by
  intro s t hstore
  have hresults := h s t hstore
  generalize p s = r at hresults ⊢
  generalize q t = r' at hresults ⊢
  cases hresults with
  | ok hvalue hstore => exact .ok (himp _ _ hvalue) hstore
  | error hhalt hstore => exact .error hhalt hstore
  | excused h r => exact .excused h _

/-- The same runs, compared more loosely. -/
theorem Coupled.loosen {c' : Coupling ε} {p : EStateM ε Store α} {q : EStateM ε Store β} (h : Coupled c R p q)
    (hstore : ∀ s t, c'.store s t ↔ c.store s t) (hhalt : ∀ e e', c.halt e e' → c'.halt e e')
    (hexcused : ∀ e, c.excused e → c'.excused e) : Coupled c' R p q := by
  intro s t hst
  have hresults := h s t ((hstore s t).mp hst)
  generalize p s = r at hresults ⊢
  generalize q t = r' at hresults ⊢
  cases hresults with
  | ok hvalue hst' => exact .ok hvalue ((hstore _ _).mpr hst')
  | error h hst' => exact .error (hhalt _ _ h) ((hstore _ _).mpr hst')
  | excused h r => exact .excused (hexcused _ h) _

theorem coupled_modifyGet {f : Store → α × Store} {g : Store → β × Store}
    (h : ∀ s t, c.store s t → R (f s).1 (g t).1 ∧ c.store (f s).2 (g t).2) :
    Coupled c R (modifyGet f : EStateM ε Store α) (modifyGet g) :=
  fun s t hstore => .ok (h s t hstore).1 (h s t hstore).2

/-- What comes after a look at both stores may rely on their being related. -/
theorem coupled_get {k : Store → EStateM ε Store α} {l : Store → EStateM ε Store β}
    (h : ∀ s t, c.store s t → Coupled c R (k s) (l t)) : Coupled c R (get >>= k) (get >>= l) :=
  fun s t hstore => h s t hstore s t hstore

/-! ### Runs on one store -/

variable {P : Store → Prop} {Q : α → Prop}

/-- Both runs have the same store, which has a property, and the same halts. -/
def Coupling.same (P : Store → Prop) : Coupling ε :=
  ⟨fun s t => s = t ∧ P s, Eq, fun _ => False⟩

theorem Coupling.exact_same : (same P : Coupling ε).Exact where
  halt := id
  excused _ := id

/-- The value, if there is one, and the store at the end have the properties. -/
def Ends (P : Store → Prop) (Q : α → Prop) : EStateM.Result ε Store α → Prop
  | .ok a s => Q a ∧ P s
  | .error _ s => P s

def finalStore : EStateM.Result ε Store α → Store
  | .ok _ s | .error _ s => s

theorem Coupled.finalStore {p : EStateM ε Store α} {q : EStateM ε Store β} (h : Coupled c R p q)
    (hexcused : ∀ e, ¬ c.excused e) {s t : Store} (hst : c.store s t) :
    c.store (finalStore (p s)) (finalStore (q t)) := by
  have hresults := h s t hst
  generalize p s = r at hresults ⊢
  generalize q t = r' at hresults ⊢
  cases hresults with
  | ok _ hstore => exact hstore
  | error _ hstore => exact hstore
  | excused he _ => exact absurd he (hexcused _)

theorem Ends.finalStore {r : EStateM.Result ε Store α} (h : Ends P Q r) : P (finalStore r) := by
  cases r with
  | ok a s => exact h.2
  | error e s => exact h

/-- Computations that are so coupled come to the same end. -/
theorem Coupled.eq_of_same {p q : EStateM ε Store α} (h : Coupled (.same P) (fun a b => a = b ∧ Q a) p q) {s : Store}
    (hs : P s) : p s = q s ∧ Ends P Q (q s) := by
  have hresults := h s s ⟨rfl, hs⟩
  generalize p s = r at hresults ⊢
  generalize q s = r' at hresults ⊢
  cases hresults with
  | ok hvalue hstore =>
    obtain ⟨rfl, hvalue⟩ := hvalue
    obtain ⟨rfl, hstore⟩ := hstore
    exact ⟨rfl, hvalue, hstore⟩
  | error hhalt hstore =>
    obtain rfl : _ = _ := hhalt
    obtain ⟨rfl, hstore⟩ := hstore
    exact ⟨rfl, hstore⟩
  | excused h r => exact h.elim

end Simian
