import Simian.Proofs.Eval.Simulation
import Simian.Proofs.Store.Reachability

/-!
# Lexical scoping

What a call does depends on nothing but the scopes that the function and its arguments can reach. In two stores that agree on these it ends in both or in neither, with the same value and the same printed text; only the numbers of the scopes and values that it makes may differ. The scope that the call is made from is not among them, unless something passed leads there.
-/

namespace Simian

/-- Two runs on stores that are alike, with the same halts. -/
def likening (m : Matching) (before before' : String) : Coupling Eval.Halt :=
  ⟨Store.Alike m before before', Eq, fun _ => False⟩

variable {m : Matching}

theorem exact_likening (m : Matching) (before before' : String) : (likening m before before').Exact where
  halt := id
  excused _ := id

theorem simulates_likening (hm : m.OneToOne) (before before' : String) : Simulates (likening m before before') m where
  oneToOne := hm
  halt _ := rfl
  fresh h := ⟨h.nextIdentity 0, h.fresh⟩
  newScope h _ _ hscope := ⟨h.nextScope 0, h.newScope hm hscope⟩
  bind h _ _ hscope name _ _ hxy := h.bind hm hscope name hxy
  lookup h _ _ hscope name := h.lookup hscope name
  print h text := h.print text

namespace Eval

/-- The error that ends both runs is the same. -/
theorem rel_run (hm : m.fault) {before before' : String} {p q : Eval Value}
    (h : Coupled (likening m before before') (Value.Alike m) p q) {s t : Store} (hstore : s.Alike m before before' t) :
    Option.Rel (Value.Alike m) (p.run s).1 (q.run t).1 ∧ (p.run s).2.Alike m before before' (q.run t).2 := by
  have hresults := h s t hstore
  unfold run
  generalize p s = r at hresults ⊢
  generalize q t = r' at hresults ⊢
  cases hresults with
  | ok hvalue hstore => exact ⟨.some hvalue, hstore⟩
  | excused h r => exact h.elim
  | @error e _ _ _ hhalt hstore =>
    cases hhalt
    cases e with
    | raised message => exact ⟨.some (.error message hm), hstore⟩
    | exhausted => exact ⟨.none, hstore⟩

/-- Calls in stores that agree on what the function and the arguments reach, as long as that is not mistaken for what is made later. -/
theorem rel_run_apply (depth : Nat) {f : Value} {args : List Value} {s t : Store}
    (hm : (Matching.renewal s t (f :: args)).OneToOne) (hagree : s.AgreeOnReach t (f :: args)) :
    Option.Rel (Value.Alike (.renewal s t (f :: args))) ((apply (expr depth) f args).run s).1
        ((apply (expr depth) f args).run t).1 ∧
      ((apply (expr depth) f args).run s).2.Alike (.renewal s t (f :: args)) s.output t.output
        ((apply (expr depth) f args).run t).2 := by
  have hc := simulates_likening hm s.output t.output
  have hlenient : (Matching.renewal s t (f :: args)).Lenient := Matching.steady_renewal.toLenient
  have hroots : ∀ x ∈ f :: args, x.Alike (.renewal s t (f :: args)) x := fun _ hx => Matching.alike_renewal (.inl hx)
  rw [List.forall_mem_cons] at hroots
  have hargs : List.Forall₂ (Value.Alike (.renewal s t (f :: args))) args args := List.forall₂_same.mpr hroots.2
  exact rel_run trivial (coupled_apply hc hlenient (coupled_expr hc hlenient depth) hroots.1 hargs) hagree.alike

end Eval

/-- The store in which one scope has other bindings. -/
def Store.withBindings (s : Store) (scope : ScopeId) (bindings : Bindings) : Store :=
  { s with scopes := s.scopes.modify scope fun old => { old with bindings } }

theorem Store.agreeOnReach_withBindings (s : Store) {roots : List Value} {scope : ScopeId}
    (h : ¬ s.Reachable roots scope) (bindings : Bindings) : s.AgreeOnReach (s.withBindings scope bindings) roots := by
  intro i hi
  have hne : scope ≠ i := fun heq => h (heq ▸ hi)
  rw [Store.withBindings, Array.getElem?_modify, if_neg hne]
  cases s.scopes[i]? with
  | none => exact .none
  | some a => exact .some ⟨rfl, fun _ => rfl⟩

namespace Eval

/-- Between stores that have made equally much, calls give equal values and print equal texts. -/
theorem run_apply_withBindings (depth : Nat) {f : Value} {args : List Value} {s : Store} {caller : ScopeId}
    (hcaller : ¬ s.Reachable (f :: args) caller) (bindings : Bindings) :
    ((apply (expr depth) f args).run (s.withBindings caller bindings)).1 = ((apply (expr depth) f args).run s).1 ∧
      ((apply (expr depth) f args).run (s.withBindings caller bindings)).2.output =
        ((apply (expr depth) f args).run s).2.output := by
  have hagree := s.agreeOnReach_withBindings hcaller bindings
  have hsize : s.scopes.size = (s.withBindings caller bindings).scopes.size := (Array.size_modify ..).symm
  -- Both runs number what they make in the same way, so nothing has to be known of what is within reach.
  have hm : (Matching.renewal s (s.withBindings caller bindings) (f :: args)).Diagonal :=
    Matching.diagonal_renewal hsize rfl
  obtain ⟨hvalue, hstore⟩ := rel_run_apply depth hm.oneToOne hagree
  obtain ⟨text, hs, ht⟩ := hstore.output
  refine ⟨?_, ht.trans hs.symm⟩
  generalize ((apply (expr depth) f args).run s).1 = x at hvalue ⊢
  generalize ((apply (expr depth) f args).run (s.withBindings caller bindings)).1 = y at hvalue ⊢
  cases hvalue with
  | none => rfl
  | some hxy => rw [Value.eq_of_alike hm _ hxy]

/-- Scoping is lexical. In two stores that agree on every scope reached from the function and the arguments, a call of the function ends at the same depths, so in both stores or in neither, with values that are alike and the same text printed behind what was there before; what it made is alike too, and everything it did not make stands for itself. In particular, whatever the scope of a caller binds, the call has exactly the same value and prints the same text, unless that scope is reached. -/
theorem scoping_is_lexical (f : Value) (args : List Value) :
    (∀ s t : Store, s.Sound (f :: args) → t.Sound (f :: args) → s.AgreeOnReach t (f :: args) → ∀ depth,
      Option.Rel (Value.Alike (.renewal s t (f :: args))) ((apply (expr depth) f args).run s).1
          ((apply (expr depth) f args).run t).1 ∧
        ((apply (expr depth) f args).run s).2.Alike (.renewal s t (f :: args)) s.output t.output
          ((apply (expr depth) f args).run t).2) ∧
    ∀ (s : Store) (caller : ScopeId), ¬ s.Reachable (f :: args) caller → ∀ (bindings : Bindings) (depth : Nat),
      ((apply (expr depth) f args).run (s.withBindings caller bindings)).1 = ((apply (expr depth) f args).run s).1 ∧
        ((apply (expr depth) f args).run (s.withBindings caller bindings)).2.output =
          ((apply (expr depth) f args).run s).2.output := by
  refine ⟨fun s t hs ht hagree depth => ?_, fun s caller hcaller bindings depth => ?_⟩
  · exact rel_run_apply depth (Matching.oneToOne_renewal hs ht hagree) hagree
  · exact run_apply_withBindings depth hcaller bindings

/-- `fn(y) { [x, y] }`, made in the scope 0. -/
def pairing : Value :=
  .function 0 [⟨"y", ⟨3, 4⟩⟩]
    (.mk ⟨6, 16⟩ [.expr ⟨8, 14⟩ (.array ⟨8, 14⟩ [.ident ⟨9, 10⟩ "x", .ident ⟨12, 13⟩ "y"])]) 0

/-- The scope that `pairing` was made in and is bound in. -/
def pairingScope : Scope :=
  ⟨[("x", .integer 10), ("pairing", pairing)], none⟩

theorem reachable_pairing {s : Store} (h : s.scopes[0]? = some pairingScope) {i : ScopeId}
    (hi : s.Reachable [pairing, .integer 3] i) : i = 0 := by
  have hroots : ∀ x ∈ [pairing, .integer 3], ∀ i ∈ x.scopes, i = 0 := by decide
  refine hi.of_closed (P := (· = 0)) hroots ?_
  rintro i scope rfl hscope
  obtain rfl := Option.some.inj (h.symm.trans hscope)
  exact ⟨fun _ hj => (nomatch hj), by decide⟩

theorem sound_pairing {s : Store} (h : s.scopes[0]? = some pairingScope) (hnext : 0 < s.nextId) :
    s.Sound [pairing, .integer 3] where
  scopes hi := by
    rw [reachable_pairing h hi]
    exact (Array.getElem?_eq_some_iff.mp h).1
  identities := by
    rintro a ⟨x, hx | ⟨i, scope, name, hi, hscope, hx⟩, ha⟩
    · have hzero : ∀ x ∈ [pairing, .integer 3], ∀ a ∈ x.identities, a = 0 := by decide
      exact hzero x hx a ha ▸ hnext
    · have hzero : ∀ b ∈ pairingScope.bindings, ∀ a ∈ b.2.identities, a = 0 := by decide
      rw [reachable_pairing h hi, h] at hscope
      obtain rfl := Option.some.inj hscope
      exact hzero _ (Bindings.mem_of_lookup hx) a ha ▸ hnext

/-- The caller's own `x` is out of reach, and so is all that another store has besides. -/
theorem scoping_is_lexical_pairing :
    ((apply (expr 2) pairing [.integer 3]).run ⟨#[pairingScope, ⟨[("x", .integer 99)], some 0⟩], 1, ""⟩).1 =
        some (.array 1 [.integer 10, .integer 3]) ∧
      Option.Rel
        (Value.Alike (.renewal ⟨#[pairingScope, ⟨[("x", .integer 99)], some 0⟩], 1, ""⟩ ⟨#[pairingScope], 7, ""⟩
          [pairing, .integer 3]))
        ((apply (expr 2) pairing [.integer 3]).run ⟨#[pairingScope, ⟨[("x", .integer 99)], some 0⟩], 1, ""⟩).1
        ((apply (expr 2) pairing [.integer 3]).run ⟨#[pairingScope], 7, ""⟩).1 := by
  refine ⟨rfl, ((scoping_is_lexical pairing [.integer 3]).1 _ _ (sound_pairing rfl ?_) (sound_pairing rfl ?_) ?_ 2).1⟩
  · decide
  · decide
  · intro i hi
    rw [reachable_pairing rfl hi]
    exact .some ⟨rfl, fun _ => rfl⟩

end Eval

end Simian
