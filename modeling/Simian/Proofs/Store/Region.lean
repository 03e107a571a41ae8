import Simian.Proofs.Store.Bindings
import Simian.Proofs.Store.Coupling
import Simian.Proofs.Store.Effect
import Simian.Proofs.Value.Likeness

/-!
# Regions of a store

A region is a set of scopes that lead to one another only: the scope around each of them is in the region, and so are the scopes in which the functions bound there were made. Moreover no macro is bound there. Making a scope inside a region and binding a value of the region keep it so, and whatever a name is found to mean in the region is a value of the region again.

A region grows with the store, since whatever is made next belongs to it. That a function was made in a scope that is there already is therefore said with the size of the store; what holds of a value at one size holds at every larger one.
-/

namespace Simian

/-! ### Regions -/

/-- The scopes of the region that a store of the size has stand for themselves, and no others for any. Macros stand for nothing. -/
def Matching.region (region : ScopeId → Prop) (size : Nat) : Matching :=
  ⟨fun i j => i = j ∧ region i ∧ i < size, fun _ _ => False, Eq, Eq, True, True, fun _ => True⟩

variable {region region' : ScopeId → Prop} {size size' n k : Nat} {m : Matching}

theorem Matching.diagonal_region : (Matching.region region size).Diagonal where
  scope h := h.1
  macroScope h := h.elim
  identity h := h
  span h := h

theorem Matching.excludes_macroKind : (Matching.region region size).Excludes .macroKind := by
  intro x y h hkind
  cases h with
  | macroValue _ _ _ hscope => exact hscope
  | _ => exact nomatch hkind

theorem Matching.scope_mono (hk : n ≤ k) {i j : ScopeId} (h : (Matching.region region n).scope i j) :
    (Matching.region region k).scope i j :=
  ⟨h.1, h.2.1, Nat.lt_of_lt_of_le h.2.2 hk⟩

mutual

theorem Value.alike_widen {scope : ScopeId → ScopeId → Prop} (hscope : ∀ {i j}, m.scope i j → scope i j) :
    ∀ (x : Value) {y : Value}, x.Alike m y → x.Alike { m with scope } y
  | .integer _, _, h | .string _, _, h | .boolean _, _, h | .null, _, h | .builtin _, _, h | .error _, _, h
  | .quote .., _, h | .macroValue .., _, h => by
    cases h
    constructor <;> assumption
  | .function .., _, h => by
    cases h with
    | function hid hparams hbody hmade hcode => exact .function hid hparams hbody (hscope hmade) hcode
  | .array _ elements, _, h => by
    cases h with
    | array hid helements => exact .array hid (valuesAlike_widen hscope elements helements)
  | .hash _ entries, _, h => by
    cases h with
    | hash hid hentries => exact .hash hid (entriesAlike_widen hscope entries hentries)
  | .returned value, _, h => by
    cases h with
    | returned hvalue hsignal => exact .returned (value.alike_widen hscope hvalue) hsignal
termination_by structural x => x

theorem valuesAlike_widen {scope : ScopeId → ScopeId → Prop} (hscope : ∀ {i j}, m.scope i j → scope i j) :
    ∀ (xs : List Value) {ys : List Value}, List.Forall₂ (Value.Alike m) xs ys →
      List.Forall₂ (Value.Alike { m with scope }) xs ys
  | [], _, h => by
    cases h
    exact .nil
  | x :: xs, _, h => by
    cases h with
    | cons hx hxs => exact .cons (x.alike_widen hscope hx) (valuesAlike_widen hscope xs hxs)
termination_by structural xs => xs

theorem entriesAlike_widen {scope : ScopeId → ScopeId → Prop} (hscope : ∀ {i j}, m.scope i j → scope i j) :
    ∀ (es : List (Entry Value)) {fs : List (Entry Value)}, List.Forall₂ (EntryAlike m) es fs →
      List.Forall₂ (EntryAlike { m with scope }) es fs
  | [], _, h => by
    cases h
    exact .nil
  | ⟨_, key, value⟩ :: es, _, h => by
    cases h with
    | cons hentry hes =>
      obtain ⟨hkey, hvalue⟩ := hentry
      exact .cons (.mk (key.alike_widen hscope hkey) (value.alike_widen hscope hvalue)) (entriesAlike_widen hscope es hes)
termination_by structural es => es

end

mutual

theorem Value.scopes_of_alike : ∀ (x : Value) {y : Value}, x.Alike m y → ∀ i ∈ x.scopes, ∃ j, m.scope i j
  | .integer _, _, _ | .string _, _, _ | .boolean _, _, _ | .null, _, _ | .builtin _, _, _ | .error _, _, _
  | .quote .., _, _ | .macroValue .., _, _ => fun _ hi => nomatch hi
  | .function .., _, h => by
    cases h with
    | function _ _ _ hmade _ => exact List.forall_mem_singleton.mpr ⟨_, hmade⟩
  | .array _ elements, _, h => by
    cases h with
    | array _ helements => exact scopes_of_valuesAlike elements helements
  | .hash _ entries, _, h => by
    cases h with
    | hash _ hentries => exact scopes_of_entriesAlike entries hentries
  | .returned value, _, h => by
    cases h with
    | returned hvalue _ => exact value.scopes_of_alike hvalue
termination_by structural x => x

theorem scopes_of_valuesAlike : ∀ (xs : List Value) {ys : List Value}, List.Forall₂ (Value.Alike m) xs ys →
    ∀ i ∈ scopesOfValues xs, ∃ j, m.scope i j
  | [], _, _ => fun _ hi => nomatch hi
  | x :: xs, _, h => by
    cases h with
    | cons hx hxs => exact List.forall_mem_append.mpr ⟨x.scopes_of_alike hx, scopes_of_valuesAlike xs hxs⟩
termination_by structural xs => xs

theorem scopes_of_entriesAlike : ∀ (es : List (Entry Value)) {fs : List (Entry Value)},
    List.Forall₂ (EntryAlike m) es fs → ∀ i ∈ scopesOfEntries es, ∃ j, m.scope i j
  | [], _, _ => fun _ hi => nomatch hi
  | ⟨_, key, value⟩ :: es, _, h => by
    cases h with
    | cons hentry hes =>
      obtain ⟨hkey, hvalue⟩ := hentry
      rw [scopesOfEntries, List.forall_mem_append, List.forall_mem_append]
      exact ⟨⟨key.scopes_of_alike hkey, value.scopes_of_alike hvalue⟩, scopes_of_entriesAlike es hes⟩
termination_by structural es => es

end

/-- The value holds no macro, and its functions were made in scopes of the region, in a store of the size. -/
def Value.Confined (region : ScopeId → Prop) (size : Nat) (x : Value) : Prop :=
  x.Alike (.region region size) x

namespace Value.Confined

variable {x : Value}

theorem widen (h : x.Confined region size) (hregion : ∀ i, region i → i < size → region' i ∧ i < size') :
    x.Confined region' size' := by
  have hscope : ∀ {i j}, (Matching.region region size).scope i j → (Matching.region region' size').scope i j :=
    fun hij => ⟨hij.1, hregion _ hij.2.1 hij.2.2⟩
  exact x.alike_widen hscope h

theorem mono (h : x.Confined region n) (hk : n ≤ k) : x.Confined region k :=
  x.alike_widen (Matching.scope_mono hk) h

theorem holds_macroKind (h : x.Confined region size) : x.holds .macroKind = false :=
  x.holds_of_alike Matching.excludes_macroKind h

theorem scopes (h : x.Confined region size) {i : ScopeId} (hi : i ∈ x.scopes) : region i ∧ i < size := by
  obtain ⟨_, hscope⟩ := x.scopes_of_alike h i hi
  exact hscope.2

end Value.Confined

def ValuesConfined (region : ScopeId → Prop) (size : Nat) (xs : List Value) : Prop :=
  List.Forall₂ (Value.Alike (.region region size)) xs xs

def EntriesConfined (region : ScopeId → Prop) (size : Nat) (es : List (Entry Value)) : Prop :=
  List.Forall₂ (EntryAlike (.region region size)) es es

theorem ValuesConfined.mono {xs : List Value} (h : ValuesConfined region n xs) (hk : n ≤ k) :
    ValuesConfined region k xs :=
  valuesAlike_widen (Matching.scope_mono hk) xs h

theorem EntriesConfined.mono {es : List (Entry Value)} (h : EntriesConfined region n es) (hk : n ≤ k) :
    EntriesConfined region k es :=
  entriesAlike_widen (Matching.scope_mono hk) es h

/-- What the scope refers to, by its place and by its bindings, is in the region. -/
structure Scope.Confined (region : ScopeId → Prop) (size : Nat) (scope : Scope) : Prop where
  outer : ∀ i ∈ scope.outer, region i ∧ i < size
  bindings : ∀ b ∈ scope.bindings, b.2.Confined region size

/-- The scopes of the region lead to one another only, and those still to be made are in it. -/
structure Store.Confined (region : ScopeId → Prop) (s : Store) : Prop where
  scopes : ∀ i scope, region i → s.scopes[i]? = some scope → scope.Confined region s.scopes.size
  next : ∀ i, s.scopes.size ≤ i → region i

/-! ### Operations on the store -/

theorem Scope.Confined.mono {scope : Scope} (h : scope.Confined region n) (hk : n ≤ k) : scope.Confined region k where
  outer i hi := ⟨(h.outer i hi).1, Nat.lt_of_lt_of_le (h.outer i hi).2 hk⟩
  bindings b hb := (h.bindings b hb).mono hk

namespace Store.Confined

variable {s : Store} {i : ScopeId}

theorem of_eq {t : Store} (h : s.Confined region) (heq : t.scopes = s.scopes) : t.Confined region := by
  obtain ⟨hscopes, hnext⟩ := h
  rw [← heq] at hscopes hnext
  exact ⟨hscopes, hnext⟩

theorem newScope (h : s.Confined region) (hi : region i) (hlt : i < s.scopes.size) :
    (s.newScope (some i)).2.Confined region where
  scopes j scope hj hscope := by
    have hsize : (s.newScope (some i)).2.scopes.size = s.scopes.size + 1 := Array.size_push ..
    rw [hsize]
    rw [Store.newScope, Array.getElem?_push] at hscope
    split at hscope
    · obtain rfl := Option.some.inj hscope
      refine ⟨fun o ho => ?_, fun b hb => absurd hb List.not_mem_nil⟩
      obtain rfl := Option.mem_some.mp ho
      exact ⟨hi, Nat.lt_succ_of_lt hlt⟩
    · exact (h.scopes j scope hj hscope).mono (Nat.le_succ _)
  next j hj := by
    have hsize : (s.newScope (some i)).2.scopes.size = s.scopes.size + 1 := Array.size_push ..
    exact h.next j (by omega)

theorem bind (h : s.Confined region) (i : ScopeId) (name : String) {x : Value} (hx : x.Confined region s.scopes.size) :
    (s.bind i name x).Confined region where
  scopes j scope hj hscope := by
    rw [Store.size_bind]
    rw [Store.bind, Array.getElem?_modify] at hscope
    split at hscope
    · obtain ⟨old, hold, rfl⟩ := Option.map_eq_some_iff.mp hscope
      have hconfined := h.scopes j old hj hold
      exact ⟨hconfined.outer, Binds.set hx hconfined.bindings⟩
    · exact h.scopes j scope hj hscope
  next j hj := by
    rw [Store.size_bind] at hj
    exact h.next j hj

theorem find? (h : s.Confined region) (hi : region i) {name : String} {bound : Nat} {x : Value}
    (hfind : s.find? name bound i = some x) : x.Confined region s.scopes.size := by
  induction bound generalizing i with
  | zero => exact nomatch hfind
  | succ bound ih =>
    unfold Store.find? at hfind
    split at hfind
    · exact nomatch hfind
    · rename_i scope hscope
      have hconfined := h.scopes i scope hi hscope
      split at hfind
      · rename_i found hfound
        obtain rfl := Option.some.inj hfind
        exact hconfined.bindings _ (Bindings.mem_of_lookup hfound)
      · split at hfind
        · exact nomatch hfind
        · rename_i outer houter
          exact ih (hconfined.outer outer houter).1 hfind

end Store.Confined

/-! ### Computations -/

/-- What holds of the result of a computation that began in the store `before`; `Q` says it of a value, for the size of the store it ended in. -/
def Stays {ε α : Type} (region : ScopeId → Prop) (before : Store) (Q : Nat → α → Prop) : EStateM.Result ε Store α → Prop
  | .ok a after => after.Confined region ∧ before.scopes.size ≤ after.scopes.size ∧ Q after.scopes.size a
  | .error _ after => after.Confined region ∧ before.scopes.size ≤ after.scopes.size

/-- In a store with `n` scopes or more the computation stays in the region and gives values that satisfy `Q`. -/
def Confines {ε α : Type} (region : ScopeId → Prop) (n : Nat) (Q : Nat → α → Prop) (p : EStateM ε Store α) : Prop :=
  ∀ s : Store, s.Confined region → n ≤ s.scopes.size → Stays region s Q (p s)

section Confines

variable {ε α β : Type} {Q : Nat → α → Prop} {R : Nat → β → Prop} {p : EStateM ε Store α}

theorem Confines.mono (h : Confines region n Q p) (hk : n ≤ k) : Confines region k Q p :=
  fun s hs hsize => h s hs (Nat.le_trans hk hsize)

theorem Confines.pure {a : α} (h : ∀ k, n ≤ k → Q k a) : Confines region n Q (Pure.pure a : EStateM ε Store α) :=
  fun _ hs hsize => ⟨hs, Nat.le_refl _, h _ hsize⟩

theorem confines_throw (e : ε) : Confines region n Q (throw e : EStateM ε Store α) :=
  fun _ hs _ => ⟨hs, Nat.le_refl _⟩

theorem Stays.trans {s s₁ : Store} {r : EStateM.Result ε Store α} (h : Stays region s₁ Q r)
    (hsize : s.scopes.size ≤ s₁.scopes.size) : Stays region s Q r := by
  cases r with
  | ok a s₂ => exact ⟨h.1, Nat.le_trans hsize h.2.1, h.2.2⟩
  | error e s₂ => exact ⟨h.1, Nat.le_trans hsize h.2⟩

theorem Confines.bind {q : α → EStateM ε Store β} (h : Confines region n Q p)
    (hq : ∀ k a, n ≤ k → Q k a → Confines region k R (q a)) : Confines region n R (p >>= q) := by
  intro s hs hsize
  change Stays region s R (EStateM.bind p q s)
  rw [EStateM.bind]
  have hstays := h s hs hsize
  cases hp : p s with
  | ok a s₁ =>
    rw [hp] at hstays
    obtain ⟨hs₁, hle, ha⟩ := hstays
    exact (hq _ a (Nat.le_trans hsize hle) ha s₁ hs₁ (Nat.le_refl _)).trans hle
  | error e s₁ =>
    rw [hp] at hstays
    exact hstays

theorem Confines.ite {c : Prop} [Decidable c] {q : EStateM ε Store α} (hp : Confines region n Q p)
    (hq : Confines region n Q q) : Confines region n Q (if c then p else q) := by
  split
  · exact hp
  · exact hq

/-- A change to the store that makes and binds nothing. -/
theorem confines_modifyGet {f : Store → α × Store} (hvalue : ∀ s k, n ≤ k → Q k (f s).1)
    (hscopes : ∀ s, (f s).2.scopes = s.scopes) : Confines region n Q (modifyGet f : EStateM ε Store α) := by
  intro s hs hsize
  have hsame : (f s).2.scopes.size = s.scopes.size := by rw [hscopes]
  exact ⟨hs.of_eq (hscopes s), Nat.le_of_eq hsame.symm, hvalue s _ (hsame ▸ hsize)⟩

/-- What comes after a look at the store may rely on what is bound in the region. -/
theorem confines_get {q : Store → EStateM ε Store β}
    (hq : ∀ s : Store, s.Confined region → Confines region s.scopes.size R (q s)) : Confines region n R (get >>= q) :=
  fun s hs _ => hq s hs s hs (Nat.le_refl _)

/-- A computation that stays in the region is coupled with itself on the stores that it may begin in. -/
theorem Confines.coupled (h : Confines region n Q p) :
    Coupled (.same fun s => s.Confined region ∧ n ≤ s.scopes.size) Eq p p := by
  rintro s _ ⟨rfl, hs, hsize⟩
  have hstays := h s hs hsize
  generalize p s = r at hstays ⊢
  cases r with
  | ok a s₁ => exact .ok rfl ⟨rfl, hstays.1, Nat.le_trans hsize hstays.2.1⟩
  | error e s₁ => exact .error rfl ⟨rfl, hstays.1, Nat.le_trans hsize hstays.2⟩

theorem confines_of_coupled {S : α → α → Prop}
    (h : ∀ k, n ≤ k → Coupled (.same fun s => s.Confined region ∧ k ≤ s.scopes.size) S p p) :
    Confines region n (fun _ _ => True) p := by
  intro s hs hsize
  have hresults := h s.scopes.size hsize s s ⟨rfl, hs, Nat.le_refl _⟩
  generalize p s = r at hresults ⊢
  cases hresults with
  | ok _ hstore => exact ⟨hstore.2.1, hstore.2.2, trivial⟩
  | error _ hstore => exact hstore.2
  | excused h _ => exact h.elim

end Confines

end Simian
