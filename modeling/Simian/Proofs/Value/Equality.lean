import Mathlib.Data.List.Perm.Subperm
import Simian.Proofs.Tree.Equality
import Simian.Proofs.Value.Data
import Simian.Proofs.Value.Parts

/-!
# Equality of values

A host compares values by what they are made of. The test looks every pair of one hash up in the other, and only counts the pairs of the other; that no two pairs of a hash are under one hash key makes up for it: then as many pairs, each found on the other side, are all of them. With this the test is an equivalence, and it does not depend on the order in which hashes list their pairs.

A closure is compared by its identity, and programs compare all that they make in this way. An identity is handed out once: if one belongs to two values, they are the same value, so values that are identical are equal.
-/

namespace Simian

/-! ### What the test compares -/

/-- The two values are equal, provided that parts of theirs related by `R` are: elements in order, pairs of hashes by their hash keys. -/
inductive Value.EqualUpTo (R : Value → Value → Prop) : Value → Value → Prop
  | integer (n : Int64) : EqualUpTo R (.integer n) (.integer n)
  | string (text : String) : EqualUpTo R (.string text) (.string text)
  | boolean (b : Bool) : EqualUpTo R (.boolean b) (.boolean b)
  | null : EqualUpTo R .null .null
  | array {i j : Identity} {xs ys : List Value} (helements : List.Forall₂ R xs ys) :
      EqualUpTo R (.array i xs) (.array j ys)
  | hash {i j : Identity} {es fs : List (Entry Value)} (hlength : es.length = fs.length)
      (hfound : ∀ e ∈ es, ∃ f, Entry.find? e.hashKey fs = some f ∧ R e.key f.key ∧ R e.value f.value) :
      EqualUpTo R (.hash i es) (.hash j fs)
  | function {id : Identity} {params params' : List Binder} {body body' : Block} {scope scope' : ScopeId} :
      EqualUpTo R (.function id params body scope) (.function id params' body' scope')
  | builtin (b : Builtin) : EqualUpTo R (.builtin b) (.builtin b)
  | returned {x y : Value} (hvalue : R x y) : EqualUpTo R (.returned x) (.returned y)
  | error (message : String) : EqualUpTo R (.error message) (.error message)
  | quote {i j : Identity} (node : Expr) : EqualUpTo R (.quote i node) (.quote j node)
  | macroValue {id : Identity} {params params' : List Binder} {body body' : Block} {scope scope' : ScopeId} :
      EqualUpTo R (.macroValue id params body scope) (.macroValue id params' body' scope')

theorem sameValues_iff {xs ys : List Value} : sameValues xs ys = true ↔ List.Forall₂ (fun x y => x.same y = true) xs ys := by
  induction xs generalizing ys with
  | nil => cases ys <;> simp [sameValues]
  | cons x xs ih => cases ys <;> simp [sameValues, ih]

theorem Value.same_iff {x y : Value} : x.same y = true ↔ x.EqualUpTo (fun a b => a.same b = true) y := by
  constructor
  · intro h
    -- Values of different kinds are never equal.
    cases x <;> cases y <;> try exact absurd h Bool.false_ne_true
    case null.null => exact .null
    case array.array => exact .array (sameValues_iff.mp h)
    case hash.hash =>
      rw [same, Bool.and_eq_true, beq_iff_eq, entriesWithin_iff] at h
      exact .hash h.1 h.2
    case returned.returned => exact .returned h
    all_goals
      rw [same, beq_iff_eq] at h
      subst h
      constructor
  · intro h
    cases h with
    | integer | string | boolean | function | builtin | error | quote | macroValue => exact beq_self_eq_true _
    | null => rfl
    | array helements => exact sameValues_iff.mpr helements
    | hash hlength hfound =>
      rw [same, Bool.and_eq_true, beq_iff_eq, entriesWithin_iff]
      exact ⟨hlength, hfound⟩
    | returned hvalue => exact hvalue

/-! ### Hash keys -/

/-- No two pairs of the value, if it is a hash, are under one hash key. -/
def Value.KeysDistinct : Value → Prop
  | .hash _ entries => (entries.map (·.hashKey)).Nodup
  | _ => True

/-- No two pairs of any hash in the value are under one hash key. -/
abbrev Value.DistinctKeys (x : Value) : Prop :=
  x.All Value.KeysDistinct

theorem Entry.hashKey_of_find? {α : Type} {hashKey : HashKey} {es : List (Entry α)} {e : Entry α}
    (h : Entry.find? hashKey es = some e) : e.hashKey = hashKey := by
  have hfound := List.find?_some h
  exact beq_iff_eq.mp hfound

/-- Where there are as many hash keys on both sides, all those on the left different and on the right, they are the same. -/
theorem map_hashKey_subset {es fs : List (Entry Value)} (hdistinct : (es.map (·.hashKey)).Nodup)
    (hlength : es.length = fs.length) (hfound : ∀ e ∈ es, ∃ f, Entry.find? e.hashKey fs = some f) :
    fs.map (·.hashKey) ⊆ es.map (·.hashKey) := by
  have hsubset : es.map (·.hashKey) ⊆ fs.map (·.hashKey) := by
    intro hashKey h
    obtain ⟨e, he, rfl⟩ := List.mem_map.mp h
    obtain ⟨f, hf⟩ := hfound e he
    exact List.mem_map.mpr ⟨f, List.mem_of_find?_eq_some hf, Entry.hashKey_of_find? hf⟩
  have hle : (fs.map (·.hashKey)).length ≤ (es.map (·.hashKey)).length := by
    exact Nat.le_of_eq (by rw [List.length_map, List.length_map, hlength])
  exact ((List.Nodup.subperm hdistinct hsubset).perm_of_length_le hle).symm.subset

/-! ### An equivalence -/

namespace Value

variable {x y z : Value}

theorem DistinctKeys.same_self (h : x.DistinctKeys) : x.same x = true := by
  induction h with
  | @intro x hself _ ih =>
    rw [same_iff]
    cases x with
    | array id xs => exact .array (List.forall₂_same.mpr ih)
    | hash id es =>
      rw [forall_parts_hash] at ih
      exact .hash rfl fun e he => ⟨e, Entry.find?_of_mem hself he, ih e he⟩
    | returned value => exact .returned (ih value (List.mem_singleton_self value))
    | _ => constructor

theorem DistinctKeys.same_symm (hx : x.DistinctKeys) (hy : y.DistinctKeys) (h : x.same y = true) : y.same x = true := by
  induction hx generalizing y with
  | intro hdistinct _ ih =>
    obtain ⟨hdistinct', hparts⟩ := hy
    rw [same_iff] at h ⊢
    cases h with
    | array helements =>
      have hback := (List.forall₂_and_left _ _).mpr ⟨hparts, ((List.forall₂_and_left _ _).mpr ⟨ih, helements⟩).flip⟩
      exact .array (hback.imp fun _ _ ⟨hb, ha, hab⟩ => ha hb hab)
    | @hash i j es fs hlength hfound =>
      rw [forall_parts_hash] at ih hparts
      refine .hash hlength.symm fun f hf => ?_
      have hthere := map_hashKey_subset hdistinct hlength fun e he => (hfound e he).imp fun _ h => h.1
      obtain ⟨e, he, hkey⟩ := List.mem_map.mp (hthere (List.mem_map_of_mem hf))
      -- What is found under the hash key of `f` is `f` itself.
      obtain ⟨f', hf', hkeys, hvalues⟩ := hfound e he
      rw [hkey, Entry.find?_of_mem hdistinct' hf] at hf'
      obtain rfl := Option.some.inj hf'
      refine ⟨e, hkey ▸ Entry.find?_of_mem hdistinct he, ?_⟩
      exact ⟨(ih e he).1 (hparts f hf).1 hkeys, (ih e he).2 (hparts f hf).2 hvalues⟩
    | @returned value value' hvalue =>
      exact .returned (ih value (List.mem_singleton_self value) (hparts value' (List.mem_singleton_self value')) hvalue)
    | _ => constructor

theorem same_trans (h : x.same y = true) (h' : y.same z = true) : x.same z = true := by
  induction x using parts_induction generalizing y z with
  | step x ih =>
    rw [same_iff] at h h' ⊢
    cases h with
    | array helements =>
      cases h' with
      | array helements' => exact .array (forall₂_comp helements helements' fun x hx _ _ => ih x hx)
    | hash hlength hfound =>
      cases h' with
      | hash hlength' hfound' =>
        rw [forall_parts_hash] at ih
        refine .hash (hlength.trans hlength') fun e he => ?_
        obtain ⟨f, hf, hkeys, hvalues⟩ := hfound e he
        obtain ⟨g, hg, hkeys', hvalues'⟩ := hfound' f (List.mem_of_find?_eq_some hf)
        rw [Entry.hashKey_of_find? hf] at hg
        exact ⟨g, hg, (ih e he).1 hkeys hkeys', (ih e he).2 hvalues hvalues'⟩
    | returned hvalue =>
      cases h' with
      | returned hvalue' => exact .returned (ih _ (List.mem_singleton_self _) hvalue hvalue')
    | _ =>
      cases h'
      constructor

/-- Values that can be keys and are equal have the same hash key, and no value that can be a key equals one that cannot. -/
theorem hashKey?_eq_of_same (h : x.same y = true) : x.hashKey? = y.hashKey? := by
  rw [same_iff] at h
  cases h <;> rfl

end Value

/-! ### The order of pairs -/

mutual

/-- The second value has the contents of the first, except that hashes in it may list their pairs in other orders and that what was made for it may have other identities. -/
inductive Value.Reordered : Value → Value → Prop
  | refl (x : Value) : Value.Reordered x x
  | array {i j : Identity} {xs ys : List Value} (helements : List.Forall₂ Value.Reordered xs ys) :
      Value.Reordered (.array i xs) (.array j ys)
  | hash {i j : Identity} {es fs gs : List (Entry Value)} (hentries : List.Forall₂ EntryReordered es fs)
      (horder : fs.Perm gs) : Value.Reordered (.hash i es) (.hash j gs)
  | returned {x y : Value} (hvalue : Value.Reordered x y) : Value.Reordered (.returned x) (.returned y)
  | quote {i j : Identity} (node : Expr) : Value.Reordered (.quote i node) (.quote j node)

inductive EntryReordered : Entry Value → Entry Value → Prop
  | mk {hashKey : HashKey} {key key' value value' : Value} (hkey : Value.Reordered key key')
      (hvalue : Value.Reordered value value') : EntryReordered ⟨hashKey, key, value⟩ ⟨hashKey, key', value'⟩

end

theorem map_hashKey_of_reordered {es fs : List (Entry Value)} (h : List.Forall₂ EntryReordered es fs) :
    es.map (·.hashKey) = fs.map (·.hashKey) := by
  induction h with
  | nil => rfl
  | cons hentry _ ih =>
    cases hentry
    rw [List.map_cons, List.map_cons, ih]

namespace Value

variable {x y : Value}

/-- Putting the pairs of hashes in other orders gives an equal value, in which no two pairs are under one hash key either. -/
theorem Reordered.same (h : x.Reordered y) (hx : x.DistinctKeys) : y.DistinctKeys ∧ x.same y = true := by
  induction hx generalizing y with
  | @intro x hdistinct hparts ih =>
    rw [same_iff]
    cases h with
    | refl => exact ⟨.intro hdistinct hparts, same_iff.mp (DistinctKeys.same_self (.intro hdistinct hparts))⟩
    | @array i j xs ys helements =>
      have hboth := ((List.forall₂_and_left _ _).mpr ⟨ih, helements⟩).imp fun _ _ h => h.1 h.2
      refine ⟨.intro trivial fun y hy => ?_, .array (hboth.imp fun _ _ h => h.2)⟩
      obtain ⟨_, _, hy⟩ := exists_mem_of_forall₂ hboth.flip hy
      exact hy.1
    | @hash i j es fs gs hentries horder =>
      have hdistinct' : (gs.map (·.hashKey)).Nodup :=
        (horder.map _).nodup_iff.mp (map_hashKey_of_reordered hentries ▸ hdistinct)
      rw [forall_parts_hash] at ih
      refine ⟨.intro hdistinct' (forall_parts_hash.mpr fun g hg => ?_), .hash ?_ fun e he => ?_⟩
      · obtain ⟨e, he, hentry⟩ := exists_mem_of_forall₂ hentries.flip (horder.mem_iff.mpr hg)
        obtain ⟨hkey, hvalue⟩ := hentry
        exact ⟨((ih _ he).1 hkey).1, ((ih _ he).2 hvalue).1⟩
      · exact hentries.length_eq.trans horder.length_eq
      · obtain ⟨f, hf, hentry⟩ := exists_mem_of_forall₂ hentries he
        have hfound := Entry.find?_of_mem hdistinct' (horder.mem_iff.mp hf)
        obtain ⟨hkey, hvalue⟩ := hentry
        exact ⟨_, hfound, ((ih _ he).1 hkey).2, ((ih _ he).2 hvalue).2⟩
    | @returned value value' hvalue =>
      obtain ⟨hdistinct', hsame⟩ := ih value (List.mem_singleton_self value) hvalue
      exact ⟨.intro trivial (List.forall_mem_singleton.mpr hdistinct'), .returned hsame⟩
    | quote node => exact ⟨.intro trivial (List.forall_mem_nil _), .quote node⟩

/-- No value can tell them apart. -/
theorem Reordered.same_eq (h : x.Reordered y) (hx : x.DistinctKeys) (z : Value) :
    x.same z = y.same z ∧ z.same x = z.same y := by
  obtain ⟨hy, hforth⟩ := h.same hx
  have hback : y.same x = true := hx.same_symm hy hforth
  refine ⟨Bool.eq_iff_iff.mpr ⟨same_trans hback, same_trans hforth⟩, Bool.eq_iff_iff.mpr ?_⟩
  exact ⟨fun hz => same_trans hz hforth, fun hz => same_trans hz hback⟩

/-! ### Identity -/

/-- The identity of the value itself, if it was made and not merely computed. -/
def identity? : Value → Option Identity
  | array id _ | hash id _ | function id .. | quote id _ | macroValue id .. => some id
  | _ => none

/-- Values that are identical are the same value, unless two different ones have been given one identity. -/
theorem eq_or_identity_of_identical (h : x.identical y = true) :
    x = y ∨ ∃ id, x.identity? = some id ∧ y.identity? = some id := by
  unfold identical at h
  split at h
  case h_1 | h_8 =>
    obtain rfl := beq_iff_eq.mp h
    exact .inl rfl
  case h_2 => exact .inl rfl
  case h_9 => exact nomatch h
  all_goals exact .inr ⟨_, rfl, congrArg some (beq_iff_eq.mp h).symm⟩

/-- The value is the one that was made under its identity, `made` being all that were made so far, in the order of their identities; and if it is a hash, no two of its pairs are under one hash key. -/
structure MadeAmong (made : List Value) (x : Value) : Prop where
  recorded : ∀ id, x.identity? = some id → made[id]? = some x
  distinct : x.KeysDistinct

/-- The value, with everything in it, is among what was made. -/
abbrev Recorded (made : List Value) (x : Value) : Prop :=
  x.All (MadeAmong made)

variable {made : List Value}

theorem Recorded.distinctKeys (h : x.Recorded made) : x.DistinctKeys :=
  h.imp fun _ hy => hy.distinct

theorem Recorded.eq_of_identical (hx : x.Recorded made) (hy : y.Recorded made) (h : x.identical y = true) : x = y := by
  obtain rfl | ⟨id, hid, hid'⟩ := eq_or_identity_of_identical h
  · rfl
  · exact Option.some.inj ((hx.self.recorded id hid).symm.trans (hy.self.recorded id hid'))

theorem Recorded.same_of_identical (hx : x.Recorded made) (hy : y.Recorded made) (h : x.identical y = true) :
    x.same y = true := by
  obtain rfl := hx.eq_of_identical hy h
  exact hx.distinctKeys.same_self

end Value

end Simian
