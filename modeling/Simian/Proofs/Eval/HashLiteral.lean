import Simian.Proofs.Eval.Context
import Simian.Proofs.Value.Entries

/-!
# Hashes as maps

A hash literal stores its pairs one after the other, each under the hash key of its key, and indexing looks under the hash key of the index. So a hash maps hash keys: what is found is the value of the last pair whose key has the hash key of the index. Integers and booleans are told apart by their hash keys, from one another and from strings; strings are told apart only as far as their digests are.
-/

namespace Simian

/-! ### Hash keys -/

namespace Value

/-- Whether two values that can be keys are of the same kind and have the same contents. -/
def sameKey : Value → Value → Bool
  | integer a, integer b => a == b
  | string a, string b => a == b
  | boolean a, boolean b => a == b
  | _, _ => false

/-- Whether the values are different texts with the same digest. -/
def collides : Value → Value → Bool
  | string a, string b => a != b && digest a.toList == digest b.toList
  | _, _ => false

/-- A hash key tells all keys apart but texts that collide. -/
theorem hashKey?_eq_iff {x : Value} (hx : x.hashKey?.isSome) (y : Value) :
    x.hashKey? = y.hashKey? ↔ x.sameKey y = true ∨ x.collides y = true := by
  cases x with
  | integer a =>
    cases y with
    | integer b =>
      have hbits : a.toUInt64 = b.toUInt64 ↔ a = b := ⟨congrArg Int64.ofUInt64, congrArg Int64.toUInt64⟩
      simp [hashKey?, sameKey, collides, hbits]
    | _ => simp [hashKey?, sameKey, collides]
  | string a =>
    cases y with
    | string b =>
      by_cases hab : a = b
      · simp [sameKey, hab]
      · simp [hashKey?, sameKey, collides, hab]
    | _ => simp [hashKey?, sameKey, collides]
  | boolean a =>
    cases y with
    | boolean b => cases a <;> cases b <;> simp [hashKey?, sameKey, collides]
    | _ => simp [hashKey?, sameKey, collides]
  | _ => exact nomatch hx

end Value

/-! ### The last pair with a key -/

/-- The value of the last pair whose key passes the test. -/
def lastWhere (test : Value → Bool) (kvs : List (Value × Value)) : Option Value :=
  (kvs.reverse.find? fun kv => test kv.1).map (·.2)

theorem lastWhere_cons (test : Value → Bool) (key value : Value) (kvs : List (Value × Value)) :
    lastWhere test ((key, value) :: kvs) =
      (lastWhere test kvs).or (if test key then some value else none) := by
  rw [lastWhere, List.reverse_cons, List.find?_append, Option.map_or]
  by_cases h : test key <;> simp [lastWhere, h]

theorem lastWhere_congr {test test' : Value → Bool} {kvs : List (Value × Value)}
    (h : ∀ kv ∈ kvs, test kv.1 = test' kv.1) : lastWhere test kvs = lastWhere test' kvs := by
  induction kvs with
  | nil => rfl
  | cons kv kvs ih =>
    rw [List.forall_mem_cons] at h
    rw [lastWhere_cons, lastWhere_cons, ih h.2, h.1]

theorem mem_of_lastWhere {test : Value → Bool} {kvs : List (Value × Value)} {value : Value}
    (h : lastWhere test kvs = some value) : ∃ key, (key, value) ∈ kvs := by
  obtain ⟨⟨key, value'⟩, hfind, rfl⟩ := Option.map_eq_some_iff.mp h
  exact ⟨key, List.mem_reverse.mp (List.mem_of_find?_eq_some hfind)⟩

/-! ### Evaluation -/

namespace Eval

open Filter

/-- The pairs evaluate in turn, to the keys and values given; every key can be one, and no value is an error. -/
inductive EvaluatesPairs (scope : ScopeId) : List (Expr × Expr) → Store → List (Value × Value) → Store → Prop
  | nil (s : Store) : EvaluatesPairs scope [] s [] s
  | cons {key value : Expr} {ps : List (Expr × Expr)} {s t u v : Store} {x y : Value} {kvs : List (Value × Value)}
      (hkey : Evaluates scope key s x t) (hx : x.hashKey?.isSome) (hvalue : Evaluates scope value t y u)
      (hy : y.isError = false) (hps : EvaluatesPairs scope ps u kvs v) :
      EvaluatesPairs scope ((key, value) :: ps) s ((x, y) :: kvs) v

variable {scope : ScopeId} {ps : List (Expr × Expr)} {s t u : Store} {kvs : List (Value × Value)}

theorem evaluates_of_ok {e : Expr} {x : Value} {depth : Nat} (h : step (expr depth) scope e s = .ok x t) :
    Evaluates scope e s x t := by
  refine ⟨depth + 1, ?_⟩
  change run (step (expr depth) scope e) s = _
  rw [run, h]

theorem EvaluatesPairs.isError (h : EvaluatesPairs scope ps s kvs t) : ∀ kv ∈ kvs, kv.2.isError = false := by
  induction h with
  | nil => exact fun _ h => nomatch h
  | cons _ _ _ hy _ ih => exact List.forall_mem_cons.mpr ⟨hy, ih⟩

/-- Evaluating pairs stores them one after the other. -/
theorem EvaluatesPairs.eventually_pairs (h : EvaluatesPairs scope ps s kvs t) (entries : List (Entry Value)) :
    ∀ᶠ depth in atTop, pairs (expr depth) scope entries ps s = .ok (kvs.foldl store entries) t := by
  induction h generalizing entries with
  | nil => exact .of_forall fun _ => rfl
  | @cons key value ps s t u v x y kvs hkey hx hvalue hy _ ih =>
    obtain ⟨under, hunder⟩ := Option.isSome_iff_exists.mp hx
    have hstore : store entries (x, y) = Entry.insert ⟨under, x, y⟩ entries := store_of_hashKey? hunder
    filter_upwards [hkey.eventually_ok (isError_of_hashKey? hx), hvalue.eventually_ok hy, ih (store entries (x, y))] with
      depth hkey hvalue hrest
    refine (bind_of_ok hkey).trans ?_
    simp only [hunder]
    refine (bind_of_ok hvalue).trans ?_
    rw [← hstore]
    exact hrest

/-- A hash literal evaluates to what comes of storing its pairs. -/
theorem EvaluatesPairs.evaluates_stored (h : EvaluatesPairs scope ps s kvs t) (span : Span) :
    Evaluates scope (.hash span ps) s (.hash t.nextId (storeAll kvs)) t.fresh.2 := by
  obtain ⟨depth, hdepth⟩ := (h.eventually_pairs []).exists
  exact evaluates_of_ok (bind_of_ok hdepth)

/-- What a hash literal evaluates to, and what is found in it. -/
theorem EvaluatesPairs.evaluates_hash (h : EvaluatesPairs scope ps s kvs t) :
    ∃ entries, (∀ span, Evaluates scope (.hash span ps) s (.hash t.nextId entries) t.fresh.2) ∧
      ∀ hashKey, (Entry.find? hashKey entries).map (·.value) = lastWhere (·.hashKey? == some hashKey) kvs := by
  refine ⟨storeAll kvs, h.evaluates_stored, fun hashKey => ?_⟩
  rw [find?_storeAll, Option.map_map, lastWhere, lastUnder]
  rfl

theorem evaluates_index {left index : Expr} {x k v : Value} (hleft : Evaluates scope left s x t)
    (hx : x.isError = false) (hindex : Evaluates scope index t k u) (hk : k.isError = false)
    (happly : applyIndex x k = .ok v) (hv : v.isError = false) (span : Span) :
    Evaluates scope (.index span left index) s v u := by
  obtain ⟨depth, hdepth, hdepth'⟩ := ((hleft.eventually_ok hx).and (hindex.eventually_ok hk)).exists
  refine evaluates_of_ok ((bind_of_ok hdepth).trans ((bind_of_ok hdepth').trans ?_))
  rw [happly]
  exact settle_of_isError hv u

/-- What an index finds under its hash key. -/
def found (k : Value) (kvs : List (Value × Value)) : Value :=
  (lastWhere (·.hashKey? == k.hashKey?) kvs).getD .null

theorem isError_found (k : Value) (h : ∀ kv ∈ kvs, kv.2.isError = false) : (found k kvs).isError = false := by
  unfold found
  cases hlast : lastWhere (·.hashKey? == k.hashKey?) kvs with
  | none => rfl
  | some value =>
    obtain ⟨key, hmem⟩ := mem_of_lastWhere hlast
    exact h _ hmem

/-- Without a collision, hash keys select the pairs that have the same key. -/
theorem found_eq {k : Value} (hk : k.hashKey?.isSome) (h : ∀ kv ∈ kvs, k.collides kv.1 = false) :
    found k kvs = (lastWhere k.sameKey kvs).getD .null := by
  have hsame : ∀ kv ∈ kvs, (kv.1.hashKey? == k.hashKey?) = k.sameKey kv.1 := by
    intro kv hkv
    have hiff := Value.hashKey?_eq_iff hk kv.1
    rw [h kv hkv] at hiff
    rw [Bool.eq_iff_iff, beq_iff_eq, eq_comm, hiff]
    simp
  rw [found, lastWhere_congr hsame]

/-- Hashes map hash keys. A literal whose pairs evaluate to keys and values evaluates to a hash, and wherever that is indexed with something that can be a key, the value is that of the last pair under the same hash key, and null if there is none. It is that of the last pair with the same key, of the same kind and with the same contents, as long as the index collides with no key of the literal; and hash keys tell any two keys apart that do not collide, as only texts do. -/
theorem hashes_map_hash_keys (h : EvaluatesPairs scope ps s kvs t) :
    ∃ entries, (∀ span, Evaluates scope (.hash span ps) s (.hash t.nextId entries) t.fresh.2) ∧
      ∀ k : Value, k.hashKey?.isSome →
        (∀ inner span left index s' t' u', Evaluates inner left s' (.hash t.nextId entries) t' →
          Evaluates inner index t' k u' → Evaluates inner (.index span left index) s' (found k kvs) u') ∧
        ((∀ kv ∈ kvs, k.collides kv.1 = false) → found k kvs = (lastWhere k.sameKey kvs).getD .null) ∧
        ∀ key : Value, k.hashKey? = key.hashKey? ↔ k.sameKey key = true ∨ k.collides key = true := by
  obtain ⟨entries, hliteral, hfind⟩ := h.evaluates_hash
  refine ⟨entries, hliteral, fun k hk => ⟨?_, found_eq hk, Value.hashKey?_eq_iff hk⟩⟩
  intro inner span left index s' t' u' hleft hindex
  have happly : applyIndex (.hash t.nextId entries) k = .ok (found k kvs) := by
    obtain ⟨hashKey, hhashKey⟩ := Option.isSome_iff_exists.mp hk
    simp only [applyIndex, hhashKey, hfind, found]
  exact evaluates_index hleft rfl hindex (isError_of_hashKey? hk) happly (isError_found k h.isError) span

/-- `{"a": 1, 1: 2, "a": 3}["a"]` -/
theorem hashes_map_hash_keys_last_pair :
    Evaluates 0 (.index ⟨0, 27⟩ (.hash ⟨0, 22⟩ [(.str ⟨1, 4⟩ "a", .int ⟨6, 7⟩ 1), (.int ⟨9, 10⟩ 1, .int ⟨12, 13⟩ 2),
      (.str ⟨15, 18⟩ "a", .int ⟨20, 21⟩ 3)]) (.str ⟨23, 26⟩ "a")) ⟨#[⟨[], none⟩], 0, ""⟩ (.integer 3)
      ⟨#[⟨[], none⟩], 1, ""⟩ := by
  have hpairs : EvaluatesPairs 0 [(.str ⟨1, 4⟩ "a", .int ⟨6, 7⟩ 1), (.int ⟨9, 10⟩ 1, .int ⟨12, 13⟩ 2),
      (.str ⟨15, 18⟩ "a", .int ⟨20, 21⟩ 3)] ⟨#[⟨[], none⟩], 0, ""⟩
      [(.string "a", .integer 1), (.integer 1, .integer 2), (.string "a", .integer 3)] ⟨#[⟨[], none⟩], 0, ""⟩ :=
    .cons ⟨1, rfl⟩ rfl ⟨1, rfl⟩ rfl (.cons ⟨1, rfl⟩ rfl ⟨1, rfl⟩ rfl (.cons ⟨1, rfl⟩ rfl ⟨1, rfl⟩ rfl (.nil _)))
  obtain ⟨entries, hliteral, hindex⟩ := hashes_map_hash_keys hpairs
  obtain ⟨hevaluates, hfound, _⟩ := hindex (.string "a") rfl
  have hthree : found (.string "a") _ = .integer 3 := hfound (by decide)
  have hvalue := hevaluates 0 ⟨0, 27⟩ _ (.str ⟨23, 26⟩ "a") _ _ _ (hliteral ⟨0, 22⟩) ⟨1, rfl⟩
  rwa [hthree] at hvalue

/-- Two different texts have one hash key, and so `{"aB": 1}["b!"]` is 1, where the key is not in the hash. -/
theorem different_texts_collide :
    (Value.string "aB").hashKey? = (Value.string "b!").hashKey? ∧
      (lastWhere (Value.string "b!").sameKey [(.string "aB", .integer 1)]).isNone ∧
      Evaluates 0 (.index ⟨0, 15⟩ (.hash ⟨0, 9⟩ [(.str ⟨1, 5⟩ "aB", .int ⟨7, 8⟩ 1)]) (.str ⟨10, 14⟩ "b!"))
        ⟨#[⟨[], none⟩], 0, ""⟩ (.integer 1) ⟨#[⟨[], none⟩], 1, ""⟩ :=
  ⟨by decide, by decide, 3, rfl⟩

end Eval

end Simian
