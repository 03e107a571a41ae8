import Mathlib.Data.List.Induction
import Mathlib.Data.List.Nodup
import Simian.Value.HashKey

/-!
# The pairs of a hash

A hash lists its pairs in the order in which their hash keys first came, no two of them under one hash key. A pair that comes later takes the place of the one that is there under its hash key, key and value both. So of any number of pairs that are stored one after the other the last one under each hash key is kept, at the place of the first.
-/

namespace Simian

/-! ### Storing one pair -/

namespace Entry

variable {α : Type} {entry : Entry α} {entries : List (Entry α)}

/-- A pair whose hash key is not there yet is put at the end. -/
theorem insert_eq_concat (h : entry.hashKey ∉ entries.map (·.hashKey)) : insert entry entries = entries ++ [entry] := by
  induction entries with
  | nil => rfl
  | cons other entries ih =>
    rw [List.map_cons, List.mem_cons, not_or] at h
    rw [insert, beq_false_of_ne (Ne.symm h.1), ih h.2]
    rfl

/-- One whose hash key is there keeps its place. -/
theorem map_hashKey_insert_of_mem (h : entry.hashKey ∈ entries.map (·.hashKey)) :
    (insert entry entries).map (·.hashKey) = entries.map (·.hashKey) := by
  induction entries with
  | nil => exact nomatch h
  | cons other entries ih =>
    rw [insert]
    by_cases hother : other.hashKey = entry.hashKey
    · rw [if_pos (beq_iff_eq.mpr hother), List.map_cons, List.map_cons, hother]
    · rw [List.map_cons, List.mem_cons, or_iff_right (Ne.symm hother)] at h
      rw [if_neg (by rwa [beq_iff_eq]), List.map_cons, List.map_cons, ih h]

theorem nodup_insert (h : (entries.map (·.hashKey)).Nodup) : ((insert entry entries).map (·.hashKey)).Nodup := by
  by_cases hmem : entry.hashKey ∈ entries.map (·.hashKey)
  · rwa [map_hashKey_insert_of_mem hmem]
  · rw [insert_eq_concat hmem, List.map_append, List.map_singleton]
    exact List.concat_eq_append ▸ h.concat hmem

theorem find?_of_mem (hdistinct : (entries.map (·.hashKey)).Nodup) (he : entry ∈ entries) :
    find? entry.hashKey entries = some entry := by
  induction entries with
  | nil => exact nomatch he
  | cons other entries ih =>
    rw [List.map_cons, List.nodup_cons] at hdistinct
    rw [find?, List.find?_cons]
    rcases List.mem_cons.mp he with rfl | he
    · rw [beq_self_eq_true]
    · have hne : other.hashKey ≠ entry.hashKey := fun heq => hdistinct.1 (heq ▸ List.mem_map_of_mem he)
      rw [beq_false_of_ne hne]
      exact ih hdistinct.2 he

end Entry

/-! ### Storing pairs one after the other -/

/-- Stores a value under a key, if the key can be one. -/
def store (entries : List (Entry Value)) (kv : Value × Value) : List (Entry Value) :=
  match kv.1.hashKey? with
  | some hashKey => Entry.insert ⟨hashKey, kv.1, kv.2⟩ entries
  | none => entries

def storeAll (kvs : List (Value × Value)) : List (Entry Value) :=
  kvs.foldl store []

theorem store_of_hashKey? {entries : List (Entry Value)} {kv : Value × Value} {hashKey : HashKey}
    (h : kv.1.hashKey? = some hashKey) : store entries kv = Entry.insert ⟨hashKey, kv.1, kv.2⟩ entries := by
  rw [store, h]

/-- The last pair whose key has the hash key. -/
def lastUnder (hashKey : HashKey) (kvs : List (Value × Value)) : Option (Value × Value) :=
  kvs.reverse.find? (·.1.hashKey? == some hashKey)

variable {kvs : List (Value × Value)} {hashKey : HashKey}

theorem lastUnder_concat (kv : Value × Value) : lastUnder hashKey (kvs ++ [kv]) =
    if kv.1.hashKey? = some hashKey then some kv else lastUnder hashKey kvs := by
  rw [lastUnder, List.reverse_append, List.reverse_singleton, List.singleton_append, List.find?_cons]
  by_cases h : kv.1.hashKey? = some hashKey
  · rw [beq_iff_eq.mpr h, if_pos h]
  · rw [beq_false_of_ne h, if_neg h, lastUnder]

theorem hashKey?_of_lastUnder {kv : Value × Value} (h : lastUnder hashKey kvs = some kv) :
    kv.1.hashKey? = some hashKey := by
  have hfound := List.find?_some h
  exact beq_iff_eq.mp hfound

theorem storeAll_concat (kv : Value × Value) : storeAll (kvs ++ [kv]) = store (storeAll kvs) kv :=
  List.foldl_concat ..

/-- Under each hash key the last pair is found. -/
theorem find?_storeAll : Entry.find? hashKey (storeAll kvs) =
    (lastUnder hashKey kvs).map fun kv => ⟨hashKey, kv.1, kv.2⟩ := by
  induction kvs using List.reverseRecOn with
  | nil => rfl
  | append_singleton kvs kv ih =>
    rw [storeAll_concat, lastUnder_concat]
    cases hunder : kv.1.hashKey? with
    | none => simp [store, hunder, ih]
    | some under =>
      rw [store_of_hashKey? hunder, Entry.find?_insert, ih]
      by_cases h : under = hashKey
      · simp [h]
      · simp [h]

theorem nodup_storeAll (kvs : List (Value × Value)) : ((storeAll kvs).map (·.hashKey)).Nodup := by
  induction kvs using List.reverseRecOn with
  | nil => exact .nil
  | append_singleton kvs kv ih =>
    rw [storeAll_concat, store]
    split
    · exact Entry.nodup_insert ih
    · exact ih

/-- The hash keys are listed in the order in which they first come. -/
theorem map_hashKey_storeAll (kvs : List (Value × Value)) :
    (storeAll kvs).map (·.hashKey) = (kvs.filterMap (·.1.hashKey?)).eraseDups := by
  induction kvs using List.reverseRecOn with
  | nil => rfl
  | append_singleton kvs kv ih =>
    rw [storeAll_concat, List.filterMap_append]
    cases hunder : kv.1.hashKey? with
    | none => simpa [store, hunder] using ih
    | some under =>
      rw [store_of_hashKey? hunder]
      have hlast : [kv].filterMap (·.1.hashKey?) = [under] := by simp [hunder]
      rw [hlast, List.eraseDups_append]
      by_cases hmem : under ∈ kvs.filterMap (·.1.hashKey?)
      · have hthere : under ∈ (storeAll kvs).map (·.hashKey) := ih ▸ List.mem_eraseDups.mpr hmem
        rw [Entry.map_hashKey_insert_of_mem hthere, ih]
        simp [List.removeAll, hmem]
      · have hnew : under ∉ (storeAll kvs).map (·.hashKey) := fun h => hmem (List.mem_eraseDups.mp (ih ▸ h))
        have hconcat : Entry.insert ⟨under, kv.1, kv.2⟩ (storeAll kvs) = storeAll kvs ++ [⟨under, kv.1, kv.2⟩] :=
          Entry.insert_eq_concat hnew
        rw [hconcat, List.map_append, ih]
        simp [List.removeAll, List.eraseDups_cons, hmem]

/-- Every pair is stored under the hash key of its own key, and is the last one under it. -/
theorem lastUnder_of_mem_storeAll {entry : Entry Value} (h : entry ∈ storeAll kvs) :
    entry.key.hashKey? = some entry.hashKey ∧ lastUnder entry.hashKey kvs = some (entry.key, entry.value) := by
  have hfind := Entry.find?_of_mem (nodup_storeAll kvs) h
  rw [find?_storeAll] at hfind
  obtain ⟨hashKey, key, value⟩ := entry
  obtain ⟨kv, hlast, heq⟩ := Option.map_eq_some_iff.mp hfind
  obtain ⟨-, rfl, rfl⟩ := Entry.mk.inj heq
  exact ⟨hashKey?_of_lastUnder hlast, hlast⟩

end Simian
