import Mathlib.Data.List.Induction
import Simian.Proofs.Store.Likeness

/-!
# What names mean after a history

All that is ever done to the scopes of a store is to make one and to bind a name in one. So what a scope binds is told by the history of the store alone: under each name the value that was bound last, of those that were bound in this very scope. A scope is made inside one that is there already, or inside none, and stays there; going outwards therefore leads to ever older scopes, and to an end. A name means what it means in the first scope on this way in which it was ever bound.
-/

namespace Simian

namespace Store

/-- What can be done to the scopes of a store. -/
inductive Operation where
  | newScope (outer : Option ScopeId)
  | bind (scope : ScopeId) (name : String) (value : Value)

namespace Operation

def perform (s : Store) : Operation → Store
  | newScope outer => (s.newScope outer).2
  | bind scope name value => s.bind scope name value

/-- The scope around a new one. -/
def outer? : Operation → Option (Option ScopeId)
  | newScope outer => some outer
  | bind .. => none

/-- What is bound to the name in the scope. -/
def value? (scope : ScopeId) (name : String) : Operation → Option Value
  | newScope _ => none
  | bind i other value => if i = scope ∧ other = name then some value else none

/-- It is done to, or inside, one of the first `count` scopes. -/
def Concerns (count : Nat) : Operation → Prop
  | newScope outer => ∀ o ∈ outer, o < count
  | bind scope .. => scope < count

instance (count : Nat) : (op : Operation) → Decidable (op.Concerns count)
  | newScope outer => inferInstanceAs (Decidable (∀ o ∈ outer, o < count))
  | bind scope .. => inferInstanceAs (Decidable (scope < count))

end Operation

/-- The scopes around those that were made, in the order in which these were made. -/
def outers (ops : List Operation) : List (Option ScopeId) :=
  ops.filterMap Operation.outer?

/-- What was bound last to the name in this very scope. -/
def lastBound (ops : List Operation) (scope : ScopeId) (name : String) : Option Value :=
  ops.reverse.findSome? (Operation.value? scope name)

/-- A sequence of operations, each on scopes that have been made. -/
inductive History : List Operation → Prop
  | nil : History []
  | concat {ops : List Operation} {op : Operation} (h : History ops) (hop : op.Concerns (outers ops).length) :
      History (ops ++ [op])

/-- The scopes on the way outwards, from the given one on to one that has none around it. -/
inductive Chain (ops : List Operation) : ScopeId → List ScopeId → Prop
  | last {i : ScopeId} (h : (outers ops)[i]? = some none) : Chain ops i [i]
  | outwards {i o : ScopeId} {is : List ScopeId} (h : (outers ops)[i]? = some (some o)) (hrest : Chain ops o is) :
      Chain ops i (i :: is)

/-- The store after the operations. -/
def after (ops : List Operation) : Store :=
  ops.foldl Operation.perform .empty

variable {ops : List Operation} {op : Operation} {i o : ScopeId} {name : String}

theorem after_concat : after (ops ++ [op]) = op.perform (after ops) := by
  rw [after, List.foldl_append]
  rfl

theorem outers_newScope (outer : Option ScopeId) : outers (ops ++ [.newScope outer]) = outers ops ++ [outer] :=
  List.filterMap_append

theorem outers_bind (scope : ScopeId) (value : Value) : outers (ops ++ [.bind scope name value]) = outers ops :=
  List.filterMap_append.trans (List.append_nil _)

theorem length_outers_le : (outers ops).length ≤ (outers (ops ++ [op])).length := by
  rw [outers, outers, List.filterMap_append, List.length_append]
  exact Nat.le_add_right ..

theorem lastBound_concat : lastBound (ops ++ [op]) i name = (op.value? i name).or (lastBound ops i name) := by
  rw [lastBound, List.reverse_append, List.reverse_singleton, List.singleton_append, List.findSome?_cons]
  cases op.value? i name <;> rfl

theorem lastBound_bind (scope : ScopeId) (other : String) (value : Value) :
    lastBound (ops ++ [.bind scope other value]) i name =
      if scope = i ∧ other = name then some value else lastBound ops i name := by
  rw [lastBound_concat, Operation.value?]
  split <;> rfl

/-! ### Histories -/

namespace History

/-- Nothing was bound in a scope before it was made. -/
theorem lastBound_eq_none (h : History ops) (hi : (outers ops).length ≤ i) : lastBound ops i name = none := by
  induction h with
  | nil => rfl
  | @concat ops op _ hop ih =>
    have hi' : (outers ops).length ≤ i := Nat.le_trans length_outers_le hi
    rw [lastBound_concat, ih hi', Option.or_none]
    cases op with
    | newScope outer => rfl
    | bind scope other value =>
      have hlt : scope < (outers ops).length := hop
      rw [Operation.value?, if_neg]
      rintro ⟨rfl, -⟩
      exact Nat.not_lt.mpr hi' hlt

/-- The scope around was made before. -/
theorem outer_lt (h : History ops) (ho : (outers ops)[i]? = some (some o)) : o < i := by
  induction h with
  | nil => exact nomatch ho
  | @concat ops op _ hop ih =>
    cases op with
    | bind scope other value =>
      rw [outers_bind] at ho
      exact ih ho
    | newScope outer =>
      rw [outers_newScope] at ho
      rcases Nat.lt_trichotomy i (outers ops).length with hlt | rfl | hgt
      · rw [List.getElem?_append_left hlt] at ho
        exact ih ho
      · rw [List.getElem?_concat_length] at ho
        exact hop o (Option.some.inj ho)
      · rw [List.getElem?_eq_none (by rw [List.length_append]; exact hgt)] at ho
        exact nomatch ho

/-- The way outwards comes to an end. -/
theorem exists_chain (h : History ops) (hi : i < (outers ops).length) : ∃ is, Chain ops i is := by
  induction i using Nat.strong_induction_on with
  | h i ih =>
    cases houter : (outers ops)[i] with
    | none => exact ⟨[i], .last (List.getElem?_eq_some_iff.mpr ⟨hi, houter⟩)⟩
    | some o =>
      have ho : (outers ops)[i]? = some (some o) := List.getElem?_eq_some_iff.mpr ⟨hi, houter⟩
      have hlt := h.outer_lt ho
      obtain ⟨is, his⟩ := ih o hlt (Nat.lt_trans hlt hi)
      exact ⟨i :: is, .outwards ho his⟩

end History

namespace Chain

variable {is : List ScopeId}

theorem unique (h : Chain ops i is) {is' : List ScopeId} (h' : Chain ops i is') : is = is' := by
  induction h generalizing is' with
  | last h =>
    cases h' with
    | last => rfl
    | outwards h' => exact nomatch h.symm.trans h'
  | outwards h _ ih =>
    cases h' with
    | last h' => exact nomatch h.symm.trans h'
    | outwards h' hrest' =>
      obtain rfl := Option.some.inj (Option.some.inj (h.symm.trans h'))
      rw [ih hrest']

/-- Binding a name changes no way outwards. -/
theorem bind (h : Chain ops i is) (scope : ScopeId) (other : String) (value : Value) :
    Chain (ops ++ [.bind scope other value]) i is := by
  induction h with
  | last h => exact .last ((outers_bind scope value).symm ▸ h)
  | outwards h _ ih => exact .outwards ((outers_bind scope value).symm ▸ h) ih

end Chain

/-! ### The store after a history -/

/-- The scopes of the store are those that were made, each inside the one that it was made in, and each binds what was last bound in it. -/
structure Records (ops : List Operation) (s : Store) : Prop where
  outers : s.scopes.toList.map Scope.outer = outers ops
  bindings : ∀ {i scope}, s.scopes[i]? = some scope → ∀ name, scope.bindings.lookup name = lastBound ops i name

namespace Records

variable {s : Store}

theorem size_eq (h : s.Records ops) : s.scopes.size = (Store.outers ops).length := by
  rw [← h.outers, List.length_map, Array.length_toList]

theorem newScope (h : s.Records ops) (hops : History ops) (outer : Option ScopeId) :
    (s.newScope outer).2.Records (ops ++ [.newScope outer]) where
  outers := by
    rw [Store.newScope, Array.toList_push, List.map_append, h.outers, outers_newScope]
    rfl
  bindings := by
    intro i scope hscope name
    rw [lastBound_concat, Operation.value?, Option.none_or]
    rw [Store.newScope, Array.getElem?_push] at hscope
    split at hscope
    · rename_i heq
      obtain rfl := Option.some.inj hscope
      exact (hops.lastBound_eq_none (heq ▸ Nat.le_of_eq h.size_eq.symm)).symm
    · exact h.bindings hscope name

theorem bind (h : s.Records ops) (scope : ScopeId) (name : String) (value : Value) :
    (s.bind scope name value).Records (ops ++ [.bind scope name value]) where
  outers := by
    rw [outers_bind, ← h.outers]
    refine List.ext_getElem? fun i => ?_
    simp only [Store.bind, List.getElem?_map, Array.getElem?_toList, Array.getElem?_modify]
    split
    · rw [Option.map_map]
      rfl
    · rfl
  bindings := by
    intro i inner hinner other
    rw [lastBound_bind]
    rw [Store.bind, Array.getElem?_modify] at hinner
    split at hinner
    · rename_i heq
      obtain ⟨old, hold, rfl⟩ := Option.map_eq_some_iff.mp hinner
      rw [Bindings.lookup_set, h.bindings hold]
      by_cases hother : other = name
      · simp [heq, hother]
      · simp [hother, Ne.symm hother]
    · rename_i hne
      rw [if_neg fun hsame => hne hsame.1]
      exact h.bindings hinner other

end Records

theorem History.records (h : History ops) : (after ops).Records ops := by
  induction h with
  | nil => exact ⟨rfl, fun hscope => nomatch hscope⟩
  | @concat ops op hops _ ih =>
    rw [after_concat]
    cases op with
    | newScope outer => exact ih.newScope hops outer
    | bind scope name value => exact ih.bind scope name value

/-- The scope at a place of the way outwards is in the store, and the next scope of the way is around it. -/
theorem Records.exists_scope {s : Store} (h : s.Records ops) {outer : Option ScopeId}
    (houter : (Store.outers ops)[i]? = some outer) : ∃ scope, s.scopes[i]? = some scope ∧ scope.outer = outer := by
  rw [← h.outers, List.getElem?_map, Array.getElem?_toList, Option.map_eq_some_iff] at houter
  exact houter

/-- The search goes the way outwards, and no further than to its end. -/
theorem Chain.find?_eq {is : List ScopeId} {s : Store} (h : Chain ops i is) (hs : s.Records ops) {bound : Nat}
    (hbound : is.length ≤ bound) : s.find? name bound i = is.findSome? fun j => lastBound ops j name := by
  induction h generalizing bound with
  | last houter =>
    cases bound with
    | zero => exact absurd hbound (Nat.not_succ_le_zero _)
    | succ bound =>
      obtain ⟨scope, hscope, hnone⟩ := hs.exists_scope houter
      simp only [find?, hscope, hnone, hs.bindings hscope, List.findSome?_cons, List.findSome?_nil]
      cases lastBound ops _ name <;> rfl
  | outwards houter _ ih =>
    cases bound with
    | zero => exact absurd hbound (Nat.not_succ_le_zero _)
    | succ bound =>
      obtain ⟨scope, hscope, hsome⟩ := hs.exists_scope houter
      simp only [find?, hscope, hsome, hs.bindings hscope, List.findSome?_cons, ih (Nat.le_of_succ_le_succ hbound)]
      cases lastBound ops _ name <;> rfl

theorem Chain.lookup_eq {is : List ScopeId} (h : Chain ops i is) (hops : History ops) (name : String) :
    (after ops).lookup i name = is.findSome? fun j => lastBound ops j name := by
  rw [← find?_eq_lookup (Nat.le_max_left _ is.length), h.find?_eq hops.records (Nat.le_max_right ..)]

/-! ### Further bindings -/

section Bind

variable {is nearer : List ScopeId} {value : Value}

/-- What is bound in a scope is what is found if nothing is found before that scope. -/
theorem findSome?_bind_of_nearer (hnearer : ∀ j ∈ nearer, lastBound ops j name = none) (further : List ScopeId) :
    ((nearer ++ o :: further).findSome? fun j => lastBound (ops ++ [.bind o name value]) j name) = some value := by
  induction nearer with
  | nil => rw [List.nil_append, List.findSome?_cons, lastBound_bind, if_pos ⟨rfl, rfl⟩]
  | cons j nearer ih =>
    rw [List.forall_mem_cons] at hnearer
    rw [List.cons_append, List.findSome?_cons, lastBound_bind, hnearer.1, ih hnearer.2]
    by_cases hsame : o = j
    · rw [if_pos ⟨hsame, rfl⟩]
    · rw [if_neg fun h => hsame h.1]

/-- What is bound elsewhere is not found. -/
theorem findSome?_bind_of_notMem (ho : o ∉ is) (other : String) :
    (is.findSome? fun j => lastBound (ops ++ [.bind o name value]) j other) =
      is.findSome? fun j => lastBound ops j other := by
  induction is with
  | nil => rfl
  | cons j is ih =>
    rw [List.mem_cons, not_or] at ho
    rw [List.findSome?_cons, List.findSome?_cons, lastBound_bind, if_neg fun h => ho.1 h.1, ih ho.2]

end Bind

/-- A name means what was bound to it last in the nearest scope. After every history the way outwards from a scope comes to an end, and a name means in the scope what was last bound to it in the first scope on this way in which it was ever bound, or nothing if there is none; the search takes no more steps than there are scopes on the way. What is bound in an outer scope later on is seen from the scope, unless the name was bound in one before it; and what is bound in a scope that is not on the way changes nothing that is seen from the scope. -/
theorem names_mean_latest_in_nearest {ops : List Operation} (hops : History ops) {i : ScopeId}
    (hi : i < (outers ops).length) :
    ∃ is, Chain ops i is ∧
      (∀ name, (after ops).lookup i name = is.findSome? fun j => lastBound ops j name) ∧
      (∀ name bound, is.length ≤ bound → (after ops).find? name bound i = (after ops).lookup i name) ∧
      ∀ o < (outers ops).length, ∀ name value,
        (∀ nearer further, is = nearer ++ o :: further → (∀ j ∈ nearer, lastBound ops j name = none) →
          (after (ops ++ [.bind o name value])).lookup i name = some value) ∧
        (o ∉ is → ∀ other, (after (ops ++ [.bind o name value])).lookup i other = (after ops).lookup i other) := by
  obtain ⟨is, his⟩ := hops.exists_chain hi
  refine ⟨is, his, his.lookup_eq hops, fun name bound hbound => ?_, fun o ho name value => ⟨?_, ?_⟩⟩
  · rw [his.find?_eq hops.records hbound, his.lookup_eq hops]
  · rintro nearer further rfl hnearer
    rw [(his.bind o name value).lookup_eq (hops.concat ho), findSome?_bind_of_nearer hnearer]
  · intro hout other
    rw [(his.bind o name value).lookup_eq (hops.concat ho), his.lookup_eq hops, findSome?_bind_of_notMem hout]

/-- Two names in a scope and the scope inside it, and a third scope apart. -/
def nestedScopes : List Operation :=
  [.newScope none, .bind 0 "a" (.integer 1), .newScope (some 0), .bind 1 "b" (.integer 10), .newScope none]

theorem history_nestedScopes : History nestedScopes := by
  have houter : History [.newScope none] := History.nil.concat (by decide)
  have ha : History [.newScope none, .bind 0 "a" (.integer 1)] := houter.concat (by decide)
  have hinner : History [.newScope none, .bind 0 "a" (.integer 1), .newScope (some 0)] := ha.concat (by decide)
  exact (hinner.concat (by decide)).concat (by decide)

/-- The inner scope sees a later binding in the outer one, and none in the third. -/
theorem names_mean_latest_in_nearest_nested :
    History nestedScopes ∧ 1 < (outers nestedScopes).length ∧ Chain nestedScopes 1 [1, 0] ∧
      (after nestedScopes).lookup 1 "a" = some (.integer 1) ∧
      (after (nestedScopes ++ [.bind 0 "a" (.integer 2)])).lookup 1 "a" = some (.integer 2) ∧
      ∀ other, (after (nestedScopes ++ [.bind 2 "a" (.integer 3)])).lookup 1 other =
        (after nestedScopes).lookup 1 other := by
  have hchain : Chain nestedScopes 1 [1, 0] := .outwards rfl (.last rfl)
  obtain ⟨is, his, hlookup, _, hbind⟩ := names_mean_latest_in_nearest history_nestedScopes (i := 1) (by decide)
  obtain rfl := his.unique hchain
  refine ⟨history_nestedScopes, by decide, hchain, hlookup "a", ?_, ?_⟩
  · exact (hbind 0 (by decide) "a" (.integer 2)).1 [1] [] rfl (List.forall_mem_singleton.mpr rfl)
  · exact (hbind 2 (by decide) "a" (.integer 3)).2 (by decide)

end Store

end Simian
