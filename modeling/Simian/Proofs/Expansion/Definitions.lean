import Mathlib.Logic.Function.Basic
import Simian.Expansion
import Simian.Proofs.Store.Effect

/-!
# The macros that are defined

Defining the macros of a program splits its statements in two: the definitions are bound one after the other, and all other statements are left. So what a scope of macros holds is told by the definitions alone, the last one for each name. Each macro was given an identity when it was bound, different for different names.

Whatever writes to other scopes only, and takes no identity back, leaves the macros as they are.
-/

namespace Simian

/-- What a statement `let name = macro(params) body` defines. -/
structure Definition where
  name : String
  params : List Binder
  body : Block

/-- The definition that a statement is, if it is one. -/
def Stmt.definition? : Stmt → Option Definition
  | .bind _ binder (.macroLit _ params body) => some ⟨binder.name, params, body⟩
  | _ => none

/-- The macros that statements define, in order. -/
def definitions (ss : List Stmt) : List Definition :=
  ss.filterMap Stmt.definition?

/-- The definition of a name that counts, which is the last one. -/
def definitionOf (ds : List Definition) (name : String) : Option Definition :=
  ds.reverse.find? (·.name == name)

theorem definitionOf_concat (ds : List Definition) (d : Definition) (name : String) :
    definitionOf (ds ++ [d]) name = if d.name = name then some d else definitionOf ds name := by
  rw [definitionOf, List.reverse_append, List.reverse_singleton, List.singleton_append, List.find?_cons]
  by_cases h : d.name = name
  · rw [beq_iff_eq.mpr h, if_pos h]
  · rw [beq_false_of_ne h, if_neg h, definitionOf]

/-- Binds a macro in a scope, under an identity of its own. -/
def Store.define (store : Store) (scope : ScopeId) (d : Definition) : Store :=
  store.fresh.2.bind scope d.name (.macroValue store.nextId d.params d.body scope)

/-- Defining binds the definitions in order and leaves the other statements in theirs. -/
theorem defineAll_eq (scope : ScopeId) (ss : List Stmt) (store : Store) :
    defineAll scope ss store =
      (ss.filter (·.definition?.isNone), (definitions ss).foldl (fun store d => store.define scope d) store) := by
  induction ss generalizing store with
  | nil => rfl
  | cons st ss ih =>
    unfold defineAll
    split
    · rename_i heq
      cases heq
    · rename_i heq
      cases heq
      exact ih _
    · rename_i hnot heq
      cases heq
      have hnone : st.definition? = none := by
        unfold Stmt.definition?
        split
        · exact absurd rfl (hnot _ _ _ _ _)
        · rfl
      simp [definitions, hnone, ih]

/-! ### What a scope of macros holds -/

namespace Store

variable {s s' : Store} {scope : ScopeId} {ds : List Definition} {ids : String → Identity}

/-- The scope lies inside no other and binds what the definitions define, each macro under the identity that `ids` gives for its name, and nothing else. -/
structure Macros (s : Store) (scope : ScopeId) (ds : List Definition) (ids : String → Identity) : Prop where
  bound : ∃ bindings, s.scopes[scope]? = some ⟨bindings, none⟩ ∧
    ∀ name, bindings.lookup name = (definitionOf ds name).map fun d => .macroValue (ids name) d.params d.body scope
  handedOut : ∀ {name}, (definitionOf ds name).isSome → ids name < s.nextId
  distinct : ∀ {a b}, (definitionOf ds a).isSome → (definitionOf ds b).isSome → ids a = ids b → a = b

theorem Macros.define (h : s.Macros scope ds ids) (d : Definition) :
    (s.define scope d).Macros scope (ds ++ [d]) (Function.update ids d.name s.nextId) where
  bound := by
    obtain ⟨bindings, hscope, hbindings⟩ := h.bound
    refine ⟨Bindings.set d.name (.macroValue s.nextId d.params d.body scope) bindings, ?_, fun name => ?_⟩
    · simp only [Store.define, Store.bind, Store.fresh, Array.getElem?_modify, hscope]
      rfl
    · rw [Bindings.lookup_set, definitionOf_concat, hbindings, Function.update_apply]
      by_cases hname : name = d.name
      · rw [if_pos hname, if_pos hname.symm, if_pos hname]
        rfl
      · rw [if_neg hname, if_neg (Ne.symm hname), if_neg hname]
  handedOut {name} hname := by
    change Function.update ids d.name s.nextId name < s.nextId + 1
    rw [definitionOf_concat] at hname
    rw [Function.update_apply]
    split
    · exact Nat.lt_succ_self _
    · rename_i hne
      rw [if_neg (Ne.symm hne)] at hname
      exact Nat.lt_succ_of_lt (h.handedOut hname)
  distinct {a b} ha hb heq := by
    -- The new identity is above all those handed out before.
    rw [definitionOf_concat] at ha hb
    rw [Function.update_apply, Function.update_apply] at heq
    by_cases ha' : a = d.name <;> by_cases hb' : b = d.name
    · rw [ha', hb']
    · rw [if_neg (Ne.symm hb')] at hb
      rw [if_pos ha', if_neg hb'] at heq
      exact absurd (h.handedOut hb) (heq ▸ Nat.lt_irrefl _)
    · rw [if_neg (Ne.symm ha')] at ha
      rw [if_neg ha', if_pos hb'] at heq
      exact absurd (h.handedOut ha) (heq ▸ Nat.lt_irrefl _)
    · rw [if_neg (Ne.symm ha')] at ha
      rw [if_neg (Ne.symm hb')] at hb
      rw [if_neg ha', if_neg hb'] at heq
      exact h.distinct ha hb heq

theorem Macros.foldl_define (h : s.Macros scope ds ids) (more : List Definition) :
    ∃ ids', (more.foldl (fun store d => store.define scope d) s).Macros scope (ds ++ more) ids' := by
  induction more generalizing s ds ids with
  | nil => exact ⟨ids, by rwa [List.append_nil]⟩
  | cons d more ih =>
    obtain ⟨ids', hmore⟩ := ih (h.define d)
    rw [List.append_assoc, List.singleton_append] at hmore
    exact ⟨ids', hmore⟩

theorem Macros.frame {own : ScopeId} (h : s.Macros scope ds ids) (hframe : Frame own s s') (hown : scope ≠ own)
    (hnext : s.nextId ≤ s'.nextId) : s'.Macros scope ds ids where
  bound := by
    obtain ⟨bindings, hscope, hbindings⟩ := h.bound
    have hlt : scope < s.scopes.size := (Array.getElem?_eq_some_iff.mp hscope).1
    exact ⟨bindings, ((hframe scope hlt).2 hown).trans hscope, hbindings⟩
  handedOut hname := Nat.lt_of_lt_of_le (h.handedOut hname) hnext
  distinct := h.distinct

end Store

end Simian
