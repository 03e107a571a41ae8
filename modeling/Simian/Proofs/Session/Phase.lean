import Simian.Parser
import Simian.Proofs.Eval.Lexical
import Simian.Proofs.Expansion.Effect
import Simian.Proofs.Expansion.Simulation

/-!
# Expansion is a phase of its own

A session expands programs in a scope of macros that nothing else writes to: evaluation runs in another scope, and the bodies of macros run in scopes of their own. So all that is left of the past in that scope is which macros were defined, and in which order. What else there is in the store, and how far it has counted its scopes and identities, makes no difference to an expansion: two stores that hold the same macros are alike, macro by macro, and stay so.
-/

namespace Simian

/-! ### Identities are not taken back -/

theorem simulates_counting (n : Nat) : Simulates (.same (n ≤ ·.nextId)) (.diagonal True) where
  oneToOne := Matching.diagonal_diagonal.oneToOne
  halt _ := rfl
  fresh := by
    rintro s _ ⟨rfl, hs⟩
    exact ⟨rfl, rfl, Nat.le_succ_of_le hs⟩
  newScope := by
    rintro s _ ⟨rfl, hs⟩ i _ rfl
    exact ⟨rfl, rfl, hs⟩
  bind := by
    rintro s _ ⟨rfl, hs⟩ i _ rfl name x y hxy
    obtain rfl := x.eq_of_alike Matching.diagonal_diagonal hxy
    exact ⟨rfl, hs⟩
  lookup := by
    rintro s _ ⟨rfl, _⟩ i _ rfl name
    cases s.lookup i name with
    | none => exact .none
    | some x => exact .some (x.alike_diagonal fun _ => trivial)
  print := by
    rintro s _ ⟨rfl, hs⟩ text
    exact ⟨rfl, hs⟩

theorem Eval.run_snd (p : Eval Value) (s : Store) : (p.run s).2 = finalStore (p s) := by
  unfold run
  cases p s with
  | ok x t => rfl
  | error halt t =>
    cases halt with
    | raised message => rfl
    | exhausted => rfl

theorem Eval.nextId_le_program (depth : Nat) (scope : ScopeId) (p : Program) (s : Store) :
    s.nextId ≤ ((program depth scope p).run s).2.nextId := by
  have hcoupled := coupled_program (simulates_counting s.nextId) Matching.lenient_diagonal depth (Eq.refl scope)
    (p.alike_refl fun _ => rfl)
  rw [run_snd]
  exact (hcoupled.finalStore (fun _ => id) ⟨rfl, Nat.le_refl s.nextId⟩).2

theorem Program.nextId_le_expandMacros (depth : Nat) (scope : ScopeId) (p : Program) (s : Store) :
    s.nextId ≤ (finalStore (p.expandMacros depth scope s)).nextId := by
  have hc := simulates_counting s.nextId
  have heval := Eval.coupled_expr hc Matching.lenient_diagonal depth
  have hcoupled := coupled_expandMacros hc Matching.lenient_diagonal heval Coupling.exact_same id (Eq.refl scope)
    (p.alike_refl fun _ => rfl)
  exact (hcoupled.finalStore (fun _ => id) ⟨rfl, Nat.le_refl s.nextId⟩).2

/-! ### Macros in a store -/

/-- The scope of macros stands for itself, a macro for the one that has its name in the other store, and what is made from here on for what is made there at the same point. -/
def Matching.byName (s t : Store) (scope : ScopeId) (ds : List Definition) (ids ids' : String → Identity) :
    Matching where
  scope := Renewed (· = scope) s.scopes.size t.scopes.size
  macroScope := Renewed (· = scope) s.scopes.size t.scopes.size
  identity a b := (∃ name, (definitionOf ds name).isSome ∧ a = ids name ∧ b = ids' name) ∨
    ∃ k, a = s.nextId + k ∧ b = t.nextId + k
  span := Eq
  fault := True
  signal := True
  code _ := True

namespace Store.Macros

variable {s t : Store} {scope : ScopeId} {ds : List Definition} {ids ids' : String → Identity}

theorem run_program (h : s.Macros scope ds ids) (depth : Nat) {own : ScopeId} (hown : scope ≠ own) (p : Program) :
    ((Eval.program depth own p).run s).2.Macros scope ds ids := by
  have hensures : Ensures .any own _ (Eval.program depth own p) :=
    Eval.ensures_program Vocabulary.closed_any depth (withinStatements_any p.statements)
  exact h.frame (Eval.frame_run hensures s) hown (Eval.nextId_le_program depth own p s)

theorem expandMacros (h : s.Macros scope ds ids) (depth : Nat) (inner : ScopeId) (p : Program) :
    (finalStore (p.expandMacros depth inner s)).Macros scope ds ids :=
  h.frame (p.frame_expandMacros (scope + 1) depth inner s) (Nat.ne_of_lt (Nat.lt_succ_self scope))
    (p.nextId_le_expandMacros depth inner s)

theorem lt_size (h : s.Macros scope ds ids) : scope < s.scopes.size := by
  obtain ⟨bindings, hscope, _⟩ := h.bound
  exact (Array.getElem?_eq_some_iff.mp hscope).1

theorem oneToOne_byName (hs : s.Macros scope ds ids) (ht : t.Macros scope ds ids') :
    (Matching.byName s t scope ds ids ids').OneToOne where
  scope hi hj := by
    have hkept : ∀ i, i = scope → i < s.scopes.size ∧ i < t.scopes.size := by
      rintro i rfl
      exact ⟨hs.lt_size, ht.lt_size⟩
    exact Renewed.eq_iff hkept hi hj
  identity := by
    -- Between two macros the names decide; no macro is as new as what is still to be made.
    have hnew : ∀ {name}, (definitionOf ds name).isSome → ∀ k, ids name ≠ s.nextId + k ∧ ids' name ≠ t.nextId + k :=
      fun hname k => ⟨Nat.ne_of_lt (Nat.lt_add_right k (hs.handedOut hname)),
        Nat.ne_of_lt (Nat.lt_add_right k (ht.handedOut hname))⟩
    rintro a b a' b' (⟨name, hname, rfl, rfl⟩ | ⟨k, rfl, rfl⟩) (⟨other, hother, rfl, rfl⟩ | ⟨l, rfl, rfl⟩)
    · constructor
      · intro heq
        rw [hs.distinct hname hother heq]
      · intro heq
        rw [ht.distinct hname hother heq]
    · exact iff_of_false (hnew hname l).1 (hnew hname l).2
    · exact iff_of_false (hnew hother k).1.symm (hnew hother k).2.symm
    · rw [Nat.add_left_cancel_iff, Nat.add_left_cancel_iff]

/-- Stores that hold the same macros are alike as far as these are concerned. -/
theorem alike (hs : s.Macros scope ds ids) (ht : t.Macros scope ds ids') :
    s.Alike (.byName s t scope ds ids ids') s.output t.output t where
  scopes := by
    rintro i _ (⟨rfl, rfl⟩ | ⟨k, rfl, rfl⟩)
    · obtain ⟨bindings, hscope, hbindings⟩ := hs.bound
      obtain ⟨bindings', hscope', hbindings'⟩ := ht.bound
      rw [hscope, hscope']
      refine .some ⟨.none, fun name => ?_⟩
      rw [hbindings, hbindings']
      cases hd : definitionOf ds name with
      | none => exact .none
      | some d =>
        have hname : (definitionOf ds name).isSome := Option.isSome_iff_exists.mpr ⟨d, hd⟩
        exact .some (.macroValue (.inl ⟨name, hname, rfl, rfl⟩) (paramsAlike_refl (fun _ => rfl) d.params)
          (d.body.alike_refl fun _ => rfl) (.inl ⟨rfl, rfl⟩))
    · rw [Array.getElem?_eq_none (Nat.le_add_right ..), Array.getElem?_eq_none (Nat.le_add_right ..)]
      exact .none
  nextScope k := .inr ⟨k, rfl, rfl⟩
  nextIdentity k := .inr ⟨k, rfl, rfl⟩
  output := ⟨"", String.append_empty.symm, String.append_empty.symm⟩

end Store.Macros

/-! ### Sessions and their pasts -/

namespace Session

/-- Collects the macros that a program defines, and does nothing else with it. -/
def define (s : Session) (p : Program) : Session :=
  { s with store := (p.defineMacros s.macros s.store).2 }

/-- The session that has collected the macros of the given programs, in order, and has seen nothing else. -/
def ofDefinitions (ps : List Program) : Session :=
  ps.foldl define new

/-- The sessions in which the given programs have been expanded, in order, each of them with or without success. In between any programs may have been evaluated, the expansions among them, and the output may have been taken away. -/
inductive Past : List Program → Session → Prop
  | new : Past [] .new
  | expand {ps : List Program} {s : Session} (depth : Nat) (p : Program) (hs : Past ps s) :
      Past (ps ++ [p]) (s.expand depth p).2
  | eval {ps : List Program} {s : Session} (depth : Nat) (p : Program) (hs : Past ps s) : Past ps (s.eval depth p).2
  | takeOutput {ps : List Program} {s : Session} (hs : Past ps s) : Past ps s.takeOutput.2

/-- The macros that programs define, in order. -/
def definitionsOf (ps : List Program) : List Definition :=
  ps.flatMap fun p => definitions p.statements

/-- The session keeps its two scopes, and the one of macros holds what the programs define and nothing else. -/
structure Collected (ps : List Program) (s : Session) : Prop where
  scope : s.scope = new.scope
  macros : s.macros = new.macros
  store : ∃ ids, s.store.Macros new.macros (definitionsOf ps) ids

variable {ps : List Program} {s t : Session}

theorem collected_new : Collected [] .new where
  scope := rfl
  macros := rfl
  store := ⟨fun _ => 0, ⟨⟨[], rfl, fun _ => rfl⟩, fun h => (nomatch h), fun h _ _ => (nomatch h)⟩⟩

theorem Collected.define (h : Collected ps s) (p : Program) : Collected (ps ++ [p]) (s.define p) where
  scope := h.scope
  macros := h.macros
  store := by
    obtain ⟨ids, hmacros⟩ := h.store
    have hdefined := hmacros.foldl_define (definitions p.statements)
    rw [definitionsOf, List.flatMap_append, List.flatMap_singleton, Session.define, Program.defineMacros, defineAll_eq,
      h.macros]
    exact hdefined

theorem Collected.expand (h : Collected ps s) (depth : Nat) (p : Program) :
    Collected (ps ++ [p]) (s.expand depth p).2 where
  scope := (scope_expand depth s p).trans h.scope
  macros := (macros_expand depth s p).trans h.macros
  store := by
    obtain ⟨ids, hmacros⟩ := (h.define p).store
    rw [store_expand]
    exact ⟨ids, hmacros.expandMacros depth _ _⟩

theorem Collected.eval (h : Collected ps s) (depth : Nat) (p : Program) : Collected ps (s.eval depth p).2 where
  scope := h.scope
  macros := h.macros
  store := by
    obtain ⟨ids, hmacros⟩ := h.store
    have hown : new.macros ≠ s.scope := by
      rw [h.scope]
      decide
    exact ⟨ids, hmacros.run_program depth hown p⟩

theorem Past.collected (h : Past ps s) : Collected ps s := by
  induction h with
  | new => exact collected_new
  | expand depth p _ ih => exact ih.expand depth p
  | eval depth p _ ih => exact ih.eval depth p
  | takeOutput _ ih =>
    obtain ⟨ids, hmacros⟩ := ih.store
    exact ⟨ih.scope, ih.macros, ids, hmacros.bound, hmacros.handedOut, hmacros.distinct⟩

theorem collected_ofDefinitions (ps : List Program) : Collected ps (ofDefinitions ps) := by
  induction ps using List.reverseRecOn with
  | nil => exact collected_new
  | append_singleton ps p ih =>
    rw [ofDefinitions, List.foldl_concat]
    exact ih.define p

/-- Sessions that have collected the same macros expand every program in the same way. -/
theorem Collected.expand_eq (hs : Collected ps s) (ht : Collected ps t) (depth : Nat) (p : Program) :
    (s.expand depth p).1 = (t.expand depth p).1 ∧
      ∃ text, (s.expand depth p).2.store.output = s.store.output ++ text ∧
        (t.expand depth p).2.store.output = t.store.output ++ text := by
  obtain ⟨ids, hmacros⟩ := hs.store
  obtain ⟨ids', hmacros'⟩ := ht.store
  have hc := simulates_likening (hmacros.oneToOne_byName hmacros') s.store.output t.store.output
  have hscope : (Matching.byName s.store t.store new.macros (definitionsOf ps) ids ids').scope s.macros t.macros :=
    .inl ⟨hs.macros.trans ht.macros.symm, hs.macros⟩
  obtain ⟨houtcome, hstore⟩ := coupled_expand hc ⟨trivial, fun _ => trivial⟩ (exact_likening _ _ _) .rfl depth
    (hmacros.alike hmacros') hscope (p.alike_refl fun _ => rfl)
  exact ⟨houtcome.eq, hstore.output⟩

/-- Expansion is a phase of its own. Whatever a session has been through, it expands a program to the same program or fails with the same error, and prints the same text meanwhile, as a session to which nothing was done but to collect the macros of the programs expanded before. -/
theorem expansion_is_a_phase (h : Past ps s) (depth : Nat) (p : Program) :
    (s.expand depth p).1 = ((ofDefinitions ps).expand depth p).1 ∧
      ∃ text, (s.expand depth p).2.store.output = s.store.output ++ text ∧
        ((ofDefinitions ps).expand depth p).2.store.output = (ofDefinitions ps).store.output ++ text :=
  h.collected.expand_eq (collected_ofDefinitions ps) depth p

/-- Defines a macro and uses it. -/
def increment : Program :=
  (parse "let m = macro(a) \x7b quote(unquote(a) + 1) \x7d; puts(m(2))").program

/-- A macro that was defined, used, and called with too many arguments, expands as if it had only been defined. -/
theorem expansion_is_a_phase_after_failure :
    ∃ s : Session, Past [increment, (parse "m(1, 2)").program] s ∧ s.store.output = "3\n" ∧
      (s.expand 9 (parse "m(3)").program).1 =
        ((ofDefinitions [increment, (parse "m(1, 2)").program]).expand 9 (parse "m(3)").program).1 ∧
      (s.expand 9 (parse "m(3)").program).1.toOption.map Program.print = some "(3 + 1)" := by
  have hpast : Past [increment, (parse "m(1, 2)").program] _ :=
    ((Past.new.expand 9 increment).eval 9 (parse "puts(2 + 1)").program).expand 9 (parse "m(1, 2)").program
  exact ⟨_, hpast, by decide +kernel, (expansion_is_a_phase hpast 9 _).1, by decide +kernel⟩

end Session

end Simian
