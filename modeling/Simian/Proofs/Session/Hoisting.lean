import Simian.Proofs.Expansion.Template
import Simian.Proofs.Session.Phase
import Simian.Proofs.Tree.Visits

/-!
# Definitions are hoisted

A session collects all definitions of a program before it expands the first call. So it makes no difference where between the other statements a definition stands, even if calls of the macro come before it; and a name that is defined several times has its last definition in all calls.
-/

namespace Simian

/-! ### The last definition -/

namespace Store

variable {s t : Store} {scope : ScopeId} {ds : List Definition}

/-- The scope binds each name that is defined to the macro that its last definition makes. -/
def Defines (s : Store) (scope : ScopeId) (ds : List Definition) : Prop :=
  ∃ inner, s.scopes[scope]? = some inner ∧ ∀ name d, definitionOf ds name = some d →
    ∃ id, inner.bindings.lookup name = some (.macroValue id d.params d.body scope)

theorem defines_nil (h : scope < s.scopes.size) : s.Defines scope [] :=
  ⟨s.scopes[scope], Array.getElem?_eq_getElem h, fun _ _ hd => nomatch hd⟩

theorem Defines.define (h : s.Defines scope ds) (d : Definition) : (s.define scope d).Defines scope (ds ++ [d]) := by
  obtain ⟨inner, hscope, hinner⟩ := h
  refine ⟨{ inner with bindings := Bindings.set d.name (.macroValue s.nextId d.params d.body scope) inner.bindings },
    ?_, fun name last hlast => ?_⟩
  · simp only [Store.define, Store.bind, Store.fresh, Array.getElem?_modify, hscope]
    rfl
  · rw [definitionOf_concat] at hlast
    rw [Bindings.lookup_set]
    by_cases hname : d.name = name
    · rw [if_pos hname] at hlast
      obtain rfl := Option.some.inj hlast
      exact ⟨s.nextId, if_pos hname.symm⟩
    · rw [if_neg hname] at hlast
      rw [if_neg (Ne.symm hname)]
      exact hinner name last hlast

theorem Defines.foldl_define (h : s.Defines scope ds) (more : List Definition) :
    (more.foldl (fun store d => store.define scope d) s).Defines scope (ds ++ more) := by
  induction more generalizing s ds with
  | nil => rwa [List.append_nil]
  | cons d more ih =>
    have hmore := ih (h.define d)
    rwa [List.append_assoc, List.singleton_append] at hmore

theorem Defines.of_frame (h : s.Defines scope ds) (hframe : ∀ own, Frame own s t) : t.Defines scope ds := by
  obtain ⟨inner, hscope, hinner⟩ := h
  have hlt : scope < s.scopes.size := (Array.getElem?_eq_some_iff.mp hscope).1
  exact ⟨inner, (Frame.getElem? hframe scope hlt).trans hscope, hinner⟩

theorem Defines.lookup (h : s.Defines scope ds) {name : String} {d : Definition} (hd : definitionOf ds name = some d) :
    ∃ id, s.lookup scope name = some (.macroValue id d.params d.body scope) := by
  obtain ⟨inner, hscope, hinner⟩ := h
  obtain ⟨id, hbound⟩ := hinner name d hd
  have hfind : s.find? name 1 scope = some (.macroValue id d.params d.body scope) := by
    rw [find?, hscope]
    dsimp only
    rw [hbound]
  exact ⟨id, lookup_of_find? hfind⟩

end Store

namespace Expansion

/-- Replaces a call of a name that is defined with what the last definition makes of it, and all else as it is replaced anyway. -/
def replaceDefined (depth : Nat) (scope : ScopeId) (ds : List Definition) : Expr → Expansion Expr
  | .call span (.ident s name) args =>
    match definitionOf ds name with
    | some d => invoke depth name d.params d.body scope span args
    | none => replace depth scope (.call span (.ident s name) args)
  | e => replace depth scope e

theorem replace_of_defines (depth : Nat) {scope : ScopeId} {ds : List Definition} {s : Store}
    (h : s.Defines scope ds) (e : Expr) : replace depth scope e s = replaceDefined depth scope ds e s := by
  unfold replaceDefined
  split
  · rename_i span callee name args
    cases hd : definitionOf ds name with
    | none => rfl
    | some d =>
      obtain ⟨id, hlookup⟩ := h.lookup hd
      exact replace_of_lookup hlookup
  · rfl

end Expansion

/-! ### Expanding what is left -/

/-- The statements that define no macro. -/
def others (ss : List Stmt) : List Stmt :=
  ss.filter (·.definition?.isNone)

namespace Session

/-- Collects the definitions of a program, then transforms the other statements with the function. -/
def expandBy (f : Expr → Expansion Expr) (s : Session) (p : Program) : Except Expansion.Halt Program × Session :=
  match transformStatementsM f (others p.statements) (s.define p).store with
  | .ok ss store => (.ok ⟨p.span, ss⟩, { s with store })
  | .error halt store => (.error halt, { s with store })

theorem store_define (s : Session) (p : Program) : (s.define p).store =
    (definitions p.statements).foldl (fun store d => store.define s.macros d) s.store := by
  rw [define, Program.defineMacros, defineAll_eq]

theorem expand_eq (depth : Nat) (s : Session) (p : Program) :
    s.expand depth p = s.expandBy (Expansion.replace depth s.macros) p := by
  rw [expandBy, store_define, expand, Program.defineMacros, defineAll_eq, others]
  dsimp only [Program.expandMacros]
  cases hresult : transformStatementsM (Expansion.replace depth s.macros)
      (p.statements.filter (·.definition?.isNone))
      ((definitions p.statements).foldl (fun store d => store.define s.macros d) s.store) with
  | ok ss store => rw [Program.transformM_of_ok hresult]
  | error halt store => rw [Program.transformM_of_error hresult]

theorem defines_define {s : Session} (h : s.macros < s.store.scopes.size) (p : Program) :
    (s.define p).store.Defines s.macros (definitions p.statements) := by
  have hdefines := (Store.defines_nil h).foldl_define (definitions p.statements)
  rwa [List.nil_append, ← store_define] at hdefines

theorem expandBy_congr {f : Expr → Expansion Expr} {s : Session} {p q : Program}
    (hdefinitions : definitions p.statements = definitions q.statements)
    (hothers : others p.statements = others q.statements) :
    (s.expandBy f p).1.map Program.statements = (s.expandBy f q).1.map Program.statements ∧
      (s.expandBy f p).2 = (s.expandBy f q).2 := by
  rw [expandBy, expandBy, store_define, store_define, hdefinitions, hothers]
  cases transformStatementsM f (others q.statements) _ with
  | ok ss store => exact ⟨rfl, rfl⟩
  | error halt store => exact ⟨rfl, rfl⟩

theorem exists_of_expandBy_ok {f : Expr → Expansion Expr} {s : Session} {p p' : Program}
    (h : (s.expandBy f p).1 = .ok p') :
    ∃ store, transformStatementsM f (others p.statements) (s.define p).store = .ok p'.statements store := by
  unfold expandBy at h
  split at h
  · rename_i ss store hresult
    cases h
    exact ⟨store, hresult⟩
  · exact nomatch h

/-- Definitions are hoisted. Two programs with the same definitions in the same order and the same other statements in the same order, however they are mixed, expand to the same statements or fail with the same error, and leave the session in the same state, with the same text printed and the same macros. The definitions are gone, and of each other statement, in their order, there is what it expands to. All calls of a name that the program defines, wherever they stand, are of the macro that its last definition makes. -/
theorem definitions_are_hoisted (depth : Nat) (s : Session) (p : Program) :
    (∀ q : Program, definitions p.statements = definitions q.statements →
      others p.statements = others q.statements →
        (s.expand depth p).1.map Program.statements = (s.expand depth q).1.map Program.statements ∧
          (s.expand depth p).2 = (s.expand depth q).2) ∧
    (∀ p', (s.expand depth p).1 = .ok p' →
      List.Forall₂ (fun st st' => ∃ t t', st.transformM (Expansion.replace depth s.macros) t = .ok st' t')
        (others p.statements) p'.statements) ∧
    (s.macros < s.store.scopes.size →
      s.expand depth p = s.expandBy (Expansion.replaceDefined depth s.macros (definitions p.statements)) p) := by
  refine ⟨fun q hdefinitions hothers => ?_, fun p' hp' => ?_, fun hmacros => ?_⟩
  · rw [expand_eq, expand_eq]
    exact expandBy_congr hdefinitions hothers
  · rw [expand_eq] at hp'
    obtain ⟨store, hstatements⟩ := exists_of_expandBy_ok hp'
    have heach := forall₂_of_transformStatementsM (P := fun _ => True) (fun _ _ _ _ _ _ _ => trivial) trivial
      hstatements
    exact heach.imp fun st st' ⟨t, t', _, hst⟩ => ⟨t, t', hst⟩
  · have hsame := transformStatementsM_congr
      (fun e _ h => Expansion.replace_of_defines depth h e)
      (fun e t h => h.of_frame fun own => Expansion.frame_replace own depth s.macros e t)
      (others p.statements) (defines_define hmacros p)
    rw [expand_eq, expandBy, hsame, expandBy]

/-- The same program with its definitions before all other statements. -/
def hoisted (p : Program) : Program :=
  { p with statements := p.statements.filter (·.definition?.isSome) ++ others p.statements }

theorem definitions_hoisted (p : Program) : definitions (hoisted p).statements = definitions p.statements := by
  rw [hoisted, definitions, List.filterMap_append, others, List.filterMap_filter, List.filterMap_filter, definitions]
  have hsome : ∀ st : Stmt, (if st.definition?.isSome = true then st.definition? else none) = st.definition? := by
    intro st
    cases st.definition? <;> rfl
  have hnone : ∀ st : Stmt, (if st.definition?.isNone = true then st.definition? else none) = none := by
    intro st
    cases st.definition? <;> rfl
  simp only [hsome, hnone, List.filterMap_none, List.append_nil]

theorem others_hoisted (p : Program) : others (hoisted p).statements = others p.statements := by
  have hnone : ∀ st : Stmt, (st.definition?.isNone && st.definition?.isSome) = false := by
    intro st
    cases st.definition? <;> rfl
  rw [hoisted, others, List.filter_append, List.filter_filter]
  simp only [hnone, List.filter_false, List.nil_append, others, List.filter_filter, Bool.and_self]

/-- A call before the first definition, one between the definitions and one behind them. -/
def redefined : Program :=
  (parse "m(1); let m = macro(a) \x7b quote(unquote(a) + 1) \x7d; m(2); let m = macro(a) \x7b quote(unquote(a) * 2) \x7d; m(3)").program

theorem definitions_are_hoisted_redefined :
    ((new.expand 9 redefined).1.map Program.statements = (new.expand 9 (hoisted redefined)).1.map Program.statements ∧
      (new.expand 9 redefined).2 = (new.expand 9 (hoisted redefined)).2) ∧
    (∃ p', (new.expand 9 redefined).1 = .ok p' ∧ p'.print = "(1 * 2); (2 * 2); (3 * 2)" ∧
      List.Forall₂ (fun st st' => ∃ t t', st.transformM (Expansion.replace 9 new.macros) t = .ok st' t')
        (others redefined.statements) p'.statements) ∧
    new.expand 9 redefined =
      new.expandBy (Expansion.replaceDefined 9 new.macros (definitions redefined.statements)) redefined := by
  obtain ⟨hmixed, heach, hlast⟩ := definitions_are_hoisted 9 new redefined
  have hprint : (new.expand 9 redefined).1.toOption.map Program.print = some "(1 * 2); (2 * 2); (3 * 2)" := by
    decide +kernel
  refine ⟨hmixed (hoisted redefined) (definitions_hoisted redefined).symm (others_hoisted redefined).symm, ?_,
    hlast (by decide)⟩
  cases hresult : (new.expand 9 redefined).1 with
  | error halt =>
    rw [hresult] at hprint
    exact nomatch hprint
  | ok p' =>
    rw [hresult] at hprint
    exact ⟨p', rfl, Option.some.inj hprint, heach p' hresult⟩

end Session

end Simian
