import Simian.Proofs.Eval.Lexical
import Simian.Proofs.Expansion.Simulation
import Simian.Proofs.Parser.RoundTrip
import Simian.Proofs.Source.Reading
import Simian.Session.Run

/-!
# Spans make no difference

Spans are carried along, in the bodies of functions and macros and in quotes, and are stamped on what is spliced in, but nothing looks at them. So sessions that are alike up to spans stay so, whichever of two programs that are equal up to spans each of them is given, and they print the same text. A text and its canonical form are two such programs.
-/

namespace Simian

/-! ### Matchings that look at no span -/

/-- Any span stands for any other, and the scopes of macros are matched as all scopes are. -/
structure Matching.Spanless (m : Matching) : Prop extends m.Lenient where
  oneToOne : m.OneToOne
  span : ∀ s t, m.span s t
  fault : m.fault
  macroScope : ∀ {i j}, m.macroScope i j ↔ m.scope i j

/-- All but the spans stands for itself. -/
def Matching.spanless : Matching := ⟨Eq, Eq, Eq, fun _ _ => True, True, True, fun _ => True⟩

theorem Matching.spanless_spanless : spanless.Spanless where
  signal := trivial
  code _ := trivial
  oneToOne := ⟨fun h h' => h ▸ h' ▸ .rfl, fun h h' => h ▸ h' ▸ .rfl⟩
  span _ _ := trivial
  fault := trivial
  macroScope := .rfl

theorem Value.alike_spanless (x : Value) : x.Alike .spanless x :=
  x.alike_self ⟨Matching.spanless_spanless.toLenient, fun _ => trivial, fun _ => rfl⟩ (fun _ _ => rfl) (fun _ _ => rfl)
    fun _ => trivial

theorem Store.alike_spanless (s : Store) : s.Alike .spanless s.output s.output s where
  scopes := by
    rintro i _ rfl
    cases s.scopes[i]? with
    | none => exact .none
    | some scope =>
      refine .some ⟨?_, fun name => ?_⟩
      · cases scope.outer with
        | none => exact .none
        | some o => exact .some rfl
      · cases scope.bindings.lookup name with
        | none => exact .none
        | some x => exact .some x.alike_spanless
  nextScope _ := rfl
  nextIdentity _ := rfl
  output := ⟨"", String.append_empty.symm, String.append_empty.symm⟩

/-! ### Sessions alike -/

namespace Session

variable {m : Matching} {before before' : String} {s t : Session} {p q : Program}

theorem alike_eval (hm : m.Spanless) (hstore : s.store.Alike m before before' t.store)
    (hscope : m.scope s.scope t.scope) (hpq : p.erase = q.erase) (depth : Nat) :
    Option.Rel (Value.Alike m) (s.eval depth p).1 (t.eval depth q).1 ∧
      (s.eval depth p).2.store.Alike m before before' (t.eval depth q).2.store := by
  have hc := simulates_likening hm.oneToOne before before'
  have hprograms : p.Alike m.span q := Program.alike_of_erase_eq hm.span hpq
  exact Eval.rel_run hm.fault (Eval.coupled_program hc hm.toLenient depth hscope hprograms) hstore

theorem alike_expand (hm : m.Spanless) (hstore : s.store.Alike m before before' t.store)
    (hmacros : m.scope s.macros t.macros) (hpq : p.erase = q.erase) (depth : Nat) :
    Expansion.OutcomeAlike (fun p q => p.erase = q.erase) (fun _ _ => True) (s.expand depth p).1 (t.expand depth q).1 ∧
      (s.expand depth p).2.store.Alike m before before' (t.expand depth q).2.store := by
  have hc := simulates_likening hm.oneToOne before before'
  have hexact := exact_likening m before before'
  have hprograms : p.Alike m.span q := Program.alike_of_erase_eq hm.span hpq
  obtain ⟨houtcome, hstore'⟩ :=
    coupled_expand hc hm.toLenient hexact hm.macroScope depth hstore hmacros hprograms
  exact ⟨houtcome.mono Program.erase_eq_of_alike fun _ => trivial, hstore'⟩

/-! ### A text and its canonical form -/

/-- What shows of an evaluation is the same: the value as it is displayed, if there is one, and the text printed. -/
structure ShowsSame (a b : Option Value × Session) : Prop where
  value : a.1.map Value.inspect = b.1.map Value.inspect
  output : a.2.store.output = b.2.store.output

theorem inspect_eq_of_rel {a b : Option Value} (h : Option.Rel (Value.Alike m) a b) :
    a.map Value.inspect = b.map Value.inspect := by
  cases h with
  | none => rfl
  | some hxy => exact congrArg some (Value.inspect_eq_of_alike _ hxy)

theorem showsSame_eval (hm : m.Spanless) (hstore : s.store.Alike m before before t.store)
    (hscope : m.scope s.scope t.scope) (hpq : p.erase = q.erase) (depth : Nat) :
    ShowsSame (s.eval depth p) (t.eval depth q) := by
  obtain ⟨hvalue, hstore'⟩ := alike_eval hm hstore hscope hpq depth
  exact ⟨inspect_eq_of_rel hvalue, hstore'.output_eq⟩

/-- A file that holds a program is run by expanding and evaluating that, whatever its spans are. -/
theorem run_of_text {file : FileState} {source : String} (htext : file.text? = .ok source)
    (hparse : (parse source).errors = []) :
    ∃ p : Program, p.erase = (parse source).program.erase ∧ ∀ (depth : Nat) (s : Session) (path : String),
      Prod.map Except.toOption id (s.run depth path file) =
        match s.expand depth p with
        | (.ok p, s) => s.eval depth p
        | (.error _, s) => (none, s) := by
  obtain ⟨parsed, hread, herase⟩ := FileState.read?_of_text htext
  simp only [Parsed.erase, Parsed.mk.injEq, hparse, List.map_nil, List.map_eq_nil_iff] at herase
  refine ⟨parsed.program, herase.1, fun depth s path => ?_⟩
  simp only [run, hread, prepare, herase.2, List.isEmpty_nil, if_true]
  obtain ⟨halt | p, s'⟩ := s.expand depth parsed.program
  · cases halt with
    | failed error => rfl
    | exhausted => rfl
  · dsimp only
    obtain ⟨_ | value, s''⟩ := s'.eval depth p
    · rfl
    · rfl

theorem showsSame_run (hm : m.Spanless) (hstore : s.store.Alike m before before t.store)
    (hscope : m.scope s.scope t.scope) (hmacros : m.scope s.macros t.macros) {file file' : FileState}
    {source source' : String} (htext : file.text? = .ok source) (hparse : (parse source).errors = [])
    (htext' : file'.text? = .ok source') (hparse' : (parse source').errors = [])
    (hpq : (parse source).program.erase = (parse source').program.erase) (depth : Nat) (path : String) :
    ShowsSame (Prod.map Except.toOption id (s.run depth path file))
      (Prod.map Except.toOption id (t.run depth path file')) := by
  obtain ⟨p, hp, hrun⟩ := run_of_text htext hparse
  obtain ⟨q, hq, hrun'⟩ := run_of_text htext' hparse'
  rw [hrun, hrun']
  obtain ⟨houtcome, hexpanded⟩ := alike_expand hm hstore hmacros (hp.trans (hpq.trans hq.symm)) depth
  rw [← scope_expand depth s p, ← scope_expand depth t q] at hscope
  generalize s.expand depth p = expansion at hscope houtcome hexpanded ⊢
  generalize t.expand depth q = expansion' at hscope houtcome hexpanded ⊢
  obtain ⟨outcome, s'⟩ := expansion
  obtain ⟨outcome', t'⟩ := expansion'
  cases houtcome with
  | ok hprograms => exact showsSame_eval hm hexpanded hscope hprograms depth
  | error _ => exact ⟨rfl, hexpanded.output_eq⟩

/-- Source positions do not matter. In sessions whose stores are alike, programs that are equal up to spans evaluate at the same depths, so both or neither, to values that are alike and displayed in the same way; and they expand to programs that are equal up to spans, or fail with the same fault, wherever it is found. Either way the stores are alike again and the same text has been printed. So a text without errors and its canonical form, which has none either, show the same in every session, whether they are evaluated as they stand or run as files. -/
theorem source_positions_do_not_matter :
    (∀ m : Matching, m.Spanless → ∀ (before before' : String) (s t : Session),
      s.store.Alike m before before' t.store → ∀ p q : Program, p.erase = q.erase → ∀ depth,
        (m.scope s.scope t.scope →
          Option.Rel (Value.Alike m) (s.eval depth p).1 (t.eval depth q).1 ∧
          (s.eval depth p).1.map Value.inspect = (t.eval depth q).1.map Value.inspect ∧
          (s.eval depth p).2.store.Alike m before before' (t.eval depth q).2.store) ∧
        (m.scope s.macros t.macros →
          Expansion.OutcomeAlike (fun p q => p.erase = q.erase) (fun _ _ => True)
            (s.expand depth p).1 (t.expand depth q).1 ∧
          (s.expand depth p).2.store.Alike m before before' (t.expand depth q).2.store)) ∧
    ∀ source : String, (parse source).errors = [] →
      (parse (parse source).program.print).errors = [] ∧
      ∀ (s : Session) (depth : Nat),
        ShowsSame (s.eval depth (parse source).program) (s.eval depth (parse (parse source).program.print).program) ∧
        ∀ path file file', file.text? = .ok source → file'.text? = .ok (parse source).program.print →
          ShowsSame (Prod.map Except.toOption id (s.run depth path file))
            (Prod.map Except.toOption id (s.run depth path file')) := by
  refine ⟨fun m hm before before' s t hstore p q hpq depth => ⟨fun hscope => ?_, fun hmacros => ?_⟩,
    fun source hparse => ?_⟩
  · obtain ⟨hvalue, hstore'⟩ := alike_eval hm hstore hscope hpq depth
    exact ⟨hvalue, inspect_eq_of_rel hvalue, hstore'⟩
  · exact alike_expand hm hstore hmacros hpq depth
  · have hm := Matching.spanless_spanless
    have hback := parse_write Brackets.sufficient_full (isPrintable_parse source)
    rw [Program.write_full] at hback
    refine ⟨hback.1, fun s depth => ⟨?_, fun path file file' htext htext' => ?_⟩⟩
    · exact showsSame_eval hm s.store.alike_spanless rfl hback.2.symm depth
    · exact showsSame_run hm s.store.alike_spanless rfl rfl htext hparse htext' hback.1 hback.2.symm depth path

/-- `let f = fn(x) { x }`, from the given place on. -/
def bindingAt (n : Nat) : Program :=
  ⟨⟨n, n + 19⟩, [.bind ⟨n, n + 19⟩ ⟨"f", ⟨n + 4, n + 5⟩⟩ (.fn ⟨n + 8, n + 19⟩ [⟨"x", ⟨n + 11, n + 12⟩⟩]
    (.mk ⟨n + 14, n + 19⟩ [.expr ⟨n + 16, n + 17⟩ (.ident ⟨n + 16, n + 17⟩ "x")]))]⟩

/-- `f`, at the given place. -/
def nameAt (n : Nat) : Program :=
  ⟨⟨n, n + 1⟩, [.expr ⟨n, n + 1⟩ (.ident ⟨n, n + 1⟩ "f")]⟩

/-- `let m = macro(a) { a }; m(f)`, from the given place on. -/
def expansionAt (n : Nat) : Program :=
  ⟨⟨n, n + 29⟩, [.bind ⟨n, n + 23⟩ ⟨"m", ⟨n + 4, n + 5⟩⟩ (.macroLit ⟨n + 8, n + 22⟩ [⟨"a", ⟨n + 14, n + 15⟩⟩]
      (.mk ⟨n + 17, n + 22⟩ [.expr ⟨n + 19, n + 20⟩ (.ident ⟨n + 19, n + 20⟩ "a")])),
    .expr ⟨n + 24, n + 28⟩ (.call ⟨n + 24, n + 28⟩ (.ident ⟨n + 24, n + 25⟩ "m") [.ident ⟨n + 26, n + 27⟩ "f"])]⟩

/-- A function that was bound further down in one session than in the other, a macro so defined, and the files `f(1+2)` and `f((1 + 2))`. -/
theorem source_positions_do_not_matter_further_down :
    (Option.Rel (Value.Alike .spanless) ((new.eval 3 (bindingAt 0)).2.eval 3 (nameAt 0)).1
        ((new.eval 3 (bindingAt 40)).2.eval 3 (nameAt 7)).1 ∧
      ((new.eval 3 (bindingAt 40)).2.eval 3 (nameAt 7)).1.map Value.inspect = some "fn(x) \x7b x \x7d") ∧
    Expansion.OutcomeAlike (fun p q => p.erase = q.erase) (fun _ _ => True)
      (new.expand 3 (expansionAt 0)).1 (new.expand 3 (expansionAt 40)).1 ∧
    ShowsSame
      (Prod.map Except.toOption id ((new.eval 3 (bindingAt 0)).2.run 9 "a" (.file [102, 40, 49, 43, 50, 41])))
      (Prod.map Except.toOption id ((new.eval 3 (bindingAt 0)).2.run 9 "a"
        (.file [102, 40, 40, 49, 32, 43, 32, 50, 41, 41]))) := by
  have hm := Matching.spanless_spanless
  have hnew := new.store.alike_spanless
  have hstores := ((source_positions_do_not_matter.1 _ hm _ _ _ _ hnew (bindingAt 0) (bindingAt 40) rfl 3).1 rfl).2.2
  have hvalues := (source_positions_do_not_matter.1 _ hm _ _ _ _ hstores (nameAt 0) (nameAt 7) rfl 3).1 rfl
  refine ⟨⟨hvalues.1, by decide +kernel⟩, ?_, ?_⟩
  · exact ((source_positions_do_not_matter.1 _ hm _ _ _ _ hnew (expansionAt 0) (expansionAt 40) rfl 3).2 rfl).1
  · exact ((source_positions_do_not_matter.2 "f(1+2)" (by decide +kernel)).2 _ 9).2 "a" _ _ (by decide +kernel)
      (by decide +kernel)

end Session

end Simian
