import Simian.Proofs.Expansion.Effect
import Simian.Proofs.Parser.RoundTrip
import Simian.Session

/-!
# Sessions of printable programs

A session that is given texts holds nothing that could not be printed: what is bound in its store comes from programs that were parsed, or was made from them by evaluation and expansion, which take in no other names, literals and operators. So the expansion of each program is printable in turn, and its text can be parsed in its place.
-/

namespace Simian

namespace Session

/-- The sessions that texts lead to. A text that parses is expanded; if that succeeds, the expansion may be evaluated. -/
inductive Reached : Session → Prop
  | new : Reached .new
  | expand {s : Session} (depth : Nat) {source : String} (hs : Reached s)
      (hparse : (parse source).errors = []) : Reached (s.expand depth (parse source).program).2
  | eval {s : Session} (depth depth' : Nat) {source : String} {p : Program} (hs : Reached s)
      (hparse : (parse source).errors = []) (hexpand : (s.expand depth (parse source).program).1 = .ok p) :
      Reached ((s.expand depth (parse source).program).2.eval depth' p).2
  | takeOutput {s : Session} (hs : Reached s) : Reached s.takeOutput.2

variable {v : Vocabulary} {s : Session}

theorem within_new (v : Vocabulary) : Session.new.store.Within v :=
  ((Store.within_empty v).newScope none).newScope none

theorem within_expand (hv : v.Closed) (depth : Nat) (hs : s.store.Within v) {p : Program} (h : p.within v = true) :
    (s.expand depth p).2.store.Within v ∧ ∀ q, (s.expand depth p).1 = .ok q → q.within v = true := by
  obtain ⟨hstatements, hstore⟩ := within_defineAll s.macros h hs
  have hexpand : Ensures v s.macros (fun p => p.within v = true)
      ((p.defineMacros s.macros s.store).1.expandMacros depth s.macros) :=
    Program.ensures_expandMacros hv depth s.macros hstatements
  have hholds := hexpand (p.defineMacros s.macros s.store).2 hstore
  unfold expand
  dsimp only
  cases hresult : (p.defineMacros s.macros s.store).1.expandMacros depth s.macros
      (p.defineMacros s.macros s.store).2 with
  | ok q store =>
    rw [hresult] at hholds
    exact ⟨hholds.2.1, fun q' heq => Except.ok.inj heq ▸ hholds.1⟩
  | error halt store =>
    rw [hresult] at hholds
    exact ⟨hholds.1, fun _ heq => nomatch heq⟩

theorem within_eval (hv : v.Closed) (depth : Nat) (hs : s.store.Within v) {p : Program} (h : p.within v = true) :
    (s.eval depth p).2.store.Within v := by
  have hprogram : Ensures v s.scope (fun x => x.within v = true) (Eval.program depth s.scope p) :=
    Eval.ensures_program hv depth h
  exact (Eval.effect_run hprogram hs).1

/-- Whatever texts a session was given, its store is within the printable vocabulary. -/
theorem Reached.within (h : s.Reached) : s.store.Within .printable := by
  induction h with
  | new => exact within_new _
  | expand depth hs hparse ih => exact (within_expand Vocabulary.closed_printable depth ih (isPrintable_parse _)).1
  | eval depth depth' hs hparse hexpand ih =>
    obtain ⟨hstore, hprogram⟩ := within_expand Vocabulary.closed_printable depth ih (isPrintable_parse _)
    exact within_eval Vocabulary.closed_printable depth' hstore (hprogram _ hexpand)
  | takeOutput hs ih => exact ih.of_eq rfl

/-- Whatever texts a session was given before, the expansion of a text prints as a text that parses without an error, and back to the expansion up to spans: no value that is spliced in gives text that fails to parse or groups in another way. -/
theorem expansion_parses_back (hs : s.Reached) (depth : Nat) {source : String} {p : Program}
    (hexpand : (s.expand depth (parse source).program).1 = .ok p) :
    (parse p.print).errors = [] ∧ (parse p.print).program.erase = p.erase := by
  have hprintable := (within_expand Vocabulary.closed_printable depth hs.within (isPrintable_parse source)).2 p hexpand
  rw [← p.write_full]
  exact parse_write Brackets.sufficient_full hprintable

theorem expansion_parses_back_negative_callee :
    ∃ (s : Session) (p : Program), s.Reached ∧ (s.expand 9 (parse "m(x)").program).1 = .ok p ∧
      p.print = "(-3)(x)" ∧ (parse "(-3)(x)").errors = [] ∧ (parse "(-3)(x)").program.erase = p.erase := by
  obtain ⟨s, hs, hprint⟩ : ∃ s : Session, s.Reached ∧
      (s.expand 9 (parse "m(x)").program).1.toOption.map Program.print = some "(-3)(x)" :=
    ⟨(new.expand 9 (parse "let m = macro(a) \x7b quote(unquote(0 - 3)(unquote(a))) \x7d").program).2,
      .expand 9 .new (by decide +kernel), by decide +kernel⟩
  cases hexpand : (s.expand 9 (parse "m(x)").program).1 with
  | error halt =>
    rw [hexpand] at hprint
    exact nomatch hprint
  | ok p =>
    rw [hexpand] at hprint
    have htext : p.print = "(-3)(x)" := Option.some.inj hprint
    have hback := expansion_parses_back hs 9 hexpand
    rw [htext] at hback
    exact ⟨s, p, hs, hexpand, htext, hback⟩

end Session

end Simian
