import Simian.Proofs.Parser.Ending
import Simian.Proofs.Token.Order
import Simian.Proofs.Tree.Extent

/-!
# The spans of a program are nested

What a tree is read from lies in one piece: its tokens come between two offsets, and those of its parts come between two of its own, one part behind the other. So do the spans. That a pair of parentheses around an expression leaves no trace in the span only makes the gaps between parts wider, and a block that is never closed still ends where its last statement does.

The tokens of a program may have gaps as well, where a statement was rejected. The statements around a gap are in order all the same.
-/

namespace Simian

open Token

/-! ### One part and others -/

namespace Fits

variable {lo mid hi : Nat} {part : Extent} {span : Span} {parts : List Extent}

/-- A part fits up to its own stop. -/
theorem to_stop (h : Fits lo [part] hi) (hspan : part.span = span) : Fits lo [part] span.stop ∧ span.stop ≤ hi := by
  subst hspan
  exact ⟨⟨h.1, h.2.1, Nat.le_refl _⟩, h.2.2⟩

/-- A part and what is behind it fit from its own start on. -/
theorem from_start (h : Fits lo [part] mid) (hspan : part.span = span) (hbehind : Fits mid parts hi) :
    lo ≤ span.start ∧ Fits span.start (part :: parts) hi := by
  subst hspan
  exact ⟨h.1, Nat.le_refl _, h.2.1, hbehind.mono h.2.2 (Nat.le_refl hi)⟩

/-- Two parts, one behind the other, fit into the span that covers both. -/
theorem merged {left right : Extent} {span' : Span} (hleft : Fits lo [left] mid) (hspan : left.span = span)
    (hright : Fits mid [right] hi) (hspan' : right.span = span') :
    Fits lo [.node (span.merge span') [left, right]] hi := by
  subst hspan hspan'
  obtain ⟨hlo, hleft, hmid⟩ := hleft
  obtain ⟨hmid', hright, hhi⟩ := hright
  have hbetween : left.span.stop ≤ right.span.start := Nat.le_trans hmid hmid'
  have hstart : left.span.start ≤ right.span.start := Nat.le_trans hleft.forward hbetween
  have hstop : left.span.stop ≤ right.span.stop := Nat.le_trans hbetween hright.forward
  rw [Span.merge, Nat.min_eq_left hstart, Nat.max_eq_right hstop]
  exact node ⟨Nat.le_refl _, hleft, hbetween, hright, Nat.le_refl _⟩ hlo hhi

end Fits

namespace Grammar

variable {lo hi : Nat} {used : List Lexeme}

theorem Closing.le {stop stop' mid : Nat} {behind : List Lexeme} (h : Closing stop behind stop') (hstop : stop ≤ mid)
    (hbehind : InOrder mid behind hi) : stop ≤ stop' ∧ stop' ≤ hi := by
  cases h with
  | nothing => exact ⟨Nat.le_refl _, Nat.le_trans hstop hbehind⟩
  | semicolon =>
    obtain ⟨hlo, hspan, _, hhi⟩ := hbehind
    exact ⟨Nat.le_trans hstop (Nat.le_trans hlo hspan), hhi⟩

/-- Statements fit up to where the last of them ends. -/
theorem fits_to_last {ss : List Stmt} (h : Fits lo (statementExtents ss) hi) :
    Fits lo (statementExtents ss) ((ss.getLast?.map (·.span.stop)).getD lo) ∧
      (ss.getLast?.map (·.span.stop)).getD lo ≤ hi := by
  induction ss generalizing lo with
  | nil => exact ⟨Nat.le_refl lo, h⟩
  | cons s ss ih =>
    obtain ⟨hlo, hs, hrest⟩ := h
    have hlast : ((s :: ss).getLast?.map (·.span.stop)).getD lo =
        (ss.getLast?.map (·.span.stop)).getD s.extent.span.stop := by
      rw [List.getLast?_cons, Stmt.span_extent]
      cases ss.getLast? <;> rfl
    obtain ⟨hfits, hle⟩ := ih hrest
    rw [hlast]
    exact ⟨⟨hlo, hs, hfits⟩, hle⟩

/-! ### Derivations -/

theorem ParamsTail.fits {params : List Binder} (h : ParamsTail used params) (hused : InOrder lo used hi) :
    Fits lo (params.map Binder.extent) hi := by
  induction h generalizing lo with
  | nil => exact hused
  | cons _ ih =>
    obtain ⟨hcomma, hname⟩ := hused.token
    obtain ⟨hstart, hspan, _, hrest⟩ := hname
    exact ⟨Nat.le_trans hcomma hstart, Fits.nested hspan, ih hrest⟩

theorem Params.fits {params : List Binder} (h : Params used params) (hused : InOrder lo used hi) :
    Fits lo (params.map Binder.extent) hi := by
  cases h with
  | nil => exact hused.le
  | cons hrest =>
    rw [← List.cons_append] at hused
    obtain ⟨hlo, hname, hhi⟩ := hused.enclosed
    obtain ⟨hstart, hspan, _, htail⟩ := hname
    exact ⟨Nat.le_trans hlo hstart, Fits.nested hspan, (hrest.fits htail).mono (Nat.le_refl _) hhi⟩

mutual

/-- Where the tokens of an expression lie, there its span lies, with all that is in it. -/
theorem Expression.fits {lo hi : Nat} {used : List Lexeme} {e : Expr} :
    Expression used e → InOrder lo used hi → Fits lo [e.extent] hi
  | .ident, h | .int _, h | .str, h | .kwTrue, h | .kwFalse, h => by
    obtain ⟨hlo, hspan, _, hhi⟩ := h
    exact Fits.node hspan hlo hhi
  | .unary _ hright, h => by
    obtain ⟨hlo, hused⟩ := h.token
    obtain ⟨hoperand, hhi⟩ := (hright.fits hused).to_stop (Expr.span_extent _)
    exact Fits.node hoperand hlo hhi
  | .group hinner, h => by
    obtain ⟨hlo, hused, hhi⟩ := h.enclosed
    exact (hinner.fits hused).mono hlo hhi
  | .cond hcondition hconsequence, h => by
    obtain ⟨hlo, hused⟩ := h.token
    obtain ⟨mid, hfirst, hsecond⟩ := hused.exists_append
    obtain ⟨hlast, hhi⟩ := (hconsequence.fits hsecond).to_stop (Block.span_extent _)
    exact Fits.node ((hcondition.fits hfirst).append hlast) hlo hhi
  | .condElse hcondition hconsequence halternative, h => by
    obtain ⟨hlo, hused⟩ := h.token
    obtain ⟨mid, hfirst, hused⟩ := hused.exists_append
    obtain ⟨mid', hsecond, hused⟩ := hused.exists_append
    obtain ⟨helse, hthird⟩ := hused.token
    obtain ⟨hlast, hhi⟩ := (halternative.fits hthird).to_stop (Block.span_extent _)
    have hblocks := (hconsequence.fits hsecond).append (hlast.mono helse (Nat.le_refl _))
    exact Fits.node ((hcondition.fits hfirst).append hblocks) hlo hhi
  | .fn hparams hbody, h | .macroLit hparams hbody, h => by
    obtain ⟨hlo, hused⟩ := h.token
    obtain ⟨mid, hfirst, hsecond⟩ := hused.exists_append
    obtain ⟨hlast, hhi⟩ := (hbody.fits hsecond).to_stop (Block.span_extent _)
    exact Fits.node ((hparams.fits hfirst).append hlast) hlo hhi
  | .array helements, h => by
    obtain ⟨hlo, hused, hhi⟩ := h.enclosed
    exact Fits.node (helements.fits hused) hlo hhi
  | .hash hpairs, h => by
    obtain ⟨hlo, hused, hhi⟩ := h.enclosed
    exact Fits.node (hpairs.fits hused) hlo hhi
  | .binary _ hleft hright, h => by
    obtain ⟨mid, hfirst, hused⟩ := h.exists_append
    obtain ⟨hop, hsecond⟩ := hused.token
    have hright := (hright.fits hsecond).mono hop (Nat.le_refl _)
    exact (hleft.fits hfirst).merged (Expr.span_extent _) hright (Expr.span_extent _)
  | .call hcallee hargs, h => by
    obtain ⟨mid, hfirst, hused⟩ := h.exists_append
    obtain ⟨hparen, hsecond, hhi⟩ := hused.enclosed
    have hrest := (hargs.fits hsecond).mono hparen (Nat.le_refl _)
    obtain ⟨hlo, hparts⟩ := (hcallee.fits hfirst).from_start (Expr.span_extent _) hrest
    exact Fits.node hparts hlo hhi
  | .index hleft hinner, h => by
    obtain ⟨mid, hfirst, hused⟩ := h.exists_append
    obtain ⟨hbracket, hsecond, hhi⟩ := hused.enclosed
    have hrest := (hinner.fits hsecond).mono hbracket (Nat.le_refl _)
    obtain ⟨hlo, hparts⟩ := (hleft.fits hfirst).from_start (Expr.span_extent _) hrest
    exact Fits.node hparts hlo hhi

theorem Elements.fits {lo hi : Nat} {used : List Lexeme} {es : List Expr} :
    Elements used es → InOrder lo used hi → Fits lo (listExtents es) hi
  | .nil, h => h
  | .cons hfirst hrest, h => by
    obtain ⟨mid, hused, hused'⟩ := h.exists_append
    exact (hfirst.fits hused).append (hrest.fits hused')

theorem ElementsTail.fits {lo hi : Nat} {used : List Lexeme} {es : List Expr} :
    ElementsTail used es → InOrder lo used hi → Fits lo (listExtents es) hi
  | .nil, h => h
  | .cons hfirst hrest, h => by
    obtain ⟨hlo, h⟩ := h.token
    obtain ⟨mid, hused, hused'⟩ := h.exists_append
    exact ((hfirst.fits hused).append (hrest.fits hused')).mono hlo (Nat.le_refl hi)

theorem Pairs.fits {lo hi : Nat} {used : List Lexeme} {pairs : List (Expr × Expr)} :
    Pairs used pairs → InOrder lo used hi → Fits lo (pairExtents pairs) hi
  | .nil, h => h
  | .cons hkey hvalue _ hrest, h => by
    obtain ⟨mid, hfirst, h⟩ := h.exists_append
    obtain ⟨hcolon, h⟩ := h.token
    obtain ⟨mid', hsecond, h⟩ := h.exists_append
    have hvalue := (hvalue.fits hsecond).append (hrest.fits h.behind)
    exact (hkey.fits hfirst).append (hvalue.mono hcolon (Nat.le_refl hi))

theorem Statement.fits {lo hi : Nat} {used : List Lexeme} {s : Stmt} :
    Statement used s → InOrder lo used hi → Fits lo [s.extent] hi
  | .bind hvalue hbehind, h => by
    obtain ⟨hlo, h⟩ := h.token
    obtain ⟨hname, hspan, _, h⟩ := h
    obtain ⟨hassign, h⟩ := h.token
    obtain ⟨mid, hused, h⟩ := h.exists_append
    obtain ⟨hlast, hmid⟩ := (hvalue.fits hused).to_stop (Expr.span_extent _)
    obtain ⟨hstop, hhi⟩ := hbehind.le hmid h
    exact Fits.node ⟨hname, Fits.nested hspan, hlast.mono hassign hstop⟩ hlo hhi
  | .ret hvalue hbehind, h => by
    obtain ⟨hlo, h⟩ := h.token
    obtain ⟨mid, hused, h⟩ := h.exists_append
    obtain ⟨hlast, hmid⟩ := (hvalue.fits hused).to_stop (Expr.span_extent _)
    obtain ⟨hstop, hhi⟩ := hbehind.le hmid h
    exact Fits.node (hlast.mono (Nat.le_refl _) hstop) hlo hhi
  | .expr hvalue hbehind, h => by
    obtain ⟨mid, hused, h⟩ := h.exists_append
    obtain ⟨hlast, hmid⟩ := (hvalue.fits hused).to_stop (Expr.span_extent _)
    obtain ⟨hstop, hhi⟩ := hbehind.le hmid h
    have hend : Fits _ [] _ := hstop
    obtain ⟨hlo, hvalue⟩ := hlast.from_start (Expr.span_extent _) hend
    exact Fits.node hvalue hlo hhi

theorem Statements.fits {lo hi : Nat} {used : List Lexeme} {ss : List Stmt} :
    Statements used ss → InOrder lo used hi → Fits lo (statementExtents ss) hi
  | .nil, h => h
  | .cons hfirst hrest, h => by
    obtain ⟨mid, hused, hused'⟩ := h.exists_append
    exact (hfirst.fits hused).append (hrest.fits hused')

theorem Braced.fits {lo hi : Nat} {used : List Lexeme} {b : Block} :
    Braced used b → InOrder lo used hi → Fits lo [b.extent] hi
  | .closed hbody, h => by
    obtain ⟨hlo, hused, hhi⟩ := h.enclosed
    exact Fits.node (hbody.fits hused) hlo hhi
  | .unclosed hbody, h => by
    obtain ⟨hlo, hspan, _, hused⟩ := h
    obtain ⟨hfits, hhi⟩ := fits_to_last (hbody.fits hused)
    exact Fits.node (hfits.mono hspan (Nat.le_refl _)) hlo hhi

end

end Grammar

/-! ### Programs -/

namespace Parser

variable {lo hi : Nat}

theorem inOrder_resume {tokens : List Lexeme} (h : InOrder lo tokens hi) : InOrder lo (resume tokens) hi := by
  induction tokens generalizing lo with
  | nil => exact h
  | cons l tokens ih =>
    obtain ⟨hlo, hbehind⟩ := h.token
    unfold resume
    split
    · exact hbehind.mono hlo (Nat.le_refl hi)
    · split
      · exact h
      · exact (ih hbehind).mono hlo (Nat.le_refl hi)

/-- No token starts before the current one. -/
theorem inOrder_current {ts : Tokens} (h : InOrder lo ts.rest hi) (hfin : ts.fin = hi) :
    InOrder ts.current.span.start ts.rest hi := by
  obtain ⟨rest, fin⟩ := ts
  cases rest with
  | nil => exact Nat.le_of_eq hfin
  | cons l rest => exact ⟨Nat.le_refl _, h.2⟩

/-- The statements of a reading are in order up to the end token. -/
theorem Runs.fits {ts : Tokens} {reading : Reading} (h : Runs ts reading) (hts : InOrder lo ts.rest hi) (hfin : ts.fin = hi) :
    Fits lo (statementExtents reading.statements) reading.rest.current.span.stop := by
  induction h generalizing lo with
  | @fin ts _ =>
    obtain ⟨rest, fin⟩ := ts
    subst hfin
    cases rest with
    | nil => exact hts
    | cons l rest => exact Nat.le_trans hts.1 hts.2.1
  | statement _ hfirst _ ih =>
    obtain ⟨used, hused, hstatement⟩ := hfirst.took
    rw [hused.rest] at hts
    obtain ⟨mid, hfront, hbehind⟩ := hts.exists_append
    exact (hstatement.fits hfront).append (ih hbehind (hused.fin.trans hfin))
  | error _ hfirst _ ih =>
    obtain ⟨_, used, hused⟩ := hfirst.took
    rw [hused.rest] at hts
    exact ih (inOrder_resume hts.behind) (hused.fin.trans hfin)

end Parser

open Simian.Parser

theorem fin_ofList_tokenize (source : String) : (Tokens.ofList (tokenize source)).fin = endOffset source.toList := by
  obtain ⟨tokens, htokens, _⟩ := (cuts_tokenize source).exists_concat
  simp only [Tokens.ofList, htokens, List.getLast?_concat]
  rfl

/-- Whatever the text, the spans of its program form a properly nested, ordered tree: each goes forward, lies within that of the node around it, and ends before those of the parts behind it start. -/
theorem spans_are_nested (source : String) : (parse source).program.extent.Nested := by
  obtain ⟨statements, errors, _, hruns⟩ := (Tokens.ofList (tokenize source)).exists_reading
  have hread := hruns _ ⟨rfl, rfl⟩
  have hfin := fin_ofList_tokenize source
  have hfits := hread.fits (inOrder_current (inOrder_tokenize source) hfin) hfin
  rw [parse, hread.parseTokens_eq]
  exact hfits.nested

/-- Parentheses leave no trace, and a block that is not closed ends with its last statement. -/
example : (parse "if (a) \x7b (b)(c)").program =
    ⟨⟨0, 15⟩, [.expr ⟨0, 15⟩ (.cond ⟨0, 15⟩ (.ident ⟨4, 5⟩ "a")
      (.mk ⟨7, 15⟩ [.expr ⟨10, 15⟩ (.call ⟨10, 15⟩ (.ident ⟨10, 11⟩ "b") [.ident ⟨13, 14⟩ "c"])]) none)]⟩ := by cbv

end Simian
