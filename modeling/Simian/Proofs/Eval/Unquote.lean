import Simian.Proofs.Eval.Effect
import Simian.Proofs.Eval.Escape
import Simian.Proofs.Eval.HashLiteral
import Simian.Proofs.Session.Spans
import Simian.Proofs.Value.Data

/-!
# Unquoting data

To unquote a value is to write it as an expression. An expression denotes data when it evaluates to the same contents wherever it is evaluated: a literal does, a negative integer written with an operator does, and arrays and hashes do if their parts do. So data that are unquoted come back from the quote, and where no text in them has a quote they come back from its printed form as well.
-/

namespace Simian

open Filter

namespace Eval

/-- In every scope and store, the expression evaluates to something with the contents of the value. -/
def Denotes (e : Expr) (x : Value) : Prop :=
  ∀ scope s, ∃ y t, Evaluates scope e s y t ∧ x.Alike .contents y

/-! ### Integers -/

theorem denotes_integerExpr (span : Span) (n : Int64) : Denotes (integerExpr span n) (.integer n) := by
  intro scope s
  refine ⟨.integer n, s, ?_, .integer n⟩
  unfold integerExpr
  split
  · rename_i hmin
    have hleast : Evaluates scope (.binary span .minus (.unary span .minus (.int span Int64.maxValue)) (.int span 1)) s
        (.integer (-Int64.maxValue - 1)) s := ⟨3, rfl⟩
    rw [hmin]
    exact hleast
  · split
    · have hnegative : Evaluates scope (.unary span .minus (.int span (-n))) s (.integer (- -n)) s := ⟨2, rfl⟩
      rwa [Int64.neg_neg] at hnegative
    · exact ⟨1, rfl⟩

/-! ### Arrays -/

section Parts

variable {xs : List Value} {es : List Expr}

/-- The values of the expressions have the contents of the data, and none of them is an error. -/
theorem exists_list (hdata : ∀ x ∈ xs, x.IsData) (h : List.Forall₂ Denotes es xs) (scope : ScopeId) (s : Store) :
    ∃ ys t, (∀ᶠ depth in atTop, list (expr depth) scope es s = .ok ys t) ∧
      List.Forall₂ (Value.Alike .contents) xs ys := by
  induction h generalizing s with
  | nil => exact ⟨[], s, .of_forall fun _ => rfl, .nil⟩
  | cons he _ ih =>
    rw [List.forall_mem_cons] at hdata
    obtain ⟨y, t, hy, hxy⟩ := he scope s
    obtain ⟨ys, u, hys, hrest⟩ := ih hdata.2 t
    refine ⟨y :: ys, u, ?_, .cons hxy hrest⟩
    filter_upwards [hy.eventually_ok (hdata.1.plain hxy).1, hys] with depth hdepth hdepth'
    exact (bind_of_ok hdepth).trans (bind_of_ok hdepth')

theorem denotes_array (hdata : ∀ x ∈ xs, x.IsData) (h : List.Forall₂ Denotes es xs) (span : Span) (id : Identity) :
    Denotes (.array span es) (.array id xs) := by
  intro scope s
  obtain ⟨ys, t, hlist, hys⟩ := exists_list hdata h scope s
  obtain ⟨depth, hdepth⟩ := hlist.exists
  exact ⟨.array t.nextId ys, t.fresh.2, evaluates_of_ok (bind_of_ok hdepth), .array trivial hys⟩

theorem exists_valuesToExprs {span : Span} (h : ∀ x ∈ xs, ∃ e, (∀ s, x.toExpr span s = .ok e s) ∧ Denotes e x) :
    ∃ es, (∀ s, valuesToExprs span xs s = .ok es s) ∧ List.Forall₂ Denotes es xs := by
  induction xs with
  | nil => exact ⟨[], fun _ => rfl, .nil⟩
  | cons x xs ih =>
    rw [List.forall_mem_cons] at h
    obtain ⟨⟨e, he, hdenotes⟩, hrest⟩ := h
    obtain ⟨es, hes, hdenotes'⟩ := ih hrest
    exact ⟨e :: es, fun s => (bind_of_ok (he s)).trans (bind_of_ok (hes s)), .cons hdenotes hdenotes'⟩

end Parts

/-! ### Hashes -/

/-- The expressions of a pair denote its key and its value. -/
def DenotesPair (p : Expr × Expr) (e : Entry Value) : Prop :=
  Denotes p.1 e.key ∧ Denotes p.2 e.value

section Pairs

variable {ps : List (Expr × Expr)} {es : List (Entry Value)}

/-- Pairs are stored as they are listed: each comes under a hash key that is not yet there. -/
theorem exists_pairs (hunder : ∀ e ∈ es, e.key.hashKey? = some e.hashKey) (hkeys : ∀ e ∈ es, e.key.IsData)
    (hvalues : ∀ e ∈ es, e.value.IsData) (h : List.Forall₂ DenotesPair ps es) (scope : ScopeId) (s : Store)
    (stored : List (Entry Value)) (hdistinct : (stored.map (·.hashKey) ++ es.map (·.hashKey)).Nodup) :
    ∃ es' t, (∀ᶠ depth in atTop, pairs (expr depth) scope stored ps s = .ok (stored ++ es') t) ∧
      List.Forall₂ (EntryAlike .contents) es es' := by
  induction h generalizing s stored with
  | nil =>
    refine ⟨[], s, .of_forall fun depth => ?_, .nil⟩
    rw [List.append_nil]
    rfl
  | @cons p e ps es hpair _ ih =>
    rw [List.forall_mem_cons] at hunder hkeys hvalues
    obtain ⟨hashKey, key, value⟩ := e
    obtain ⟨x, t, hx, hkey⟩ := hpair.1 scope s
    obtain ⟨y, u, hy, hvalue⟩ := hpair.2 scope t
    have hhashKey : x.hashKey? = some hashKey := hkey.hashKey?_eq ▸ hunder.1
    have hnew : hashKey ∉ stored.map (·.hashKey) :=
      fun hmem => List.disjoint_of_nodup_append hdistinct hmem List.mem_cons_self
    have hnext : ((stored ++ [Entry.mk hashKey x y]).map (·.hashKey) ++ es.map (·.hashKey)).Nodup := by
      rw [List.map_append, List.append_assoc]
      exact hdistinct
    obtain ⟨es', v, hrest, hes'⟩ := ih hunder.2 hkeys.2 hvalues.2 u (stored ++ [⟨hashKey, x, y⟩]) hnext
    refine ⟨⟨hashKey, x, y⟩ :: es', v, ?_, .cons (.mk hkey hvalue) hes'⟩
    filter_upwards [hx.eventually_ok (hkeys.1.plain hkey).1, hy.eventually_ok (hvalues.1.plain hvalue).1, hrest] with
      depth hdepth hdepth' hdepth''
    refine (bind_of_ok hdepth).trans ?_
    simp only [hhashKey]
    refine (bind_of_ok hdepth').trans ?_
    have hinsert : Entry.insert ⟨hashKey, x, y⟩ stored = stored ++ [⟨hashKey, x, y⟩] :=
      Entry.insert_eq_concat hnew
    rw [List.append_assoc] at hdepth''
    exact hinsert ▸ hdepth''

theorem denotes_hash (hdistinct : (es.map (·.hashKey)).Nodup) (hunder : ∀ e ∈ es, e.key.hashKey? = some e.hashKey)
    (hkeys : ∀ e ∈ es, e.key.IsData) (hvalues : ∀ e ∈ es, e.value.IsData) (h : List.Forall₂ DenotesPair ps es)
    (span : Span) (id : Identity) : Denotes (.hash span ps) (.hash id es) := by
  intro scope s
  obtain ⟨es', t, hpairs, hes'⟩ := exists_pairs hunder hkeys hvalues h scope s [] hdistinct
  obtain ⟨depth, hdepth⟩ := hpairs.exists
  exact ⟨.hash t.nextId es', t.fresh.2, evaluates_of_ok (bind_of_ok hdepth), .hash trivial hes'⟩

theorem exists_entriesToPairs {span : Span}
    (hkeys : ∀ e ∈ es, ∃ k, (∀ s, e.key.toExpr span s = .ok k s) ∧ Denotes k e.key)
    (hvalues : ∀ e ∈ es, ∃ v, (∀ s, e.value.toExpr span s = .ok v s) ∧ Denotes v e.value) :
    ∃ ps, (∀ s, entriesToPairs span es s = .ok ps s) ∧ List.Forall₂ DenotesPair ps es := by
  induction es with
  | nil => exact ⟨[], fun _ => rfl, .nil⟩
  | cons e es ih =>
    rw [List.forall_mem_cons] at hkeys hvalues
    obtain ⟨⟨k, hk, hdenotes⟩, hkeys'⟩ := hkeys
    obtain ⟨⟨v, hv, hdenotes'⟩, hvalues'⟩ := hvalues
    obtain ⟨ps, hps, hrest⟩ := ih hkeys' hvalues'
    refine ⟨(k, v) :: ps, fun s => ?_, .cons ⟨hdenotes, hdenotes'⟩ hrest⟩
    exact (bind_of_ok (hk s)).trans ((bind_of_ok (hv s)).trans (bind_of_ok (hps s)))

end Pairs

/-! ### Quotes -/

/-- Data can be written as expressions that denote them. The store has no part in it. -/
theorem exists_toExpr {x : Value} (hx : x.IsData) (span : Span) :
    ∃ e, (∀ s, x.toExpr span s = .ok e s) ∧ Denotes e x := by
  induction hx with
  | integer n => exact ⟨integerExpr span n, fun _ => rfl, denotes_integerExpr span n⟩
  | boolean b => exact ⟨.bool span b, fun _ => rfl, fun _ s => ⟨.boolean b, s, ⟨1, rfl⟩, .boolean b⟩⟩
  | string text => exact ⟨.str span text, fun _ => rfl, fun _ s => ⟨.string text, s, ⟨1, rfl⟩, .string text⟩⟩
  | array id hdata ih =>
    obtain ⟨es, hes, hdenotes⟩ := exists_valuesToExprs ih
    exact ⟨.array span es, fun s => bind_of_ok (hes s), denotes_array hdata hdenotes span id⟩
  | hash id hdistinct hunder hkeys hvalues ihkey ihvalue =>
    obtain ⟨ps, hps, hdenotes⟩ := exists_entriesToPairs ihkey ihvalue
    exact ⟨.hash span ps, fun s => bind_of_ok (hps s), denotes_hash hdistinct hunder hkeys hvalues hdenotes span id⟩

variable {scope : ScopeId} {s t : Store} {x y : Value} {name : String}

/-- A quote of one unquoted name holds the expression for what the name is bound to. -/
theorem evaluates_quote_unquote (hname : s.lookup scope name = some x) (hx : x.isError = false) {e : Expr} {inner : Span}
    (he : x.toExpr inner s = .ok e s) (outer quoteAt unquoteAt nameAt : Span) :
    Evaluates scope (.call outer (.ident quoteAt "quote") [.call inner (.ident unquoteAt "unquote") [.ident nameAt name]])
      s (.quote s.nextId e) s.fresh.2 := by
  have hget : (get : Eval Store) s = .ok s s := rfl
  have hident : expr 1 scope (.ident nameAt name) s = .ok x s := by
    rw [expr, step, Eval.name, bind_of_ok hget, hname]
    exact settle_of_isError hx s
  have hsplice : splice (expr 1 scope) (.call inner (.ident unquoteAt "unquote") [.ident nameAt name]) s = .ok e s :=
    (bind_of_ok hident).trans he
  have hstep : step (expr 1) scope (.call outer (.ident quoteAt "quote")
      [.call inner (.ident unquoteAt "unquote") [.ident nameAt name]]) s = .ok (.quote s.nextId e) s.fresh.2 :=
    bind_of_ok hsplice
  exact evaluates_of_ok hstep

/-- A program of one expression comes to its value, unless that is on its way out of a function. -/
theorem gives_program {e : Expr} (h : Evaluates scope e s y t) (hy : y.isError = false) (hreturned : y.kind ≠ .returned)
    (outer inner : Span) : Gives (fun depth => program depth scope ⟨outer, [.expr inner e]⟩) s y t := by
  obtain ⟨depth, hdepth⟩ := (h.eventually_ok hy).exists
  have hstatement : statement (expr depth) scope (.expr inner e) s = .ok y t := hdepth
  have hstatements : statements (expr depth) scope .null [.expr inner e] s = .ok y t :=
    statements_go_on hstatement hreturned .null []
  have hunwrap : y.unwrap = y := by
    cases y with
    | returned => exact absurd rfl hreturned
    | _ => rfl
  refine ⟨depth, ?_⟩
  have hprogram : program depth scope ⟨outer, [.expr inner e]⟩ s = .ok y.unwrap t := bind_of_ok hstatements
  rw [hunwrap] at hprogram
  dsimp only
  rw [run, hprogram]

/-- Run in stores that are alike up to spans, programs that are equal up to spans give values that are, and leave stores that are. -/
theorem gives_alike {p q : Program} {before : String} (hpq : p.erase = q.erase) {s' : Store}
    (hs : s.Alike .spanless before before s') (h : Gives (fun depth => program depth scope p) s y t) :
    ∃ z t', Gives (fun depth => program depth scope q) s' z t' ∧ y.Alike .spanless z ∧
      t.Alike .spanless before before t' := by
  obtain ⟨depth, hdepth⟩ := h
  have hm := Matching.spanless_spanless
  have hcoupled : Coupled (likening .spanless before before) (Value.Alike .spanless) (program depth scope p)
      (program depth scope q) :=
    coupled_program (simulates_likening hm.oneToOne _ _) hm.toLenient depth rfl (Program.alike_of_erase_eq hm.span hpq)
  have hrel := rel_run hm.fault hcoupled hs
  cases hq : (program depth scope q).run s' with
  | mk result t' =>
    dsimp only at hdepth
    rw [hdepth, hq] at hrel
    obtain ⟨hvalue, hstore⟩ := hrel
    cases hvalue with
    | some hyz => exact ⟨_, t', ⟨depth, hq⟩, hyz, hstore⟩

theorem gives_of_erase_eq {p q : Program} (hpq : p.erase = q.erase)
    (h : Gives (fun depth => program depth scope p) s y t) :
    ∃ z u, Gives (fun depth => program depth scope q) s z u ∧ y.Alike .spanless z := by
  obtain ⟨z, u, hz, hyz, -⟩ := gives_alike hpq s.alike_spanless h
  exact ⟨z, u, hz, hyz⟩

/-! ### Printed quotes -/

theorem parse_print {e : Expr} (h : e.within .printable = true) (outer inner : Span) :
    (parse e.print).errors = [] ∧ (parse e.print).program.erase = Program.erase ⟨outer, [.expr inner e]⟩ := by
  have hprintable : Program.isPrintable ⟨outer, [.expr inner e]⟩ = true := by
    rw [Program.isPrintable, Program.within, withinStatements, Stmt.within, withinStatements, Bool.and_true]
    exact h
  have hprint : Program.print ⟨outer, [.expr inner e]⟩ = e.print := by
    simp [Program.print, printStatements, Stmt.print, statementGap]
  have hparse := parse_write Brackets.sufficient_full hprintable
  rwa [Program.write_full, hprint] at hparse

theorem within_toExpr {e : Expr} {span : Span} (h : x.within .printable = true) (he : ∀ s, x.toExpr span s = .ok e s) :
    e.within .printable = true := by
  have hensures : Ensures .printable 0 (fun e => e.within .printable = true) (x.toExpr span) :=
    x.ensures_toExpr Vocabulary.closed_printable span h
  have hholds := hensures .empty (Store.within_empty _)
  rw [he] at hholds
  exact hholds.1

/-- What an expression denotes is denoted by its text as well. -/
theorem Denotes.reparsed {e : Expr} (hx : x.IsData) (h : Denotes e x) (hprintable : e.within .printable = true)
    (scope : ScopeId) (s : Store) :
    ∃ y t, Gives (fun depth => program depth scope (parse e.print).program) s y t ∧ x.Alike .contents y := by
  obtain ⟨y, t, hy, hxy⟩ := h scope s
  obtain ⟨herror, hreturned⟩ := hx.plain hxy
  have hgives := gives_program hy herror hreturned .nowhere .nowhere
  obtain ⟨z, u, hz, hyz⟩ := gives_of_erase_eq (parse_print hprintable _ _).2.symm hgives
  exact ⟨z, u, hz, hx.trans hxy hyz⟩

/-- Data that are unquoted come back. The quote of an unquoted name that is bound to data has a node, and wherever that is evaluated it comes to data equal to these, in the way a host compares values. If no text in them has a quote, the printed node parses without an error, and evaluating what was parsed comes to equal data too. -/
theorem unquoted_data_come_back {x : Value} (hx : x.IsData) {scope : ScopeId} {s : Store} {name : String}
    (hname : s.lookup scope name = some x) (outer quoteAt inner unquoteAt nameAt : Span) :
    ∃ node, Evaluates scope (.call outer (.ident quoteAt "quote")
          [.call inner (.ident unquoteAt "unquote") [.ident nameAt name]]) s (.quote s.nextId node) s.fresh.2 ∧
      (∀ scope' s', ∃ y t, Evaluates scope' node s' y t ∧ x.same y = true ∧ y.same x = true) ∧
      ((∀ text ∈ x.texts, '"' ∉ text.toList) →
        (parse node.print).errors = [] ∧
        ∀ scope' s', ∃ y t, Gives (fun depth => program depth scope' (parse node.print).program) s' y t ∧
          x.same y = true ∧ y.same x = true) := by
  obtain ⟨node, hnode, hdenotes⟩ := exists_toExpr hx inner
  refine ⟨node, evaluates_quote_unquote hname hx.isError (hnode s) .., fun scope' s' => ?_, fun htexts => ?_⟩
  · obtain ⟨y, t, hy, hxy⟩ := hdenotes scope' s'
    exact ⟨y, t, hy, hx.same_of_alike hxy⟩
  · have hprintable := within_toExpr (hx.within_printable htexts) hnode
    refine ⟨(parse_print hprintable .nowhere .nowhere).1, fun scope' s' => ?_⟩
    obtain ⟨y, t, hy, hxy⟩ := hdenotes.reparsed hx hprintable scope' s'
    exact ⟨y, t, hy, hx.same_of_alike hxy⟩

/-- `[-9223372036854775808, {"a": [true], -1: "b"}]` -/
def nested : Value :=
  .array 0 [.integer Int64.minValue,
    .hash 1 [⟨⟨.string, digest ['a']⟩, .string "a", .array 2 [.boolean true]⟩,
      ⟨⟨.integer, (-1 : Int64).toUInt64⟩, .integer (-1), .string "b"⟩]]

theorem isData_nested : nested.IsData := by
  have hinner : Value.IsData (.array 2 [.boolean true]) := .array 2 (List.forall_mem_singleton.mpr (.boolean true))
  refine .array 0 (List.forall_mem_cons.mpr ⟨.integer _, List.forall_mem_singleton.mpr (.hash 1 ?_ ?_ ?_ ?_)⟩)
  · decide
  · decide
  · exact List.forall_mem_cons.mpr ⟨.string "a", List.forall_mem_singleton.mpr (.integer (-1))⟩
  · exact List.forall_mem_cons.mpr ⟨hinner, List.forall_mem_singleton.mpr (.string "b")⟩

theorem unquoted_data_come_back_nested :
    ∃ node, Evaluates 0 (.call ⟨0, 17⟩ (.ident ⟨0, 5⟩ "quote")
          [.call ⟨6, 16⟩ (.ident ⟨6, 13⟩ "unquote") [.ident ⟨14, 15⟩ "x"]])
        ⟨#[⟨[("x", nested)], none⟩], 3, ""⟩ (.quote 3 node) ⟨#[⟨[("x", nested)], none⟩], 4, ""⟩ ∧
      (∀ scope' s', ∃ y t, Evaluates scope' node s' y t ∧ nested.same y = true ∧ y.same nested = true) ∧
      (parse node.print).errors = [] ∧
      ∀ scope' s', ∃ y t, Gives (fun depth => program depth scope' (parse node.print).program) s' y t ∧
        nested.same y = true ∧ y.same nested = true := by
  have hname : Store.lookup ⟨#[⟨[("x", nested)], none⟩], 3, ""⟩ 0 "x" = some nested := rfl
  obtain ⟨node, hquote, hnode, htext⟩ :=
    unquoted_data_come_back isData_nested hname ⟨0, 17⟩ ⟨0, 5⟩ ⟨6, 16⟩ ⟨6, 13⟩ ⟨14, 15⟩
  exact ⟨node, hquote, hnode, htext (by decide)⟩

end Eval

end Simian
