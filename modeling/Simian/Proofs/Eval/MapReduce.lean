import Simian.Proofs.Eval.HigherOrder
import Simian.Proofs.Eval.Unquote
import Simian.Proofs.Tree.Equality

/-!
# Mapping and reducing, from the text on

The texts of two functions over arrays, and of calls of them, are read and evaluated as they stand. What they read as is known but for the spans, which make no difference to what an evaluation comes to; so it is enough to evaluate the programs with all spans erased.

A call that is put together from names, literals and functions runs no statement in the scope that it stands in. Whatever it calls runs in scopes of its own, so it leaves all scopes that were there as they were.
-/

namespace Simian

open Filter

/-! ### Calls that change no scope -/

/-- A name, a literal or a function: nothing that is evaluated part by part. -/
def Expr.isAtom : Expr → Bool
  | .ident .. | .int .. | .str .. | .bool .. | .fn .. => true
  | _ => false

/-- A call of one atom with others. -/
def Expr.isSimpleCall : Expr → Bool
  | .call _ callee args => callee.isAtom && args.all isAtom && callee.name? != some "quote"
  | _ => false

/-- One expression that is a simple call. -/
def Program.isSimpleCall (p : Program) : Bool :=
  match p.statements with
  | [.expr _ e] => e.isSimpleCall
  | _ => false

namespace Eval

theorem ensures_atom {e : Expr} (h : e.isAtom = true) (depth : Nat) (scope own : ScopeId) :
    Ensures .any own (fun x => x.within .any = true) (expr depth scope e) := by
  cases depth with
  | zero => exact ensures_throw _
  | succ depth =>
    cases e with
    | int | str | bool => exact .pure (Value.within_any _)
    | ident _ id => exact ensures_name scope id
    | fn _ params body => exact ensures_fresh.bind fun _ _ => .pure (Value.within_any _)
    | _ => exact absurd h Bool.false_ne_true

theorem ensures_atoms {es : List Expr} (h : es.all Expr.isAtom = true) (depth : Nat) (scope own : ScopeId) :
    Ensures .any own (fun xs => ∀ x ∈ xs, x.within .any = true) (list (expr depth) scope es) := by
  induction es with
  | nil => exact .pure (List.forall_mem_nil _)
  | cons e es ih =>
    rw [List.all_cons, Bool.and_eq_true] at h
    refine (ensures_atom h.1 depth scope own).bind fun _ _ => (ih h.2).bind fun _ _ => .pure ?_
    exact fun x _ => x.within_any

theorem ensures_simpleCall {e : Expr} (h : e.isSimpleCall = true) (depth : Nat) (scope own : ScopeId) :
    Ensures .any own (fun x => x.within .any = true) (expr depth scope e) := by
  cases depth with
  | zero => exact ensures_throw _
  | succ depth =>
    cases e with
    | call span callee args =>
      simp only [Expr.isSimpleCall, Bool.and_eq_true, bne_iff_ne] at h
      rw [expr, step_call _ scope span args h.2]
      apply (ensures_atom h.1.1 depth scope own).bind
      intro f hf
      apply (ensures_atoms h.1.2 depth scope own).bind
      intro xs hxs
      exact ensures_apply (ensures_expr Vocabulary.closed_any depth) hf hxs
    | _ => exact absurd h Bool.false_ne_true

/-- However a program that is a simple call ends, all scopes are left as they were. -/
theorem scopes_of_simpleCall {p : Program} (h : p.isSimpleCall = true) (depth : Nat) (scope : ScopeId) (s : Store) :
    ∀ i < s.scopes.size, ((program depth scope p).run s).2.scopes[i]? = s.scopes[i]? := by
  refine Store.Frame.getElem? fun own => ?_
  unfold Program.isSimpleCall at h
  split at h
  · rename_i span e hp
    have hstatements : Ensures .any own (fun x => x.within .any = true)
        (statements (expr depth) scope .null p.statements) := by
      rw [hp]
      refine (ensures_simpleCall h depth scope own).bind fun x hx => ?_
      cases x <;> exact .pure hx
    have hprogram : Ensures .any own (fun x => x.within .any = true) (program depth scope p) :=
      hstatements.bind fun x _ => .pure x.unwrap.within_any
    exact frame_run hprogram s
  · exact absurd h Bool.false_ne_true

end Eval

namespace HigherOrder

open Eval

/-! ### The texts -/

/-- The definitions of `map` and `reduce`. -/
def definitionsText : String := "
        let map = fn(arr, f) \x7b
            let iter = fn(arr, accumulated) \x7b
                if (len(arr) == 0) \x7b
                    accumulated
                \x7d else \x7b
                    iter(rest(arr), push(accumulated, f(first(arr))));
                \x7d
            \x7d;

            iter(arr, []);
        \x7d;

        let reduce = fn(arr, initial, f) \x7b
            let iter = fn(arr, result) \x7b
                if (len(arr) == 0) \x7b
                    result
                \x7d else \x7b
                    iter(rest(arr), f(result, first(arr)));
                \x7d
            \x7d;

            iter(arr, initial);
        \x7d;
    "

/-- The call that doubles the elements of `xs`. -/
def doublingText : String := "map(xs, fn(x) \x7b x * 2 \x7d)"

/-- The call that adds up the elements of `xs`. -/
def summingText : String := "reduce(xs, 0, fn(acc, el) \x7b acc + el \x7d)"

/-- What `definitionsText` is read as. -/
def definitions : Program :=
  ⟨.nowhere, [.bind .nowhere (param "map") (.fn .nowhere [param "arr", param "f"] mapBody),
    .bind .nowhere (param "reduce") (.fn .nowhere [param "arr", param "initial", param "f"] reduceBody)]⟩

def doubleBody : Block := only (.binary .nowhere .asterisk (var "x") (.int .nowhere 2))

/-- What `doublingText` is read as. -/
def doubling : Program :=
  ⟨.nowhere, [.expr .nowhere (call "map" [var "xs", .fn .nowhere [param "x"] doubleBody])]⟩

def sumBody : Block := only (.binary .nowhere .plus (var "acc") (var "el"))

/-- What `summingText` is read as. -/
def summing : Program :=
  ⟨.nowhere, [.expr .nowhere
    (call "reduce" [var "xs", .int .nowhere 0, .fn .nowhere [param "acc", param "el"] sumBody])]⟩

/-- The text is read without errors, and as the program but for the spans. -/
structure Reads (text : String) (p : Program) : Prop where
  errors : (parse text).errors = []
  program : (parse text).program.erase = p.erase

/-- Reading is decided on the characters, which a text that is written out is made of. -/
theorem reads_of_chars {cs : List Char} {p : Program} {parsed : Parsed}
    (hparsed : parsed = parseTokens (Cursor.scanAll (cs.length + 1) (.ofChars cs)))
    (h : (parsed.errors.isEmpty &&
      sameStatements (eraseStatements parsed.program.statements) (eraseStatements p.statements)) = true) :
    Reads (String.ofList cs) p := by
  have hparse : parse (String.ofList cs) = parsed := by
    rw [parse, tokenize, ← String.length_toList, String.toList_ofList, hparsed]
  rw [← hparse, Bool.and_eq_true, List.isEmpty_iff, sameStatements_iff] at h
  refine ⟨h.1, ?_⟩
  rw [Program.erase, h.2, Program.erase]

set_option maxRecDepth 10000 in
theorem reads_definitionsText : Reads definitionsText definitions :=
  reads_of_chars rfl (by decide +kernel)

theorem reads_doublingText : Reads doublingText doubling :=
  reads_of_chars rfl (by decide +kernel)

theorem reads_summingText : Reads summingText summing :=
  reads_of_chars rfl (by decide +kernel)

theorem isSimpleCall_doublingText : (parse doublingText).program.isSimpleCall = true := by decide +kernel

theorem isSimpleCall_summingText : (parse summingText).program.isSimpleCall = true := by decide +kernel

/-! ### The programs -/

variable {s : Store} {g : ScopeId}

theorem computes_double (id : Identity) (n : Int64) :
    Computes s (.function id [param "x"] doubleBody g) [.integer n] (.integer (n * 2)) := by
  refine computes_of_yields rfl (Value.plain_integer _) fun t c hc => ?_
  have hx : t.Means c "x" (some (.integer n)) := Store.means_of_bound hc rfl
  exact yields_binary .nowhere (yields_name .nowhere hx.lookup rfl) (yields_int .nowhere 2 t) rfl

theorem computes_sum (id : Identity) (m n : Int64) :
    Computes s (.function id [param "acc", param "el"] sumBody g) [.integer m, .integer n] (.integer (m + n)) := by
  refine computes_of_yields rfl (Value.plain_integer _) fun t c hc => ?_
  have hacc : t.Means c "acc" (some (.integer m)) := Store.means_of_bound hc rfl
  have hel : t.Means c "el" (some (.integer n)) := Store.means_of_bound hc rfl
  exact yields_binary .nowhere (yields_name .nowhere hacc.lookup rfl) (yields_name .nowhere hel.lookup rfl) rfl

theorem maps_double (id : Identity) (xs : List Int64) :
    Maps s (.function id [param "x"] doubleBody g) (xs.map .integer) (xs.map fun x => .integer (x * 2)) := by
  rw [Maps, List.forall₂_map_left_iff, List.forall₂_map_right_iff, List.forall₂_same]
  exact fun x _ => ⟨rfl, computes_double id x⟩

theorem folds_sum (id : Identity) (n : Int64) (xs : List Int64) :
    Folds s (.function id [param "acc", param "el"] sumBody g) (.integer n) (xs.map .integer)
      (.integer (n + Int64.ofInt (xs.map Int64.toInt).sum)) := by
  induction xs generalizing n with
  | nil =>
    have hsum : n + Int64.ofInt (([] : List Int64).map Int64.toInt).sum = n := Int64.add_zero n
    rw [hsum]
    exact .nil (Value.plain_integer n)
  | cons x xs ih =>
    have hrest := ih (n + x)
    rw [Int64.add_assoc] at hrest
    rw [List.map_cons, List.map_cons, List.sum_cons, Int64.ofInt_add, Int64.ofInt_toInt]
    exact .cons (Value.plain_integer n) rfl (computes_sum id n x) hrest

/-- The store behind the definitions. -/
def defined : Store :=
  ⟨#[⟨[("map", mapFn 0 0), ("reduce", reduceFn 1 0)], none⟩], 2, ""⟩

theorem gives_definitions :
    Gives (fun depth => program depth 0 definitions) (Store.empty.newScope none).2 .null defined :=
  ⟨1, rfl⟩

theorem scope_defined (x : Value) : (defined.bind 0 "xs" x).scopes[0]? =
    some ⟨[("map", mapFn 0 0), ("reduce", reduceFn 1 0), ("xs", x)], none⟩ :=
  rfl

theorem means_builtin (x : Value) (b : Builtin) : (defined.bind 0 "xs" x).Means 0 b.name none := by
  refine Store.means_of_unbound (scope_defined x) ?_
  cases b <;> rfl

theorem yields_doubling (id : Identity) {xs : List Int64} (hlength : xs.length < 2 ^ 64) :
    ∃ k t, Yields (fun depth => program depth 0 doubling) (defined.bind 0 "xs" (.array id (xs.map .integer)))
      (.array k (xs.map fun x => .integer (x * 2))) t := by
  let s := defined.bind 0 "xs" (.array id (xs.map .integer))
  have hmap : s.lookup 0 "map" = some (mapFn 0 0) := rfl
  have hxs : s.lookup 0 "xs" = some (.array id (xs.map .integer)) := rfl
  have hargs := yields_list_cons (yields_name .nowhere hxs rfl) (yields_list_cons
    (yields_fn .nowhere [param "x"] doubleBody s) (yields_list_nil s.fresh.2))
  have hbuiltins (b : Builtin) : s.fresh.2.Means 0 b.name none := (means_builtin _ b).mono (.of_eq rfl)
  obtain ⟨k, t, ht, -⟩ := yields_map 0 id hbuiltins rfl (by rwa [List.length_map]) (maps_double s.nextId xs)
  have hcall := yields_call .nowhere (by decide) (yields_name .nowhere hmap rfl) hargs ht
  exact ⟨k, t, yields_program .nowhere .nowhere hcall nofun rfl⟩

theorem yields_summing (id : Identity) {xs : List Int64} (hlength : xs.length < 2 ^ 64) :
    ∃ t, Yields (fun depth => program depth 0 summing) (defined.bind 0 "xs" (.array id (xs.map .integer)))
      (.integer (Int64.ofInt (xs.map Int64.toInt).sum)) t := by
  let s := defined.bind 0 "xs" (.array id (xs.map .integer))
  have hreduce : s.lookup 0 "reduce" = some (reduceFn 1 0) := rfl
  have hxs : s.lookup 0 "xs" = some (.array id (xs.map .integer)) := rfl
  have hargs := yields_list_cons (yields_name .nowhere hxs rfl) (yields_list_cons (yields_int .nowhere 0 s)
    (yields_list_cons (yields_fn .nowhere [param "acc", param "el"] sumBody s) (yields_list_nil s.fresh.2)))
  have hbuiltins (b : Builtin) : s.fresh.2.Means 0 b.name none := (means_builtin _ b).mono (.of_eq rfl)
  have hfolds := folds_sum (s := s.fresh.2) (g := 0) s.nextId 0 xs
  rw [Int64.zero_add] at hfolds
  obtain ⟨t, ht, -⟩ := yields_reduce 1 id hbuiltins rfl (by rwa [List.length_map]) hfolds
  have hcall := yields_call .nowhere (by decide) (yields_name .nowhere hreduce rfl) hargs ht
  exact ⟨t, yields_program .nowhere .nowhere hcall nofun rfl⟩

/-! ### From programs to texts -/

variable {xs : List Int64}

theorem map_double (xs : List Int64) :
    (xs.map fun x => Value.integer (x * 2)) = (xs.map fun x => Int64.ofInt (2 * x.toInt)).map .integer := by
  rw [List.map_map]
  refine List.map_congr_left fun x _ => ?_
  rw [Function.comp_apply, Int64.ofInt_mul, Int64.ofInt_toInt, Int64.mul_comm]
  rfl

theorem eq_of_alike_integers {m : Matching} {ys : List Value} (h : List.Forall₂ (Value.Alike m) (xs.map .integer) ys) :
    ys = xs.map .integer := by
  induction xs generalizing ys with
  | nil =>
    cases h
    rfl
  | cons x xs ih =>
    cases h with
    | cons hx hxs =>
      cases hx
      rw [ih hxs, List.map_cons]

/-- A text gives what the program gives that it is read as, in a store that is alike up to spans. -/
theorem gives_of_reads {text : String} {p : Program} (hreads : Reads text p) {s s' t : Store} {y : Value}
    (hs : s.Alike .spanless "" "" s') (h : Gives (fun depth => program depth 0 p) s y t) :
    ∃ z t', (∀ᶠ depth in atTop, (program depth 0 (parse text).program).run s' = (some z, t')) ∧ y.Alike .spanless z ∧
      t.Alike .spanless "" "" t' := by
  obtain ⟨z, t', hz, hyz, ht⟩ := gives_alike hreads.program.symm hs h
  exact ⟨z, t', hz.eventually (deepens_program 0 _), hyz, ht⟩

theorem scope_of_simpleCall {text : String} (hcall : (parse text).program.isSimpleCall = true) {s t : Store} {y : Value}
    (hs : 0 < s.scopes.size) (h : ∀ᶠ depth in atTop, (program depth 0 (parse text).program).run s = (some y, t)) :
    t.scopes[0]? = s.scopes[0]? := by
  obtain ⟨depth, hdepth⟩ := h.exists
  have hscopes := scopes_of_simpleCall hcall depth 0 s 0 hs
  rwa [hdepth] at hscopes

/-- Mapping and reducing compute what they say. The texts of the definitions and of the two calls are read without errors. The definitions can be evaluated in a fresh environment, and whatever array of integers is then bound to `xs` there, at every depth that is large enough mapping gives the array of the doubles in the same order and reducing gives the sum, both wrapped around to words, and the scope that they are called in is afterwards as it was before. No array has `2 ^ 64` elements, which is more than a word can count: at that length `len` would come to zero, where the loops end. -/
theorem mapping_doubles_and_reducing_sums :
    (parse definitionsText).errors = [] ∧ (parse doublingText).errors = [] ∧ (parse summingText).errors = [] ∧
    ∃ s, (∀ᶠ depth in atTop,
        (program depth 0 (parse definitionsText).program).run (Store.empty.newScope none).2 = (some .null, s)) ∧
      ∀ (xs : List Int64) (id : Identity), xs.length < 2 ^ 64 →
        let bound := s.bind 0 "xs" (.array id (xs.map .integer))
        (∃ k t, (∀ᶠ depth in atTop, (program depth 0 (parse doublingText).program).run bound =
            (some (.array k ((xs.map fun x => Int64.ofInt (2 * x.toInt)).map .integer)), t)) ∧
          t.scopes[0]? = bound.scopes[0]?) ∧
        ∃ t, (∀ᶠ depth in atTop, (program depth 0 (parse summingText).program).run bound =
            (some (.integer (Int64.ofInt (xs.map Int64.toInt).sum)), t)) ∧
          t.scopes[0]? = bound.scopes[0]? := by
  have hfresh := (Store.empty.newScope none).2.alike_spanless
  obtain ⟨_, s, hdefinitions, hnull, hs⟩ := gives_of_reads reads_definitionsText hfresh gives_definitions
  cases hnull
  refine ⟨reads_definitionsText.errors, reads_doublingText.errors, reads_summingText.errors, s, hdefinitions,
    fun xs id hlength => ?_⟩
  have hbound := hs.bind Matching.spanless_spanless.oneToOne (i := 0) (j := 0) rfl "xs"
    (Value.alike_spanless (.array id (xs.map .integer)))
  have hsize : defined.scopes.size = s.scopes.size := hs.nextScope 0
  have hpos : 0 < (s.bind 0 "xs" (.array id (xs.map .integer))).scopes.size := by
    rw [Store.size_bind, ← hsize]
    exact Nat.one_pos
  refine ⟨?_, ?_⟩
  · obtain ⟨k, u, hu⟩ := yields_doubling id hlength
    rw [map_double] at hu
    obtain ⟨z, t, ht, hz, -⟩ := gives_of_reads reads_doublingText hbound hu.gives
    cases hz with
    | array _ helements =>
      rw [eq_of_alike_integers helements] at ht
      exact ⟨_, t, ht, scope_of_simpleCall isSimpleCall_doublingText hpos ht⟩
  · obtain ⟨u, hu⟩ := yields_summing id hlength
    obtain ⟨z, t, ht, hz, -⟩ := gives_of_reads reads_summingText hbound hu.gives
    cases hz
    exact ⟨t, ht, scope_of_simpleCall isSimpleCall_summingText hpos ht⟩

/-- `[9223372036854775807, 1, 2]`, the first of which has no double that is a word. -/
theorem mapping_doubles_and_reducing_sums_wrapping :
    ∃ s, (∀ᶠ depth in atTop,
        (program depth 0 (parse definitionsText).program).run (Store.empty.newScope none).2 = (some .null, s)) ∧
      let bound := s.bind 0 "xs" (.array 2 [.integer Int64.maxValue, .integer 1, .integer 2])
      (∃ k t, (∀ᶠ depth in atTop, (program depth 0 (parse doublingText).program).run bound =
          (some (.array k [.integer (-2), .integer 2, .integer 4]), t)) ∧ t.scopes[0]? = bound.scopes[0]?) ∧
      ∃ t, (∀ᶠ depth in atTop, (program depth 0 (parse summingText).program).run bound =
          (some (.integer (Int64.minValue + 2)), t)) ∧ t.scopes[0]? = bound.scopes[0]? := by
  obtain ⟨-, -, -, s, hs, hcalls⟩ := mapping_doubles_and_reducing_sums
  obtain ⟨⟨k, t, ht, hscope⟩, u, hu, hscope'⟩ := hcalls [Int64.maxValue, 1, 2] 2 (by decide)
  have hdoubles : [Int64.maxValue, 1, 2].map (fun x => Int64.ofInt (2 * x.toInt)) = [-2, 2, 4] := by decide
  have hsum : Int64.ofInt ([Int64.maxValue, 1, 2].map Int64.toInt).sum = Int64.minValue + 2 := by decide
  rw [hdoubles] at ht
  rw [hsum] at hu
  exact ⟨s, hs, ⟨k, t, ht, hscope⟩, u, hu, hscope'⟩

end HigherOrder

end Simian
