import Simian.Eval.Quote
import Simian.Proofs.Eval.HashLiteral
import Simian.Value.Inspect

/-!
# The order of a hash

A hash literal is evaluated to a hash with one pair for each hash key, at the place where the hash key first comes in the literal and with the key and the value of its last pair. Whatever goes through a hash goes through it in this order: the text of a hash lists its pairs so, and so does the expression that stands for it when it is unquoted.
-/

namespace Simian

/-! ### Texts -/

/-- How a pair is shown. -/
def Entry.inspect (entry : Entry Value) : String :=
  entry.key.inspect ++ ": " ++ entry.value.inspect

theorem inspectEntriesTail_cons (entry : Entry Value) (entries : List (Entry Value)) :
    inspectEntriesTail (entry :: entries) = ", " ++ inspectEntries (entry :: entries) := by
  simp [inspectEntriesTail, inspectEntries, String.append_assoc]

/-- The pairs are shown one after the other. -/
theorem inspectEntries_eq (entries : List (Entry Value)) :
    inspectEntries entries = ", ".intercalate (entries.map Entry.inspect) := by
  induction entries with
  | nil => rfl
  | cons entry entries ih =>
    have hcons : inspectEntries (entry :: entries) = entry.inspect ++ inspectEntriesTail entries := rfl
    cases entries with
    | nil => simp [hcons, inspectEntriesTail]
    | cons next entries =>
      rw [hcons, inspectEntriesTail_cons, ih, List.map_cons, List.map_cons, List.map_cons,
        String.intercalate_cons_cons, String.append_assoc]

/-! ### Expressions -/

/-- The expressions that a key and its value are unquoted to, in turn. -/
def Entry.toPair (span : Span) (entry : Entry Value) : Eval (Expr × Expr) := do
  let key ← entry.key.toExpr span
  let value ← entry.value.toExpr span
  return (key, value)

theorem entriesToPairs_eq (span : Span) (entries : List (Entry Value)) :
    entriesToPairs span entries = entries.mapM (Entry.toPair span) := by
  induction entries with
  | nil => rfl
  | cons entry entries ih => simp [entriesToPairs, ih, Entry.toPair]

/-- What `unquote` puts in the place of its call for a hash. -/
theorem splice_of_hash {eval : Expr → Eval Value} {arg : Expr} {s t : Store} {id : Identity}
    {entries : List (Entry Value)} (h : eval arg s = .ok (.hash id entries) t) (span callee : Span) :
    splice eval (.call span (.ident callee "unquote") [arg]) s =
      (do let pairs ← entries.mapM (Entry.toPair span); return .hash span pairs : Eval Expr) t := by
  rw [← entriesToPairs_eq]
  exact Eval.bind_of_ok h

/-! ### Hash literals -/

namespace Eval

variable {scope : ScopeId} {ps : List (Expr × Expr)} {s t : Store} {kvs : List (Value × Value)}

/-- Hashes keep the order of their literals. A literal whose pairs evaluate to keys and values evaluates to a hash with one pair for each hash key, in the order in which the hash keys first come in the literal. Every pair is stored under the hash key of its own key, and it has the key and the value of the last pair of the literal under that hash key. The text of the hash lists the pairs in this order, and so does the expression that `unquote` puts in the place of its call where the argument evaluates to the hash. -/
theorem hashes_keep_their_order (h : EvaluatesPairs scope ps s kvs t) :
    ∃ entries, (∀ span, Evaluates scope (.hash span ps) s (.hash t.nextId entries) t.fresh.2) ∧
      (entries.map (·.hashKey)).Nodup ∧
      entries.map (·.hashKey) = (kvs.filterMap (·.1.hashKey?)).eraseDups ∧
      (∀ entry ∈ entries, entry.key.hashKey? = some entry.hashKey ∧
        lastUnder entry.hashKey kvs = some (entry.key, entry.value)) ∧
      (∀ id, (Value.hash id entries).inspect =
        "\x7b" ++ ", ".intercalate (entries.map fun e => e.key.inspect ++ ": " ++ e.value.inspect) ++ "\x7d") ∧
      ∀ id eval arg span callee (s' t' : Store), eval arg s' = .ok (.hash id entries) t' →
        splice eval (.call span (.ident callee "unquote") [arg]) s' =
          (do let pairs ← entries.mapM (Entry.toPair span); return .hash span pairs : Eval Expr) t' := by
  refine ⟨storeAll kvs, h.evaluates_stored, nodup_storeAll kvs, map_hashKey_storeAll kvs,
    fun entry hentry => lastUnder_of_mem_storeAll hentry, fun id => ?_, fun id eval arg span callee s' t' harg => ?_⟩
  · rw [Value.inspect, inspectEntries_eq]
    rfl
  · exact splice_of_hash harg span callee

/-- `{"a": 1, 1: 2, "a": 3}` -/
theorem hashes_keep_their_order_repeated_key :
    ∃ entries, Evaluates 0 (.hash ⟨0, 22⟩ [(.str ⟨1, 4⟩ "a", .int ⟨6, 7⟩ 1), (.int ⟨9, 10⟩ 1, .int ⟨12, 13⟩ 2),
        (.str ⟨15, 18⟩ "a", .int ⟨20, 21⟩ 3)]) .empty (.hash 0 entries) Store.empty.fresh.2 ∧
      entries.map (·.hashKey) = [⟨.string, digest ['a']⟩, ⟨.integer, 1⟩] ∧
      ∀ entry ∈ entries, entry.hashKey = ⟨.string, digest ['a']⟩ →
        (entry.key, entry.value) = (.string "a", .integer 3) := by
  have hpairs : EvaluatesPairs 0 [(.str ⟨1, 4⟩ "a", .int ⟨6, 7⟩ 1), (.int ⟨9, 10⟩ 1, .int ⟨12, 13⟩ 2),
      (.str ⟨15, 18⟩ "a", .int ⟨20, 21⟩ 3)] .empty
      [(.string "a", .integer 1), (.integer 1, .integer 2), (.string "a", .integer 3)] .empty :=
    .cons ⟨1, rfl⟩ rfl ⟨1, rfl⟩ rfl (.cons ⟨1, rfl⟩ rfl ⟨1, rfl⟩ rfl (.cons ⟨1, rfl⟩ rfl ⟨1, rfl⟩ rfl (.nil _)))
  obtain ⟨entries, hliteral, -, horder, hlast, -, -⟩ := hashes_keep_their_order hpairs
  refine ⟨entries, hliteral _, ?_, fun entry hentry hunder => ?_⟩
  · rw [horder]
    decide
  · have hfound := (hlast entry hentry).2
    rw [hunder] at hfound
    exact Option.some.inj hfound.symm

end Eval

end Simian
