import Simian.Proofs.Eval.Recording
import Simian.Proofs.Session.Phase

/-!
# Equality and identity in sessions

A session starts with nothing made, and all it does is to define macros, which makes one value for each of them, to expand programs and to evaluate them. So at any time of its life there is a record of what it has made, and what it binds and comes to is in that record. Its values are therefore such as equality is an equivalence on, and those of them that are identical are equal.
-/

namespace Simian

variable {made : List Value}

/-! ### Macros -/

theorem Store.Recorded.define {s : Store} (h : s.Recorded made) (scope : ScopeId) (d : Definition) :
    ∃ later, made <+: later ∧ (s.define scope d).Recorded later := by
  have hid : (Value.macroValue s.nextId d.params d.body scope).identity? = some made.length := congrArg some h.length.symm
  have hrecorded := Value.recorded_concat hid trivial (List.forall_mem_nil _)
  exact ⟨_, List.prefix_append .., (h.fresh _).bind scope d.name hrecorded⟩

theorem Store.Recorded.foldl_define {s : Store} (h : s.Recorded made) (scope : ScopeId) (ds : List Definition) :
    ∃ later, made <+: later ∧ (ds.foldl (fun store d => store.define scope d) s).Recorded later := by
  induction ds generalizing s made with
  | nil => exact ⟨made, List.prefix_rfl, h⟩
  | cons d ds ih =>
    obtain ⟨now, hnow, hdefined⟩ := h.define scope d
    obtain ⟨later, hlater, hrest⟩ := ih hdefined
    exact ⟨later, hnow.trans hlater, hrest⟩

namespace Expansion

theorem records_ofEval {α : Type} {Q : List Value → α → Prop} {eval : Eval α} (span : Span) (h : Records made Q eval) :
    Records made Q (ofEval span eval) := by
  intro now s hnow hs
  have hkept := h now s hnow hs
  unfold ofEval
  cases heval : eval s with
  | ok a s₁ =>
    rw [heval] at hkept
    exact hkept
  | error halt s₁ =>
    rw [heval] at hkept
    cases halt with
    | raised message => exact hkept
    | exhausted => exact hkept

theorem records_quoteAll (es : List Expr) :
    Records made (fun later xs => ∀ x ∈ xs, x.Recorded later) (quoteAll es) := by
  induction es generalizing made with
  | nil => exact .pure fun _ _ => List.forall_mem_nil _
  | cons e es ih =>
    apply (Eval.records_newQuote e).bind
    intro later x _ hx
    refine ih.bind fun last xs hle hxs => .pure fun now hnow => ?_
    exact List.forall_mem_cons.mpr ⟨hx.mono (hle.trans hnow), fun y hy => (hxs y hy).mono hnow⟩

theorem records_replace (depth : Nat) (scope : ScopeId) (e : Expr) :
    Records made (fun _ _ => True) (replace depth scope e) := by
  have hbody : ∀ made params body inner args, Records made Value.Recorded (runBody depth params body inner args) := by
    intro made params body inner args
    apply (records_quoteAll args).bind
    intro now quotes _ hquotes
    apply (Eval.records_enter inner params hquotes).bind
    intro later scope _ _
    exact (Eval.records_block (Eval.records_expr depth) body).bind fun _ _ _ hx => Eval.records_value hx.unwrap
  unfold replace
  split
  · refine records_get fun s now _ _ => ?_
    split
    · refine Records.ite ?_ (records_throw _)
      apply (records_ofEval _ (hbody now _ _ _ _)).bind
      intro later x _ _
      cases x with
      | quote id node => exact .pure fun _ _ => trivial
      | _ => exact records_throw _
    · exact .pure fun _ _ => trivial
  · exact .pure fun _ _ => trivial

end Expansion

/-! ### Sessions -/

theorem Kept.finalStore {ε α : Type} {Q : List Value → α → Prop} {r : EStateM.Result ε Store α} (h : Kept made Q r) :
    ∃ later, made <+: later ∧ (finalStore r).Recorded later := by
  cases r with
  | ok a s =>
    obtain ⟨later, hlater, hs, _⟩ := h
    exact ⟨later, hlater, hs⟩
  | error e s => exact h

namespace Session

variable {s : Session} {ps : List Program}

theorem recorded_expand (h : s.store.Recorded made) (depth : Nat) (p : Program) :
    ∃ later, made <+: later ∧ (s.expand depth p).2.store.Recorded later := by
  obtain ⟨now, hnow, hdefined⟩ := h.foldl_define s.macros (definitions p.statements)
  rw [store_expand, Program.defineMacros, defineAll_eq]
  have hexpand : Records made (fun _ _ => True) (Program.expandMacros depth s.macros
      { p with statements := p.statements.filter (·.definition?.isNone) }) :=
    Program.records_transformM (Expansion.records_replace depth s.macros) _
  obtain ⟨later, hlater, hstore⟩ := (hexpand now _ hnow hdefined).finalStore
  exact ⟨later, hnow.trans hlater, hstore⟩

/-- What a program comes to is recorded together with what the session binds then. -/
theorem recorded_eval (h : s.store.Recorded made) (depth : Nat) (p : Program) :
    ∃ later, made <+: later ∧ (s.eval depth p).2.store.Recorded later ∧
      ∀ x, (s.eval depth p).1 = some x → x.Recorded later := by
  have hkept := Eval.records_program depth s.scope p made s.store List.prefix_rfl h
  unfold eval Eval.run
  cases hresult : Eval.program depth s.scope p s.store with
  | ok x store =>
    rw [hresult] at hkept
    obtain ⟨later, hlater, hstore, hx⟩ := hkept
    exact ⟨later, hlater, hstore, fun y hy => Option.some.inj hy ▸ hx⟩
  | error halt store =>
    rw [hresult] at hkept
    obtain ⟨later, hlater, hstore⟩ := hkept
    cases halt with
    | raised message =>
      exact ⟨later, hlater, hstore, fun y hy => Option.some.inj hy ▸ Value.Computed.recorded ⟨rfl, rfl⟩⟩
    | exhausted => exact ⟨later, hlater, hstore, fun _ hy => nomatch hy⟩

/-- Whatever a session has been through, there is a record of what was made in it. -/
theorem Past.recorded (h : Past ps s) : ∃ made, s.store.Recorded made := by
  induction h with
  | new => exact ⟨[], (Store.Recorded.empty.newScope none).newScope none⟩
  | expand depth p _ ih =>
    obtain ⟨made, hmade⟩ := ih
    obtain ⟨later, _, hlater⟩ := recorded_expand hmade depth p
    exact ⟨later, hlater⟩
  | eval depth p _ ih =>
    obtain ⟨made, hmade⟩ := ih
    obtain ⟨later, _, hlater, _⟩ := recorded_eval hmade depth p
    exact ⟨later, hlater⟩
  | takeOutput _ ih =>
    obtain ⟨made, hmade⟩ := ih
    exact ⟨made, hmade.of_eq rfl rfl⟩

end Session

/-! ### Equality -/

/-- Equality is an equivalence that identity refines. It is reflexive and symmetric on values whose hashes have no two pairs under one hash key, and transitive; neither side's order of pairs makes a difference to it, at any depth; and equal values have the same hash key, or none. Of values that were made, each under an identity of its own, those that are identical are equal. All that a session binds, and all that a program it evaluates comes to, are such values, one record having all of them. -/
theorem equality_is_an_equivalence_that_identity_refines :
    (∀ x : Value, x.DistinctKeys → x.same x = true) ∧
    (∀ x y : Value, x.DistinctKeys → y.DistinctKeys → x.same y = y.same x) ∧
    (∀ x y z : Value, x.same y = true → y.same z = true → x.same z = true) ∧
    (∀ x y z : Value, x.DistinctKeys → x.Reordered y → x.same z = y.same z ∧ z.same x = z.same y) ∧
    (∀ x y : Value, x.same y = true → x.hashKey? = y.hashKey?) ∧
    (∀ (made : List Value) (x y : Value), x.Recorded made → y.Recorded made → x.identical y = true → x.same y = true) ∧
    ∀ (ps : List Program) (s : Session), Session.Past ps s → ∃ made, s.store.Binds (Value.Recorded made) ∧
      ∀ (depth : Nat) (p : Program), ∃ later, made <+: later ∧ (s.eval depth p).2.store.Binds (Value.Recorded later) ∧
        ∀ x, (s.eval depth p).1 = some x → x.Recorded later := by
  refine ⟨fun _ => Value.DistinctKeys.same_self, fun x y hx hy => ?_, fun _ _ _ => Value.same_trans,
    fun _ _ z hx h => h.same_eq hx z, fun _ _ => Value.hashKey?_eq_of_same, fun _ _ _ => Value.Recorded.same_of_identical,
    fun ps s h => ?_⟩
  · exact Bool.eq_iff_iff.mpr ⟨hx.same_symm hy, hy.same_symm hx⟩
  · obtain ⟨made, hmade⟩ := h.recorded
    refine ⟨made, hmade.bound, fun depth p => ?_⟩
    obtain ⟨later, hlater, hstore, hx⟩ := Session.recorded_eval hmade depth p
    exact ⟨later, hlater, hstore.bound, hx⟩

/-- Makes one array and gives it two names. -/
def twoNames : Program :=
  (parse "let a = [\x7b1: 2\x7d]; let b = a").program

/-- Two hashes with the same pairs, stored one way round and the other, are equal also within arrays; and so are the values of `a` and `b`, of which there is only one. -/
theorem equality_is_an_equivalence_that_identity_refines_shared :
    ((Value.array 0 [.hash 1 [⟨⟨.integer, 1⟩, .integer 1, .null⟩, ⟨⟨.boolean, 1⟩, .boolean true, .array 2 []⟩]]).same
      (.array 5 [.hash 4 [⟨⟨.boolean, 1⟩, .boolean true, .array 3 []⟩, ⟨⟨.integer, 1⟩, .integer 1, .null⟩]]) = true) ∧
    ∃ (s : Session) (x y : Value), Session.Past [] s ∧ s.store.lookup s.scope "a" = some x ∧
      s.store.lookup s.scope "b" = some y ∧ x.identical y = true ∧ x.same y = true := by
  obtain ⟨hrefl, -, -, horder, -, hidentity, hsessions⟩ := equality_is_an_equivalence_that_identity_refines
  constructor
  · have hleaf : ∀ x : Value, x.parts = [] → x.KeysDistinct → x.DistinctKeys :=
      fun x hparts h => .intro h (hparts ▸ List.forall_mem_nil _)
    have hdistinct : (Value.array 0 [.hash 1 [⟨⟨.integer, 1⟩, .integer 1, .null⟩,
        ⟨⟨.boolean, 1⟩, .boolean true, .array 2 []⟩]]).DistinctKeys := by
      refine .intro trivial (List.forall_mem_singleton.mpr (.intro ?_ (Value.forall_parts_hash.mpr ?_)))
      · simp [Value.KeysDistinct]
      · rw [List.forall_mem_cons, List.forall_mem_singleton]
        exact ⟨⟨hleaf _ rfl trivial, hleaf _ rfl trivial⟩, hleaf _ rfl trivial, hleaf _ rfl trivial⟩
    rw [← (horder _ _ _ hdistinct (.array (.cons (.hash (.cons (.mk (.refl _) (.refl _)) (.cons (.mk (.refl _)
      (.array .nil)) .nil)) (.swap ..)) .nil))).2]
    exact hrefl _ hdistinct
  · have hpast : Session.Past [] (Session.new.eval 9 twoNames).2 := Session.Past.new.eval 9 twoNames
    have hlookup : ((Session.new.eval 9 twoNames).2.store.lookup (Session.new.eval 9 twoNames).2.scope "a").bind (fun x =>
        ((Session.new.eval 9 twoNames).2.store.lookup (Session.new.eval 9 twoNames).2.scope "b").map fun y =>
          x.identical y) = some true := by decide +kernel
    generalize (Session.new.eval 9 twoNames).2 = s at hpast hlookup
    obtain ⟨x, hx, hy⟩ := Option.bind_eq_some_iff.mp hlookup
    obtain ⟨y, hy, hidentical⟩ := Option.map_eq_some_iff.mp hy
    obtain ⟨made, hbound, -⟩ := hsessions _ _ hpast
    exact ⟨s, x, y, hpast, hx, hy, hidentical, hidentity made x y (hbound.find? hx) (hbound.find? hy) hidentical⟩

end Simian
