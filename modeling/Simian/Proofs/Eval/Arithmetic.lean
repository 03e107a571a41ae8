import Mathlib.Data.Int.ModEq
import Simian.Proofs.Eval.Context
import Simian.Proofs.Tree.Visits

/-!
# Arithmetic

Arithmetic on integers of 64 bits wraps around at every step. As long as there is no division this comes to the same as to calculate with unbounded integers and to wrap around once, at the end. A quotient is rounded toward zero and wraps around like everything else. The one thing that can go wrong is a divisor of zero, and wherever in an expression there is one, the whole comes to the error.
-/

namespace Simian

/-! ### Arithmetic expressions -/

/-- Built from integers with the prefix minus and the given operators between two operands. -/
inductive Arithmetic (operators : List Token) : Expr → Prop
  | int (span : Span) (n : Int64) : Arithmetic operators (.int span n)
  | negation (span : Span) {e : Expr} (he : Arithmetic operators e) : Arithmetic operators (.unary span .minus e)
  | operation (span : Span) {op : Token} (hop : op ∈ operators) {left right : Expr} (hleft : Arithmetic operators left)
      (hright : Arithmetic operators right) : Arithmetic operators (.binary span op left right)

/-- The operators that give exact results modulo any number. -/
def ringOperators : List Token := [.plus, .minus, .asterisk]

def arithmeticOperators : List Token := [.plus, .minus, .asterisk, .slash]

theorem ringOperators_subset : ringOperators ⊆ arithmeticOperators := by decide

def exactResult (op : Token) (a b : Int) : Int :=
  match op with
  | .plus => a + b
  | .minus => a - b
  | .asterisk => a * b
  | _ => 0

/-- What an expression without division comes to in unbounded integers. -/
def Expr.exactValue : Expr → Int
  | .int _ n => n.toInt
  | .unary _ .minus right => -right.exactValue
  | .binary _ op left right => exactResult op left.exactValue right.exactValue
  | _ => 0

/-- The number of 64 bits with the same remainder modulo `2 ^ 64`. -/
def wrapped (n : Int) : Int := n.bmod (2 ^ 64)

/-- What an operator makes of two numbers: a quotient is rounded toward zero, and there is none by zero. -/
def wrappedResult (op : Token) (a b : Int) : Option Int :=
  match op with
  | .plus => some (wrapped (a + b))
  | .minus => some (wrapped (a - b))
  | .asterisk => some (wrapped (a * b))
  | .slash => if b = 0 then none else some (wrapped (a.tdiv b))
  | _ => none

/-- What an expression comes to if every result is wrapped around. -/
def Expr.wrappedValue : Expr → Option Int
  | .int _ n => some n.toInt
  | .unary _ .minus right => right.wrappedValue.map fun n => wrapped (-n)
  | .binary _ op left right =>
    left.wrappedValue.bind fun a => right.wrappedValue.bind fun b => wrappedResult op a b
  | _ => none

/-- A division whose divisor comes to zero. -/
def Expr.DividesByZero (e : Expr) : Prop :=
  ∃ span left right, e = .binary span .slash left right ∧ right.wrappedValue = some 0

namespace Arithmetic

variable {operators operators' : List Token} {e : Expr}

theorem mono (hsub : operators ⊆ operators') (h : Arithmetic operators e) : Arithmetic operators' e := by
  induction h with
  | int span n => exact .int span n
  | negation span _ ih => exact .negation span ih
  | operation span hop _ _ ihleft ihright => exact .operation span (hsub hop) ihleft ihright

theorem of_mem_children (h : Arithmetic operators e) : ∀ child ∈ e.children, Arithmetic operators child := by
  cases h with
  | int span n => exact fun _ hchild => nomatch hchild
  | negation span he => exact List.forall_mem_singleton.mpr he
  | operation span hop hleft hright => exact List.forall_mem_cons.mpr ⟨hleft, List.forall_mem_singleton.mpr hright⟩

theorem of_mem_postorder (h : Arithmetic operators e) : ∀ x ∈ e.postorder, Arithmetic operators x := by
  induction e using Expr.of_children with
  | h e ih =>
    intro x hx
    obtain rfl | ⟨child, hchild, hbelow⟩ := Expr.mem_postorder.mp hx
    · exact h
    · exact ih child hchild (h.of_mem_children child hchild) x hbelow

/-- Wrapping around once, at the end, is enough. -/
theorem wrappedValue_modEq (h : Arithmetic ringOperators e) :
    ∃ n, e.wrappedValue = some n ∧ n ≡ e.exactValue [ZMOD 2 ^ 64] := by
  have hwrapped (n : Int) : wrapped n ≡ n [ZMOD 2 ^ 64] := Int.bmod_emod
  induction h with
  | int span n => exact ⟨n.toInt, rfl, .rfl⟩
  | negation span _ ih =>
    obtain ⟨n, hn, hmod⟩ := ih
    refine ⟨wrapped (-n), ?_, (hwrapped _).trans hmod.neg⟩
    rw [Expr.wrappedValue, hn, Option.map_some]
  | @operation span op hop left right _ _ ihleft ihright =>
    obtain ⟨a, ha, hamod⟩ := ihleft
    obtain ⟨b, hb, hbmod⟩ := ihright
    have hvalue : (Expr.binary span op left right).wrappedValue = wrappedResult op a b := by
      rw [Expr.wrappedValue, ha, hb, Option.bind_some, Option.bind_some]
    rw [hvalue, Expr.exactValue]
    simp only [ringOperators, List.mem_cons, List.not_mem_nil, or_false] at hop
    rcases hop with rfl | rfl | rfl
    · exact ⟨_, rfl, (hwrapped _).trans (hamod.add hbmod)⟩
    · exact ⟨_, rfl, (hwrapped _).trans (hamod.sub hbmod)⟩
    · exact ⟨_, rfl, (hwrapped _).trans (hamod.mul hbmod)⟩

theorem wrappedResult_eq_none_iff {op : Token} (hop : op ∈ arithmeticOperators) (a b : Int) :
    wrappedResult op a b = none ↔ op = .slash ∧ b = 0 := by
  simp only [arithmeticOperators, List.mem_cons, List.not_mem_nil, or_false] at hop
  rcases hop with rfl | rfl | rfl | rfl
  all_goals simp [wrappedResult]

/-- An expression has no value if it divides by zero itself, or if one of its parts has none. -/
theorem wrappedValue_eq_none_step (h : Arithmetic arithmeticOperators e) :
    e.wrappedValue = none ↔ e.DividesByZero ∨ ∃ child ∈ e.children, child.wrappedValue = none := by
  cases h with
  | int span n => simp [Expr.wrappedValue, Expr.children, Expr.DividesByZero]
  | negation span _ => simp [Expr.wrappedValue, Expr.children, Expr.DividesByZero]
  | @operation span op hop left right _ _ =>
    have hdivides : (Expr.binary span op left right).DividesByZero ↔ op = .slash ∧ right.wrappedValue = some 0 := by
      constructor
      · rintro ⟨_, _, _, heq, hzero⟩
        cases heq
        exact ⟨rfl, hzero⟩
      · rintro ⟨rfl, hzero⟩
        exact ⟨span, left, right, rfl, hzero⟩
    have hparts : (∃ child ∈ [left, right], child.wrappedValue = none) ↔
        left.wrappedValue = none ∨ right.wrappedValue = none := by simp
    rw [hdivides, Expr.children, hparts, Expr.wrappedValue]
    cases left.wrappedValue with
    | none => simp
    | some a =>
      cases right.wrappedValue with
      | none => simp
      | some b => simp [wrappedResult_eq_none_iff hop]

/-- There is no value exactly if somewhere in the expression a divisor is zero. -/
theorem wrappedValue_eq_none_iff (h : Arithmetic arithmeticOperators e) :
    e.wrappedValue = none ↔ ∃ x ∈ e.postorder, x.DividesByZero := by
  induction e using Expr.of_children with
  | h e ih =>
    rw [h.wrappedValue_eq_none_step, Expr.exists_mem_postorder]
    refine or_congr .rfl (exists_congr fun child => and_congr_right fun hchild => ?_)
    exact ih child hchild (h.of_mem_children child hchild)

end Arithmetic

/-! ### Evaluation -/

namespace Eval

variable {scope : ScopeId} {s t u w : Store} {x y v : Value}

theorem run_congr {p q : Eval Value} (h : p s = q t) : p.run s = q.run t := by
  rw [run, run, h]

theorem evaluates_unary {right : Expr} (hright : Evaluates scope right s x t) (hx : x.isError = false) {op : Token}
    (happly : (ofExcept (applyUnary op x)).run t = (some v, u)) (span : Span) :
    Evaluates scope (.unary span op right) s v u := by
  obtain ⟨depth, hdepth⟩ := (hright.eventually_ok hx).exists
  have hstep : step (expr depth) scope (.unary span op right) s = ofExcept (applyUnary op x) t := bind_of_ok hdepth
  exact ⟨depth + 1, (run_congr hstep).trans happly⟩

theorem evaluates_binary {left right : Expr} (hleft : Evaluates scope left s x t) (hx : x.isError = false)
    (hright : Evaluates scope right t y u) (hy : y.isError = false) {op : Token}
    (happly : (ofExcept (applyBinary op x y)).run u = (some v, w)) (span : Span) :
    Evaluates scope (.binary span op left right) s v w := by
  obtain ⟨depth, hdepth, hdepth'⟩ := ((hleft.eventually_ok hx).and (hright.eventually_ok hy)).exists
  have hstep : step (expr depth) scope (.binary span op left right) s = ofExcept (applyBinary op x y) u :=
    (bind_of_ok hdepth).trans (bind_of_ok hdepth')
  exact ⟨depth + 1, (run_congr hstep).trans happly⟩

/-- What an operator makes of two integers is told by the numbers that they stand for. -/
theorem applyToIntegers_eq {op : Token} (hop : op ∈ arithmeticOperators) (a b : Int64) :
    (∃ c : Int64, applyToIntegers op a b = .ok (.integer c) ∧ wrappedResult op a.toInt b.toInt = some c.toInt) ∨
      applyToIntegers op a b = .error .divisionByZero ∧ wrappedResult op a.toInt b.toInt = none := by
  simp only [arithmeticOperators, List.mem_cons, List.not_mem_nil, or_false] at hop
  rcases hop with rfl | rfl | rfl | rfl
  · exact .inl ⟨a + b, rfl, congrArg some (Int64.toInt_add a b).symm⟩
  · exact .inl ⟨a - b, rfl, congrArg some (Int64.toInt_sub a b).symm⟩
  · exact .inl ⟨a * b, rfl, congrArg some (Int64.toInt_mul a b).symm⟩
  · by_cases hb : b = 0
    · subst hb
      exact .inr ⟨rfl, rfl⟩
    · have hzero : b.toInt ≠ 0 := fun h => hb (Int64.toInt_inj.mp h)
      refine .inl ⟨a / b, if_neg hb, ?_⟩
      rw [wrappedResult, if_neg hzero, Int64.toInt_div]
      rfl

/-- Arithmetic evaluates to the integer that its wrapped value is, or else to the error; it leaves the store alone. -/
theorem evaluates_arithmetic {e : Expr} (h : Arithmetic arithmeticOperators e) :
    (∃ n : Int64, e.wrappedValue = some n.toInt ∧ ∀ scope s, Evaluates scope e s (.integer n) s) ∨
      e.wrappedValue = none ∧ ∀ scope s, Evaluates scope e s (.error "division by zero") s := by
  induction h with
  | int span n => exact .inl ⟨n, rfl, fun scope s => ⟨1, rfl⟩⟩
  | @negation span e _ ih =>
    obtain ⟨n, hvalue, hn⟩ | ⟨hvalue, herror⟩ := ih
    · refine .inl ⟨-n, ?_, fun scope s => evaluates_unary (hn scope s) rfl rfl span⟩
      rw [Expr.wrappedValue, hvalue, Int64.toInt_neg]
      rfl
    · have hreach (scope) (s : Store) : Frame.Reaches scope e s s (.inOperand span .minus) := rfl
      refine .inr ⟨?_, fun scope s => frame_raises (hreach scope s) (herror scope s)⟩
      rw [Expr.wrappedValue, hvalue, Option.map_none]
  | @operation span op hop left right _ _ ihleft ihright =>
    rw [Expr.wrappedValue]
    obtain ⟨a, hleft, ha⟩ | ⟨hleft, herror⟩ := ihleft
    · obtain ⟨b, hright, hb⟩ | ⟨hright, herror⟩ := ihright
      · rw [hleft, hright, Option.bind_some, Option.bind_some]
        obtain ⟨c, happly, hc⟩ | ⟨happly, hc⟩ := applyToIntegers_eq hop a b
        · refine .inl ⟨c, hc, fun scope s => evaluates_binary (ha scope s) rfl (hb scope s) rfl ?_ span⟩
          rw [applyBinary, happly]
          rfl
        · refine .inr ⟨hc, fun scope s => evaluates_binary (ha scope s) rfl (hb scope s) rfl ?_ span⟩
          rw [applyBinary, happly]
          rfl
      · have hreach (scope) (s : Store) : Frame.Reaches scope right s s (.inRight span op left) :=
          .cons (ha scope s) rfl (.nil s)
        refine .inr ⟨?_, fun scope s => frame_raises (hreach scope s) (herror scope s)⟩
        rw [hleft, hright]
        rfl
    · have hreach (scope) (s : Store) : Frame.Reaches scope left s s (.inLeft span op right) := rfl
      refine .inr ⟨?_, fun scope s => frame_raises (hreach scope s) (herror scope s)⟩
      rw [hleft, Option.bind_none]

theorem evaluates_integer_iff {e : Expr} (h : Arithmetic arithmeticOperators e) (n : Int64) (scope : ScopeId)
    (s : Store) : Evaluates scope e s (.integer n) s ↔ e.wrappedValue = some n.toInt := by
  obtain ⟨m, hvalue, hm⟩ | ⟨hvalue, herror⟩ := evaluates_arithmetic h
  · rw [hvalue, Option.some_inj, Int64.toInt_inj]
    constructor
    · intro hn
      exact Value.integer.inj ((hm scope s).unique hn).1
    · rintro rfl
      exact hm scope s
  · rw [hvalue]
    exact iff_of_false (fun hn => nomatch ((herror scope s).unique hn).1) (fun h => nomatch h)

theorem evaluates_error_iff {e : Expr} (h : Arithmetic arithmeticOperators e) (scope : ScopeId) (s : Store) :
    Evaluates scope e s (.error "division by zero") s ↔ e.wrappedValue = none := by
  obtain ⟨m, hvalue, hm⟩ | ⟨hvalue, herror⟩ := evaluates_arithmetic h
  · rw [hvalue]
    exact iff_of_false (fun herror => nomatch ((hm scope s).unique herror).1) (fun h => nomatch h)
  · exact iff_of_true (herror scope s) hvalue

/-- Arithmetic is modular. Without division, an expression evaluates to the integer of 64 bits that has the same remainder modulo `2 ^ 64` as the exact value. With division it evaluates to an integer too, the one that comes of rounding each quotient of wrapped operands toward zero and wrapping it around, or else to an error; to the error exactly if it has in it a division whose divisor, evaluated on its own, is the integer zero. The store is left alone. -/
theorem arithmetic_is_modular (e : Expr) :
    (Arithmetic ringOperators e → ∃ n : Int64, -2 ^ 63 ≤ n.toInt ∧ n.toInt < 2 ^ 63 ∧
      n.toInt ≡ e.exactValue [ZMOD 2 ^ 64] ∧ ∀ scope s, Evaluates scope e s (.integer n) s) ∧
    (Arithmetic arithmeticOperators e → ∀ scope s,
      ((∃ n : Int64, e.wrappedValue = some n.toInt ∧ Evaluates scope e s (.integer n) s) ∨
        Evaluates scope e s (.error "division by zero") s) ∧
      (Evaluates scope e s (.error "division by zero") s ↔
        ∃ span left right, .binary span .slash left right ∈ e.postorder ∧ Evaluates scope right s (.integer 0) s)) := by
  refine ⟨fun h => ?_, fun h scope s => ⟨?_, ?_⟩⟩
  · obtain ⟨value, hvalue, hmod⟩ := h.wrappedValue_modEq
    obtain ⟨n, hn, hevaluates⟩ | ⟨hnone, -⟩ := evaluates_arithmetic (h.mono ringOperators_subset)
    · obtain rfl := Option.some.inj (hvalue.symm.trans hn)
      exact ⟨n, n.le_toInt, n.toInt_lt, hmod, hevaluates⟩
    · exact nomatch hvalue.symm.trans hnone
  · obtain ⟨n, hn, hevaluates⟩ | ⟨-, herror⟩ := evaluates_arithmetic h
    · exact .inl ⟨n, hn, hevaluates scope s⟩
    · exact .inr (herror scope s)
  · rw [evaluates_error_iff h, h.wrappedValue_eq_none_iff]
    constructor
    · rintro ⟨_, hmem, span, left, right, rfl, hzero⟩
      have hright := (h.of_mem_postorder _ hmem).of_mem_children right (by simp [Expr.children])
      exact ⟨span, left, right, hmem, (evaluates_integer_iff hright 0 scope s).mpr hzero⟩
    · rintro ⟨span, left, right, hmem, hzero⟩
      have hright := (h.of_mem_postorder _ hmem).of_mem_children right (by simp [Expr.children])
      exact ⟨_, hmem, span, left, right, rfl, (evaluates_integer_iff hright 0 scope s).mp hzero⟩

/-- `-9223372036854775807 - 2` -/
def belowLeast : Expr :=
  .binary ⟨0, 24⟩ .minus (.unary ⟨0, 20⟩ .minus (.int ⟨1, 20⟩ Int64.maxValue)) (.int ⟨23, 24⟩ 2)

/-- `2 / (3 - 3)` -/
def byZero : Expr :=
  .binary ⟨4, 15⟩ .slash (.int ⟨4, 5⟩ 2) (.binary ⟨9, 14⟩ .minus (.int ⟨9, 10⟩ 3) (.int ⟨13, 14⟩ 3))

/-- Below the least integer the numbers start again at the greatest. A divisor of zero is an error wherever it is: `1 + 2 / (3 - 3)`. -/
theorem arithmetic_is_modular_at_its_limits :
    (∃ n : Int64, -2 ^ 63 ≤ n.toInt ∧ n.toInt < 2 ^ 63 ∧ n.toInt ≡ -2 ^ 63 - 1 [ZMOD 2 ^ 64] ∧
      ∀ scope s, Evaluates scope belowLeast s (.integer n) s) ∧
    Evaluates 0 (.binary ⟨0, 15⟩ .plus (.int ⟨0, 1⟩ 1) byZero) .empty (.error "division by zero") .empty := by
  have hexact : belowLeast.exactValue = -2 ^ 63 - 1 := by decide
  have hbyZero : Arithmetic arithmeticOperators byZero :=
    .operation _ (by decide) (.int ..) (.operation _ (by decide) (.int ..) (.int ..))
  constructor
  · rw [← hexact]
    exact (arithmetic_is_modular belowLeast).1 (.operation _ (by decide) (.negation _ (.int ..)) (.int ..))
  · refine (((arithmetic_is_modular _).2 (.operation _ (by decide) (.int ..) hbyZero) 0 .empty).2).mpr ?_
    have hmem : byZero ∈ (Expr.binary ⟨0, 15⟩ .plus (.int ⟨0, 1⟩ 1) byZero).postorder :=
      Expr.mem_postorder.mpr (.inr ⟨byZero, by simp [Expr.children], Expr.mem_postorder.mpr (.inl rfl)⟩)
    exact ⟨_, _, _, hmem, 2, rfl⟩

example : (Expr.binary ⟨0, 25⟩ .slash (.int ⟨0, 20⟩ Int64.minValue) (.unary ⟨23, 25⟩ .minus
    (.int ⟨24, 25⟩ 1))).wrappedValue = some Int64.minValue.toInt := by decide

end Eval

end Simian
