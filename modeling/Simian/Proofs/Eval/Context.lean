import Simian.Proofs.Eval.Depth

/-!
# The first error wins

Evaluation goes from left to right and stops at the first error. A frame is one position whose expression is evaluated on the way to the value of the whole, and a context is any nesting of frames. Once everything that a context evaluates before its hole has come to ordinary values, an error of the expression in the hole is the error of the whole, and the store is left as that expression left it: no later operand, argument, call, binding or statement takes effect.
-/

namespace Simian

open Filter

/-! ### Contexts -/

/-- What a statement does with the value of an expression. -/
inductive Slot where
  | bind (span : Span) (binder : Binder)
  | ret (span : Span)
  | expr (span : Span)

def Slot.plug : Slot → Expr → Stmt
  | bind span binder, e => .bind span binder e
  | ret span, e => .ret span e
  | expr span, e => .expr span e

/-- A statement among others, with a hole for its expression. -/
structure Place where
  before : List Stmt
  slot : Slot
  after : List Stmt

def Place.plug (place : Place) (e : Expr) : List Stmt :=
  place.before ++ place.slot.plug e :: place.after

/-- A position in an expression that is evaluated before the expression has its value. -/
inductive Frame where
  | inOperand (span : Span) (op : Token)
  | inLeft (span : Span) (op : Token) (right : Expr)
  | inRight (span : Span) (op : Token) (left : Expr)
  | inIndexed (span : Span) (index : Expr)
  | inIndex (span : Span) (left : Expr)
  | inCallee (span : Span) (args : List Expr)
  | inArgument (span : Span) (callee : Expr) (before after : List Expr)
  | inElement (span : Span) (before after : List Expr)
  | inKey (span : Span) (before : List (Expr × Expr)) (value : Expr) (after : List (Expr × Expr))
  | inValue (span : Span) (before : List (Expr × Expr)) (key : Expr) (after : List (Expr × Expr))
  | inCondition (span : Span) (consequence : Block) (alternative : Option Block)
  | inConsequence (span : Span) (condition : Expr) (inner : Span) (place : Place) (alternative : Option Block)
  | inAlternative (span : Span) (condition : Expr) (consequence : Block) (inner : Span) (place : Place)

def Frame.plug : Frame → Expr → Expr
  | inOperand span op, e => .unary span op e
  | inLeft span op right, e => .binary span op e right
  | inRight span op left, e => .binary span op left e
  | inIndexed span index, e => .index span e index
  | inIndex span left, e => .index span left e
  | inCallee span args, e => .call span e args
  | inArgument span callee before after, e => .call span callee (before ++ e :: after)
  | inElement span before after, e => .array span (before ++ e :: after)
  | inKey span before value after, e => .hash span (before ++ (e, value) :: after)
  | inValue span before key after, e => .hash span (before ++ (key, e) :: after)
  | inCondition span consequence alternative, e => .cond span e consequence alternative
  | inConsequence span condition inner place alternative, e =>
    .cond span condition (.mk inner (place.plug e)) alternative
  | inAlternative span condition consequence inner place, e =>
    .cond span condition consequence (some (.mk inner (place.plug e)))

/-- Frames around a hole, the outermost first. -/
abbrev Context := List Frame

def Context.plug (frames : Context) (e : Expr) : Expr :=
  frames.foldr Frame.plug e

/-! ### What is evaluated before the hole -/

section Reaches

variable (scope : ScopeId)

/-- The expressions evaluate in turn, and none of them to an error. -/
inductive Passes : List Expr → Store → Store → Prop
  | nil (s : Store) : Passes [] s s
  | cons {e : Expr} {es : List Expr} {s t u : Store} {x : Value} (he : Eval.Evaluates scope e s x t)
      (hx : x.isError = false) (hes : Passes es t u) : Passes (e :: es) s u

/-- The pairs evaluate in turn, every key to a value that can be a key, and no value to an error. -/
inductive PassesPairs : List (Expr × Expr) → Store → Store → Prop
  | nil (s : Store) : PassesPairs [] s s
  | cons {key value : Expr} {ps : List (Expr × Expr)} {s t u v : Store} {x y : Value}
      (hkey : Eval.Evaluates scope key s x t) (hx : x.hashKey?.isSome) (hvalue : Eval.Evaluates scope value t y u)
      (hy : y.isError = false) (hps : PassesPairs ps u v) : PassesPairs ((key, value) :: ps) s v

/-- The statements evaluate in turn, and none of them to an error or to a returned value. -/
inductive PassesStatements : List Stmt → Store → Store → Prop
  | nil (s : Store) : PassesStatements [] s s
  | cons {st : Stmt} {ss : List Stmt} {s t u : Store} {x : Value} (hst : Eval.Executes scope st s x t)
      (hx : x.isError = false) (hreturned : x.kind ≠ .returned) (hss : PassesStatements ss t u) :
      PassesStatements (st :: ss) s u

/-- What the frame evaluates before its hole comes to ordinary values and takes the store `s` to `t`. A call of the name `quote` evaluates nothing, and of two branches only the one that is taken is evaluated. -/
def Frame.Reaches (hole : Expr) (s t : Store) : Frame → Prop
  | inOperand .. | inLeft .. | inIndexed .. | inCondition .. => s = t
  | inRight _ _ left | inIndex _ left => Passes scope [left] s t
  | inCallee .. => hole.name? ≠ some "quote" ∧ s = t
  | inArgument _ callee before _ => callee.name? ≠ some "quote" ∧ Passes scope (callee :: before) s t
  | inElement _ before _ => Passes scope before s t
  | inKey _ before _ _ => PassesPairs scope before s t
  | inValue _ before key _ =>
    ∃ s₁ x, PassesPairs scope before s s₁ ∧ Eval.Evaluates scope key s₁ x t ∧ x.hashKey?.isSome
  | inConsequence _ condition _ place _ =>
    ∃ s₁ x, Eval.Evaluates scope condition s x s₁ ∧ x.isError = false ∧ x.isTruthy = true ∧
      PassesStatements scope place.before s₁ t
  | inAlternative _ condition _ _ place =>
    ∃ s₁ x, Eval.Evaluates scope condition s x s₁ ∧ x.isError = false ∧ x.isTruthy = false ∧
      PassesStatements scope place.before s₁ t

/-- What the context evaluates before its hole comes to ordinary values and takes the store `s` to `t`. -/
def Context.Reaches (hole : Expr) : Context → Store → Store → Prop
  | [], s, t => s = t
  | frame :: rest, s, u => ∃ t, frame.Reaches scope (Context.plug rest hole) s t ∧ Reaches hole rest t u

end Reaches

namespace Eval

variable {scope : ScopeId} {hole : Expr} {s t u : Store} {x : Value} {message : String}

theorem bind_of_ok {ε σ α β : Type} {p : EStateM ε σ α} {k : α → EStateM ε σ β} {a : α} {s t : σ} (h : p s = .ok a t) :
    (p >>= k) s = k a t := by
  change EStateM.bind p k s = _
  rw [EStateM.bind, h]

theorem bind_of_error {ε σ α β : Type} {p : EStateM ε σ α} {k : α → EStateM ε σ β} {e : ε} {s t : σ}
    (h : p s = .error e t) : (p >>= k) s = .error e t := by
  change EStateM.bind p k s = _
  rw [EStateM.bind, h]

theorem Evaluates.eventually_ok (h : Evaluates scope hole s x t) (hx : x.isError = false) :
    ∀ᶠ depth in atTop, expr depth scope hole s = .ok x t := by
  filter_upwards [Gives.eventually (deepens_expr scope hole) h] with depth hdepth
  exact ok_of_run hdepth hx

theorem Evaluates.eventually_raised (h : Evaluates scope hole s (.error message) t) :
    ∀ᶠ depth in atTop, expr depth scope hole s = .error (.raised message) t := by
  filter_upwards [Gives.eventually (deepens_expr scope hole) h] with depth hdepth
  exact (settled_expr depth scope hole).raised hdepth

theorem isError_of_hashKey? (h : x.hashKey?.isSome) : x.isError = false := by
  cases x with
  | error => exact nomatch h
  | _ => rfl

/-! ### Lists, pairs and statements -/

theorem list_raises {before : List Expr} (hbefore : Passes scope before s t)
    (hhole : ∀ᶠ depth in atTop, expr depth scope hole t = .error (.raised message) u) (after : List Expr) :
    ∀ᶠ depth in atTop, list (expr depth) scope (before ++ hole :: after) s = .error (.raised message) u := by
  induction hbefore with
  | nil t =>
    filter_upwards [hhole] with depth hdepth
    exact bind_of_error hdepth
  | cons he hx _ ih =>
    filter_upwards [he.eventually_ok hx, ih hhole] with depth hdepth hrest
    exact (bind_of_ok hdepth).trans (bind_of_error hrest)

theorem pairs_raise {before : List (Expr × Expr)} (hbefore : PassesPairs scope before s t)
    {after : List (Expr × Expr)} (hafter : ∀ᶠ depth in atTop, ∀ entries,
      pairs (expr depth) scope entries after t = .error (.raised message) u) :
    ∀ᶠ depth in atTop, ∀ entries,
      pairs (expr depth) scope entries (before ++ after) s = .error (.raised message) u := by
  induction hbefore with
  | nil t => exact hafter
  | cons hkey hx hvalue hy _ ih =>
    filter_upwards [hkey.eventually_ok (isError_of_hashKey? hx), hvalue.eventually_ok hy, ih hafter] with
      depth hkey hvalue hrest entries
    obtain ⟨hashKey, hhashKey⟩ := Option.isSome_iff_exists.mp hx
    refine (bind_of_ok hkey).trans ?_
    simp only [hhashKey]
    exact (bind_of_ok hvalue).trans (hrest _)

theorem Executes.eventually_ok {st : Stmt} (h : Executes scope st s x t) (hx : x.isError = false) :
    ∀ᶠ depth in atTop, statement (expr depth) scope st s = .ok x t := by
  filter_upwards [Gives.eventually (deepens_statement scope st) h] with depth hdepth
  exact ok_of_run hdepth hx

theorem slot_raises (slot : Slot) {depth : Nat} (h : expr depth scope hole s = .error (.raised message) t) :
    statement (expr depth) scope (slot.plug hole) s = .error (.raised message) t := by
  cases slot with
  | bind => exact bind_of_error h
  | ret => exact bind_of_error h
  | expr => exact h

theorem statements_raise {place : Place} (hbefore : PassesStatements scope place.before s t)
    (hhole : ∀ᶠ depth in atTop, expr depth scope hole t = .error (.raised message) u) :
    ∀ᶠ depth in atTop, ∀ last,
      statements (expr depth) scope last (place.plug hole) s = .error (.raised message) u := by
  obtain ⟨before, slot, after⟩ := place
  simp only [Place.plug] at hbefore ⊢
  induction hbefore with
  | nil t =>
    filter_upwards [hhole] with depth hdepth last
    exact bind_of_error (slot_raises slot hdepth)
  | cons hst hx hreturned _ ih =>
    filter_upwards [hst.eventually_ok hx, ih hhole] with depth hdepth hrest last
    refine (bind_of_ok hdepth).trans ?_
    split
    · exact absurd rfl hreturned
    · exact hrest _

/-! ### Frames -/

theorem evaluates_of_step {e : Expr}
    (h : ∀ᶠ depth in atTop, step (expr depth) scope e s = .error (.raised message) t) :
    Evaluates scope e s (.error message) t := by
  obtain ⟨depth, hdepth⟩ := h.exists
  exact ⟨depth + 1, run_of_raised hdepth⟩

/-- One frame passes the error in its hole on. -/
theorem frame_raises {frame : Frame} (hreach : frame.Reaches scope hole s t)
    (hhole : Evaluates scope hole t (.error message) u) :
    Evaluates scope (frame.plug hole) s (.error message) u := by
  have hraised := hhole.eventually_raised
  apply evaluates_of_step
  cases frame with
  | inOperand | inLeft | inIndexed | inCondition =>
    obtain rfl : s = t := hreach
    filter_upwards [hraised] with depth hdepth
    exact bind_of_error hdepth
  | inRight | inIndex =>
    cases hreach with
    | cons hleft hx hnil =>
      cases hnil
      filter_upwards [hleft.eventually_ok hx, hraised] with depth hdepth hdepth'
      exact (bind_of_ok hdepth).trans (bind_of_error hdepth')
  | inCallee =>
    obtain ⟨hname, rfl⟩ := hreach
    filter_upwards [hraised] with depth hdepth
    exact (congrFun (step_call _ _ _ _ hname) s).trans (bind_of_error hdepth)
  | inArgument span callee before after =>
    obtain ⟨hname, hpasses⟩ := hreach
    cases hpasses with
    | cons hcallee hx hbefore =>
      filter_upwards [hcallee.eventually_ok hx, list_raises hbefore hraised after] with depth hdepth hlist
      exact (congrFun (step_call _ _ _ _ hname) s).trans ((bind_of_ok hdepth).trans (bind_of_error hlist))
  | inElement span before after =>
    filter_upwards [list_raises hreach hraised after] with depth hlist
    exact bind_of_error hlist
  | inKey span before value after =>
    have hafter : ∀ᶠ depth in atTop, ∀ entries,
        pairs (expr depth) scope entries ((hole, value) :: after) t = .error (.raised message) u := by
      filter_upwards [hraised] with depth hdepth entries
      exact bind_of_error hdepth
    filter_upwards [pairs_raise hreach hafter] with depth hpairs
    exact bind_of_error (hpairs [])
  | inValue span before key after =>
    obtain ⟨s₁, x, hbefore, hkey, hx⟩ := hreach
    obtain ⟨hashKey, hhashKey⟩ := Option.isSome_iff_exists.mp hx
    have hafter : ∀ᶠ depth in atTop, ∀ entries,
        pairs (expr depth) scope entries ((key, hole) :: after) s₁ = .error (.raised message) u := by
      filter_upwards [hkey.eventually_ok (isError_of_hashKey? hx), hraised] with depth hdepth hdepth' entries
      refine (bind_of_ok hdepth).trans ?_
      simp only [hhashKey]
      exact bind_of_error hdepth'
    filter_upwards [pairs_raise hbefore hafter] with depth hpairs
    exact bind_of_error (hpairs [])
  | inConsequence span condition inner place alternative =>
    obtain ⟨s₁, x, hcondition, hx, htruthy, hbefore⟩ := hreach
    filter_upwards [hcondition.eventually_ok hx, statements_raise hbefore hraised] with depth hdepth hplace
    refine (bind_of_ok hdepth).trans ?_
    simp only [htruthy]
    exact hplace .null
  | inAlternative span condition consequence inner place =>
    obtain ⟨s₁, x, hcondition, hx, htruthy, hbefore⟩ := hreach
    filter_upwards [hcondition.eventually_ok hx, statements_raise hbefore hraised] with depth hdepth hplace
    refine (bind_of_ok hdepth).trans ?_
    simp only [htruthy]
    exact hplace .null

/-- So do any number of frames, from the innermost outwards. -/
theorem context_raises {context : Context} (hreach : context.Reaches scope hole s t)
    (hhole : Evaluates scope hole t (.error message) u) :
    Evaluates scope (context.plug hole) s (.error message) u := by
  induction context generalizing s with
  | nil =>
    obtain rfl : s = t := hreach
    exact hhole
  | cons frame rest ih =>
    obtain ⟨s₁, hframe, hrest⟩ := hreach
    exact frame_raises hframe (ih hrest)

/-- If everything that a context evaluates before its hole comes to ordinary values, and the expression in the hole then evaluates to an error, then the whole evaluates to that very error and leaves the store as the expression did, whether the whole is an expression or a program with the expression in one of its statements. -/
theorem first_error_wins (context : Context) (hreach : context.Reaches scope hole s t)
    (hhole : Evaluates scope hole t (.error message) u) :
    Evaluates scope (context.plug hole) s (.error message) u ∧
      ∀ (span : Span) (place : Place) (r : Store), PassesStatements scope place.before r s →
        Gives (fun depth => program depth scope ⟨span, place.plug (context.plug hole)⟩) r (.error message) u := by
  have hwhole := context_raises hreach hhole
  refine ⟨hwhole, fun span place r hbefore => ?_⟩
  obtain ⟨depth, hdepth⟩ := (statements_raise hbefore hwhole.eventually_raised).exists
  exact ⟨depth, run_of_raised (bind_of_error (hdepth .null))⟩

/-- Of `let a = 5; let b = [7, 1 / 0, a]; let a = 6;` only the first statement takes effect. -/
theorem first_error_wins_in_array :
    Gives (fun depth => program depth 0 ⟨⟨0, 43⟩,
      [.bind ⟨0, 10⟩ ⟨"a", ⟨4, 5⟩⟩ (.int ⟨8, 9⟩ 5),
        .bind ⟨11, 32⟩ ⟨"b", ⟨15, 16⟩⟩ (.array ⟨19, 31⟩ [.int ⟨20, 21⟩ 7,
          .binary ⟨23, 28⟩ .slash (.int ⟨23, 24⟩ 1) (.int ⟨27, 28⟩ 0), .ident ⟨30, 31⟩ "a"]),
        .bind ⟨33, 43⟩ ⟨"a", ⟨37, 38⟩⟩ (.int ⟨41, 42⟩ 6)]⟩)
      ⟨#[⟨[], none⟩], 0, ""⟩ (.error "division by zero") ⟨#[⟨[("a", .integer 5)], none⟩], 0, ""⟩ :=
  (first_error_wins [.inElement ⟨19, 31⟩ [.int ⟨20, 21⟩ 7] [.ident ⟨30, 31⟩ "a"]]
    ⟨_, .cons ⟨1, rfl⟩ rfl (.nil _), rfl⟩ ⟨2, rfl⟩).2 ⟨0, 43⟩
    ⟨[.bind ⟨0, 10⟩ ⟨"a", ⟨4, 5⟩⟩ (.int ⟨8, 9⟩ 5)], .bind ⟨11, 32⟩ ⟨"b", ⟨15, 16⟩⟩,
      [.bind ⟨33, 43⟩ ⟨"a", ⟨37, 38⟩⟩ (.int ⟨41, 42⟩ 6)]⟩
    _ (.cons ⟨1, rfl⟩ rfl (by decide) (.nil _))

end Eval

end Simian
