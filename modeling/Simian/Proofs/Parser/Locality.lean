import Simian.Parser

/-!
# What a parser looks at

A parser reads from left to right and looks at one token at a time, the current one. How it ends therefore depends on the tokens it has consumed and on the one it stands before, and on nothing behind that: with the same tokens up to there it ends in the same way, whatever follows. The end token is never consumed. A token that is rejected is the current one, with one exception: an integer out of range is consumed first, and then not even the token behind it has been looked at.

A larger bound changes nothing either, unless the smaller one was used up. Both facts are carried through the forms together: `Repeats p q` says that `q`, which may have larger bounds than `p`, ends as `p` does.
-/

namespace Simian

open Token

/-- The token that shows the fault. -/
def ParseFault.token : ParseFault → Token
  | unexpectedToken _ got => got
  | noExpression token => token
  | invalidInteger literal => .int literal

/-- Whether the token that shows the fault has been consumed. An integer is, before it turns out not to fit. -/
def ParseFault.isConsumed : ParseFault → Bool
  | invalidInteger _ => true
  | _ => false

/-- The error is at the lexeme. -/
structure ParseError.At (e : ParseError) (l : Lexeme) : Prop where
  token : e.fault.token = l.token
  span : e.span = l.span

namespace Tokens

/-- The tokens behind some others. -/
def prepend (ts : Tokens) (before : List Lexeme) : Tokens := ⟨before ++ ts.rest, ts.fin⟩

theorem prepend_append (ts : Tokens) (before before' : List Lexeme) :
    ts.prepend (before ++ before') = (ts.prepend before').prepend before :=
  congrArg (Tokens.mk · ts.fin) (List.append_assoc ..)

theorem prepend_cancel {ts : Tokens} {before before' : List Lexeme} (h : ts.prepend before = ts.prepend before') :
    before = before' :=
  List.append_cancel_right (congrArg Tokens.rest h)

@[simp] theorem current_prepend_cons (ts : Tokens) (l : Lexeme) (before : List Lexeme) :
    (ts.prepend (l :: before)).current = l := rfl

theorem current_prepend {ts ts' : Tokens} (h : ts'.current = ts.current) (before : List Lexeme) :
    (ts'.prepend before).current = (ts.prepend before).current := by
  cases before with
  | nil => exact h
  | cons l before => rfl

theorem current_prepend_concat (ts ts' : Tokens) (before : List Lexeme) (l : Lexeme) :
    (ts'.prepend (before ++ [l])).current = (ts.prepend (before ++ [l])).current := by
  cases before <;> rfl

theorem exists_prepend_of_ne_eof {ts : Tokens} (h : ts.current.token ≠ eof) :
    ts = ts.advance.prepend [ts.current] := by
  obtain ⟨rest, fin⟩ := ts
  cases rest with
  | nil => exact absurd rfl h
  | cons l rest => rfl

end Tokens

namespace Parser

section Basic

variable {α β : Type} {ts : Tokens}

/-- How a run on `ts` ended, and that `q` ends in the same way before all tokens that look the same. -/
inductive Repeated (q : Parser α) (ts : Tokens) : EStateM.Result Halt Tokens α → Prop
  | returned (used : List Lexeme) {a : α} {after : Tokens} (hts : ts = after.prepend used)
      (hused : ∀ l ∈ used, l.token ≠ eof)
      (h : ∀ after' : Tokens, after'.current = after.current → q (after'.prepend used) = .ok a after') :
      Repeated q ts (.ok a after)
  /-- The current token is rejected. -/
  | rejected (used : List Lexeme) {e : ParseError} {after : Tokens} (hts : ts = after.prepend used)
      (hused : ∀ l ∈ used, l.token ≠ eof) (hfault : e.fault.isConsumed = false) (hat : e.At after.current)
      (h : ∀ after' : Tokens, after'.current = after.current →
        q (after'.prepend used) = .error (.rejected e) after') :
      Repeated q ts (.error (.rejected e) after)
  /-- The token consumed last is rejected. -/
  | refused (used : List Lexeme) (l : Lexeme) {e : ParseError} {after : Tokens}
      (hts : ts = after.prepend (used ++ [l])) (hused : ∀ l' ∈ used ++ [l], l'.token ≠ eof)
      (hfault : e.fault.isConsumed = true) (hat : e.At l)
      (h : ∀ after' : Tokens, q (after'.prepend (used ++ [l])) = .error (.rejected e) after') :
      Repeated q ts (.error (.rejected e) after)
  | starved {after : Tokens} : Repeated q ts (.error .starved after)

/-- Unless its bound is used up, `q` ends as `p` does before all tokens that look the same. -/
def Repeats (p q : Parser α) : Prop :=
  ∀ ts, Repeated q ts (p ts)

theorem Repeats.pure (a : α) : Repeats (Pure.pure a) (Pure.pure a) :=
  fun _ => .returned [] rfl (fun _ hl => nomatch hl) fun _ _ => rfl

/-- What comes behind `used` looks the same to the next parser, too. -/
theorem Repeated.prepend {q : Parser α} {k : α → Parser β} {used : List Lexeme} {a : α} {mid : Tokens}
    {result : EStateM.Result Halt Tokens β} (hts : ts = mid.prepend used) (hused : ∀ l ∈ used, l.token ≠ eof)
    (hq : ∀ mid' : Tokens, mid'.current = mid.current → q (mid'.prepend used) = .ok a mid')
    (h : Repeated (k a) mid result) : Repeated (q >>= k) ts result := by
  cases h with
  | returned used' hmid hused' hk =>
    subst hmid
    refine .returned (used ++ used') (by rw [hts, Tokens.prepend_append])
      (List.forall_mem_append.mpr ⟨hused, hused'⟩) fun after' hafter' => ?_
    rw [Tokens.prepend_append, bind_ok (hq _ (Tokens.current_prepend hafter' used'))]
    exact hk after' hafter'
  | rejected used' hmid hused' hfault hat hk =>
    subst hmid
    refine .rejected (used ++ used') (by rw [hts, Tokens.prepend_append])
      (List.forall_mem_append.mpr ⟨hused, hused'⟩) hfault hat fun after' hafter' => ?_
    rw [Tokens.prepend_append, bind_ok (hq _ (Tokens.current_prepend hafter' used'))]
    exact hk after' hafter'
  | @refused used' l e after hmid hused' hfault hat hk =>
    subst hmid
    refine .refused (used ++ used') l (by rw [hts, List.append_assoc, after.prepend_append used])
      (by rw [List.append_assoc]; exact List.forall_mem_append.mpr ⟨hused, hused'⟩) hfault hat fun after' => ?_
    rw [List.append_assoc, Tokens.prepend_append,
      bind_ok (hq _ (Tokens.current_prepend_concat after after' used' l))]
    exact hk after'
  | starved => exact .starved

theorem Repeated.bind {p q : Parser α} {k k' : α → Parser β} (h : Repeated q ts (p ts))
    (hk : ∀ a, Repeats (k a) (k' a)) : Repeated (q >>= k') ts ((p >>= k) ts) := by
  cases hp : p ts with
  | ok a mid =>
    rw [hp] at h
    rw [bind_ok hp]
    cases h with
    | returned used hts hused hq => exact .prepend hts hused hq (hk a mid)
  | error halt after =>
    rw [hp] at h
    rw [bind_error hp]
    cases h with
    | rejected used hts hused hfault hat hq =>
      exact .rejected used hts hused hfault hat fun after' hafter' => bind_error (hq after' hafter')
    | refused used l hts hused hfault hat hq => exact .refused used l hts hused hfault hat fun after' => bind_error (hq after')
    | starved => exact .starved

theorem Repeats.bind {p q : Parser α} {k k' : α → Parser β} (h : Repeats p q) (hk : ∀ a, Repeats (k a) (k' a)) :
    Repeats (p >>= k) (q >>= k') :=
  fun ts => (h ts).bind hk

theorem Repeats.ite {c : Prop} [Decidable c] {p p' q q' : Parser α} (h : Repeats p q) (h' : Repeats p' q') :
    Repeats (if c then p else p') (if c then q else q') := by
  split
  · exact h
  · exact h'

theorem repeats_starve {q : Parser α} : Repeats starve q :=
  fun _ => .starved

/-- Looking at the current token, which is then known to what comes after. -/
theorem repeats_peek {k k' : Lexeme → Parser β} (hk : ∀ ts : Tokens, Repeated (k' ts.current) ts (k ts.current ts)) :
    Repeats (peek >>= k) (peek >>= k') := by
  intro ts
  have hresult : (peek >>= k) ts = k ts.current ts := rfl
  rw [hresult]
  have h := hk ts
  generalize k ts.current ts = result at h
  cases h with
  | @returned used a after hts hused h =>
    refine .returned used hts hused fun after' hafter' => ?_
    have hcurrent : (after'.prepend used).current = ts.current := hts ▸ Tokens.current_prepend hafter' used
    change k' (after'.prepend used).current (after'.prepend used) = .ok a after'
    rw [hcurrent, h after' hafter']
  | @rejected used e after hts hused hfault hat h =>
    refine .rejected used hts hused hfault hat fun after' hafter' => ?_
    have hcurrent : (after'.prepend used).current = ts.current := hts ▸ Tokens.current_prepend hafter' used
    change k' (after'.prepend used).current (after'.prepend used) = .error (.rejected e) after'
    rw [hcurrent, h after' hafter']
  | @refused used l e after hts hused hfault hat h =>
    refine .refused used l hts hused hfault hat fun after' => ?_
    have hcurrent : (after'.prepend (used ++ [l])).current = ts.current :=
      hts ▸ Tokens.current_prepend_concat after after' used l
    change k' (after'.prepend (used ++ [l])).current (after'.prepend (used ++ [l])) = .error (.rejected e) after'
    rw [hcurrent, h after']
  | starved => exact .starved

theorem repeats_look {k k' : Lexeme → Parser β} (hk : ∀ here, Repeats (k here) (k' here)) :
    Repeats (peek >>= k) (peek >>= k') :=
  repeats_peek fun ts => hk ts.current ts

theorem repeated_reject {fault : ParseFault} (hfault : fault.isConsumed = false) (h : fault.token = ts.current.token) :
    Repeated (reject fault ts.current.span : Parser α) ts (reject fault ts.current.span ts) :=
  .rejected [] rfl (fun _ hl => nomatch hl) hfault ⟨h, rfl⟩ fun _ _ => rfl

theorem repeated_advance (h : ts.current.token ≠ eof) : Repeated advance ts (advance ts) :=
  .returned [ts.current] (Tokens.exists_prepend_of_ne_eof h)
    (fun _ hl => by rwa [List.mem_singleton.mp hl]) fun _ _ => rfl

/-- Consuming the current token if it is the one looked for. -/
theorem repeats_optional (token : Token) (htoken : token ≠ eof) {k k' : Lexeme → Lexeme → Parser β}
    {p p' : Lexeme → Parser β} (hk : ∀ here l, Repeats (k here l) (k' here l))
    (hp : ∀ ts : Tokens, Repeated (p' ts.current) ts (p ts.current ts)) :
    Repeats (peek >>= fun here => if here.token = token then advance >>= k here else p here)
      (peek >>= fun here => if here.token = token then advance >>= k' here else p' here) := by
  apply repeats_peek
  intro ts
  by_cases hhere : ts.current.token = token
  · rw [if_pos hhere, if_pos hhere]
    exact (repeated_advance fun heof => htoken (hhere.symm.trans heof)).bind fun l => hk ts.current l
  · rw [if_neg hhere, if_neg hhere]
    exact hp ts

theorem repeats_expect (token : Token) (htoken : token ≠ eof) : Repeats (expect token) (expect token) :=
  repeats_optional token htoken (fun _ _ => .pure _) fun _ => repeated_reject rfl rfl

theorem repeats_binder : Repeats binder binder := by
  apply repeats_peek
  intro ts
  cases htoken : ts.current.token with
  | ident name => exact (repeated_advance (by simp [htoken])).bind fun _ => .pure _
  | _ => exact repeated_reject rfl htoken.symm

/-- A form that is one token. -/
theorem repeated_leaf {p : Parser α} {a : α} (hts : ts.current.token ≠ eof)
    (h : ∀ after : Tokens, p (after.prepend [ts.current]) = .ok a after) : Repeated p ts (p ts) := by
  have hsplit := Tokens.exists_prepend_of_ne_eof hts
  have hresult : p ts = .ok a ts.advance := by
    rw [hsplit]
    exact h ts.advance
  rw [hresult]
  exact .returned [ts.current] hsplit (fun _ hl => by rwa [List.mem_singleton.mp hl]) fun after' _ => h after'

end Basic

/-! ### Leaves -/

theorem repeats_identifier : Repeats identifier identifier :=
  repeats_binder.bind fun _ => .pure _

section Leaves

variable {ts : Tokens}

theorem repeated_integer {digits : String} (h : ts.current.token = int digits) : Repeated integer ts (integer ts) := by
  have hts : ts.current.token ≠ eof := by simp [h]
  cases hvalue : Text.readInteger? digits.toList with
  | some value =>
    refine repeated_leaf (a := .int ts.current.span value) hts fun after => (bind_ok rfl).trans ?_
    simp only [Tokens.current_prepend_cons, h, hvalue]
    rfl
  | none =>
    have hrefused (after : Tokens) : integer (after.prepend [ts.current]) =
        .error (.rejected ⟨.invalidInteger digits, ts.current.span⟩) after := by
      refine (bind_ok rfl).trans ?_
      simp only [Tokens.current_prepend_cons, h, hvalue]
      rfl
    have hsplit := Tokens.exists_prepend_of_ne_eof hts
    have hresult : integer ts = .error (.rejected ⟨.invalidInteger digits, ts.current.span⟩) ts.advance := by
      rw [hsplit]
      exact hrefused ts.advance
    rw [hresult]
    exact .refused [] ts.current hsplit (fun _ hl => by rwa [List.mem_singleton.mp hl]) rfl ⟨h.symm, rfl⟩ hrefused

theorem repeated_string {text : String} (h : ts.current.token = str text) : Repeated string ts (string ts) := by
  refine repeated_leaf (a := .str ts.current.span text) (by simp [h]) fun after => (bind_ok rfl).trans ?_
  simp only [Tokens.current_prepend_cons, h]
  rfl

theorem repeated_boolean (value : Bool) (h : ts.current.token = if value then kwTrue else kwFalse) :
    Repeated boolean ts (boolean ts) := by
  cases value with
  | true =>
    refine repeated_leaf (a := .bool ts.current.span true) (by simp [h]) fun after => (bind_ok rfl).trans ?_
    simp only [Tokens.current_prepend_cons, h]
    rfl
  | false =>
    refine repeated_leaf (a := .bool ts.current.span false) (by simp [h]) fun after => (bind_ok rfl).trans ?_
    simp only [Tokens.current_prepend_cons, h]
    rfl

end Leaves

section Bounds

variable {bound bound' : Nat} (hbound : bound ≤ bound')

include hbound

theorem repeats_paramsTail : Repeats (paramsTail bound) (paramsTail bound') := by
  induction bound generalizing bound' with
  | zero => exact repeats_starve
  | succ bound ih =>
    obtain ⟨bound', rfl⟩ := Nat.exists_eq_add_one_of_ne_zero (Nat.ne_zero_of_lt hbound)
    refine repeats_optional comma nofun (fun _ _ => ?_) (Repeats.pure [])
    apply repeats_binder.bind
    intro param
    exact (ih (Nat.le_of_succ_le_succ hbound)).bind fun _ => .pure _

theorem repeats_params : Repeats (params bound) (params bound') := by
  apply (repeats_expect lparen nofun).bind
  intro _
  refine repeats_optional rparen nofun (fun _ _ => .pure _) fun ts => ?_
  refine (repeats_binder ts).bind fun param => ?_
  apply (repeats_paramsTail hbound).bind
  intro more
  exact (repeats_expect rparen nofun).bind fun _ => .pure _

end Bounds

/-! ### Statements and blocks -/

theorem repeats_closing (stop : Nat) : Repeats (closing stop) (closing stop) :=
  repeats_optional semicolon nofun (fun _ _ => .pure _) (Repeats.pure stop)

section Forms

variable {bound bound' : Nat} {expr expr' : Precedence → Parser Expr}
  (hexpr : ∀ floor, Repeats (expr floor) (expr' floor)) (hbound : bound ≤ bound')

section Statements

include hexpr

theorem repeats_letStatement : Repeats (letStatement expr) (letStatement expr') := by
  apply (repeats_expect kwLet nofun).bind
  intro start
  apply repeats_binder.bind
  intro binder
  apply (repeats_expect assign nofun).bind
  intro _
  apply (hexpr _).bind
  intro value
  exact (repeats_closing _).bind fun _ => .pure _

theorem repeats_returnStatement : Repeats (returnStatement expr) (returnStatement expr') := by
  apply (repeats_expect kwReturn nofun).bind
  intro start
  apply (hexpr _).bind
  intro value
  exact (repeats_closing _).bind fun _ => .pure _

theorem repeats_expressionStatement : Repeats (expressionStatement expr) (expressionStatement expr') := by
  apply (hexpr _).bind
  intro value
  exact (repeats_closing _).bind fun _ => .pure _

theorem repeats_statement : Repeats (statement expr) (statement expr') := by
  apply repeats_look
  intro here
  obtain ⟨token, span⟩ := here
  cases token with
  | kwLet => exact repeats_letStatement hexpr
  | kwReturn => exact repeats_returnStatement hexpr
  | _ => exact repeats_expressionStatement hexpr

end Statements

include hexpr hbound

theorem repeats_statements : Repeats (statements expr bound) (statements expr' bound') := by
  induction bound generalizing bound' with
  | zero => exact repeats_starve
  | succ bound ih =>
    obtain ⟨bound', rfl⟩ := Nat.exists_eq_add_one_of_ne_zero (Nat.ne_zero_of_lt hbound)
    apply repeats_look
    intro here
    refine Repeats.ite (.pure _) ?_
    apply (repeats_statement hexpr).bind
    intro first
    exact (ih (Nat.le_of_succ_le_succ hbound)).bind fun _ => .pure _

theorem repeats_block : Repeats (block expr bound) (block expr' bound') := by
  apply (repeats_expect lbrace nofun).bind
  intro opening
  apply (repeats_statements hexpr hbound).bind
  intro body
  exact repeats_optional rbrace nofun (fun _ _ => .pure _) (Repeats.pure _)

/-! ### Expressions -/

omit hbound in
theorem repeated_unary {ts : Tokens} (h : ts.current.token ≠ eof) : Repeated (unary expr') ts (unary expr ts) := by
  apply (repeated_advance h).bind
  intro op
  exact (hexpr _).bind fun _ => .pure _

omit hbound in
theorem repeats_group : Repeats (group expr) (group expr') := by
  apply (repeats_expect lparen nofun).bind
  intro _
  apply (hexpr _).bind
  intro inner
  exact (repeats_expect rparen nofun).bind fun _ => .pure _

theorem repeats_conditional : Repeats (conditional expr bound) (conditional expr' bound') := by
  apply (repeats_expect kwIf nofun).bind
  intro start
  apply (hexpr _).bind
  intro condition
  apply (repeats_block hexpr hbound).bind
  intro consequence
  refine repeats_optional kwElse nofun (fun _ _ => ?_) (Repeats.pure _)
  exact (repeats_block hexpr hbound).bind fun _ => .pure _

theorem repeats_function : Repeats (function expr bound) (function expr' bound') := by
  apply (repeats_expect kwFn nofun).bind
  intro start
  apply (repeats_params hbound).bind
  intro params
  exact (repeats_block hexpr hbound).bind fun _ => .pure _

theorem repeats_macroLiteral : Repeats (macroLiteral expr bound) (macroLiteral expr' bound') := by
  apply (repeats_expect kwMacro nofun).bind
  intro start
  apply (repeats_params hbound).bind
  intro params
  exact (repeats_block hexpr hbound).bind fun _ => .pure _

theorem repeats_listTail : Repeats (listTail expr bound) (listTail expr' bound') := by
  induction bound generalizing bound' with
  | zero => exact repeats_starve
  | succ bound ih =>
    obtain ⟨bound', rfl⟩ := Nat.exists_eq_add_one_of_ne_zero (Nat.ne_zero_of_lt hbound)
    refine repeats_optional comma nofun (fun _ _ => ?_) (Repeats.pure [])
    apply (hexpr _).bind
    intro first
    exact (ih (Nat.le_of_succ_le_succ hbound)).bind fun _ => .pure _

theorem repeats_list (close : Token) (hclose : close ≠ eof) :
    Repeats (list expr bound close) (list expr' bound' close) := by
  apply repeats_look
  intro here
  refine Repeats.ite ?_ ?_
  · exact (repeats_expect close hclose).bind fun _ => .pure _
  · apply (hexpr _).bind
    intro first
    apply (repeats_listTail hexpr hbound).bind
    intro more
    exact (repeats_expect close hclose).bind fun _ => .pure _

theorem repeats_array : Repeats (array expr bound) (array expr' bound') := by
  apply (repeats_expect lbracket nofun).bind
  intro opening
  exact (repeats_list hexpr hbound rbracket nofun).bind fun _ => .pure _

omit hexpr hbound in
theorem repeats_pairEnd : Repeats pairEnd pairEnd := by
  apply repeats_look
  intro here
  refine Repeats.ite (.pure _) ?_
  exact (repeats_expect comma nofun).bind fun _ => .pure _

theorem repeats_pairs : Repeats (pairs expr bound) (pairs expr' bound') := by
  induction bound generalizing bound' with
  | zero => exact repeats_starve
  | succ bound ih =>
    obtain ⟨bound', rfl⟩ := Nat.exists_eq_add_one_of_ne_zero (Nat.ne_zero_of_lt hbound)
    apply repeats_look
    intro here
    refine Repeats.ite (.pure _) ?_
    apply (hexpr _).bind
    intro key
    apply (repeats_expect colon nofun).bind
    intro _
    apply (hexpr _).bind
    intro value
    apply repeats_pairEnd.bind
    intro _
    exact (ih (Nat.le_of_succ_le_succ hbound)).bind fun _ => .pure _

theorem repeats_hash : Repeats (hash expr bound) (hash expr' bound') := by
  apply (repeats_expect lbrace nofun).bind
  intro opening
  apply (repeats_pairs hexpr hbound).bind
  intro pairs
  exact (repeats_expect rbrace nofun).bind fun _ => .pure _

theorem repeats_operand : Repeats (operand expr bound) (operand expr' bound') := by
  apply repeats_peek
  intro ts
  cases htoken : ts.current.token with
  | ident => exact repeats_identifier ts
  | int => exact repeated_integer htoken
  | str => exact repeated_string htoken
  | kwTrue => exact repeated_boolean true htoken
  | kwFalse => exact repeated_boolean false htoken
  | bang | minus => exact repeated_unary hexpr (by simp [htoken])
  | lparen => exact repeats_group hexpr ts
  | kwIf => exact repeats_conditional hexpr hbound ts
  | kwFn => exact repeats_function hexpr hbound ts
  | kwMacro => exact repeats_macroLiteral hexpr hbound ts
  | lbracket => exact repeats_array hexpr hbound ts
  | lbrace => exact repeats_hash hexpr hbound ts
  | _ => exact repeated_reject rfl htoken.symm

omit hbound in
theorem repeated_binary (left : Expr) {ts : Tokens} (h : ts.current.token ≠ eof) :
    Repeated (binary expr' left) ts (binary expr left ts) := by
  apply (repeated_advance h).bind
  intro op
  exact (hexpr _).bind fun _ => .pure _

theorem repeats_call (callee : Expr) : Repeats (call expr bound callee) (call expr' bound' callee) := by
  apply (repeats_expect lparen nofun).bind
  intro _
  exact (repeats_list hexpr hbound rparen nofun).bind fun _ => .pure _

omit hbound in
theorem repeats_index (left : Expr) : Repeats (index expr left) (index expr' left) := by
  apply (repeats_expect lbracket nofun).bind
  intro _
  apply (hexpr _).bind
  intro inner
  exact (repeats_expect rbracket nofun).bind fun _ => .pure _

theorem repeats_climb (floor : Precedence) {steps steps' : Nat} (hsteps : steps ≤ steps') (left : Expr) :
    Repeats (climb expr bound floor steps left) (climb expr' bound' floor steps' left) := by
  induction steps generalizing steps' left with
  | zero => exact repeats_starve
  | succ steps ih =>
    obtain ⟨steps', rfl⟩ := Nat.exists_eq_add_one_of_ne_zero (Nat.ne_zero_of_lt hsteps)
    have hmore := ih (Nat.le_of_succ_le_succ hsteps)
    apply repeats_peek
    intro ts
    by_cases hfloor : floor < ts.current.token.precedence
    · rw [if_pos hfloor, if_pos hfloor]
      cases htoken : ts.current.token with
      | lparen => exact (repeats_call hexpr hbound left ts).bind hmore
      | lbracket => exact (repeats_index hexpr left ts).bind hmore
      | plus | minus | asterisk | slash | less | greater | equal | notEqual =>
        exact (repeated_binary hexpr left (by simp [htoken])).bind hmore
      | _ => exact Repeats.pure left ts
    · rw [if_neg hfloor, if_neg hfloor]
      exact Repeats.pure left ts

end Forms

theorem repeats_expression {bound bound' : Nat} (hbound : bound ≤ bound') (floor : Precedence) :
    Repeats (expression bound floor) (expression bound' floor) := by
  induction bound generalizing bound' floor with
  | zero => exact repeats_starve
  | succ bound ih =>
    obtain ⟨bound', rfl⟩ := Nat.exists_eq_add_one_of_ne_zero (Nat.ne_zero_of_lt hbound)
    have hinner := Nat.le_of_succ_le_succ hbound
    apply (repeats_operand (ih hinner) hinner).bind
    exact repeats_climb (ih hinner) hinner floor hinner

end Parser

end Simian
