import Simian.Proofs.Expansion.Effect
import Simian.Proofs.Store.Likeness
import Simian.Proofs.Tree.Visits

/-!
# What expansion leaves alone

Expansion replaces calls of macros, and nothing else. A statement with no such call comes out as it is, whatever the macros that the other statements call have done, because they write to no scope that was there. A call that fails is one of the program: the callee and the arguments that it fails with may have come out of other macros, but the call itself has kept its span. The statements before it have been expanded, and those behind it are not looked at.
-/

namespace Simian

/-! ### Environments -/

namespace Store

variable {s t : Store} {i : ScopeId}

/-- The scope is there, and so are those around it. -/
inductive Environment (s : Store) : ScopeId → Prop
  | outermost {i : ScopeId} {bindings : Bindings} (h : s.scopes[i]? = some ⟨bindings, none⟩) : Environment s i
  | inside {i outer : ScopeId} {bindings : Bindings} (h : s.scopes[i]? = some ⟨bindings, some outer⟩)
      (houter : Environment s outer) : Environment s i

theorem Environment.find?_eq (hi : s.Environment i) (hkept : ∀ i < s.scopes.size, t.scopes[i]? = s.scopes[i]?)
    (name : String) (bound : Nat) : t.find? name bound i = s.find? name bound i := by
  have hscope : ∀ {i scope}, s.scopes[i]? = some scope → t.scopes[i]? = some scope :=
    fun h => (hkept _ (Array.getElem?_eq_some_iff.mp h).1).trans h
  induction hi generalizing bound with
  | outermost h =>
    cases bound with
    | zero => rfl
    | succ bound => rw [find?, find?, hscope h, h]
  | inside h _ ih =>
    cases bound with
    | zero => rfl
    | succ bound => simp only [find?, hscope h, h, ih bound]

/-- Names mean the same in an environment as long as the scopes that are there stay as they are. -/
theorem Environment.lookup_eq (hi : s.Environment i) (hkept : ∀ i < s.scopes.size, t.scopes[i]? = s.scopes[i]?)
    (name : String) : t.lookup i name = s.lookup i name := by
  rw [← find?_eq_lookup (Nat.le_max_left s.scopes.size t.scopes.size),
    ← find?_eq_lookup (Nat.le_max_right s.scopes.size t.scopes.size)]
  exact hi.find?_eq hkept name _

/-- Whether the expression is a call whose callee is the name of a macro in the scope. -/
def callsMacro (s : Store) (scope : ScopeId) : Expr → Bool
  | .call _ (.ident _ name) _ => (s.lookup scope name).any (·.kind == .macroKind)
  | _ => false

theorem callsMacro_of_lookup {scope : ScopeId} (h : ∀ name, t.lookup scope name = s.lookup scope name) (e : Expr) :
    t.callsMacro scope e = s.callsMacro scope e := by
  unfold callsMacro
  split
  · rw [h]
  · rfl

end Store

/-! ### Replacing one expression -/

namespace Expansion

variable {depth : Nat} {scope : ScopeId} {s t : Store}

/-- A call of a name invokes the macro that the name stands for, or is left as it is. -/
theorem replace_call (depth : Nat) (scope : ScopeId) (span callee : Span) (name : String) (args : List Expr) (s : Store) :
    (∃ params body inner, s.callsMacro scope (.call span (.ident callee name) args) = true ∧
      replace depth scope (.call span (.ident callee name) args) s =
        invoke depth name params body inner span args s) ∨
    replace depth scope (.call span (.ident callee name) args) s = .ok (.call span (.ident callee name) args) s := by
  have hget : (get : Expansion Store) s = .ok s s := rfl
  rw [replace, Eval.bind_of_ok hget, Store.callsMacro]
  cases s.lookup scope name with
  | none => exact .inr rfl
  | some value =>
    cases value with
    | macroValue id params body inner => exact .inl ⟨params, body, inner, rfl, rfl⟩
    | _ => exact .inr rfl

theorem replace_of_callsMacro {e : Expr} (h : s.callsMacro scope e = false) : replace depth scope e s = .ok e s := by
  unfold replace
  split
  · rename_i span callee name args
    obtain ⟨_, _, _, hcalls, _⟩ | hleft := replace_call depth scope span callee name args s
    · exact absurd (hcalls.symm.trans h) Bool.noConfusion
    · exact hleft
  · rfl

theorem returns_of_callsMacro (depth : Nat) {es : List Expr} (h : ∀ e ∈ es, s.callsMacro scope e = false) :
    ∀ e ∈ es, ∀ t, t = s → ∃ u, u = s ∧ replace depth scope e t = .ok e u := by
  rintro e he _ rfl
  exact ⟨_, rfl, replace_of_callsMacro (h e he)⟩

theorem span_of_ofEval_failed {α : Type} {span : Span} {eval : Eval α} {e : MacroError}
    (h : ofEval span eval s = .error (.failed e) t) : e.span = span := by
  unfold ofEval at h
  split at h
  · exact nomatch h
  · cases h
    rfl
  · exact nomatch h

theorem span_of_invoke_failed {name : String} {params : List Binder} {body : Block} {inner : ScopeId} {span : Span}
    {args : List Expr} {e : MacroError} (h : invoke depth name params body inner span args s = .error (.failed e) t) :
    e.span = span := by
  unfold invoke at h
  split at h
  · obtain hbody | ⟨value, s₁, _, hvalue⟩ := exists_of_bind_error h
    · exact span_of_ofEval_failed hbody
    · split at hvalue
      · exact nomatch hvalue
      · cases hvalue
        rfl
      · cases hvalue
        rfl
  · cases h
    rfl

/-- What fails is a call, and the error has its span. -/
theorem exists_call_of_replace_failed {x : Expr} {e : MacroError}
    (h : replace depth scope x s = .error (.failed e) t) : ∃ callee args, x = .call e.span callee args := by
  unfold replace at h
  split at h
  · rename_i span callee name args
    obtain ⟨_, _, _, _, hinvoke⟩ | hleft := replace_call depth scope span callee name args s
    · rw [span_of_invoke_failed (hinvoke.symm.trans h)]
      exact ⟨_, _, rfl⟩
    · exact nomatch hleft.symm.trans h
  · exact nomatch h

end Expansion

/-- With other children a call has the span that it had. -/
theorem Expr.exists_call_of_withChildren {node callee : Expr} {results args : List Expr} {span : Span}
    (h : node.withChildren results = .call span callee args) : ∃ callee args, node = .call span callee args := by
  unfold withChildren at h
  split at h <;> cases h <;> exact ⟨_, _, rfl⟩

/-! ### Expanding statements -/

section Statements

variable {depth : Nat} {scope : ScopeId} {s t : Store} {st : Stmt}

theorem Stmt.withValue_value (st : Stmt) : st.withValue st.value = st := by
  cases st <;> rfl

theorem Stmt.transformM_of_callsMacro (h : ∀ e ∈ st.value.postorder, s.callsMacro scope e = false) :
    st.transformM (Expansion.replace depth scope) s = .ok st s := by
  obtain ⟨_, rfl, hvalue⟩ := st.value.transformM_of_returns_on (Expansion.returns_of_callsMacro depth h) s rfl
  exact (transformM_of_ok hvalue).trans (by rw [withValue_value])

theorem Stmt.exists_call_of_failed {e : MacroError}
    (h : st.transformM (Expansion.replace depth scope) s = .error (.failed e) t) :
    ∃ callee args, .call e.span callee args ∈ st.value.postorder := by
  obtain ⟨node, hnode, results, s₁, hfails⟩ := st.value.exists_of_transformM_error (transformM_error h)
  obtain ⟨_, _, hcall⟩ := Expansion.exists_call_of_replace_failed hfails
  obtain ⟨callee, args, rfl⟩ := Expr.exists_call_of_withChildren hcall
  exact ⟨callee, args, hnode⟩

theorem Stmt.frame_transformM (own : ScopeId) (depth : Nat) (scope : ScopeId) (st : Stmt) (s : Store) :
    Store.Frame own s (finalStore (st.transformM (Expansion.replace depth scope) s)) :=
  (st.ensures_transformM (Expansion.respects_replace Vocabulary.closed_any depth scope) st.within_any s
    s.within_any).frame

/-- A successful expansion keeps the statements without calls of macros, each in its place. -/
theorem forall₂_of_expandMacros {p q : Program} (hscope : s.Environment scope)
    (h : p.expandMacros depth scope s = .ok q t) :
    List.Forall₂ (fun st st' => (∀ e ∈ st.value.postorder, s.callsMacro scope e = false) → st' = st)
      p.statements q.statements := by
  obtain ⟨ss, s₁, hss, hq⟩ := exists_of_bind_ok h
  cases hq
  have hkeep : ∀ st ∈ p.statements, ∀ st' s₁ t, (∀ own, Store.Frame own s s₁) →
      st.transformM (Expansion.replace depth scope) s₁ = .ok st' t → ∀ own, Store.Frame own s t := by
    intro st _ st' s₁ t hframe hst own
    have hnext := st.frame_transformM own depth scope s₁
    rw [hst] at hnext
    exact (hframe own).trans hnext
  have heach := forall₂_of_transformStatementsM hkeep (fun _ => .of_eq rfl) hss
  refine heach.imp fun st st' ⟨s₁, t, hframe, hst⟩ hplain => ?_
  have hplain₁ : ∀ e ∈ st.value.postorder, s₁.callsMacro scope e = false := by
    intro e he
    rw [Store.callsMacro_of_lookup (hscope.lookup_eq (Store.Frame.getElem? hframe)) e]
    exact hplain e he
  rw [Stmt.transformM_of_callsMacro hplain₁] at hst
  cases hst
  rfl

end Statements

/-- Expansion touches calls of macros only, and blames calls of the program. A program that calls no macro outside the literals of macros stays as it is, spans included, and so does the store, so nothing is printed. In every successful expansion the statements without such a call are still there, each in its place. If the expansion fails, the error has the span of a call in one of the statements, outside the literals of macros; the statements before that one expand without an error, and those behind it are not expanded, so whatever stands there the expansion ends in the same way. -/
theorem expansion_touches_macro_calls_only (depth : Nat) (scope : ScopeId) (s : Store) (p : Program) :
    ((∀ e ∈ p.postorder, s.callsMacro scope e = false) → p.expandMacros depth scope s = .ok p s) ∧
    (s.Environment scope → ∀ q t, p.expandMacros depth scope s = .ok q t →
      List.Forall₂ (fun st st' => (∀ e ∈ st.value.postorder, s.callsMacro scope e = false) → st' = st)
        p.statements q.statements) ∧
    ∀ e t, p.expandMacros depth scope s = .error (.failed e) t →
      ∃ before st after, p.statements = before ++ st :: after ∧
        (∃ callee args, .call e.span callee args ∈ st.value.postorder) ∧
        (∃ q s₁, Program.expandMacros depth scope ⟨p.span, before⟩ s = .ok q s₁) ∧
        ∀ after', Program.expandMacros depth scope ⟨p.span, before ++ st :: after'⟩ s = .error (.failed e) t := by
  refine ⟨fun hplain => ?_, fun hscope q t hq => forall₂_of_expandMacros hscope hq, fun e t he => ?_⟩
  · obtain ⟨_, rfl, hp⟩ := p.transformM_of_returns_on (Expansion.returns_of_callsMacro depth hplain) rfl
    exact hp
  · obtain hss | ⟨ss, s₁, _, hpure⟩ := exists_of_bind_error he
    · obtain ⟨before, st, after, ss', s₁, hsplit, hbefore, hst⟩ := exists_of_transformStatementsM_error hss
      exact ⟨before, st, after, hsplit, Stmt.exists_call_of_failed hst, ⟨_, s₁, Program.transformM_of_ok hbefore⟩,
        fun after' => Program.transformM_of_error (transformStatementsM_of_error hbefore hst after')⟩
    · exact nomatch hpure

/-- The statement `name(args)`, from a place on. -/
def callAt (start : Nat) (name : String) (args : List Expr) : Stmt :=
  .expr ⟨start, start + 4⟩ (.call ⟨start, start + 4⟩ (.ident ⟨start, start + 1⟩ name) args)

/-- Here `m` is the macro with the parameter `a` that quotes `unquote(a)`. -/
def quoting : Store :=
  ⟨#[⟨[("m", .macroValue 0 [⟨"a", ⟨6, 7⟩⟩] (.mk ⟨9, 30⟩ [.expr ⟨11, 28⟩ (.call ⟨11, 28⟩ (.ident ⟨11, 16⟩ "quote")
    [.call ⟨17, 27⟩ (.ident ⟨17, 24⟩ "unquote") [.ident ⟨25, 26⟩ "a"]])]) 0)], none⟩], 1, ""⟩

/-- The program `f(1)` stays as it is, `m(1); f(2)` keeps its second statement, and `m(1); m(); f(2)` fails at its second. -/
theorem expansion_touches_macro_calls_only_quoting :
    Program.expandMacros 2 0 ⟨⟨0, 4⟩, [callAt 0 "f" [.int ⟨2, 3⟩ 1]]⟩ quoting =
      .ok ⟨⟨0, 4⟩, [callAt 0 "f" [.int ⟨2, 3⟩ 1]]⟩ quoting ∧
    (∃ q t, Program.expandMacros 2 0 ⟨⟨0, 10⟩, [callAt 0 "m" [.int ⟨2, 3⟩ 1], callAt 6 "f" [.int ⟨8, 9⟩ 2]]⟩ quoting =
      .ok q t ∧ q.statements[1]? = some (callAt 6 "f" [.int ⟨8, 9⟩ 2])) ∧
    ∃ e t, e.span = ⟨6, 10⟩ ∧ ∃ before st after,
      [callAt 0 "m" [.int ⟨2, 3⟩ 1], callAt 6 "m" [], callAt 12 "f" [.int ⟨14, 15⟩ 2]] = before ++ st :: after ∧
      (∃ callee args, .call e.span callee args ∈ st.value.postorder) ∧
      (∃ q s₁, Program.expandMacros 2 0 ⟨⟨0, 16⟩, before⟩ quoting = .ok q s₁) ∧
      ∀ after', Program.expandMacros 2 0 ⟨⟨0, 16⟩, before ++ st :: after'⟩ quoting = .error (.failed e) t := by
  have hplain : ∀ start span n, ∀ e ∈ (callAt start "f" [.int span n]).value.postorder,
      quoting.callsMacro 0 e = false := by
    intro start span n e he
    simp only [callAt, Stmt.value, Expr.postorder_eq, Expr.children, List.flatMap_cons, List.flatMap_nil,
      List.append_nil, List.nil_append, List.mem_append, List.mem_singleton] at he
    obtain (rfl | rfl) | rfl := he <;> rfl
  refine ⟨?_, ?_, ?_⟩
  · refine (expansion_touches_macro_calls_only 2 0 quoting _).1 fun e he => hplain 0 ⟨2, 3⟩ 1 e ?_
    rwa [Program.postorder, Program.values, List.map_singleton, List.flatMap_singleton] at he
  · obtain ⟨⟨span, ss⟩, t, hq⟩ : ∃ q t, Program.expandMacros 2 0
        ⟨⟨0, 10⟩, [callAt 0 "m" [.int ⟨2, 3⟩ 1], callAt 6 "f" [.int ⟨8, 9⟩ 2]]⟩ quoting = .ok q t := ⟨_, _, rfl⟩
    refine ⟨_, t, hq, ?_⟩
    cases (expansion_touches_macro_calls_only 2 0 quoting _).2.1 (.outermost rfl) _ t hq with
    | cons _ hrest =>
      cases hrest with
      | cons hsecond _ => exact congrArg some (hsecond (hplain 6 ⟨8, 9⟩ 2))
  · obtain ⟨t, ht⟩ : ∃ t, Program.expandMacros 2 0
        ⟨⟨0, 16⟩, [callAt 0 "m" [.int ⟨2, 3⟩ 1], callAt 6 "m" [], callAt 12 "f" [.int ⟨14, 15⟩ 2]]⟩ quoting =
        .error (.failed ⟨.argumentCount "m" 0 1, ⟨6, 10⟩⟩) t := ⟨_, rfl⟩
    exact ⟨_, t, rfl, (expansion_touches_macro_calls_only 2 0 quoting _).2.2 _ t ht⟩

end Simian
