import Simian.Proofs.Eval.Simulation
import Simian.Proofs.Store.Region

/-!
# Evaluation stays in its region

What runs in a scope of a region makes its scopes and its functions there, and finds nothing but what is bound there. So no evaluation in a region comes to a macro, or to a function from outside. The functions of the evaluator take this from one another as they call one another, with the evaluator of subexpressions as an assumption.
-/

namespace Simian

variable {region : ScopeId → Prop} {n : Nat}

namespace Eval

/-! ### Basic computations -/

section Basic

variable {α : Type} {Q : Nat → α → Prop} {x : Value} {i : ScopeId}

theorem confines_raise (fault : Fault) : Confines region n Q (raise fault : Eval α) :=
  confines_throw _

theorem confines_value (h : x.Confined region n) : Confines region n (Value.Confined region) (pure x : Eval Value) :=
  .pure fun _ hk => h.mono hk

theorem confines_settle (h : x.Confined region n) : Confines region n (Value.Confined region) (settle x) := by
  cases x with
  | error message => exact confines_throw _
  | _ => exact confines_value h

/-- What a pure operation gives for values of the region, it gives in the region. -/
theorem confines_operation {r : Except Fault Value} (h : ExceptAlike (Value.Alike (.region region n)) r r) :
    Confines region n (Value.Confined region) (ofExcept r) := by
  cases h with
  | ok h => exact confines_value h
  | error fault => exact confines_raise fault

theorem confines_fresh : Confines region n (fun _ _ => True) fresh :=
  confines_modifyGet (fun _ _ _ => trivial) fun _ => rfl

theorem confines_newArray {xs : List Value} (h : ValuesConfined region n xs) :
    Confines region n (Value.Confined region) (newArray xs) :=
  confines_fresh.bind fun _ _ hk _ => confines_value (.array rfl (h.mono hk))

theorem confines_newHash {es : List (Entry Value)} (h : EntriesConfined region n es) :
    Confines region n (Value.Confined region) (newHash es) :=
  confines_fresh.bind fun _ _ hk _ => confines_value (.hash rfl (h.mono hk))

theorem confines_newFunction (params : List Binder) (body : Block) (hi : region i) (hlt : i < n) :
    Confines region n (Value.Confined region) (newFunction params body i) :=
  confines_fresh.bind fun _ _ hk _ => confines_value (.function rfl (paramsAlike_refl (fun _ => rfl) params)
    (body.alike_refl fun _ => rfl) ⟨rfl, hi, Nat.lt_of_lt_of_le hlt hk⟩ trivial)

theorem confines_newQuote (node : Expr) : Confines region n (Value.Confined region) (newQuote node) :=
  confines_fresh.bind fun _ _ _ _ => confines_value (.quote rfl (node.alike_refl fun _ => rfl))

theorem confines_bind (i : ScopeId) (name : String) (h : x.Confined region n) :
    Confines region n (fun _ _ => True) (Eval.bind i name x) :=
  fun s hs hsize => ⟨hs.bind i name (h.mono hsize), Nat.le_of_eq (s.size_bind i name x).symm, trivial⟩

theorem confines_bindAll (i : ScopeId) (params : List Binder) {xs : List Value} (h : ValuesConfined region n xs) :
    Confines region n (fun _ _ => True) (bindAll i params xs) := by
  induction params generalizing xs n with
  | nil => exact .pure fun _ _ => trivial
  | cons param params ih =>
    cases h with
    | nil => exact .pure fun _ _ => trivial
    | cons hx hxs => exact (confines_bind i param.name hx).bind fun _ _ hk _ => ih (ValuesConfined.mono hxs hk)

/-- The scope that is entered belongs to the region, like the one it is made in. -/
theorem confines_enter (params : List Binder) {xs : List Value} (hi : region i) (hlt : i < n)
    (h : ValuesConfined region n xs) :
    Confines region n (fun k inner => region inner ∧ inner < k) (enter i params xs) := by
  have hnew : Confines region n (fun k inner => region inner ∧ inner < k)
      (modifyGet fun store => store.newScope (some i) : Eval ScopeId) := by
    intro s hs hsize
    have hgrown : (s.newScope (some i)).2.scopes.size = s.scopes.size + 1 := Array.size_push ..
    refine ⟨hs.newScope hi (Nat.lt_of_lt_of_le hlt hsize), ?_, hs.next _ (Nat.le_refl _), ?_⟩
    · exact hgrown ▸ Nat.le_succ _
    · exact hgrown ▸ Nat.lt_succ_self _
  apply hnew.bind
  intro k inner hk hinner
  refine (confines_bindAll inner params (h.mono hk)).bind fun l _ hl _ => .pure fun _ hle => ⟨hinner.1, ?_⟩
  exact Nat.lt_of_lt_of_le hinner.2 (Nat.le_trans hl hle)

end Basic

end Eval

/-! ### Quotation -/

section Inspects

variable {α β : Type} {C D : Prop} {p : Eval α}

/-- The computation leaves the store as it is, and comes to a value only if the condition holds. -/
def Inspects (C : Prop) (p : Eval α) : Prop :=
  ∀ s, (∃ a, p s = .ok a s ∧ C) ∨ ∃ halt, p s = .error halt s

theorem Inspects.pure {a : α} : Inspects True (Pure.pure a) :=
  fun _ => .inl ⟨a, rfl, trivial⟩

theorem inspects_throw (halt : Eval.Halt) : Inspects C (throw halt : Eval α) :=
  fun _ => .inr ⟨halt, rfl⟩

theorem Inspects.imp (h : Inspects C p) (himp : C → D) : Inspects D p := by
  intro s
  rcases h s with ⟨a, ha, hC⟩ | ⟨halt, hhalt⟩
  · exact .inl ⟨a, ha, himp hC⟩
  · exact .inr ⟨halt, hhalt⟩

theorem Inspects.bind {q : α → Eval β} (h : Inspects C p) (hq : ∀ a, Inspects D (q a)) :
    Inspects (C ∧ D) (p >>= q) := by
  intro s
  change (∃ b, EStateM.bind p q s = .ok b s ∧ C ∧ D) ∨ ∃ halt, EStateM.bind p q s = .error halt s
  rw [EStateM.bind]
  rcases h s with ⟨a, ha, hC⟩ | ⟨halt, hhalt⟩
  · rw [ha]
    rcases hq a s with ⟨b, hb, hD⟩ | ⟨halt, hhalt⟩
    · exact .inl ⟨b, hb, hC, hD⟩
    · exact .inr ⟨halt, hhalt⟩
  · rw [hhalt]
    exact .inr ⟨halt, rfl⟩

theorem Inspects.confines (h : Inspects C p) : Confines region n (fun _ _ => True) p := by
  intro s hs _
  rcases h s with ⟨a, ha, _⟩ | ⟨halt, hhalt⟩
  · rw [ha]
    exact ⟨hs, Nat.le_refl _, trivial⟩
  · rw [hhalt]
    exact ⟨hs, Nat.le_refl _⟩

end Inspects

mutual

/-- There is no syntax for a value that holds a macro. -/
theorem Value.inspects_toExpr (span : Span) : ∀ x : Value, Inspects (x.holds .macroKind = false) (x.toExpr span)
  | .integer _ | .boolean _ | .string _ | .quote .. => Inspects.pure.imp fun _ => rfl
  | .error _ | .null | .function .. | .builtin _ | .returned _ | .macroValue .. => inspects_throw _
  | .array _ elements => ((inspects_valuesToExprs span elements).bind fun _ => .pure).imp And.left
  | .hash _ entries => ((inspects_entriesToPairs span entries).bind fun _ => .pure).imp And.left

theorem inspects_valuesToExprs (span : Span) :
    ∀ xs : List Value, Inspects (valuesHold .macroKind xs = false) (valuesToExprs span xs)
  | [] => Inspects.pure.imp fun _ => rfl
  | x :: xs => by
    have hbind := (x.inspects_toExpr span).bind fun e =>
      (inspects_valuesToExprs span xs).bind fun es => Inspects.pure (a := e :: es)
    refine hbind.imp fun h => ?_
    rw [valuesHold, h.1, h.2.1, Bool.or_self]

theorem inspects_entriesToPairs (span : Span) :
    ∀ es : List (Entry Value), Inspects (entriesHold .macroKind es = false) (entriesToPairs span es)
  | [] => Inspects.pure.imp fun _ => rfl
  | ⟨_, key, value⟩ :: es => by
    have hbind := (key.inspects_toExpr span).bind fun key' => (value.inspects_toExpr span).bind fun value' =>
      (inspects_entriesToPairs span es).bind fun ps => Inspects.pure (a := (key', value') :: ps)
    refine hbind.imp fun h => ?_
    rw [entriesHold, h.1, h.2.1, h.2.2.1]
    rfl

end

theorem confines_quote {eval : Expr → Eval Value} (heval : ∀ e, Confines region n (Value.Confined region) (eval e))
    (node : Expr) : Confines region n (Value.Confined region) (quote eval node) := by
  have hsplice : ∀ e, Confines region n (fun _ _ => True) (splice eval e) := by
    intro e
    unfold splice
    split
    · exact (heval _).bind fun _ x _ _ => (x.inspects_toExpr _).confines
    · exact .pure fun _ _ => trivial
  have htransform : Confines region n (fun _ _ => True) (node.transformM (splice eval)) := by
    refine confines_of_coupled fun k hk => node.coupled_transformM (fun e e' h => ?_) (node.alike_refl fun _ => rfl)
    obtain rfl := e.eq_of_alike id h
    exact ((hsplice e).mono hk).coupled.mono fun a _ hab => hab ▸ a.alike_refl fun _ => rfl
  exact htransform.bind fun _ node' _ _ => Eval.confines_newQuote node'

/-! ### Builtins -/

theorem confines_putAll (xs : List Value) : Confines region n (fun _ _ => True) (putAll xs) := by
  induction xs with
  | nil => exact .pure fun _ _ => trivial
  | cons x xs ih =>
    have hput : Confines region n (fun _ _ => True) (modify fun store => store.print (x.inspect ++ "\n") : Eval Unit) :=
      confines_modifyGet (fun _ _ _ => trivial) fun _ => rfl
    exact hput.bind fun _ _ hk _ => ih.mono hk

theorem confines_theArray (builtin : Builtin) {xs : List Value} (h : ValuesConfined region n xs) :
    Confines region n (ValuesConfined region) (Eval.ofExcept (theArray builtin xs)) := by
  have harray := alike_theArray builtin h
  generalize theArray builtin xs = r at harray ⊢
  cases harray with
  | ok helements => exact .pure fun _ hk => ValuesConfined.mono helements hk
  | error fault => exact Eval.confines_raise fault

theorem Builtin.confines_call (builtin : Builtin) {xs : List Value} (h : ValuesConfined region n xs) :
    Confines region n (Value.Confined region) (builtin.call xs) := by
  cases builtin with
  | len =>
    apply (Eval.confines_operation (alike_theArgument h)).bind
    intro k arg _ harg
    exact Eval.confines_operation (alike_lengthOf harg)
  | first =>
    apply (confines_theArray .first h).bind
    intro k elements _ helements
    rw [List.head?_eq_getElem?]
    exact Eval.confines_value (alike_getD_null (rel_getElem? helements 0))
  | last =>
    apply (confines_theArray .last h).bind
    intro k elements _ helements
    rw [List.getLast?_eq_getElem?]
    exact Eval.confines_value (alike_getD_null (rel_getElem? helements _))
  | rest =>
    apply (confines_theArray .rest h).bind
    intro k elements _ helements
    cases helements with
    | nil => exact Eval.confines_value .null
    | cons _ hrest => exact Eval.confines_newArray hrest
  | push =>
    simp only [Builtin.call]
    split
    · rename_i id elements value
      cases h with
      | cons harray hrest =>
        cases harray with
        | array _ helements => exact Eval.confines_newArray (List.rel_append helements hrest)
    · exact Eval.confines_raise _
    · exact Eval.confines_raise _
  | puts => exact (confines_putAll xs).bind fun _ _ _ _ => Eval.confines_value .null

/-! ### The evaluator -/

namespace Eval

section Step

variable {eval : ScopeId → Expr → Eval Value} {i : ScopeId}
  (heval : ∀ n i e, region i → i < n → Confines region n (Value.Confined region) (eval i e))
include heval

theorem confines_statement (hi : region i) (hlt : i < n) (s : Stmt) :
    Confines region n (Value.Confined region) (statement eval i s) := by
  cases s with
  | bind span binder value =>
    apply (heval n i value hi hlt).bind
    intro k x _ hx
    exact (confines_bind i binder.name hx).bind fun _ _ _ _ => confines_value .null
  | ret span value => exact (heval n i value hi hlt).bind fun _ _ _ hx => confines_value (.returned hx trivial)
  | expr span value => exact heval n i value hi hlt

theorem confines_statements (hi : region i) (hlt : i < n) (ss : List Stmt) {last : Value}
    (hlast : last.Confined region n) : Confines region n (Value.Confined region) (statements eval i last ss) := by
  induction ss generalizing last n with
  | nil => exact confines_value hlast
  | cons s ss ih =>
    apply (confines_statement heval hi hlt s).bind
    intro k x hk hx
    have hlt' : i < k := Nat.lt_of_lt_of_le hlt hk
    cases x with
    | returned value => exact confines_value hx
    | _ => exact ih hlt' hx

theorem confines_block (hi : region i) (hlt : i < n) (b : Block) :
    Confines region n (Value.Confined region) (block eval i b) :=
  confines_statements heval hi hlt b.statements .null

theorem confines_list (hi : region i) (hlt : i < n) (es : List Expr) :
    Confines region n (ValuesConfined region) (list eval i es) := by
  induction es generalizing n with
  | nil => exact .pure fun _ _ => .nil
  | cons e es ih =>
    apply (heval n i e hi hlt).bind
    intro k x hk hx
    refine (ih (Nat.lt_of_lt_of_le hlt hk)).bind fun l xs hl hxs => .pure fun _ hle => ?_
    exact ValuesConfined.mono (.cons (hx.mono hl) hxs) hle

theorem confines_pairs (hi : region i) (hlt : i < n) (ps : List (Expr × Expr)) {es : List (Entry Value)}
    (hes : EntriesConfined region n es) : Confines region n (EntriesConfined region) (pairs eval i es ps) := by
  induction ps generalizing es n with
  | nil => exact .pure fun _ hk => hes.mono hk
  | cons p ps ih =>
    obtain ⟨key, value⟩ := p
    apply (heval n i key hi hlt).bind
    intro k key' hk hkey
    have hlt' : i < k := Nat.lt_of_lt_of_le hlt hk
    cases key'.hashKey? with
    | none => exact confines_raise _
    | some hashKey =>
      apply (heval k i value hi hlt').bind
      intro l value' hl hvalue
      have hentry : EntryAlike (.region region l) ⟨hashKey, key', value'⟩ ⟨hashKey, key', value'⟩ :=
        .mk (hkey.mono hl) hvalue
      exact ih (Nat.lt_of_lt_of_le hlt' hl) (alike_insert hentry (hes.mono (Nat.le_trans hk hl)))

/-- A function runs in the region in which it was made. -/
theorem confines_apply {f : Value} {xs : List Value} (hf : f.Confined region n) (hxs : ValuesConfined region n xs) :
    Confines region n (Value.Confined region) (apply eval f xs) := by
  cases hf with
  | @function _ _ params _ body _ scope _ _ _ _ hmade _ =>
    refine Confines.ite ?_ (confines_raise _)
    apply (confines_enter params hmade.2.1 hmade.2.2 hxs).bind
    intro k inner _ hinner
    exact (confines_block heval hinner.1 hinner.2 body).bind fun _ _ _ hx => confines_settle hx.unwrap
  | builtin b => exact (b.confines_call hxs).bind fun _ _ _ hx => confines_settle hx
  | _ => exact confines_raise _

omit heval in
theorem confines_name (hi : region i) (id : String) : Confines region n (Value.Confined region) (name i id) := by
  refine confines_get fun s hs => ?_
  cases hlookup : s.lookup i id with
  | some x => exact confines_settle (hs.find? hi hlookup)
  | none =>
    cases Builtin.ofName? id with
    | some builtin => exact confines_value (.builtin builtin)
    | none => exact confines_raise _

theorem confines_call (hi : region i) (hlt : i < n) (span : Span) (callee : Expr) (args : List Expr) :
    Confines region n (Value.Confined region) (step eval i (.call span callee args)) := by
  unfold step
  split
  all_goals rename_i heq
  all_goals cases heq
  · split
    · exact confines_quote (fun e => heval n i e hi hlt) _
    · exact confines_raise _
  · apply (heval n i callee hi hlt).bind
    intro k f hk hf
    apply (confines_list heval hi (Nat.lt_of_lt_of_le hlt hk) args).bind
    intro l xs hl hxs
    exact confines_apply heval (hf.mono hl) hxs

theorem confines_step (hi : region i) (hlt : i < n) (e : Expr) :
    Confines region n (Value.Confined region) (step eval i e) := by
  cases e with
  | int span n => exact confines_value (.integer n)
  | str span text => exact confines_value (.string text)
  | bool span b => exact confines_value (.boolean b)
  | macroLit => exact confines_value .null
  | ident span id => exact confines_name hi id
  | unary span op right =>
    apply (heval n i right hi hlt).bind
    intro k x _ hx
    exact confines_operation (alike_applyUnary hx)
  | binary span op left right =>
    apply (heval n i left hi hlt).bind
    intro k x hk hx
    apply (heval k i right hi (Nat.lt_of_lt_of_le hlt hk)).bind
    intro l y hl hy
    exact confines_operation (alike_applyBinary Matching.diagonal_region.oneToOne (hx.mono hl) hy)
  | index span left index =>
    apply (heval n i left hi hlt).bind
    intro k x hk hx
    apply (heval k i index hi (Nat.lt_of_lt_of_le hlt hk)).bind
    intro l y hl hy
    exact (confines_operation (alike_applyIndex (hx.mono hl) hy)).bind fun _ _ _ hz => confines_settle hz
  | cond span condition consequence alternative =>
    apply (heval n i condition hi hlt).bind
    intro k x hk _
    have hlt' : i < k := Nat.lt_of_lt_of_le hlt hk
    refine Confines.ite (confines_block heval hi hlt' consequence) ?_
    cases alternative with
    | none => exact confines_value .null
    | some alternative => exact confines_block heval hi hlt' alternative
  | fn span params body => exact confines_newFunction params body hi hlt
  | call span callee args => exact confines_call heval hi hlt span callee args
  | array span elements => exact (confines_list heval hi hlt elements).bind fun _ _ _ hxs => confines_newArray hxs
  | hash span ps => exact (confines_pairs heval hi hlt ps .nil).bind fun _ _ _ hes => confines_newHash hes

end Step

theorem confines_expr (depth : Nat) :
    ∀ n i e, region i → i < n → Confines region n (Value.Confined region) (expr depth i e) := by
  induction depth with
  | zero => exact fun _ _ _ _ _ => confines_throw _
  | succ depth ih => exact fun _ _ e hi hlt => confines_step ih hi hlt e

theorem confines_program (depth : Nat) {i : ScopeId} (hi : region i) (hlt : i < n) (p : Program) :
    Confines region n (Value.Confined region) (program depth i p) :=
  (confines_statements (confines_expr depth) hi hlt p.statements .null).bind fun _ _ _ hx => confines_value hx.unwrap

end Eval

end Simian
