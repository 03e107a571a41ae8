import Mathlib.Logic.Relation
import Simian.Proofs.Eval.Confinement
import Simian.Proofs.Session.Phase
import Simian.Session.Run

/-!
# Macros stay in their scope

A session divides its store in two. One region holds the scope in which programs are evaluated and all that is made there; the scope of macros, and the scopes in which the bodies of macros run, are outside. Evaluation stays in its region, and an expansion writes to none of its scopes, so that no macro gets there. In the bodies of macros there are macros among the values, but no syntax stands for one, so none gets into the program either.
-/

namespace Simian

/-! ### What is spliced -/

/-- Replaces a call of `unquote` as `splice` does, and shows the probe each value that was turned into syntax. -/
def watchedSplice (probe : Value → Eval Unit) (eval : Expr → Eval Value) : Expr → Eval Expr
  | .call span (.ident _ "unquote") [arg] => do
    let value ← eval arg
    let node ← value.toExpr span
    probe value
    return node
  | e => pure e

namespace Eval

/-- One step of evaluation, in which the probe is shown what is spliced into a quote. -/
def splicingStep (probe : Value → Eval Unit) (eval : ScopeId → Expr → Eval Value) (scope : ScopeId) : Expr → Eval Value
  | .call _ (.ident _ "quote") [node] => do
    let node ← node.transformM (watchedSplice probe (eval scope))
    newQuote node
  | e => step eval scope e

/-- Evaluates an expression; the probe is shown what is spliced into quotes. -/
def splicing (probe : Value → Eval Unit) : (depth : Nat) → ScopeId → Expr → Eval Value
  | 0, _, _ => throw .exhausted
  | depth + 1, scope, e => splicingStep probe (splicing probe depth) scope e

end Eval

section Splicing

variable {probe : Value → Eval Unit} (hprobe : ∀ x s, x.holds .macroKind = false → probe x s = .ok () s)
include hprobe

theorem toExpr_probe (span : Span) (x : Value) :
    (x.toExpr span >>= fun node => probe x >>= fun _ => pure node) = x.toExpr span := by
  funext s
  change EStateM.bind (x.toExpr span) (fun node => EStateM.bind (probe x) fun _ => pure node) s = x.toExpr span s
  rcases x.inspects_toExpr span s with ⟨node, hnode, hfree⟩ | ⟨halt, hhalt⟩
  · simp only [EStateM.bind, hnode, hprobe x s hfree]
    rfl
  · simp only [EStateM.bind, hhalt]

theorem watchedSplice_eq (eval : Expr → Eval Value) : watchedSplice probe eval = splice eval := by
  funext e
  unfold watchedSplice
  split
  · simp only [toExpr_probe hprobe]
    rfl
  · rename_i hne
    exact (splice_of_ne eval hne).symm

/-- A probe that has nothing against values without macros never finds a reason to do anything. -/
theorem splicing_eq (depth : Nat) : Eval.splicing probe depth = Eval.expr depth := by
  induction depth with
  | zero => rfl
  | succ depth ih =>
    funext scope e
    rw [Eval.splicing, Eval.expr, ih]
    unfold Eval.splicingStep
    split
    · rw [watchedSplice_eq hprobe]
      rfl
    · rfl

end Splicing

/-- What takes the place of a call is the node of the quote that the macro's body came to. -/
theorem Expansion.exists_quote {depth : Nat} {name : String} {params : List Binder} {body : Block} {scope : ScopeId}
    {span : Span} {args : List Expr} {s t : Store} {node : Expr}
    (h : invoke depth name params body scope span args s = .ok node t) :
    ∃ id, runBody depth params body scope args s = .ok (.quote id node) t := by
  unfold invoke at h
  split at h
  · change EStateM.bind (ofEval span (runBody depth params body scope args)) _ s = _ at h
    unfold EStateM.bind ofEval at h
    cases hrun : runBody depth params body scope args s with
    | ok x s₁ =>
      rw [hrun] at h
      cases x with
      | quote id found =>
        cases h
        exact ⟨id, rfl⟩
      | _ => exact nomatch h
    | error halt s₁ =>
      rw [hrun] at h
      cases halt with
      | raised message => exact nomatch h
      | exhausted => exact nomatch h
  · exact nomatch h

/-! ### What is within reach -/

namespace Store

/-- From the scope one gets to the scope around it, and to those in which the functions bound in it were made. -/
def Leads (s : Store) (i j : ScopeId) : Prop :=
  ∃ scope, s.scopes[i]? = some scope ∧ (scope.outer = some j ∨ ∃ b ∈ scope.bindings, j ∈ b.2.scopes)

namespace Confined

variable {s t : Store} {region : ScopeId → Prop} {i j : ScopeId}

theorem reachable (h : s.Confined region) (hi : region i) (hj : Relation.ReflTransGen s.Leads i j) : region j := by
  induction hj with
  | refl => exact hi
  | tail _ hlead ih =>
    obtain ⟨scope, hscope, houter | ⟨b, hb, hmade⟩⟩ := hlead
    · exact ((h.scopes _ scope ih hscope).outer _ houter).1
    · exact (((h.scopes _ scope ih hscope).bindings b hb).scopes hmade).1

/-- What is done outside of a region leaves it as it is, except that what was made meanwhile does not belong to it. -/
theorem frame {own : ScopeId} (h : s.Confined region) (hframe : Frame own s t) (hown : ¬ region own) :
    t.Confined fun i => (region i ∧ i < s.scopes.size) ∨ t.scopes.size ≤ i where
  scopes i scope hi hscope := by
    have hwide : ∀ i, region i ∧ i < s.scopes.size →
        ((region i ∧ i < s.scopes.size) ∨ t.scopes.size ≤ i) ∧ i < t.scopes.size :=
      fun i hi => ⟨.inl hi, Nat.lt_of_lt_of_le hi.2 hframe.size_le⟩
    obtain ⟨hregion, hlt⟩ := hi.resolve_right (Nat.not_le_of_lt (Array.getElem?_eq_some_iff.mp hscope).1)
    rw [(hframe i hlt).2 fun heq => hown (heq ▸ hregion)] at hscope
    have hconfined := h.scopes i scope hregion hscope
    exact ⟨fun o ho => hwide o (hconfined.outer o ho),
      fun b hb => (hconfined.bindings b hb).widen fun i hi hlt => hwide i ⟨hi, hlt⟩⟩
  next i hi := .inr hi

end Confined

theorem frame_foldl_define (scope : ScopeId) (ds : List Definition) (s : Store) :
    Frame scope s (ds.foldl (fun store d => store.define scope d) s) := by
  induction ds generalizing s with
  | nil => exact .of_eq rfl
  | cons d ds ih =>
    have hdefine : Frame scope s (s.define scope d) :=
      Frame.trans (.of_eq rfl) (frame_bind scope s.fresh.2 d.name _)
    exact hdefine.trans (ih _)

end Store

/-! ### Sessions -/

namespace Session

variable {ps : List Program} {s : Session}

/-- There is a region for evaluation, which the scope of macros does not belong to. -/
def Divided (s : Session) : Prop :=
  ∃ region : ScopeId → Prop,
    s.store.Confined region ∧ region s.scope ∧ s.scope < s.store.scopes.size ∧ ¬ region s.macros

theorem divided_new : Divided new := by
  refine ⟨(· ≠ new.macros), ⟨fun i scope _ hscope => ?_, fun i hi heq => ?_⟩, by decide, by decide, fun h => h rfl⟩
  · have hempty : scope = ⟨[], none⟩ := by
      match i with
      | 0 => exact (Option.some.inj hscope).symm
      | 1 => exact (Option.some.inj hscope).symm
      | _ + 2 => exact nomatch hscope
    subst hempty
    exact ⟨fun _ ho => (nomatch ho), fun _ hb => nomatch hb⟩
  · subst heq
    exact absurd hi (by decide)

theorem frame_expand (s : Session) (depth : Nat) (p : Program) :
    Store.Frame s.macros s.store (s.expand depth p).2.store := by
  rw [store_expand]
  refine Store.Frame.trans ?_ (Program.frame_expandMacros s.macros depth s.macros _ _)
  rw [Program.defineMacros, defineAll_eq]
  exact Store.frame_foldl_define s.macros _ s.store

theorem Divided.expand (h : s.Divided) (depth : Nat) (p : Program) : (s.expand depth p).2.Divided := by
  obtain ⟨region, hstore, hscope, hlt, hmacros⟩ := h
  have hframe := s.frame_expand depth p
  refine ⟨_, hstore.frame hframe hmacros, ?_⟩
  rw [scope_expand, macros_expand]
  have hold : s.macros < s.store.scopes.size := Nat.lt_of_not_le fun hle => hmacros (hstore.next _ hle)
  refine ⟨.inl ⟨hscope, hlt⟩, Nat.lt_of_lt_of_le hlt hframe.size_le, ?_⟩
  rintro (⟨hregion, _⟩ | hle)
  · exact hmacros hregion
  · exact Nat.not_le_of_lt (Nat.lt_of_lt_of_le hold hframe.size_le) hle

theorem eval_confined {region : ScopeId → Prop} (hstore : s.store.Confined region) (hscope : region s.scope)
    (hlt : s.scope < s.store.scopes.size) (depth : Nat) (p : Program) :
    (s.eval depth p).2.store.Confined region ∧ s.store.scopes.size ≤ (s.eval depth p).2.store.scopes.size ∧
      ∀ x, (s.eval depth p).1 = some x → x.holds .macroKind = false := by
  have hstays := Eval.confines_program depth hscope hlt p s.store hstore (Nat.le_refl _)
  unfold Session.eval Eval.run
  generalize Eval.program depth s.scope p s.store = result at hstays ⊢
  match result with
  | .ok x _ => exact ⟨hstays.1, hstays.2.1, fun _ hx => Option.some.inj hx ▸ hstays.2.2.holds_macroKind⟩
  | .error (.raised message) _ => exact ⟨hstays.1, hstays.2, fun _ hx => Option.some.inj hx ▸ rfl⟩
  | .error .exhausted _ => exact ⟨hstays.1, hstays.2, fun _ hx => nomatch hx⟩

theorem Divided.eval (h : s.Divided) (depth : Nat) (p : Program) : (s.eval depth p).2.Divided := by
  obtain ⟨region, hstore, hscope, hlt, hmacros⟩ := h
  obtain ⟨hstore', hsize, _⟩ := eval_confined hstore hscope hlt depth p
  exact ⟨region, hstore', hscope, Nat.lt_of_lt_of_le hlt hsize, hmacros⟩

theorem Past.divided (h : Past ps s) : s.Divided := by
  induction h with
  | new => exact divided_new
  | expand depth p _ ih => exact ih.expand depth p
  | eval depth p _ ih => exact ih.eval depth p
  | takeOutput _ ih =>
    obtain ⟨region, hstore, hrest⟩ := ih
    exact ⟨region, hstore.of_eq rfl, hrest⟩

/-! ### Submitted texts -/

/-- The program that a text came to, if it was read without error. -/
def accepted (parsed : Parsed) : List Program :=
  if parsed.errors.isEmpty then [parsed.program] else []

/-- The program of a file, if there is text in it that was read without error. -/
def acceptedFile (file : FileState) : List Program :=
  match file.read? with
  | .ok (_, parsed) => accepted parsed
  | .error _ => []

/-- The sessions that one gets to by whatever a session offers, with the programs among those submitted that had no parse errors, in order. -/
inductive Submitted : List Program → Session → Prop
  | new : Submitted [] .new
  | expand {ps : List Program} {s : Session} (depth : Nat) (p : Program) (hs : Submitted ps s) :
      Submitted (ps ++ [p]) (s.expand depth p).2
  | eval {ps : List Program} {s : Session} (depth : Nat) (p : Program) (hs : Submitted ps s) :
      Submitted ps (s.eval depth p).2
  | prepare {ps : List Program} {s : Session} (depth : Nat) (path source : String) (parsed : Parsed)
      (hs : Submitted ps s) : Submitted (ps ++ accepted parsed) (s.prepare depth path source parsed).2
  | run {ps : List Program} {s : Session} (depth : Nat) (path : String) (file : FileState) (hs : Submitted ps s) :
      Submitted (ps ++ acceptedFile file) (s.run depth path file).2
  | takeOutput {ps : List Program} {s : Session} (hs : Submitted ps s) : Submitted ps s.takeOutput.2

theorem Past.prepare (h : Past ps s) (depth : Nat) (path source : String) (parsed : Parsed) :
    Past (ps ++ accepted parsed) (s.prepare depth path source parsed).2 := by
  unfold accepted Session.prepare
  split
  · have hexpand := h.expand depth parsed.program
    split
    all_goals
      rename_i heq
      rw [heq] at hexpand
      exact hexpand
  · rw [List.append_nil]
    exact h

theorem Past.run (h : Past ps s) (depth : Nat) (path : String) (file : FileState) :
    Past (ps ++ acceptedFile file) (s.run depth path file).2 := by
  unfold acceptedFile Session.run
  cases file.read? with
  | error e =>
    rw [List.append_nil]
    exact h
  | ok content =>
    obtain ⟨source, parsed⟩ := content
    have hprepare := h.prepare depth path source parsed
    dsimp only
    generalize s.prepare depth path source parsed = prepared at hprepare ⊢
    obtain ⟨outcome, s₁⟩ := prepared
    cases outcome with
    | error halt => exact hprepare
    | ok p =>
      have heval := hprepare.eval depth p
      dsimp only
      generalize s₁.eval depth p = evaluated at heval ⊢
      obtain ⟨value, s₂⟩ := evaluated
      cases value with
      | none => exact heval
      | some x => exact heval

theorem Submitted.past (h : Submitted ps s) : Past ps s := by
  induction h with
  | new => exact .new
  | expand depth p _ ih => exact ih.expand depth p
  | eval depth p _ ih => exact ih.eval depth p
  | prepare depth path source parsed _ ih => exact ih.prepare depth path source parsed
  | run depth path file _ ih => exact ih.run depth path file
  | takeOutput _ ih => exact ih.takeOutput

/-- Macros stay in their scope. The scope of macros binds every name that was defined to the last macro defined under it, and nothing else. No value that is bound within reach of the scope of evaluation holds a macro, nor does any value that a program comes to. What is spliced into a quote holds none either, as any probe may confirm that looks at the values of an expansion while it runs; and it is such quotes that calls of macros give way to. -/
theorem macros_stay_in_their_scope (h : Submitted ps s) :
    (∃ (bindings : Bindings) (ids : String → Identity), s.store.scopes[s.macros]? = some ⟨bindings, none⟩ ∧
      ∀ name, bindings.lookup name =
        (definitionOf (definitionsOf ps) name).map fun d => .macroValue (ids name) d.params d.body s.macros) ∧
    (∀ i scope, Relation.ReflTransGen s.store.Leads s.scope i → s.store.scopes[i]? = some scope →
      ∀ b ∈ scope.bindings, b.2.holds .macroKind = false) ∧
    (∀ depth p x, (s.eval depth p).1 = some x → x.holds .macroKind = false) ∧
    (∀ probe : Value → Eval Unit, (∀ x t, x.holds .macroKind = false → probe x t = .ok () t) →
      ∀ depth (p : Program), p.expandMacrosWith (Eval.splicing probe depth) s.macros = p.expandMacros depth s.macros) ∧
    ∀ depth name params body scope span args t node t',
      Expansion.invoke depth name params body scope span args t = .ok node t' →
        ∃ id, Expansion.runBody depth params body scope args t = .ok (.quote id node) t' := by
  obtain ⟨region, hstore, hscope, hlt, _⟩ := h.past.divided
  have hcollected := h.past.collected
  obtain ⟨ids, hmacros⟩ := hcollected.store
  rw [← hcollected.macros] at hmacros
  refine ⟨?_, ?_, ?_, ?_, ?_⟩
  · obtain ⟨bindings, hbound⟩ := hmacros.bound
    exact ⟨bindings, ids, hbound⟩
  · intro i scope hreach hi b hb
    exact ((hstore.scopes i scope (hstore.reachable hscope hreach) hi).bindings b hb).holds_macroKind
  · intro depth p
    exact (eval_confined hstore hscope hlt depth p).2.2
  · intro probe hprobe depth p
    rw [splicing_eq hprobe, Program.expandMacrosWith_expr]
  · intro depth name params body scope span args t node t' hinvoke
    exact Expansion.exists_quote hinvoke

/-- Defines a macro whose body has another one among its values, and calls it. -/
def handling : FileState :=
  .file "let m = macro() \x7b quote(1) \x7d; let n = macro() \x7b let xs = [m, \x7b1: m\x7d]; quote(unquote(len(xs))) \x7d; let x = n();".toUTF8.toList

/-- The macro that was handled did not get to where the program runs. -/
theorem macros_stay_in_their_scope_handled :
    ∃ s : Session, Submitted (acceptedFile handling) s ∧
      (s.store.scopes[s.macros]?.map fun scope => scope.bindings.map (·.1)) = some ["m", "n"] ∧
      (s.store.scopes[s.scope]?.map fun scope => scope.bindings.map (·.1)) = some ["x"] ∧
      ∀ i scope, Relation.ReflTransGen s.store.Leads s.scope i → s.store.scopes[i]? = some scope →
        ∀ b ∈ scope.bindings, b.2.holds .macroKind = false := by
  have hsubmitted := Submitted.new.run 9 "" handling
  rw [List.nil_append] at hsubmitted
  exact ⟨_, hsubmitted, by decide +kernel, by decide +kernel, (macros_stay_in_their_scope hsubmitted).2.1⟩

end Session

end Simian
