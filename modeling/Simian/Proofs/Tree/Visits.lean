import Simian.Proofs.Expansion.Position
import Simian.Proofs.Tree.Children

/-!
# The order of visits

A transformation calls its function once for every expression of a program, in postorder: the children of an expression come before it, from left to right, and what the function returns is put in their place and not looked into. So the calls follow a list that is known before the first of them, whatever the function does, up to the first call that fails. The run is described by its visits, the latest first; where the visits to the children of an expression are found there depends only on how many expressions are in the children behind each of them.
-/

namespace Simian

variable {ε σ : Type}

/-! ### Children first -/

section Children

variable {m : Type → Type} [Monad m] [LawfulMonad m] (f : Expr → m Expr)

theorem Stmt.transformM_eq (s : Stmt) : s.transformM f = s.withValue <$> s.value.transformM f := by
  cases s <;> rw [map_eq_pure_bind] <;> rfl

theorem transformStatementsM_eq (ss : List Stmt) :
    transformStatementsM f ss = List.zipWith Stmt.withValue ss <$> transformListM f (ss.map Stmt.value) := by
  induction ss with
  | nil => simp [transformStatementsM, transformListM]
  | cons s ss ih => simp [transformStatementsM, transformListM, ih, s.transformM_eq]

theorem Block.transformM_eq (b : Block) : b.transformM f = b.withValues <$> transformListM f b.values := by
  obtain ⟨span, ss⟩ := b
  rw [transformM, transformStatementsM_eq, bind_map_left, map_eq_pure_bind]
  rfl

theorem transformElseM_eq (alternative : Option Block) :
    transformElseM f alternative =
      (fun values => alternative.map (·.withValues values)) <$> transformListM f (elseValues alternative) := by
  cases alternative with
  | none => simp [transformElseM, elseValues, transformListM]
  | some block => simp [transformElseM, elseValues, Block.transformM_eq]

theorem transformPairsM_eq (pairs : List (Expr × Expr)) :
    transformPairsM f pairs = paired <$> transformListM f (unpaired pairs) := by
  induction pairs with
  | nil => simp [transformPairsM, unpaired, transformListM, paired]
  | cons pair pairs ih =>
    have hunpaired : unpaired (pair :: pairs) = pair.1 :: pair.2 :: unpaired pairs := rfl
    simp [transformPairsM, transformListM, ih, hunpaired, paired]

end Children

theorem bind_congr_of_ok {α β : Type} {p : EStateM ε σ α} {k k' : α → EStateM ε σ β}
    (h : ∀ s a t, p s = .ok a t → k a = k' a) : p >>= k = p >>= k' := by
  funext s
  change EStateM.bind p k s = EStateM.bind p k' s
  rw [EStateM.bind, EStateM.bind]
  cases hp : p s with
  | ok a t => exact congrFun (h s a t hp) t
  | error e t => rfl

theorem exists_of_bind_ok {α β : Type} {p : EStateM ε σ α} {k : α → EStateM ε σ β} {b : β} {s u : σ}
    (h : (p >>= k) s = .ok b u) : ∃ a t, p s = .ok a t ∧ k a t = .ok b u := by
  change EStateM.bind p k s = _ at h
  rw [EStateM.bind] at h
  cases hp : p s with
  | ok a t =>
    rw [hp] at h
    exact ⟨a, t, rfl, h⟩
  | error e t =>
    rw [hp] at h
    exact nomatch h

theorem exists_of_bind_error {α β : Type} {p : EStateM ε σ α} {k : α → EStateM ε σ β} {e : ε} {s u : σ}
    (h : (p >>= k) s = .error e u) : p s = .error e u ∨ ∃ a t, p s = .ok a t ∧ k a t = .error e u := by
  change EStateM.bind p k s = _ at h
  rw [EStateM.bind] at h
  cases hp : p s with
  | ok a t =>
    rw [hp] at h
    exact .inr ⟨a, t, rfl, h⟩
  | error e t =>
    rw [hp] at h
    cases h
    exact .inl rfl

theorem length_of_transformListM {f : Expr → EStateM ε σ Expr} {es results : List Expr} {s t : σ}
    (h : transformListM f es s = .ok results t) : results.length = es.length := by
  induction es generalizing results s t with
  | nil =>
    cases h
    rfl
  | cons e es ih =>
    obtain ⟨result, s₁, _, hrest⟩ := exists_of_bind_ok h
    obtain ⟨results', s₂, hes, hresults⟩ := exists_of_bind_ok hrest
    cases hresults
    exact congrArg Nat.succ (ih hes)

/-- To transform an expression is to transform its children, and then to hand it over with the results in their place. -/
theorem Expr.transformM_eq (f : Expr → EStateM ε σ Expr) (e : Expr) :
    e.transformM f = transformListM f e.children >>= fun results => f (e.withChildren results) := by
  cases e with
  | cond span condition consequence alternative =>
    simp only [transformM, children, transformListM, transformListM_append, Block.transformM_eq, transformElseM_eq,
      bind_map_left, bind_assoc, pure_bind]
    refine bind_congr fun condition' => bind_congr_of_ok fun s values t hvalues => bind_congr fun more => ?_
    -- the values of both blocks come in one list, which is cut where those of the first block end
    rw [withChildren_cond]
    exact (length_of_transformListM hvalues).trans consequence.length_values
  | fn span params body => simp [transformM, children, Block.transformM_eq, withChildren]
  | hash span pairs => simp [transformM, children, transformPairsM_eq, withChildren]
  | _ => simp [transformM, children, transformListM, withChildren]

theorem Program.transformM_eq (f : Expr → EStateM ε σ Expr) (p : Program) :
    p.transformM f = transformListM f p.values >>= fun values => pure (p.withValues values) := by
  simp only [transformM, transformStatementsM_eq, bind_map_left]
  rfl

/-! ### Statement by statement -/

section Statements

variable {f : Expr → EStateM ε σ Expr} {s t : σ}

theorem Program.transformM_of_ok {p : Program} {ss : List Stmt} (h : transformStatementsM f p.statements s = .ok ss t) :
    p.transformM f s = .ok { p with statements := ss } t :=
  Eval.bind_of_ok h

theorem Program.transformM_of_error {p : Program} {e : ε} (h : transformStatementsM f p.statements s = .error e t) :
    p.transformM f s = .error e t :=
  Eval.bind_of_error h

/-- Each statement was transformed in a state with what holds at first and is kept from statement to statement. -/
theorem forall₂_of_transformStatementsM {P : σ → Prop} {ss ss' : List Stmt}
    (hkeep : ∀ st ∈ ss, ∀ st' s t, P s → st.transformM f s = .ok st' t → P t) (hs : P s)
    (h : transformStatementsM f ss s = .ok ss' t) :
    List.Forall₂ (fun st st' => ∃ s t, P s ∧ st.transformM f s = .ok st' t) ss ss' := by
  induction ss generalizing ss' s t with
  | nil =>
    cases h
    exact .nil
  | cons st ss ih =>
    obtain ⟨st', s₁, hst, hrest⟩ := exists_of_bind_ok h
    obtain ⟨rest, s₂, hss, hresult⟩ := exists_of_bind_ok hrest
    cases hresult
    rw [List.forall_mem_cons] at hkeep
    exact .cons ⟨s, s₁, hs, hst⟩ (ih hkeep.2 (hkeep.1 st' s s₁ hs hst) hss)

/-- The first statement that fails is the last one to be transformed. -/
theorem exists_of_transformStatementsM_error {ss : List Stmt} {e : ε} (h : transformStatementsM f ss s = .error e t) :
    ∃ before st after ss' s₁, ss = before ++ st :: after ∧ transformStatementsM f before s = .ok ss' s₁ ∧
      st.transformM f s₁ = .error e t := by
  induction ss generalizing s with
  | nil => exact nomatch h
  | cons st ss ih =>
    obtain hst | ⟨st', s₁, hst, hrest⟩ := exists_of_bind_error h
    · exact ⟨[], st, ss, [], s, rfl, rfl, hst⟩
    obtain hss | ⟨ss', s₂, _, hpure⟩ := exists_of_bind_error hrest
    · obtain ⟨before, failing, after, ss', s₂, rfl, hbefore, hfailing⟩ := ih hss
      exact ⟨st :: before, failing, after, st' :: ss', s₂, rfl,
        (Eval.bind_of_ok hst).trans (Eval.bind_of_ok hbefore), hfailing⟩
    · exact nomatch hpure

theorem transformStatementsM_of_error {before ss' : List Stmt} {st : Stmt} {e : ε} {s₁ : σ}
    (hbefore : transformStatementsM f before s = .ok ss' s₁) (hst : st.transformM f s₁ = .error e t)
    (after : List Stmt) : transformStatementsM f (before ++ st :: after) s = .error e t := by
  have hrest : transformStatementsM f (st :: after) s₁ = .error e t := Eval.bind_of_error hst
  rw [transformStatementsM_append, Eval.bind_of_ok hbefore]
  exact Eval.bind_of_error hrest

theorem Stmt.transformM_of_ok {st : Stmt} {value : Expr} (h : st.value.transformM f s = .ok value t) :
    st.transformM f s = .ok (st.withValue value) t := by
  rw [transformM_eq, map_eq_pure_bind]
  exact Eval.bind_of_ok h

theorem Stmt.transformM_error {st : Stmt} {e : ε} (h : st.transformM f s = .error e t) :
    st.value.transformM f s = .error e t := by
  rw [transformM_eq, map_eq_pure_bind] at h
  obtain hvalue | ⟨value, s₁, _, hpure⟩ := exists_of_bind_error h
  · exact hvalue
  · exact nomatch hpure

end Statements

/-! ### Visits -/

/-- An expression and those in it, children before their parents and from left to right. -/
def Expr.postorder (e : Expr) : List Expr :=
  e.children.attach.flatMap (fun child => child.1.postorder) ++ [e]
termination_by sizeOf e
decreasing_by exact sizeOf_lt_of_mem_children child.2

theorem Expr.postorder_eq (e : Expr) : e.postorder = e.children.flatMap postorder ++ [e] := by
  rw [postorder]
  simp

theorem Expr.mem_postorder {e x : Expr} : x ∈ e.postorder ↔ x = e ∨ ∃ child ∈ e.children, x ∈ child.postorder := by
  rw [postorder_eq, List.mem_append, List.mem_singleton, List.mem_flatMap, or_comm]

theorem Expr.exists_mem_postorder {P : Expr → Prop} {e : Expr} :
    (∃ x ∈ e.postorder, P x) ↔ P e ∨ ∃ child ∈ e.children, ∃ x ∈ child.postorder, P x := by
  constructor
  · rintro ⟨x, hx, hP⟩
    obtain rfl | ⟨child, hchild, hbelow⟩ := mem_postorder.mp hx
    · exact .inl hP
    · exact .inr ⟨child, hchild, x, hbelow, hP⟩
  · rintro (hP | ⟨child, hchild, x, hbelow, hP⟩)
    · exact ⟨e, mem_postorder.mpr (.inl rfl), hP⟩
    · exact ⟨x, mem_postorder.mpr (.inr ⟨child, hchild, hbelow⟩), hP⟩

def Program.postorder (p : Program) : List Expr := p.values.flatMap Expr.postorder

/-- A call that was made: the node it was for, and what it returned. -/
structure Visit where
  node : Expr
  result : Expr

/-- For each of the expressions, how many calls are made for those that come behind it. -/
def callsBehind : List Expr → List Nat
  | [] => []
  | _ :: es => (es.flatMap Expr.postorder).length :: callsBehind es

/-- The visits to the expressions, right after all of them are through; the latest visit stands first in `done`. -/
structure Latest (done : List Visit) (es : List Expr) (visits : List Visit) : Prop where
  found : (callsBehind es).map (done[·]?) = visits.map some
  nodes : visits.map Visit.node = es

/-- The function is called for the nodes one by one, each with the results of the latest visits to its children in their place, up to the first call that fails. The list tells what it is called with. -/
inductive Calls (f : Expr → EStateM ε σ Expr) :
    List Visit → List Expr → σ → List Expr → EStateM.Result ε σ (List Visit) → Prop
  | done (done : List Visit) (s : σ) : Calls f done [] s [] (.ok done s)
  | fails {done visits : List Visit} {node : Expr} {nodes : List Expr} {s t : σ} {e : ε}
      (hchildren : Latest done node.children visits)
      (hcall : f (node.withChildren (visits.map Visit.result)) s = .error e t) :
      Calls f done (node :: nodes) s [node.withChildren (visits.map Visit.result)] (.error e t)
  | next {done visits : List Visit} {node result : Expr} {nodes arguments : List Expr} {s t : σ}
      {outcome : EStateM.Result ε σ (List Visit)} (hchildren : Latest done node.children visits)
      (hcall : f (node.withChildren (visits.map Visit.result)) s = .ok result t)
      (hrest : Calls f (⟨node, result⟩ :: done) nodes t arguments outcome) :
      Calls f done (node :: nodes) s (node.withChildren (visits.map Visit.result) :: arguments) outcome

/-- The result of a run, with a record next to the state. -/
def withRecord {α : Type} (record : List Expr) : EStateM.Result ε σ α → EStateM.Result ε (List Expr × σ) α
  | .ok a t => .ok a (record, t)
  | .error e t => .error e (record, t)

/-- The function, keeping a record of what it is called with. -/
def recorded (f : Expr → EStateM ε σ Expr) (e : Expr) : EStateM ε (List Expr × σ) Expr :=
  fun s => withRecord (s.1 ++ [e]) (f e s.2)

section Visits

variable {f : Expr → EStateM ε σ Expr} {done done' : List Visit} {nodes more arguments arguments' : List Expr} {s t : σ}

theorem Calls.append (h : Calls f done nodes s arguments (.ok done' t)) {outcome : EStateM.Result ε σ (List Visit)}
    (h' : Calls f done' more t arguments' outcome) : Calls f done (nodes ++ more) s (arguments ++ arguments') outcome := by
  generalize hend : EStateM.Result.ok done' t = outcome' at h
  induction h with
  | done =>
    cases hend
    exact h'
  | fails => exact nomatch hend
  | next hchildren hcall _ ih => exact .next hchildren hcall (ih hend)

theorem Calls.append_of_error {e : ε} (h : Calls f done nodes s arguments (.error e t)) (more : List Expr) :
    Calls f done (nodes ++ more) s arguments (.error e t) := by
  generalize hend : EStateM.Result.error e t = outcome at h ⊢
  induction h with
  | done => exact nomatch hend
  | fails hchildren hcall => exact .fails hchildren hcall
  | next hchildren hcall _ ih => exact .next hchildren hcall (ih hend)

/-- Of two computations, one with the function and one with its record kept, that both make the calls for the nodes: what has come of the visits if all calls succeed. -/
def Serves {α : Type} (f : Expr → EStateM ε σ Expr) (done : List Visit) (nodes : List Expr) (s : σ)
    (good : α → List Visit → Prop) (p : EStateM ε σ α) (q : EStateM ε (List Expr × σ) α) : Prop :=
  ∃ arguments, (∀ record, q (record, s) = withRecord (record ++ arguments) (p s)) ∧
    match p s with
    | .ok a t => ∃ new, new.length = nodes.length ∧ good a new ∧ Calls f done nodes s arguments (.ok (new ++ done) t)
    | .error e t => Calls f done nodes s arguments (.error e t)

variable {α β : Type} {good : α → List Visit → Prop} {good' : β → List Visit → Prop}

theorem Serves.bind {p : EStateM ε σ α} {q : EStateM ε (List Expr × σ) α} {k : α → EStateM ε σ β}
    {l : α → EStateM ε (List Expr × σ) β} (h : Serves f done nodes s good p q)
    (hk : ∀ a new t, new.length = nodes.length → good a new →
      Serves f (new ++ done) more t (fun b new' => good' b (new' ++ new)) (k a) (l a)) :
    Serves f done (nodes ++ more) s good' (p >>= k) (q >>= l) := by
  obtain ⟨arguments, hrecord, houtcome⟩ := h
  have hbind : (p >>= k) s = EStateM.bind p k s := rfl
  have hbind' : ∀ record, (q >>= l) (record, s) = EStateM.bind q l (record, s) := fun _ => rfl
  unfold Serves
  simp only [hbind, hbind', EStateM.bind, hrecord]
  cases hp : p s with
  | error e t =>
    rw [hp] at houtcome
    exact ⟨arguments, fun _ => rfl, houtcome.append_of_error more⟩
  | ok a t =>
    rw [hp] at houtcome
    obtain ⟨new, hlength, hgood, hcalls⟩ := houtcome
    obtain ⟨arguments', hrecord', houtcome'⟩ := hk a new t hlength hgood
    refine ⟨arguments ++ arguments', fun record => ?_, ?_⟩
    · simp only [withRecord, hrecord', List.append_assoc]
    · cases hq : k a t with
      | error e u =>
        rw [hq] at houtcome'
        simp only [hq]
        exact hcalls.append houtcome'
      | ok b u =>
        rw [hq] at houtcome'
        obtain ⟨new', hlength', hgood', hcalls'⟩ := houtcome'
        simp only [hq]
        refine ⟨new' ++ new, ?_, hgood', ?_⟩
        · simp [hlength, hlength', Nat.add_comm]
        · rw [List.append_assoc]
          exact hcalls.append hcalls'

theorem Serves.imp {good' : α → List Visit → Prop} {p : EStateM ε σ α} {q : EStateM ε (List Expr × σ) α}
    (h : Serves f done nodes s good p q) (himp : ∀ a new, good a new → good' a new) :
    Serves f done nodes s good' p q := by
  obtain ⟨arguments, hrecord, houtcome⟩ := h
  refine ⟨arguments, hrecord, ?_⟩
  cases hp : p s with
  | error e t =>
    rw [hp] at houtcome
    exact houtcome
  | ok a t =>
    rw [hp] at houtcome
    obtain ⟨new, hlength, hgood, hcalls⟩ := houtcome
    exact ⟨new, hlength, himp a new hgood, hcalls⟩

/-- What is made of a result needs no call. -/
theorem Serves.map {p : EStateM ε σ α} {q : EStateM ε (List Expr × σ) α} {g : α → β}
    (h : Serves f done nodes s good p q) (hg : ∀ a new, new.length = nodes.length → good a new → good' (g a) new) :
    Serves f done nodes s good' (p >>= fun a => pure (g a)) (q >>= fun a => pure (g a)) := by
  have hpure : ∀ a new t, new.length = nodes.length → good a new →
      Serves f (new ++ done) [] t (fun b new' => good' b (new' ++ new)) (pure (g a) : EStateM ε σ β) (pure (g a)) := by
    intro a new t hlength hgood
    refine ⟨[], fun record => ?_, [], rfl, hg a new hlength hgood, .done _ _⟩
    rw [List.append_nil]
    rfl
  have hbind := h.bind hpure
  rwa [List.append_nil] at hbind

theorem serves_call {visits : List Visit} {node : Expr} (hchildren : Latest done node.children visits) (s : σ) :
    Serves f done [node] s (fun result new => new = [⟨node, result⟩])
      (f (node.withChildren (visits.map Visit.result))) (recorded f (node.withChildren (visits.map Visit.result))) := by
  refine ⟨[node.withChildren (visits.map Visit.result)], fun record => rfl, ?_⟩
  cases hcall : f (node.withChildren (visits.map Visit.result)) s with
  | ok result t => exact ⟨[⟨node, result⟩], rfl, rfl, .next hchildren hcall (.done _ _)⟩
  | error e t => exact .fails hchildren hcall

/-- The visits to a list of expressions are found among those that were made for it. -/
theorem serves_list {es : List Expr} (hes : ∀ e ∈ es, ∀ done s, Serves f done e.postorder s
      (fun result new => ∃ rest, new = ⟨e, result⟩ :: rest) (e.transformM f) (e.transformM (recorded f)))
    (done : List Visit) (s : σ) :
    Serves f done (es.flatMap Expr.postorder) s
      (fun results new => ∃ visits, Latest (new ++ done) es visits ∧ visits.map Visit.result = results)
      (transformListM f es) (transformListM (recorded f) es) := by
  induction es generalizing done s with
  | nil =>
    refine ⟨[], fun record => ?_, [], rfl, ⟨[], ⟨rfl, rfl⟩, rfl⟩, .done _ _⟩
    rw [List.append_nil]
    rfl
  | cons e es ih =>
    rw [List.forall_mem_cons] at hes
    rw [List.flatMap_cons]
    apply (hes.1 done s).bind
    rintro result _ t - ⟨rest, rfl⟩
    apply (ih hes.2 (⟨e, result⟩ :: rest ++ done) t).map
    rintro results new hlength ⟨visits, ⟨hfound, hnodes⟩, rfl⟩
    have hlatest : (new ++ (⟨e, result⟩ :: rest ++ done))[(es.flatMap Expr.postorder).length]? =
        some ⟨e, result⟩ := by simp [← hlength]
    refine ⟨⟨e, result⟩ :: visits, ⟨?_, congrArg (e :: ·) hnodes⟩, rfl⟩
    rw [List.append_assoc]
    exact congrArg₂ List.cons hlatest hfound

theorem Expr.serves (e : Expr) : ∀ done s, Serves f done e.postorder s
    (fun result new => ∃ rest, new = ⟨e, result⟩ :: rest) (e.transformM f) (e.transformM (recorded f)) := by
  induction e using Expr.of_children with
  | h e ih =>
    intro done s
    rw [postorder_eq, transformM_eq, transformM_eq]
    apply (serves_list ih done s).bind
    rintro _ new t - ⟨visits, hchildren, rfl⟩
    apply (serves_call hchildren t).imp
    rintro result _ rfl
    exact ⟨new, rfl⟩

theorem Program.serves (p : Program) (s : σ) : Serves f [] p.postorder s
    (fun q new => ∃ visits, Latest new p.values visits ∧ q = p.withValues (visits.map Visit.result))
    (p.transformM f) (p.transformM (recorded f)) := by
  rw [transformM_eq, transformM_eq]
  apply (serves_list (fun e _ => e.serves) [] s).map
  rintro _ new - ⟨visits, hvisits, rfl⟩
  rw [List.append_nil] at hvisits
  exact ⟨visits, hvisits, rfl⟩

end Visits

theorem Calls.exists_of_error {f : Expr → EStateM ε σ Expr} {done : List Visit} {nodes arguments : List Expr} {s t : σ}
    {e : ε} (h : Calls f done nodes s arguments (.error e t)) :
    ∃ node ∈ nodes, ∃ results s, f (node.withChildren results) s = .error e t := by
  generalize houtcome : EStateM.Result.error e t = outcome at h
  induction h with
  | done => exact nomatch houtcome
  | fails _ hcall =>
    cases houtcome
    exact ⟨_, List.mem_cons_self, _, _, hcall⟩
  | next _ _ _ ih =>
    obtain ⟨node, hnode, hfails⟩ := ih houtcome
    exact ⟨node, List.mem_cons_of_mem _ hnode, hfails⟩

/-- A transformation fails with the error of a call that was made for one of the expressions. -/
theorem Expr.exists_of_transformM_error {f : Expr → EStateM ε σ Expr} {e : Expr} {s t : σ} {error : ε}
    (h : e.transformM f s = .error error t) :
    ∃ node ∈ e.postorder, ∃ results s, f (node.withChildren results) s = .error error t := by
  obtain ⟨arguments, _, hcalls⟩ := e.serves (f := f) [] s
  rw [h] at hcalls
  exact hcalls.exists_of_error

/-! ### Functions that change nothing -/

section Returns

variable {f : Expr → EStateM ε σ Expr} {P : σ → Prop}

theorem transformListM_of_returns {es : List Expr}
    (h : ∀ e ∈ es, ∀ s, P s → ∃ t, P t ∧ e.transformM f s = .ok e t) {s : σ} (hs : P s) :
    ∃ t, P t ∧ transformListM f es s = .ok es t := by
  induction es generalizing s with
  | nil => exact ⟨s, hs, rfl⟩
  | cons e es ih =>
    rw [List.forall_mem_cons] at h
    obtain ⟨t, ht, he⟩ := h.1 s hs
    obtain ⟨u, hu, hes⟩ := ih h.2 ht
    exact ⟨u, hu, (Eval.bind_of_ok he).trans (Eval.bind_of_ok hes)⟩

theorem Expr.transformM_of_returns_on (e : Expr) (hf : ∀ x ∈ e.postorder, ∀ s, P s → ∃ t, P t ∧ f x s = .ok x t) :
    ∀ s, P s → ∃ t, P t ∧ e.transformM f s = .ok e t := by
  induction e using Expr.of_children with
  | h e ih =>
    intro s hs
    have hchildren : ∀ child ∈ e.children, ∀ s, P s → ∃ t, P t ∧ child.transformM f s = .ok child t :=
      fun child hchild => ih child hchild fun x hx => hf x (mem_postorder.mpr (.inr ⟨child, hchild, hx⟩))
    obtain ⟨t, ht, hlist⟩ := transformListM_of_returns hchildren hs
    obtain ⟨u, hu, hself⟩ := hf e (mem_postorder.mpr (.inl rfl)) t ht
    refine ⟨u, hu, ?_⟩
    rw [transformM_eq, Eval.bind_of_ok hlist, withChildren_children, hself]

/-- A function that returns the expressions of a program as they are, in all states that it leaves itself, leaves the program as it is. -/
theorem Program.transformM_of_returns_on (p : Program)
    (hf : ∀ x ∈ p.postorder, ∀ s, P s → ∃ t, P t ∧ f x s = .ok x t) {s : σ} (hs : P s) :
    ∃ t, P t ∧ p.transformM f s = .ok p t := by
  have hvalues : ∀ e ∈ p.values, ∀ s, P s → ∃ t, P t ∧ e.transformM f s = .ok e t :=
    fun e he => e.transformM_of_returns_on fun x hx => hf x (List.mem_flatMap.mpr ⟨e, he, hx⟩)
  obtain ⟨t, ht, hlist⟩ := transformListM_of_returns hvalues hs
  refine ⟨t, ht, ?_⟩
  rw [transformM_eq, Eval.bind_of_ok hlist, p.withValues_values]
  rfl

theorem Program.transformM_of_returns (hf : ∀ e s, ∃ t, f e s = .ok e t) (p : Program) (s : σ) :
    ∃ t, p.transformM f s = .ok p t := by
  have hreturns : ∀ x ∈ p.postorder, ∀ s, True → ∃ t, True ∧ f x s = .ok x t := by
    intro x _ s _
    obtain ⟨t, ht⟩ := hf x s
    exact ⟨t, trivial, ht⟩
  obtain ⟨t, _, ht⟩ := p.transformM_of_returns_on hreturns trivial
  exact ⟨t, ht⟩

end Returns

/-- A transformation visits every expression once, in postorder. Its function is called for the expressions of the program one by one, children before their parents and from left to right, whatever it returns, and each with what it returned for the children in their place; the values of the statements give way to what it returned for them. The first call that fails is the last one, and its error is the error of the whole. There are no other calls: a function that keeps a record of them has recorded these. And a function that returns what it is called with leaves the program as it is, spans included. -/
theorem transformation_visits_in_postorder (f : Expr → EStateM ε σ Expr) (p : Program) :
    (∀ s, ∃ arguments outcome, Calls f [] p.postorder s arguments outcome ∧
      (match outcome with
        | .ok done t => ∃ visits, Latest done p.values visits ∧
            p.transformM f s = .ok (p.withValues (visits.map Visit.result)) t
        | .error e t => p.transformM f s = .error e t) ∧
      p.transformM (recorded f) ([], s) = withRecord arguments (p.transformM f s)) ∧
    ((∀ e s, ∃ t, f e s = .ok e t) → ∀ s, ∃ t, p.transformM f s = .ok p t) := by
  refine ⟨fun s => ?_, fun hf => p.transformM_of_returns hf⟩
  obtain ⟨arguments, hrecord, houtcome⟩ := p.serves (f := f) s
  cases hp : p.transformM f s with
  | ok q t =>
    rw [hp] at houtcome
    obtain ⟨new, _, ⟨visits, hvisits, rfl⟩, hcalls⟩ := houtcome
    rw [List.append_nil] at hcalls
    exact ⟨arguments, .ok new t, hcalls, ⟨visits, hvisits, rfl⟩, hp ▸ hrecord []⟩
  | error e t =>
    rw [hp] at houtcome
    exact ⟨arguments, .error e t, houtcome, rfl, hp ▸ hrecord []⟩

/-- Counts the expressions it is called with. -/
def counting (e : Expr) : EStateM Unit Nat Expr := fun n => .ok e (n + 1)

/-- `f(-a, macro() { b })` -/
def negatedArgument : Program :=
  ⟨⟨0, 20⟩, [.expr ⟨0, 20⟩ (.call ⟨0, 20⟩ (.ident ⟨0, 1⟩ "f") [.unary ⟨2, 4⟩ .minus (.ident ⟨3, 4⟩ "a"),
    .macroLit ⟨6, 19⟩ [] (.mk ⟨14, 19⟩ [.expr ⟨16, 17⟩ (.ident ⟨16, 17⟩ "b")])])]⟩

theorem transformation_visits_in_postorder_counting :
    ∃ t, negatedArgument.transformM counting 0 = .ok negatedArgument t :=
  (transformation_visits_in_postorder counting negatedArgument).2 (fun _ n => ⟨n + 1, rfl⟩) 0

example : ((Program.transformM (fun e => do modify (· ++ [e.print]); return e)
      ⟨⟨0, 20⟩, [.expr ⟨0, 20⟩ (.call ⟨0, 20⟩ (.ident ⟨0, 1⟩ "f") [.unary ⟨2, 4⟩ .minus (.ident ⟨3, 4⟩ "a"),
        .macroLit ⟨6, 19⟩ [] (.mk ⟨14, 19⟩ [.expr ⟨16, 17⟩ (.ident ⟨16, 17⟩ "b")])])]⟩ : StateM (List String) Program).run
      []).2 = ["f", "a", "(-a)", "macro() \x7b b \x7d", "f((-a), macro() \x7b b \x7d)"] := rfl

end Simian
