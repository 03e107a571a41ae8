import Simian.Proofs.Eval.Context
import Simian.Proofs.Store.Effect
import Simian.Proofs.Store.Likeness

/-!
# Stores that grow

Most of what runs leaves the scopes that were there as they were and only makes new ones behind them. Names that are looked up in an old scope then mean what they meant before, and a function that is called gets a new scope with its parameters bound and nothing else.
-/

namespace Simian

namespace Store

variable {s t u : Store} {i own : ScopeId} {scope : Scope} {name : String}

/-- All the scopes of the one store are in the other, as they were. -/
def Grown (s t : Store) : Prop :=
  ∀ i < s.scopes.size, t.scopes[i]? = s.scopes[i]?

theorem Grown.of_eq (h : t.scopes = s.scopes) : s.Grown t :=
  fun _ _ => h ▸ rfl

theorem Grown.getElem? (h : s.Grown t) (hscope : s.scopes[i]? = some scope) : t.scopes[i]? = some scope :=
  (h i (Array.getElem?_eq_some_iff.mp hscope).1).trans hscope

theorem Grown.size_le (h : s.Grown t) : s.scopes.size ≤ t.scopes.size := by
  refine Nat.le_of_not_lt fun hlt => ?_
  have hsame := h t.scopes.size hlt
  rw [Array.getElem?_eq_none (Nat.le_refl _), Array.getElem?_eq_getElem hlt] at hsame
  exact nomatch hsame

theorem Grown.trans (h : s.Grown t) (h' : t.Grown u) : s.Grown u :=
  fun i hi => (h' i (Nat.lt_of_lt_of_le hi h.size_le)).trans (h i hi)

/-- What writes to a new scope leaves the old ones alone. -/
theorem Grown.frame (h : s.Grown t) (hframe : Frame own t u) (hown : s.scopes.size ≤ own) : s.Grown u := by
  intro i hi
  have hne : i ≠ own := Nat.ne_of_lt (Nat.lt_of_lt_of_le hi hown)
  exact ((hframe i (Nat.lt_of_lt_of_le hi h.size_le)).2 hne).trans (h i hi)

theorem grown_push (s : Store) (scope : Scope) : s.Grown { s with scopes := s.scopes.push scope } :=
  fun _ hi => (Array.getElem?_push_lt hi).trans (Array.getElem?_eq_getElem hi).symm

theorem getElem?_bind_self (hscope : s.scopes[i]? = some scope) (name : String) (value : Value) :
    (s.bind i name value).scopes[i]? = some { scope with bindings := Bindings.set name value scope.bindings } := by
  simp [bind, Array.getElem?_modify, hscope]

/-- A name means what the scope binds it to, or else what it means in the scope around. -/
theorem lookup_eq (hscope : s.scopes[i]? = some scope) :
    s.lookup i name = (scope.bindings.lookup name).or (scope.outer.bind fun o => s.lookup o name) := by
  rw [← find?_eq_lookup (Nat.le_succ s.scopes.size), find?, hscope]
  dsimp only
  cases scope.bindings.lookup name with
  | some value => rfl
  | none =>
    cases scope.outer with
    | none => rfl
    | some outer => rfl

/-! ### What names mean from now on -/

/-- What the name means in the scope, in this store and in every one that it grows to. -/
def Means (s : Store) (i : ScopeId) (name : String) (value? : Option Value) : Prop :=
  ∀ t, s.Grown t → t.lookup i name = value?

theorem Means.mono {value? : Option Value} (h : s.Means i name value?) (hgrown : s.Grown t) : t.Means i name value? :=
  fun u hu => h u (hgrown.trans hu)

theorem Means.lookup {value? : Option Value} (h : s.Means i name value?) : s.lookup i name = value? :=
  h s (.of_eq rfl)

theorem means_of_bound {value : Value} (hscope : s.scopes[i]? = some scope)
    (hname : scope.bindings.lookup name = some value) : s.Means i name (some value) := by
  intro t hgrown
  rw [lookup_eq (hgrown.getElem? hscope), hname, Option.some_or]

theorem means_of_outer {bindings : Bindings} {o : ScopeId} {value? : Option Value}
    (hscope : s.scopes[i]? = some ⟨bindings, some o⟩) (hname : bindings.lookup name = none)
    (houter : s.Means o name value?) : s.Means i name value? := by
  intro t hgrown
  rw [lookup_eq (hgrown.getElem? hscope), hname, Option.none_or]
  exact houter t hgrown

theorem means_of_unbound {bindings : Bindings} (hscope : s.scopes[i]? = some ⟨bindings, none⟩)
    (hname : bindings.lookup name = none) : s.Means i name none := by
  intro t hgrown
  rw [lookup_eq (hgrown.getElem? hscope), hname, Option.none_or]
  rfl

/-! ### Scopes of calls -/

/-- The parameters bound to the arguments, from left to right. -/
def bound (params : List Binder) (args : List Value) : Bindings :=
  (params.zip args).foldl (fun bindings p => Bindings.set p.1.name p.2 bindings) []

/-- The store with a new scope for a call. -/
def entered (s : Store) (outer : ScopeId) (params : List Binder) (args : List Value) : Store :=
  { s with scopes := s.scopes.push ⟨bound params args, some outer⟩ }

theorem grown_entered (s : Store) (outer : ScopeId) (params : List Binder) (args : List Value) :
    s.Grown (s.entered outer params args) :=
  s.grown_push _

theorem getElem?_entered (s : Store) (outer : ScopeId) (params : List Binder) (args : List Value) :
    (s.entered outer params args).scopes[s.scopes.size]? = some ⟨bound params args, some outer⟩ :=
  Array.getElem?_push_size

theorem bind_push (s : Store) (scope : Scope) (name : String) (value : Value) :
    Store.bind { s with scopes := s.scopes.push scope } s.scopes.size name value =
      { s with scopes := s.scopes.push { scope with bindings := Bindings.set name value scope.bindings } } := by
  have hmodify (f : Scope → Scope) : (s.scopes.push scope).modify s.scopes.size f = s.scopes.push (f scope) := by
    refine Array.ext_getElem? fun i => ?_
    rw [Array.getElem?_modify, Array.getElem?_push, Array.getElem?_push]
    by_cases hi : i = s.scopes.size
    · rw [if_pos hi.symm, if_pos hi, if_pos hi]
      rfl
    · rw [if_neg (Ne.symm hi), if_neg hi, if_neg hi]
  rw [Store.bind, hmodify]

end Store

namespace Eval

theorem bindAll_push (s : Store) (bindings : Bindings) (outer : Option ScopeId) (params : List Binder)
    (args : List Value) :
    bindAll s.scopes.size params args { s with scopes := s.scopes.push ⟨bindings, outer⟩ } =
      .ok () { s with
        scopes := s.scopes.push
          ⟨(params.zip args).foldl (fun bindings p => Bindings.set p.1.name p.2 bindings) bindings, outer⟩ } := by
  induction params generalizing bindings args with
  | nil => rfl
  | cons param params ih =>
    cases args with
    | nil => rfl
    | cons arg args =>
      have hbind : bind s.scopes.size param.name arg { s with scopes := s.scopes.push ⟨bindings, outer⟩ } = _ :=
        congrArg (EStateM.Result.ok ()) (s.bind_push ⟨bindings, outer⟩ param.name arg)
      have hrest := ih (Bindings.set param.name arg bindings) args
      exact (bind_of_ok (k := fun _ => bindAll s.scopes.size params args) hbind).trans hrest

theorem enter_eq (s : Store) (outer : ScopeId) (params : List Binder) (args : List Value) :
    enter outer params args s = .ok s.scopes.size (s.entered outer params args) := by
  have hbind := bindAll_push s [] (some outer) params args
  exact bind_of_ok (k := fun _ => pure s.scopes.size) hbind

end Eval

end Simian
