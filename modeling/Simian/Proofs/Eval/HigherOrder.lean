import Mathlib.Algebra.Group.Nat.Defs
import Simian.Proofs.Eval.Natural

/-!
# Functions over arrays

Without loops in the language a function goes through an array with an inner function that calls itself with the rest of the array and an accumulated result. Mapping and reducing are such functions; they differ in the result that they start with and in what they make of it and the first element. What both do is proved once, with an invariant that relates the elements that are left to the result so far.

The inner function finds itself in the scope it was made in, since it is bound there before it is called, and so it does in whatever the store grows to. Its own parameters hide what the names mean outside.
-/

namespace Simian

theorem ofNat_beq_zero {n : Nat} (h : n < 2 ^ 64) : (Int64.ofNat n == 0) = decide (n = 0) := by
  rw [beq_eq_decide]
  refine decide_eq_decide.mpr ⟨fun heq => ?_, fun heq => heq ▸ rfl⟩
  have hbits := congrArg (fun n : Int64 => n.toBitVec.toNat) heq
  simp only [Int64.toBitVec_ofNat', BitVec.toNat_ofNat, Nat.mod_eq_of_lt h] at hbits
  exact hbits

namespace HigherOrder

open Eval

/-! ### Programs -/

def var (name : String) : Expr := .ident .nowhere name

def call (name : String) (args : List Expr) : Expr := .call .nowhere (var name) args

def param (name : String) : Binder := ⟨name, .nowhere⟩

def only (e : Expr) : Block := .mk .nowhere [.expr .nowhere e]

/-- `len(arr) == 0` -/
def atEnd : Expr := .binary .nowhere .equal (call "len" [var "arr"]) (.int .nowhere 0)

/-- `if (len(arr) == 0) { acc } else { iter(rest(arr), next); }` -/
def iterBody (acc : String) (next : Expr) : Block :=
  only (.cond .nowhere atEnd (only (var acc)) (some (only (call "iter" [call "rest" [var "arr"], next]))))

/-- `let iter = fn(arr, acc) { .. }; iter(arr, start);` -/
def loopBody (acc : String) (next start : Expr) : Block :=
  .mk .nowhere [.bind .nowhere (param "iter") (.fn .nowhere [param "arr", param acc] (iterBody acc next)),
    .expr .nowhere (call "iter" [var "arr", start])]

/-- The inner function of a loop that is run in the scope `m`. -/
def iterFn (id : Identity) (acc : String) (next : Expr) (m : ScopeId) : Value :=
  .function id [param "arr", param acc] (iterBody acc next) m

/-! ### The loop -/

/-- The accumulator hides none of the names that a loop uses. -/
def Apart (acc : String) : Prop :=
  acc ∉ ["arr", "iter", "len", "rest"]

instance (acc : String) : Decidable (Apart acc) :=
  inferInstanceAs (Decidable (acc ∉ ["arr", "iter", "len", "rest"]))

theorem Apart.ne_arr {acc : String} (h : Apart acc) : acc ≠ "arr" :=
  fun heq => h (heq ▸ List.mem_cons_self)

/-- What lies around the calls of a loop: the inner function by its name, and the builtins that it uses by theirs. -/
structure Around (s : Store) (id : Identity) (acc : String) (next : Expr) (m : ScopeId) : Prop where
  iter : s.Means m "iter" (some (iterFn id acc next m))
  len : s.Means m "len" none
  rest : s.Means m "rest" none

/-- The scope of a call of the inner function. -/
def inner (acc : String) (j : Identity) (xs : List Value) (a : Value) (m : ScopeId) : Scope :=
  ⟨[("arr", .array j xs), (acc, a)], some m⟩

variable {s t : Store} {id j : Identity} {acc name : String} {next start : Expr} {m c : ScopeId} {xs : List Value}
  {a : Value}

theorem Around.mono (h : Around s id acc next m) (hgrown : s.Grown t) : Around t id acc next m :=
  ⟨h.iter.mono hgrown, h.len.mono hgrown, h.rest.mono hgrown⟩

theorem lookup_arr (hc : t.scopes[c]? = some (inner acc j xs a m)) : t.lookup c "arr" = some (.array j xs) :=
  (Store.means_of_bound hc rfl).lookup

theorem lookup_acc (hacc : acc ≠ "arr") (hc : t.scopes[c]? = some (inner acc j xs a m)) :
    t.lookup c acc = some a := by
  refine (Store.means_of_bound hc ?_).lookup
  simp [inner, List.lookup_cons, beq_false_of_ne hacc]

/-- A name that is no parameter of the inner function means in a call what it means around it. -/
theorem lookup_outside {value? : Option Value} (harr : name ≠ "arr") (hacc : name ≠ acc)
    (hc : t.scopes[c]? = some (inner acc j xs a m)) (h : t.Means m name value?) : t.lookup c name = value? := by
  refine (Store.means_of_outer hc ?_ h).lookup
  simp [List.lookup_cons, beq_false_of_ne harr, beq_false_of_ne hacc]

theorem Around.inside (hacc : Apart acc) (h : Around t id acc next m)
    (hc : t.scopes[c]? = some (inner acc j xs a m)) :
    t.lookup c "iter" = some (iterFn id acc next m) ∧ t.lookup c "len" = none ∧ t.lookup c "rest" = none := by
  simp only [Apart, List.mem_cons, not_or, List.not_mem_nil, not_false_eq_true, and_true] at hacc
  obtain ⟨-, hiter, hlen, hrest⟩ := hacc
  exact ⟨lookup_outside (by decide) (Ne.symm hiter) hc h.iter, lookup_outside (by decide) (Ne.symm hlen) hc h.len,
    lookup_outside (by decide) (Ne.symm hrest) hc h.rest⟩

theorem yields_only {e : Expr} {x : Value} {u : Store} (he : Yields (fun depth => expr depth c e) t x u)
    (hx : x.Plain) : Yields (fun depth => block (expr depth) c (only e)) t x u :=
  yields_last .nowhere .null he hx.kind

/-- The test for the end looks at the length as a word, so there must be a word for it. -/
theorem yields_atEnd (hlength : xs.length < 2 ^ 64) (harr : t.lookup c "arr" = some (.array j xs))
    (hlen : t.lookup c "len" = none) :
    Yields (fun depth => expr depth c atEnd) t (.boolean (decide (xs.length = 0))) t := by
  have hargs := yields_list_cons (yields_name .nowhere harr rfl) (yields_list_nil t)
  have hcall : Builtin.len.call [.array j xs] t = .ok (.integer (Int64.ofNat xs.length)) t := rfl
  have hlength' := yields_call_builtin .nowhere .nowhere hlen hargs hcall rfl
  refine yields_binary .nowhere hlength' (yields_int .nowhere 0 t) ?_
  rw [← ofNat_beq_zero hlength]
  rfl

/-- At the end of the array the result is what was accumulated. -/
theorem yields_iterBody_nil (hacc : Apart acc) (haround : Around t id acc next m)
    (hc : t.scopes[c]? = some (inner acc j [] a m)) (ha : a.Plain) :
    Yields (fun depth => block (expr depth) c (iterBody acc next)) t a t := by
  have hlen := (haround.inside hacc hc).2.1
  have hresult := yields_name .nowhere (lookup_acc hacc.ne_arr hc) ha.isError
  have hcond := yields_then .nowhere (some (only (call "iter" [call "rest" [var "arr"], next])))
    (yields_atEnd (by decide) (lookup_arr hc) hlen) rfl (yields_only hresult ha)
  exact yields_only hcond ha

/-- Before the end the result is that of the next call. -/
theorem yields_iterBody_cons {x b y : Value} {u v : Store} (hacc : Apart acc) (haround : Around t id acc next m)
    (hlength : (x :: xs).length < 2 ^ 64) (hc : t.scopes[c]? = some (inner acc j (x :: xs) a m))
    (hb : Yields (fun depth => expr depth c next) t.fresh.2 b u)
    (hy : Yields (fun depth => apply (expr depth) (iterFn id acc next m) [.array t.nextId xs, b]) u y v)
    (hplain : y.Plain) :
    Yields (fun depth => block (expr depth) c (iterBody acc next)) t y v := by
  obtain ⟨hiter, hlen, hrest⟩ := haround.inside hacc hc
  have harr := yields_list_cons (yields_name .nowhere (lookup_arr hc) rfl) (yields_list_nil t)
  have hcall : Builtin.rest.call [.array j (x :: xs)] t = .ok (.array t.nextId xs) t.fresh.2 := rfl
  have hxs := yields_call_builtin .nowhere .nowhere hrest harr hcall rfl
  have hargs := yields_list_cons hxs (yields_list_cons hb (yields_list_nil u))
  have hagain := yields_call .nowhere (by decide) (yields_name .nowhere hiter rfl) hargs hy
  have hcond := yields_else .nowhere (only (var acc)) (yields_atEnd hlength (lookup_arr hc) hlen) rfl
    (yields_only hagain hplain)
  exact yields_only hcond hplain

theorem getElem?_entered_iter (hacc : Apart acc) (t : Store) (m : ScopeId) (j : Identity) (xs : List Value)
    (a : Value) :
    (t.entered m [param "arr", param acc] [.array j xs, a]).scopes[t.scopes.size]? = some (inner acc j xs a m) := by
  have hbound : Store.bound [param "arr", param acc] [.array j xs, a] = [("arr", .array j xs), (acc, a)] := by
    simp [Store.bound, param, Bindings.set, hacc.ne_arr.symm]
  rw [Store.getElem?_entered, hbound]
  rfl

/-- What a loop makes of its result at an element keeps the invariant, which relates the elements that are left to the result so far. -/
def Advances (s : Store) (acc : String) (next : Expr) (m : ScopeId) (Inv : List Value → Value → Prop) : Prop :=
  ∀ x xs a, Inv (x :: xs) a → ∀ t c j, s.Grown t → t.scopes[c]? = some (inner acc j (x :: xs) a m) →
    ∃ b u, Yields (fun depth => expr depth c next) t b u ∧ t.Grown u ∧ Inv xs b

/-- A call of the inner function goes through the array to its end, and keeps the invariant all the way. -/
theorem yields_iter {Inv : List Value → Value → Prop} (hacc : Apart acc) (hplain : ∀ xs a, Inv xs a → a.Plain)
    (hnext : Advances s acc next m Inv) (haround : Around s id acc next m) (hlength : xs.length < 2 ^ 64)
    (hgrown : s.Grown t) (ha : Inv xs a) :
    ∃ b u, Yields (fun depth => apply (expr depth) (iterFn id acc next m) [.array j xs, a]) t b u ∧
      t.Grown u ∧ Inv [] b := by
  -- Each call runs in a new scope, and what it hands on is made in a store that has grown by that.
  induction xs generalizing a j t with
  | nil =>
    have hc := getElem?_entered_iter hacc t m j [] a
    have hentered := t.grown_entered m [param "arr", param acc] [.array j [], a]
    have hbody := yields_iterBody_nil hacc (haround.mono (hgrown.trans hentered)) hc (hplain _ _ ha)
    exact ⟨a, _, yields_apply id rfl hbody (hplain _ _ ha), hentered, ha⟩
  | cons x xs ih =>
    have hc := getElem?_entered_iter hacc t m j (x :: xs) a
    have hentered := t.grown_entered m [param "arr", param acc] [.array j (x :: xs), a]
    have hstart := hgrown.trans hentered
    obtain ⟨b, u, hb, hadvanced, hinv⟩ := hnext x xs a ha (t.entered m _ _).fresh.2 _ j hstart hc
    obtain ⟨y, v, hy, hrest, hend⟩ := ih (Nat.lt_of_succ_lt hlength) (hstart.trans hadvanced) hinv
    have hbody := yields_iterBody_cons hacc (haround.mono hstart) hlength hc hb hy (hplain _ _ hend)
    exact ⟨y, v, yields_apply id rfl hbody (hplain _ _ hend), hentered.trans (hadvanced.trans hrest), hend⟩

/-- The store in which the loop of a function runs: the scope of the call has been made, and `iter` is bound in it. -/
def started (s : Store) (g : ScopeId) (params : List Binder) (args : List Value) (acc : String) (next : Expr) : Store :=
  (s.entered g params args).fresh.2.bind s.scopes.size "iter" (iterFn s.nextId acc next s.scopes.size)

section Started

variable {g : ScopeId} {params : List Binder} {args : List Value}

theorem grown_started : s.Grown (started s g params args acc next) := by
  have hentered : s.Grown (s.entered g params args).fresh.2 := s.grown_entered g params args
  exact hentered.frame (Store.frame_bind _ _ _ _) (Nat.le_refl _)

theorem getElem?_started : (started s g params args acc next).scopes[s.scopes.size]? =
    some ⟨Bindings.set "iter" (iterFn s.nextId acc next s.scopes.size) (Store.bound params args), some g⟩ := by
  have hscope : (s.entered g params args).fresh.2.scopes[s.scopes.size]? = some ⟨Store.bound params args, some g⟩ :=
    s.getElem?_entered g params args
  exact Store.getElem?_bind_self hscope _ _

theorem means_param {x : Value} (hname : name ≠ "iter") (hx : (Store.bound params args).lookup name = some x) :
    (started s g params args acc next).Means s.scopes.size name (some x) := by
  refine Store.means_of_bound getElem?_started ?_
  rw [Bindings.lookup_set, if_neg hname, hx]

theorem means_around {value? : Option Value} (hname : name ≠ "iter")
    (hbound : (Store.bound params args).lookup name = none) (hg : s.Means g name value?) :
    (started s g params args acc next).Means s.scopes.size name value? := by
  refine Store.means_of_outer getElem?_started ?_ (hg.mono grown_started)
  rw [Bindings.lookup_set, if_neg hname, hbound]

theorem around_started (hlen : (Store.bound params args).lookup "len" = none)
    (hrest : (Store.bound params args).lookup "rest" = none) (hbuiltins : ∀ b : Builtin, s.Means g b.name none) :
    Around (started s g params args acc next) s.nextId acc next s.scopes.size where
  iter := by
    refine Store.means_of_bound getElem?_started ?_
    rw [Bindings.lookup_set, if_pos rfl]
  len := means_around (by decide) hlen (hbuiltins .len)
  rest := means_around (by decide) hrest (hbuiltins .rest)

/-- A function whose body is a loop goes through the array that it is called with. -/
theorem yields_loop {Inv : List Value → Value → Prop} (hacc : Apart acc) (hplain : ∀ xs a, Inv xs a → a.Plain)
    (hparams : params.length = args.length) (harr : (Store.bound params args).lookup "arr" = some (.array j xs))
    (hlength : xs.length < 2 ^ 64) (haround : Around (started s g params args acc next) s.nextId acc next s.scopes.size)
    (hstart : ∃ u, Yields (fun depth => expr depth s.scopes.size start) (started s g params args acc next) a u ∧
      (started s g params args acc next).Grown u ∧ Inv xs a)
    (hnext : Advances (started s g params args acc next) acc next s.scopes.size Inv) :
    ∃ b u, Yields (fun depth => apply (expr depth) (.function id params (loopBody acc next start) g) args) s b u ∧
      s.Grown u ∧ Inv [] b := by
  obtain ⟨u, ha, hgrown, hinv⟩ := hstart
  obtain ⟨b, v, hb, hgrown', hend⟩ := yields_iter hacc hplain hnext haround hlength hgrown hinv (j := j)
  have hmeans : (started s g params args acc next).Means s.scopes.size "arr" (some (.array j xs)) :=
    means_param (by decide) harr
  have hargs := yields_list_cons (yields_name .nowhere hmeans.lookup rfl) (yields_list_cons ha (yields_list_nil u))
  have hcall := yields_call .nowhere (by decide) (yields_name .nowhere haround.iter.lookup rfl) hargs hb
  have hlast := yields_last .nowhere .null hcall (hplain _ _ hend).kind
  have hbody := yields_cons .null (yields_let .nowhere (param "iter") (yields_fn .nowhere [param "arr", param acc]
    (iterBody acc next) (s.entered g params args))) (by decide) hlast
  exact ⟨b, v, yields_apply id hparams hbody (hplain _ _ hend), grown_started.trans (hgrown.trans hgrown'), hend⟩

end Started

/-! ### Mapping and reducing -/

/-- In every store that this one grows to, a call of the value with the arguments yields the result. -/
def Computes (s : Store) (f : Value) (args : List Value) (y : Value) : Prop :=
  ∀ t, s.Grown t → ∃ u, Yields (fun depth => apply (expr depth) f args) t y u ∧ t.Grown u

theorem Computes.mono {f y : Value} {args : List Value} (h : Computes s f args y) (hgrown : s.Grown t) :
    Computes t f args y :=
  fun u hu => h u (hgrown.trans hu)

/-- A function of one expression computes what that yields in the scope of a call, if it leaves the store alone. -/
theorem computes_of_yields {params : List Binder} {args : List Value} {g : ScopeId} {e : Expr} {y : Value}
    (hparams : params.length = args.length) (hy : y.Plain)
    (he : ∀ t c, t.scopes[c]? = some ⟨Store.bound params args, some g⟩ → Yields (fun depth => expr depth c e) t y t) :
    Computes s (.function id params (only e) g) args y := by
  intro t _
  have hvalue := he _ _ (t.getElem?_entered g params args)
  exact ⟨_, yields_apply id hparams (yields_only hvalue hy) hy, t.grown_entered g params args⟩

/-- `push(accumulated, f(first(arr)))` -/
def mapNext : Expr := call "push" [var "accumulated", call "f" [call "first" [var "arr"]]]

def mapBody : Block := loopBody "accumulated" mapNext (.array .nowhere [])

/-- `f(result, first(arr))` -/
def reduceNext : Expr := call "f" [var "result", call "first" [var "arr"]]

def reduceBody : Block := loopBody "result" reduceNext (var "initial")

def mapFn (id : Identity) (g : ScopeId) : Value :=
  .function id [param "arr", param "f"] mapBody g

def reduceFn (id : Identity) (g : ScopeId) : Value :=
  .function id [param "arr", param "initial", param "f"] reduceBody g

theorem yields_first {x : Value} (hx : x.isError = false) (hc : t.scopes[c]? = some (inner acc j (x :: xs) a m))
    (hfirst : t.lookup c "first" = none) : Yields (fun depth => expr depth c (call "first" [var "arr"])) t x t := by
  have hargs := yields_list_cons (yields_name .nowhere (lookup_arr hc) rfl) (yields_list_nil t)
  have hcall : Builtin.first.call [.array j (x :: xs)] t = .ok x t := rfl
  exact yields_call_builtin .nowhere .nowhere hfirst hargs hcall hx

/-- The elements are values that can be passed on, and called with each of them the function comes to the result beside it. -/
def Maps (s : Store) (f : Value) : List Value → List Value → Prop :=
  List.Forall₂ fun x y => x.isError = false ∧ Computes s f [x] y

theorem Maps.mono {f : Value} {ys : List Value} (h : Maps s f xs ys) (hgrown : s.Grown t) : Maps t f xs ys :=
  List.Forall₂.imp (fun _ _ hxy => ⟨hxy.1, hxy.2.mono hgrown⟩) h

/-- The results so far are in front of those that the function comes to for the elements that are left. -/
def Mapped (s : Store) (f : Value) (ys xs : List Value) (a : Value) : Prop :=
  ∃ k done left, a = .array k done ∧ done ++ left = ys ∧ Maps s f xs left

theorem Mapped.plain {f : Value} {ys xs : List Value} {a : Value} (h : Mapped s f ys xs a) : a.Plain := by
  obtain ⟨k, done, left, rfl, -⟩ := h
  exact Value.plain_array k done

theorem advances_map {f : Value} {ys : List Value} (hf : f.isError = false) (hmeans : s.Means m "f" (some f))
    (hfirst : s.Means m "first" none) (hpush : s.Means m "push" none) :
    Advances s "accumulated" mapNext m (Mapped s f ys) := by
  rintro x xs _ ⟨k, done, _, rfl, rfl, hxs⟩ t c j hgrown hc
  cases hxs with
  | @cons _ y _ left hx hxs =>
    obtain ⟨hx, hcomputes⟩ := hx
    obtain ⟨u, hy, hgrown'⟩ := hcomputes t hgrown
    have hf' : t.lookup c "f" = some f := lookup_outside (by decide) (by decide) hc (hmeans.mono hgrown)
    have hfirst' : t.lookup c "first" = none := lookup_outside (by decide) (by decide) hc (hfirst.mono hgrown)
    have hpush' : t.lookup c "push" = none := lookup_outside (by decide) (by decide) hc (hpush.mono hgrown)
    have hargs := yields_list_cons (yields_first hx hc hfirst') (yields_list_nil t)
    have hcall := yields_call .nowhere (by decide) (yields_name .nowhere hf' hf) hargs hy
    have hacc := yields_name .nowhere (lookup_acc (by decide) hc) rfl
    have hargs' := yields_list_cons hacc (yields_list_cons hcall (yields_list_nil u))
    have hpushed : Builtin.push.call [.array k done, y] u = .ok (.array u.nextId (done ++ [y])) u.fresh.2 := rfl
    have hnext := yields_call_builtin .nowhere .nowhere hpush' hargs' hpushed rfl
    exact ⟨_, _, hnext, hgrown', u.nextId, done ++ [y], left, rfl, (List.append_cons done y left).symm, hxs⟩

/-- Mapping calls the function with each element in turn and makes an array of the results. -/
theorem yields_map (id j : Identity) {g : ScopeId} {f : Value} {ys : List Value}
    (hbuiltins : ∀ b : Builtin, s.Means g b.name none) (hf : f.isError = false) (hlength : xs.length < 2 ^ 64) (hmaps : Maps s f xs ys) :
    ∃ k u, Yields (fun depth => apply (expr depth) (mapFn id g) [.array j xs, f]) s (.array k ys) u ∧ s.Grown u := by
  let t := started s g [param "arr", param "f"] [.array j xs, f] "accumulated" mapNext
  have hgrown : s.Grown t := grown_started
  have hf' : t.Means s.scopes.size "f" (some f) := means_param (by decide) rfl
  have hfirst : t.Means s.scopes.size "first" none := means_around (by decide) rfl (hbuiltins .first)
  have hpush : t.Means s.scopes.size "push" none := means_around (by decide) rfl (hbuiltins .push)
  have hmapped : Mapped t f ys xs (.array t.nextId []) := ⟨t.nextId, [], ys, rfl, rfl, hmaps.mono hgrown⟩
  have hstart : Yields (fun depth => expr depth s.scopes.size (.array .nowhere [])) t (.array t.nextId []) t.fresh.2 :=
    yields_array .nowhere (yields_list_nil t)
  have hplain : ∀ xs a, Mapped t f ys xs a → a.Plain := fun _ _ => Mapped.plain
  have hnext : Advances t "accumulated" mapNext s.scopes.size (Mapped t f ys) := advances_map hf hf' hfirst hpush
  obtain ⟨_, u, hu, hgrown', k, done, _, rfl, rfl, hleft⟩ := yields_loop (by decide) hplain rfl rfl hlength
    (around_started rfl rfl hbuiltins) ⟨t.fresh.2, hstart, .of_eq rfl, hmapped⟩ hnext
  cases hleft
  rw [List.append_nil]
  exact ⟨k, u, hu, hgrown'⟩

/-- The value `a` and the elements come to `b` by calls of the function with the result so far and the next element. -/
inductive Folds (s : Store) (f : Value) : Value → List Value → Value → Prop
  | nil {a : Value} (ha : a.Plain) : Folds s f a [] a
  | cons {a b x y : Value} {xs : List Value} (ha : a.Plain) (hx : x.isError = false) (hb : Computes s f [a, x] b)
      (hxs : Folds s f b xs y) : Folds s f a (x :: xs) y

theorem Folds.plain {f a b : Value} (h : Folds s f a xs b) : a.Plain := by
  cases h with
  | nil ha => exact ha
  | cons ha => exact ha

theorem Folds.mono {f a b : Value} (h : Folds s f a xs b) (hgrown : s.Grown t) : Folds t f a xs b := by
  induction h with
  | nil ha => exact .nil ha
  | cons ha hx hb _ ih => exact .cons ha hx (hb.mono hgrown) ih

theorem advances_reduce {f y : Value} (hf : f.isError = false) (hmeans : s.Means m "f" (some f))
    (hfirst : s.Means m "first" none) : Advances s "result" reduceNext m fun xs a => Folds s f a xs y := by
  intro x xs a h t c j hgrown hc
  cases h with
  | @cons _ b _ _ _ ha hx hb hxs =>
    obtain ⟨u, hu, hgrown'⟩ := hb t hgrown
    have hf' : t.lookup c "f" = some f := lookup_outside (by decide) (by decide) hc (hmeans.mono hgrown)
    have hfirst' : t.lookup c "first" = none := lookup_outside (by decide) (by decide) hc (hfirst.mono hgrown)
    have hresult := yields_name .nowhere (lookup_acc (by decide) hc) ha.isError
    have hargs := yields_list_cons hresult (yields_list_cons (yields_first hx hc hfirst') (yields_list_nil t))
    exact ⟨b, u, yields_call .nowhere (by decide) (yields_name .nowhere hf' hf) hargs hu, hgrown', hxs⟩

/-- Reducing calls the function with the result so far and each element in turn. -/
theorem yields_reduce (id j : Identity) {g : ScopeId} {f a y : Value}
    (hbuiltins : ∀ b : Builtin, s.Means g b.name none) (hf : f.isError = false) (hlength : xs.length < 2 ^ 64) (hfolds : Folds s f a xs y) :
    ∃ u, Yields (fun depth => apply (expr depth) (reduceFn id g) [.array j xs, a, f]) s y u ∧ s.Grown u := by
  let t := started s g [param "arr", param "initial", param "f"] [.array j xs, a, f] "result" reduceNext
  have hgrown : s.Grown t := grown_started
  have hf' : t.Means s.scopes.size "f" (some f) := means_param (by decide) rfl
  have hinitial : t.Means s.scopes.size "initial" (some a) := means_param (by decide) rfl
  have hfirst : t.Means s.scopes.size "first" none := means_around (by decide) rfl (hbuiltins .first)
  have hstart := yields_name .nowhere hinitial.lookup hfolds.plain.isError
  have hplain : ∀ xs a, Folds t f a xs y → a.Plain := fun _ _ => Folds.plain
  obtain ⟨_, u, hu, hgrown', hend⟩ := yields_loop (by decide) hplain rfl rfl hlength (around_started rfl rfl hbuiltins)
    ⟨t, hstart, .of_eq rfl, hfolds.mono hgrown⟩ (advances_reduce hf hf' hfirst)
  cases hend
  exact ⟨u, hu, hgrown'⟩

end HigherOrder

end Simian
