import Mathlib.Data.List.Forall2
import Simian.Proofs.Tree.Erasure

/-!
# Trees alike up to spans

Two trees are alike under a relation on spans when they have the same shape, names, literals and operators, and the spans of corresponding nodes are related. Under equality of spans this is equality of trees. Under any relation trees that are alike have the same erasure, and so they print alike; under the relation that all spans are in, trees with the same erasure are alike.
-/

namespace Simian

structure Binder.Alike (r : Span → Span → Prop) (a b : Binder) : Prop where
  name : a.name = b.name
  span : r a.span b.span

mutual

inductive Expr.Alike (r : Span → Span → Prop) : Expr → Expr → Prop
  | ident {s t : Span} {name : String} (hspan : r s t) : Expr.Alike r (.ident s name) (.ident t name)
  | int {s t : Span} {value : Int64} (hspan : r s t) : Expr.Alike r (.int s value) (.int t value)
  | str {s t : Span} {text : String} (hspan : r s t) : Expr.Alike r (.str s text) (.str t text)
  | bool {s t : Span} {value : Bool} (hspan : r s t) : Expr.Alike r (.bool s value) (.bool t value)
  | unary {s t : Span} {op : Token} {right right' : Expr} (hspan : r s t) (hright : Expr.Alike r right right') :
      Expr.Alike r (.unary s op right) (.unary t op right')
  | binary {s t : Span} {op : Token} {left left' right right' : Expr} (hspan : r s t)
      (hleft : Expr.Alike r left left') (hright : Expr.Alike r right right') :
      Expr.Alike r (.binary s op left right) (.binary t op left' right')
  | index {s t : Span} {left left' index index' : Expr} (hspan : r s t) (hleft : Expr.Alike r left left')
      (hindex : Expr.Alike r index index') : Expr.Alike r (.index s left index) (.index t left' index')
  | cond {s t : Span} {condition condition' : Expr} {consequence consequence' : Block}
      {alternative alternative' : Option Block} (hspan : r s t) (hcondition : Expr.Alike r condition condition')
      (hconsequence : Block.Alike r consequence consequence')
      (halternative : Option.Rel (Block.Alike r) alternative alternative') :
      Expr.Alike r (.cond s condition consequence alternative) (.cond t condition' consequence' alternative')
  | fn {s t : Span} {params params' : List Binder} {body body' : Block} (hspan : r s t)
      (hparams : List.Forall₂ (Binder.Alike r) params params') (hbody : Block.Alike r body body') :
      Expr.Alike r (.fn s params body) (.fn t params' body')
  | macroLit {s t : Span} {params params' : List Binder} {body body' : Block} (hspan : r s t)
      (hparams : List.Forall₂ (Binder.Alike r) params params') (hbody : Block.Alike r body body') :
      Expr.Alike r (.macroLit s params body) (.macroLit t params' body')
  | call {s t : Span} {callee callee' : Expr} {args args' : List Expr} (hspan : r s t)
      (hcallee : Expr.Alike r callee callee') (hargs : List.Forall₂ (Expr.Alike r) args args') :
      Expr.Alike r (.call s callee args) (.call t callee' args')
  | array {s t : Span} {elements elements' : List Expr} (hspan : r s t)
      (helements : List.Forall₂ (Expr.Alike r) elements elements') :
      Expr.Alike r (.array s elements) (.array t elements')
  | hash {s t : Span} {pairs pairs' : List (Expr × Expr)} (hspan : r s t)
      (hpairs : List.Forall₂ (PairAlike r) pairs pairs') : Expr.Alike r (.hash s pairs) (.hash t pairs')

inductive PairAlike (r : Span → Span → Prop) : Expr × Expr → Expr × Expr → Prop
  | mk {key key' value value' : Expr} (hkey : Expr.Alike r key key') (hvalue : Expr.Alike r value value') :
      PairAlike r (key, value) (key', value')

inductive Stmt.Alike (r : Span → Span → Prop) : Stmt → Stmt → Prop
  | bind {s t : Span} {binder binder' : Binder} {value value' : Expr} (hspan : r s t)
      (hbinder : Binder.Alike r binder binder') (hvalue : Expr.Alike r value value') :
      Stmt.Alike r (.bind s binder value) (.bind t binder' value')
  | ret {s t : Span} {value value' : Expr} (hspan : r s t) (hvalue : Expr.Alike r value value') :
      Stmt.Alike r (.ret s value) (.ret t value')
  | expr {s t : Span} {value value' : Expr} (hspan : r s t) (hvalue : Expr.Alike r value value') :
      Stmt.Alike r (.expr s value) (.expr t value')

inductive Block.Alike (r : Span → Span → Prop) : Block → Block → Prop
  | mk {s t : Span} {ss ss' : List Stmt} (hspan : r s t) (hstatements : List.Forall₂ (Stmt.Alike r) ss ss') :
      Block.Alike r (.mk s ss) (.mk t ss')

end

variable {r : Span → Span → Prop}

/-! ### Every tree is like itself -/

theorem paramsAlike_refl (hr : ∀ s, r s s) (params : List Binder) : List.Forall₂ (Binder.Alike r) params params :=
  List.forall₂_same.mpr fun b _ => ⟨rfl, hr b.span⟩

mutual

theorem Expr.alike_refl (hr : ∀ s, r s s) : ∀ e : Expr, e.Alike r e
  | .ident .. => .ident (hr _)
  | .int .. => .int (hr _)
  | .str .. => .str (hr _)
  | .bool .. => .bool (hr _)
  | .unary _ _ right => .unary (hr _) (right.alike_refl hr)
  | .binary _ _ left right => .binary (hr _) (left.alike_refl hr) (right.alike_refl hr)
  | .index _ left index => .index (hr _) (left.alike_refl hr) (index.alike_refl hr)
  | .cond _ condition consequence alternative =>
    .cond (hr _) (condition.alike_refl hr) (consequence.alike_refl hr) (elseAlike_refl hr alternative)
  | .fn _ params body => .fn (hr _) (paramsAlike_refl hr params) (body.alike_refl hr)
  | .macroLit _ params body => .macroLit (hr _) (paramsAlike_refl hr params) (body.alike_refl hr)
  | .call _ callee args => .call (hr _) (callee.alike_refl hr) (listAlike_refl hr args)
  | .array _ elements => .array (hr _) (listAlike_refl hr elements)
  | .hash _ pairs => .hash (hr _) (pairsAlike_refl hr pairs)

theorem elseAlike_refl (hr : ∀ s, r s s) :
    ∀ alternative : Option Block, Option.Rel (Block.Alike r) alternative alternative
  | none => .none
  | some block => .some (block.alike_refl hr)

theorem listAlike_refl (hr : ∀ s, r s s) : ∀ es : List Expr, List.Forall₂ (Expr.Alike r) es es
  | [] => .nil
  | e :: es => .cons (e.alike_refl hr) (listAlike_refl hr es)

theorem pairsAlike_refl (hr : ∀ s, r s s) : ∀ ps : List (Expr × Expr), List.Forall₂ (PairAlike r) ps ps
  | [] => .nil
  | (key, value) :: ps => .cons (.mk (key.alike_refl hr) (value.alike_refl hr)) (pairsAlike_refl hr ps)

theorem Stmt.alike_refl (hr : ∀ s, r s s) : ∀ s : Stmt, s.Alike r s
  | .bind _ binder value => .bind (hr _) ⟨rfl, hr binder.span⟩ (value.alike_refl hr)
  | .ret _ value => .ret (hr _) (value.alike_refl hr)
  | .expr _ value => .expr (hr _) (value.alike_refl hr)

theorem Block.alike_refl (hr : ∀ s, r s s) : ∀ block : Block, block.Alike r block
  | .mk _ ss => .mk (hr _) (statementsAlike_refl hr ss)

theorem statementsAlike_refl (hr : ∀ s, r s s) : ∀ ss : List Stmt, List.Forall₂ (Stmt.Alike r) ss ss
  | [] => .nil
  | s :: ss => .cons (s.alike_refl hr) (statementsAlike_refl hr ss)

end

/-! ### Where related spans are equal, trees that are alike are equal -/

theorem Binder.eq_of_alike (hr : ∀ {s t}, r s t → s = t) {a b : Binder} (h : a.Alike r b) : a = b := by
  cases a
  cases b
  obtain ⟨rfl, hspan⟩ := h
  rw [Binder.mk.injEq]
  exact ⟨rfl, hr hspan⟩

theorem eq_of_paramsAlike (hr : ∀ {s t}, r s t → s = t) {params params' : List Binder}
    (h : List.Forall₂ (Binder.Alike r) params params') : params = params' := by
  induction h with
  | nil => rfl
  | cons hbinder _ ih => rw [Binder.eq_of_alike hr hbinder, ih]

mutual

theorem Expr.eq_of_alike (hr : ∀ {s t}, r s t → s = t) : ∀ (e : Expr) {e' : Expr}, e.Alike r e' → e = e'
  | .ident .., _, h => by
    cases h with
    | ident hspan => rw [hr hspan]
  | .int .., _, h => by
    cases h with
    | int hspan => rw [hr hspan]
  | .str .., _, h => by
    cases h with
    | str hspan => rw [hr hspan]
  | .bool .., _, h => by
    cases h with
    | bool hspan => rw [hr hspan]
  | .unary _ _ right, _, h => by
    cases h with
    | unary hspan hright => rw [hr hspan, right.eq_of_alike hr hright]
  | .binary _ _ left right, _, h => by
    cases h with
    | binary hspan hleft hright => rw [hr hspan, left.eq_of_alike hr hleft, right.eq_of_alike hr hright]
  | .index _ left index, _, h => by
    cases h with
    | index hspan hleft hindex => rw [hr hspan, left.eq_of_alike hr hleft, index.eq_of_alike hr hindex]
  | .cond _ condition consequence alternative, _, h => by
    cases h with
    | cond hspan hcondition hconsequence halternative =>
      rw [hr hspan, condition.eq_of_alike hr hcondition, consequence.eq_of_alike hr hconsequence,
        eq_of_elseAlike hr alternative halternative]
  | .fn _ _ body, _, h => by
    cases h with
    | fn hspan hparams hbody => rw [hr hspan, eq_of_paramsAlike hr hparams, body.eq_of_alike hr hbody]
  | .macroLit _ _ body, _, h => by
    cases h with
    | macroLit hspan hparams hbody => rw [hr hspan, eq_of_paramsAlike hr hparams, body.eq_of_alike hr hbody]
  | .call _ callee args, _, h => by
    cases h with
    | call hspan hcallee hargs => rw [hr hspan, callee.eq_of_alike hr hcallee, eq_of_listAlike hr args hargs]
  | .array _ elements, _, h => by
    cases h with
    | array hspan helements => rw [hr hspan, eq_of_listAlike hr elements helements]
  | .hash _ pairs, _, h => by
    cases h with
    | hash hspan hpairs => rw [hr hspan, eq_of_pairsAlike hr pairs hpairs]
termination_by structural e => e

theorem eq_of_elseAlike (hr : ∀ {s t}, r s t → s = t) :
    ∀ (a : Option Block) {a' : Option Block}, Option.Rel (Block.Alike r) a a' → a = a'
  | none, _, h => by
    cases h with
    | none => rfl
  | some block, _, h => by
    cases h with
    | some hblock => rw [block.eq_of_alike hr hblock]
termination_by structural a => a

theorem eq_of_listAlike (hr : ∀ {s t}, r s t → s = t) :
    ∀ (es : List Expr) {es' : List Expr}, List.Forall₂ (Expr.Alike r) es es' → es = es'
  | [], _, h => by
    cases h with
    | nil => rfl
  | e :: es, _, h => by
    cases h with
    | cons he hes => rw [e.eq_of_alike hr he, eq_of_listAlike hr es hes]
termination_by structural es => es

theorem eq_of_pairsAlike (hr : ∀ {s t}, r s t → s = t) :
    ∀ (ps : List (Expr × Expr)) {ps' : List (Expr × Expr)}, List.Forall₂ (PairAlike r) ps ps' → ps = ps'
  | [], _, h => by
    cases h with
    | nil => rfl
  | (key, value) :: ps, _, h => by
    cases h with
    | cons hpair hps =>
      obtain ⟨hkey, hvalue⟩ := hpair
      rw [key.eq_of_alike hr hkey, value.eq_of_alike hr hvalue, eq_of_pairsAlike hr ps hps]
termination_by structural ps => ps

theorem Stmt.eq_of_alike (hr : ∀ {s t}, r s t → s = t) : ∀ (s : Stmt) {s' : Stmt}, s.Alike r s' → s = s'
  | .bind _ _ value, _, h => by
    cases h with
    | bind hspan hbinder hvalue => rw [hr hspan, Binder.eq_of_alike hr hbinder, value.eq_of_alike hr hvalue]
  | .ret _ value, _, h => by
    cases h with
    | ret hspan hvalue => rw [hr hspan, value.eq_of_alike hr hvalue]
  | .expr _ value, _, h => by
    cases h with
    | expr hspan hvalue => rw [hr hspan, value.eq_of_alike hr hvalue]
termination_by structural s => s

theorem Block.eq_of_alike (hr : ∀ {s t}, r s t → s = t) : ∀ (b : Block) {b' : Block}, b.Alike r b' → b = b'
  | .mk _ ss, _, h => by
    cases h with
    | mk hspan hstatements => rw [hr hspan, eq_of_statementsAlike hr ss hstatements]
termination_by structural b => b

theorem eq_of_statementsAlike (hr : ∀ {s t}, r s t → s = t) :
    ∀ (ss : List Stmt) {ss' : List Stmt}, List.Forall₂ (Stmt.Alike r) ss ss' → ss = ss'
  | [], _, h => by
    cases h with
    | nil => rfl
  | s :: ss, _, h => by
    cases h with
    | cons hs hss => rw [s.eq_of_alike hr hs, eq_of_statementsAlike hr ss hss]
termination_by structural ss => ss

end

/-! ### Trees that are alike have one erasure -/

theorem map_erase_eq_of_alike {params params' : List Binder} (h : List.Forall₂ (Binder.Alike r) params params') :
    params.map Binder.erase = params'.map Binder.erase := by
  induction h with
  | nil => rfl
  | cons hbinder _ ih => rw [List.map_cons, List.map_cons, ih, Binder.erase, Binder.erase, hbinder.name]

mutual

theorem Expr.erase_eq_of_alike : ∀ (e : Expr) {e' : Expr}, e.Alike r e' → e.erase = e'.erase
  | .ident .., _, h | .int .., _, h | .str .., _, h | .bool .., _, h => by
    cases h
    rfl
  | .unary _ _ right, _, h => by
    cases h with
    | unary _ hright => rw [Expr.erase, Expr.erase, right.erase_eq_of_alike hright]
  | .binary _ _ left right, _, h => by
    cases h with
    | binary _ hleft hright =>
      rw [Expr.erase, Expr.erase, left.erase_eq_of_alike hleft, right.erase_eq_of_alike hright]
  | .index _ left index, _, h => by
    cases h with
    | index _ hleft hindex =>
      rw [Expr.erase, Expr.erase, left.erase_eq_of_alike hleft, index.erase_eq_of_alike hindex]
  | .cond _ condition consequence alternative, _, h => by
    cases h with
    | cond _ hcondition hconsequence halternative =>
      rw [Expr.erase, Expr.erase, condition.erase_eq_of_alike hcondition, consequence.erase_eq_of_alike hconsequence,
        eraseElse_eq_of_alike alternative halternative]
  | .fn _ _ body, _, h => by
    cases h with
    | fn _ hparams hbody =>
      rw [Expr.erase, Expr.erase, map_erase_eq_of_alike hparams, body.erase_eq_of_alike hbody]
  | .macroLit _ _ body, _, h => by
    cases h with
    | macroLit _ hparams hbody =>
      rw [Expr.erase, Expr.erase, map_erase_eq_of_alike hparams, body.erase_eq_of_alike hbody]
  | .call _ callee args, _, h => by
    cases h with
    | call _ hcallee hargs =>
      rw [Expr.erase, Expr.erase, callee.erase_eq_of_alike hcallee, eraseList_eq_of_alike args hargs]
  | .array _ elements, _, h => by
    cases h with
    | array _ helements => rw [Expr.erase, Expr.erase, eraseList_eq_of_alike elements helements]
  | .hash _ pairs, _, h => by
    cases h with
    | hash _ hpairs => rw [Expr.erase, Expr.erase, erasePairs_eq_of_alike pairs hpairs]
termination_by structural e => e

theorem eraseElse_eq_of_alike :
    ∀ (a : Option Block) {a' : Option Block}, Option.Rel (Block.Alike r) a a' → eraseElse a = eraseElse a'
  | none, _, h => by
    cases h with
    | none => rfl
  | some block, _, h => by
    cases h with
    | some hblock => rw [eraseElse, eraseElse, block.erase_eq_of_alike hblock]
termination_by structural a => a

theorem eraseList_eq_of_alike :
    ∀ (es : List Expr) {es' : List Expr}, List.Forall₂ (Expr.Alike r) es es' → eraseList es = eraseList es'
  | [], _, h => by
    cases h with
    | nil => rfl
  | e :: es, _, h => by
    cases h with
    | cons he hes => rw [eraseList, eraseList, e.erase_eq_of_alike he, eraseList_eq_of_alike es hes]
termination_by structural es => es

theorem erasePairs_eq_of_alike : ∀ (ps : List (Expr × Expr)) {ps' : List (Expr × Expr)},
    List.Forall₂ (PairAlike r) ps ps' → erasePairs ps = erasePairs ps'
  | [], _, h => by
    cases h with
    | nil => rfl
  | (key, value) :: ps, _, h => by
    cases h with
    | cons hpair hps =>
      obtain ⟨hkey, hvalue⟩ := hpair
      rw [erasePairs, erasePairs, key.erase_eq_of_alike hkey, value.erase_eq_of_alike hvalue,
        erasePairs_eq_of_alike ps hps]
termination_by structural ps => ps

theorem Stmt.erase_eq_of_alike : ∀ (s : Stmt) {s' : Stmt}, s.Alike r s' → s.erase = s'.erase
  | .bind _ _ value, _, h => by
    cases h with
    | bind _ hbinder hvalue =>
      rw [Stmt.erase, Stmt.erase, Binder.erase, Binder.erase, hbinder.name, value.erase_eq_of_alike hvalue]
  | .ret _ value, _, h => by
    cases h with
    | ret _ hvalue => rw [Stmt.erase, Stmt.erase, value.erase_eq_of_alike hvalue]
  | .expr _ value, _, h => by
    cases h with
    | expr _ hvalue => rw [Stmt.erase, Stmt.erase, value.erase_eq_of_alike hvalue]
termination_by structural s => s

theorem Block.erase_eq_of_alike : ∀ (b : Block) {b' : Block}, b.Alike r b' → b.erase = b'.erase
  | .mk _ ss, _, h => by
    cases h with
    | mk _ hstatements => rw [Block.erase, Block.erase, eraseStatements_eq_of_alike ss hstatements]
termination_by structural b => b

theorem eraseStatements_eq_of_alike : ∀ (ss : List Stmt) {ss' : List Stmt},
    List.Forall₂ (Stmt.Alike r) ss ss' → eraseStatements ss = eraseStatements ss'
  | [], _, h => by
    cases h with
    | nil => rfl
  | s :: ss, _, h => by
    cases h with
    | cons hs hss =>
      rw [eraseStatements, eraseStatements, s.erase_eq_of_alike hs, eraseStatements_eq_of_alike ss hss]
termination_by structural ss => ss

end

theorem printParams_eq_of_alike {params params' : List Binder}
    (h : List.Forall₂ (Binder.Alike r) params params') : printParams params = printParams params' := by
  rw [← printParams_erase, map_erase_eq_of_alike h, printParams_erase]

theorem Block.print_eq_of_alike {b b' : Block} (h : b.Alike r b') : b.print = b'.print := by
  rw [← b.print_erase, b.erase_eq_of_alike h, b'.print_erase]

theorem Expr.print_eq_of_alike {e e' : Expr} (h : e.Alike r e') : e.print = e'.print := by
  rw [← e.print_erase, e.erase_eq_of_alike h, e'.print_erase]

/-! ### Where all spans are related, trees with one erasure are alike -/

theorem paramsAlike_of_erase_eq (hr : ∀ s t, r s t) {params params' : List Binder}
    (h : params.map Binder.erase = params'.map Binder.erase) : List.Forall₂ (Binder.Alike r) params params' := by
  induction params generalizing params' with
  | nil =>
    cases params' with
    | nil => exact .nil
    | cons => exact nomatch h
  | cons b params ih =>
    cases params' with
    | nil => exact nomatch h
    | cons b' params' =>
      obtain ⟨hbinder, hparams⟩ := List.cons.inj h
      exact .cons ⟨(Binder.mk.inj hbinder).1, hr _ _⟩ (ih hparams)

mutual

theorem Expr.alike_of_erase_eq (hr : ∀ s t, r s t) : ∀ (e e' : Expr), e.erase = e'.erase → e.Alike r e'
  | .ident .., e', h => by
    cases e' with
    | ident =>
      obtain ⟨_, rfl⟩ := Expr.ident.inj h
      exact .ident (hr _ _)
    | _ => cases h
  | .int .., e', h => by
    cases e' with
    | int =>
      obtain ⟨_, rfl⟩ := Expr.int.inj h
      exact .int (hr _ _)
    | _ => cases h
  | .str .., e', h => by
    cases e' with
    | str =>
      obtain ⟨_, rfl⟩ := Expr.str.inj h
      exact .str (hr _ _)
    | _ => cases h
  | .bool .., e', h => by
    cases e' with
    | bool =>
      obtain ⟨_, rfl⟩ := Expr.bool.inj h
      exact .bool (hr _ _)
    | _ => cases h
  | .unary _ _ right, e', h => by
    cases e' with
    | unary _ _ right' =>
      obtain ⟨_, rfl, hright⟩ := Expr.unary.inj h
      exact .unary (hr _ _) (right.alike_of_erase_eq hr right' hright)
    | _ => cases h
  | .binary _ _ left right, e', h => by
    cases e' with
    | binary _ _ left' right' =>
      obtain ⟨_, rfl, hleft, hright⟩ := Expr.binary.inj h
      exact .binary (hr _ _) (left.alike_of_erase_eq hr left' hleft) (right.alike_of_erase_eq hr right' hright)
    | _ => cases h
  | .index _ left index, e', h => by
    cases e' with
    | index _ left' index' =>
      obtain ⟨_, hleft, hindex⟩ := Expr.index.inj h
      exact .index (hr _ _) (left.alike_of_erase_eq hr left' hleft) (index.alike_of_erase_eq hr index' hindex)
    | _ => cases h
  | .cond _ condition consequence alternative, e', h => by
    cases e' with
    | cond _ condition' consequence' alternative' =>
      obtain ⟨_, hcondition, hconsequence, halternative⟩ := Expr.cond.inj h
      exact .cond (hr _ _) (condition.alike_of_erase_eq hr condition' hcondition)
        (consequence.alike_of_erase_eq hr consequence' hconsequence)
        (elseAlike_of_erase_eq hr alternative alternative' halternative)
    | _ => cases h
  | .fn _ _ body, e', h => by
    cases e' with
    | fn _ _ body' =>
      obtain ⟨_, hparams, hbody⟩ := Expr.fn.inj h
      exact .fn (hr _ _) (paramsAlike_of_erase_eq hr hparams) (body.alike_of_erase_eq hr body' hbody)
    | _ => cases h
  | .macroLit _ _ body, e', h => by
    cases e' with
    | macroLit _ _ body' =>
      obtain ⟨_, hparams, hbody⟩ := Expr.macroLit.inj h
      exact .macroLit (hr _ _) (paramsAlike_of_erase_eq hr hparams) (body.alike_of_erase_eq hr body' hbody)
    | _ => cases h
  | .call _ callee args, e', h => by
    cases e' with
    | call _ callee' args' =>
      obtain ⟨_, hcallee, hargs⟩ := Expr.call.inj h
      exact .call (hr _ _) (callee.alike_of_erase_eq hr callee' hcallee) (listAlike_of_erase_eq hr args args' hargs)
    | _ => cases h
  | .array _ elements, e', h => by
    cases e' with
    | array _ elements' =>
      obtain ⟨_, helements⟩ := Expr.array.inj h
      exact .array (hr _ _) (listAlike_of_erase_eq hr elements elements' helements)
    | _ => cases h
  | .hash _ pairs, e', h => by
    cases e' with
    | hash _ pairs' =>
      obtain ⟨_, hpairs⟩ := Expr.hash.inj h
      exact .hash (hr _ _) (pairsAlike_of_erase_eq hr pairs pairs' hpairs)
    | _ => cases h
termination_by structural e => e

theorem elseAlike_of_erase_eq (hr : ∀ s t, r s t) :
    ∀ a a' : Option Block, eraseElse a = eraseElse a' → Option.Rel (Block.Alike r) a a'
  | none, none, _ => .none
  | some block, some block', h => .some (block.alike_of_erase_eq hr block' (Option.some.inj h))
  | none, some _, h | some _, none, h => nomatch h
termination_by structural a => a

theorem listAlike_of_erase_eq (hr : ∀ s t, r s t) :
    ∀ es es' : List Expr, eraseList es = eraseList es' → List.Forall₂ (Expr.Alike r) es es'
  | [], [], _ => .nil
  | e :: es, e' :: es', h => by
    obtain ⟨he, hes⟩ := List.cons.inj h
    exact .cons (e.alike_of_erase_eq hr e' he) (listAlike_of_erase_eq hr es es' hes)
  | [], _ :: _, h | _ :: _, [], h => nomatch h
termination_by structural es => es

theorem pairsAlike_of_erase_eq (hr : ∀ s t, r s t) :
    ∀ ps ps' : List (Expr × Expr), erasePairs ps = erasePairs ps' → List.Forall₂ (PairAlike r) ps ps'
  | [], [], _ => .nil
  | (key, value) :: ps, (key', value') :: ps', h => by
    obtain ⟨hpair, hps⟩ := List.cons.inj h
    obtain ⟨hkey, hvalue⟩ := Prod.mk.inj hpair
    exact .cons (.mk (key.alike_of_erase_eq hr key' hkey) (value.alike_of_erase_eq hr value' hvalue))
      (pairsAlike_of_erase_eq hr ps ps' hps)
  | [], _ :: _, h | _ :: _, [], h => nomatch h
termination_by structural ps => ps

theorem Stmt.alike_of_erase_eq (hr : ∀ s t, r s t) : ∀ s s' : Stmt, s.erase = s'.erase → s.Alike r s'
  | .bind _ _ value, .bind _ _ value', h => by
    obtain ⟨_, hbinder, hvalue⟩ := Stmt.bind.inj h
    exact .bind (hr _ _) ⟨(Binder.mk.inj hbinder).1, hr _ _⟩ (value.alike_of_erase_eq hr value' hvalue)
  | .ret _ value, .ret _ value', h => .ret (hr _ _) (value.alike_of_erase_eq hr value' (Stmt.ret.inj h).2)
  | .expr _ value, .expr _ value', h => .expr (hr _ _) (value.alike_of_erase_eq hr value' (Stmt.expr.inj h).2)
  | .bind .., .ret .., h | .bind .., .expr .., h | .ret .., .bind .., h => nomatch h
  | .ret .., .expr .., h | .expr .., .bind .., h | .expr .., .ret .., h => nomatch h
termination_by structural s => s

theorem Block.alike_of_erase_eq (hr : ∀ s t, r s t) : ∀ b b' : Block, b.erase = b'.erase → b.Alike r b'
  | .mk _ ss, .mk _ ss', h => .mk (hr _ _) (statementsAlike_of_erase_eq hr ss ss' (Block.mk.inj h).2)
termination_by structural b => b

theorem statementsAlike_of_erase_eq (hr : ∀ s t, r s t) :
    ∀ ss ss' : List Stmt, eraseStatements ss = eraseStatements ss' → List.Forall₂ (Stmt.Alike r) ss ss'
  | [], [], _ => .nil
  | s :: ss, s' :: ss', h => by
    obtain ⟨hs, hss⟩ := List.cons.inj h
    exact .cons (s.alike_of_erase_eq hr s' hs) (statementsAlike_of_erase_eq hr ss ss' hss)
  | [], _ :: _, h | _ :: _, [], h => nomatch h
termination_by structural ss => ss

end

/-! ### Programs -/

structure Program.Alike (r : Span → Span → Prop) (p q : Program) : Prop where
  span : r p.span q.span
  statements : List.Forall₂ (Stmt.Alike r) p.statements q.statements

theorem Program.alike_refl (hr : ∀ s, r s s) (p : Program) : p.Alike r p :=
  ⟨hr p.span, statementsAlike_refl hr p.statements⟩

theorem Program.eq_of_alike (hr : ∀ {s t}, r s t → s = t) {p q : Program} (h : p.Alike r q) : p = q := by
  cases p
  cases q
  rw [Program.mk.injEq]
  exact ⟨hr h.span, eq_of_statementsAlike hr _ h.statements⟩

theorem Program.erase_eq_of_alike {p q : Program} (h : p.Alike r q) : p.erase = q.erase := by
  rw [Program.erase, Program.erase, eraseStatements_eq_of_alike _ h.statements]

theorem Program.alike_of_erase_eq (hr : ∀ s t, r s t) {p q : Program} (h : p.erase = q.erase) : p.Alike r q :=
  ⟨hr _ _, statementsAlike_of_erase_eq hr _ _ (Program.mk.inj h).2⟩

end Simian
