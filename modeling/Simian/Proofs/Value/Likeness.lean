import Simian.Eval.Builtin
import Simian.Eval.Operator
import Simian.Proofs.Tree.Likeness
import Simian.Proofs.Value.Contents

/-!
# Values alike up to what was made

Two runs of a program number their scopes and hand out their identities each in their own way. A matching says which scopes, identities and spans of one run stand for which of the other; two values are alike under it when they differ in these only. Operators, indexes and builtins take values that are alike to values that are alike, provided that the matching is one to one: identities are compared with one another, and so are scopes when one is written to.
-/

namespace Simian

/-- Which scopes, identities and spans of one run stand for which of another, and what values may hold: errors, returned values, functions with a given body. The scopes that macros were defined in are matched apart: a call never enters them. -/
structure Matching where
  scope : ScopeId → ScopeId → Prop
  macroScope : ScopeId → ScopeId → Prop
  identity : Identity → Identity → Prop
  span : Span → Span → Prop
  fault : Prop
  signal : Prop
  code : Block → Prop

/-- Different scopes stand for different scopes, and different identities for different ones. -/
structure Matching.OneToOne (m : Matching) : Prop where
  scope : ∀ {i j i' j'}, m.scope i i' → m.scope j j' → (i = j ↔ i' = j')
  identity : ∀ {a b a' b'}, m.identity a a' → m.identity b b' → (a = b ↔ a' = b')

mutual

inductive Value.Alike (m : Matching) : Value → Value → Prop
  | integer (n : Int64) : Value.Alike m (.integer n) (.integer n)
  | string (text : String) : Value.Alike m (.string text) (.string text)
  | boolean (b : Bool) : Value.Alike m (.boolean b) (.boolean b)
  | null : Value.Alike m .null .null
  | array {id id' : Identity} {elements elements' : List Value} (hid : m.identity id id')
      (helements : List.Forall₂ (Value.Alike m) elements elements') :
      Value.Alike m (.array id elements) (.array id' elements')
  | hash {id id' : Identity} {entries entries' : List (Entry Value)} (hid : m.identity id id')
      (hentries : List.Forall₂ (EntryAlike m) entries entries') :
      Value.Alike m (.hash id entries) (.hash id' entries')
  | function {id id' : Identity} {params params' : List Binder} {body body' : Block} {scope scope' : ScopeId}
      (hid : m.identity id id') (hparams : List.Forall₂ (Binder.Alike m.span) params params')
      (hbody : Block.Alike m.span body body') (hscope : m.scope scope scope') (hcode : m.code body) :
      Value.Alike m (.function id params body scope) (.function id' params' body' scope')
  | builtin (b : Builtin) : Value.Alike m (.builtin b) (.builtin b)
  | returned {value value' : Value} (hvalue : Value.Alike m value value') (hsignal : m.signal) :
      Value.Alike m (.returned value) (.returned value')
  | error (message : String) (hfault : m.fault) : Value.Alike m (.error message) (.error message)
  | quote {id id' : Identity} {node node' : Expr} (hid : m.identity id id') (hnode : Expr.Alike m.span node node') :
      Value.Alike m (.quote id node) (.quote id' node')
  | macroValue {id id' : Identity} {params params' : List Binder} {body body' : Block} {scope scope' : ScopeId}
      (hid : m.identity id id') (hparams : List.Forall₂ (Binder.Alike m.span) params params')
      (hbody : Block.Alike m.span body body') (hscope : m.macroScope scope scope') :
      Value.Alike m (.macroValue id params body scope) (.macroValue id' params' body' scope')

inductive EntryAlike (m : Matching) : Entry Value → Entry Value → Prop
  | mk {hashKey : HashKey} {key key' value value' : Value} (hkey : Value.Alike m key key')
      (hvalue : Value.Alike m value value') : EntryAlike m ⟨hashKey, key, value⟩ ⟨hashKey, key', value'⟩

end

variable {m : Matching}

/-! ### Values like themselves -/

mutual

/-- The scopes captured by the functions in a value. -/
def Value.scopes : Value → List ScopeId
  | .array _ elements => scopesOfValues elements
  | .hash _ entries => scopesOfEntries entries
  | .function _ _ _ scope => [scope]
  | .returned value => value.scopes
  | _ => []

def scopesOfValues : List Value → List ScopeId
  | [] => []
  | x :: xs => x.scopes ++ scopesOfValues xs

def scopesOfEntries : List (Entry Value) → List ScopeId
  | [] => []
  | ⟨_, key, value⟩ :: es => key.scopes ++ value.scopes ++ scopesOfEntries es

end

mutual

/-- The identities that a value and the values in it have. -/
def Value.identities : Value → List Identity
  | .array id elements => id :: identitiesOfValues elements
  | .hash id entries => id :: identitiesOfEntries entries
  | .function id .. | .quote id _ | .macroValue id .. => [id]
  | .returned value => value.identities
  | _ => []

def identitiesOfValues : List Value → List Identity
  | [] => []
  | x :: xs => x.identities ++ identitiesOfValues xs

def identitiesOfEntries : List (Entry Value) → List Identity
  | [] => []
  | ⟨_, key, value⟩ :: es => key.identities ++ value.identities ++ identitiesOfEntries es

end

/-- Values may hold returned values, and functions with any body. -/
structure Matching.Lenient (m : Matching) : Prop where
  signal : m.signal
  code : ∀ body, m.code body

/-- The matching changes no span, nor the scope of a macro. -/
structure Matching.Steady (m : Matching) : Prop extends m.Lenient where
  span : ∀ s, m.span s s
  macroScope : ∀ i, m.macroScope i i

mutual

theorem Value.alike_self (hm : m.Steady) : ∀ x : Value, (∀ i ∈ x.scopes, m.scope i i) →
    (∀ a ∈ x.identities, m.identity a a) → (x.holds .error = true → m.fault) → x.Alike m x
  | .integer n, _, _, _ => .integer n
  | .string text, _, _, _ => .string text
  | .boolean b, _, _, _ => .boolean b
  | .null, _, _, _ => .null
  | .builtin b, _, _, _ => .builtin b
  | .error message, _, _, hfault => .error message (hfault rfl)
  | .array id elements, hscopes, hids, hfault => by
    rw [Value.identities, List.forall_mem_cons] at hids
    exact .array hids.1 (valuesAlike_self hm elements hscopes hids.2 hfault)
  | .hash id entries, hscopes, hids, hfault => by
    rw [Value.identities, List.forall_mem_cons] at hids
    exact .hash hids.1 (entriesAlike_self hm entries hscopes hids.2 hfault)
  | .function id params body scope, hscopes, hids, _ =>
    .function (hids id (List.mem_singleton_self id)) (paramsAlike_refl hm.span params) (body.alike_refl hm.span)
      (hscopes scope (List.mem_singleton_self scope)) (hm.code body)
  | .returned value, hscopes, hids, hfault => .returned (value.alike_self hm hscopes hids hfault) hm.signal
  | .quote id node, _, hids, _ => .quote (hids id (List.mem_singleton_self id)) (node.alike_refl hm.span)
  | .macroValue id params body scope, _, hids, _ =>
    .macroValue (hids id (List.mem_singleton_self id)) (paramsAlike_refl hm.span params) (body.alike_refl hm.span)
      (hm.macroScope scope)

theorem valuesAlike_self (hm : m.Steady) : ∀ xs : List Value, (∀ i ∈ scopesOfValues xs, m.scope i i) →
    (∀ a ∈ identitiesOfValues xs, m.identity a a) → (valuesHold .error xs = true → m.fault) →
    List.Forall₂ (Value.Alike m) xs xs
  | [], _, _, _ => .nil
  | x :: xs, hscopes, hids, hfault => by
    rw [scopesOfValues, List.forall_mem_append] at hscopes
    rw [identitiesOfValues, List.forall_mem_append] at hids
    rw [valuesHold, Bool.or_eq_true, or_imp] at hfault
    exact .cons (x.alike_self hm hscopes.1 hids.1 hfault.1) (valuesAlike_self hm xs hscopes.2 hids.2 hfault.2)

theorem entriesAlike_self (hm : m.Steady) : ∀ es : List (Entry Value), (∀ i ∈ scopesOfEntries es, m.scope i i) →
    (∀ a ∈ identitiesOfEntries es, m.identity a a) → (entriesHold .error es = true → m.fault) →
    List.Forall₂ (EntryAlike m) es es
  | [], _, _, _ => .nil
  | ⟨hashKey, key, value⟩ :: es, hscopes, hids, hfault => by
    rw [scopesOfEntries, List.forall_mem_append, List.forall_mem_append] at hscopes
    rw [identitiesOfEntries, List.forall_mem_append, List.forall_mem_append] at hids
    rw [entriesHold, Bool.or_eq_true, Bool.or_eq_true, or_imp, or_imp] at hfault
    have hkey := key.alike_self hm hscopes.1.1 hids.1.1 hfault.1.1
    have hvalue := value.alike_self hm hscopes.1.2 hids.1.2 hfault.1.2
    exact .cons (.mk hkey hvalue) (entriesAlike_self hm es hscopes.2 hids.2 hfault.2)

end

/-- Whatever is matched is the same on both sides. -/
structure Matching.Diagonal (m : Matching) : Prop where
  scope : ∀ {i j}, m.scope i j → i = j
  macroScope : ∀ {i j}, m.macroScope i j → i = j
  identity : ∀ {a b}, m.identity a b → a = b
  span : ∀ {s t}, m.span s t → s = t

theorem Matching.Diagonal.oneToOne (hm : m.Diagonal) : m.OneToOne where
  scope hi hj := by rw [hm.scope hi, hm.scope hj]
  identity ha hb := by rw [hm.identity ha, hm.identity hb]

mutual

theorem Value.eq_of_alike (hm : m.Diagonal) : ∀ (x : Value) {x' : Value}, x.Alike m x' → x = x'
  | .integer _, _, h | .string _, _, h | .boolean _, _, h | .null, _, h | .builtin _, _, h | .error _, _, h => by
    cases h
    rfl
  | .array _ elements, _, h => by
    cases h with
    | array hid helements => rw [hm.identity hid, eq_of_valuesAlike hm elements helements]
  | .hash _ entries, _, h => by
    cases h with
    | hash hid hentries => rw [hm.identity hid, eq_of_entriesAlike hm entries hentries]
  | .function .., _, h => by
    cases h with
    | function hid hparams hbody hscope _ =>
      rw [hm.identity hid, eq_of_paramsAlike hm.span hparams, Block.eq_of_alike hm.span _ hbody, hm.scope hscope]
  | .returned value, _, h => by
    cases h with
    | returned hvalue _ => rw [value.eq_of_alike hm hvalue]
  | .quote _ node, _, h => by
    cases h with
    | quote hid hnode => rw [hm.identity hid, node.eq_of_alike hm.span hnode]
  | .macroValue .., _, h => by
    cases h with
    | macroValue hid hparams hbody hscope =>
      rw [hm.identity hid, eq_of_paramsAlike hm.span hparams, Block.eq_of_alike hm.span _ hbody,
        hm.macroScope hscope]
termination_by structural x => x

theorem eq_of_valuesAlike (hm : m.Diagonal) :
    ∀ (xs : List Value) {xs' : List Value}, List.Forall₂ (Value.Alike m) xs xs' → xs = xs'
  | [], _, h => by
    cases h
    rfl
  | x :: xs, _, h => by
    cases h with
    | cons hx hxs => rw [x.eq_of_alike hm hx, eq_of_valuesAlike hm xs hxs]
termination_by structural xs => xs

theorem eq_of_entriesAlike (hm : m.Diagonal) :
    ∀ (es : List (Entry Value)) {es' : List (Entry Value)}, List.Forall₂ (EntryAlike m) es es' → es = es'
  | [], _, h => by
    cases h
    rfl
  | ⟨_, key, value⟩ :: es, _, h => by
    cases h with
    | cons hentry hes =>
      obtain ⟨hkey, hvalue⟩ := hentry
      rw [key.eq_of_alike hm hkey, value.eq_of_alike hm hvalue, eq_of_entriesAlike hm es hes]
termination_by structural es => es

end

/-- No value of the kind is alike to any other. -/
def Matching.Excludes (m : Matching) (kind : Kind) : Prop :=
  ∀ {x y : Value}, x.Alike m y → x.kind ≠ kind

theorem Matching.Excludes.beq_eq {kind : Kind} (hm : m.Excludes kind) {x y : Value} (h : x.Alike m y) :
    (kind == x.kind) = false :=
  beq_false_of_ne (hm h).symm

mutual

theorem Value.holds_of_alike {kind : Kind} (hm : m.Excludes kind) : ∀ (x : Value) {x' : Value}, x.Alike m x' →
    x.holds kind = false
  | .integer _, _, h | .string _, _, h | .boolean _, _, h | .null, _, h | .builtin _, _, h => hm.beq_eq h
  | .function .., _, h | .quote .., _, h | .macroValue .., _, h | .error _, _, h => hm.beq_eq h
  | .array _ elements, _, h => by
    have hkind := hm.beq_eq h
    cases h with
    | array _ helements => exact Bool.or_eq_false_iff.mpr ⟨hkind, valuesHold_of_alike hm elements helements⟩
  | .hash _ entries, _, h => by
    have hkind := hm.beq_eq h
    cases h with
    | hash _ hentries => exact Bool.or_eq_false_iff.mpr ⟨hkind, entriesHold_of_alike hm entries hentries⟩
  | .returned value, _, h => by
    have hkind := hm.beq_eq h
    cases h with
    | returned hvalue _ => exact Bool.or_eq_false_iff.mpr ⟨hkind, value.holds_of_alike hm hvalue⟩
termination_by structural x => x

theorem valuesHold_of_alike {kind : Kind} (hm : m.Excludes kind) : ∀ (xs : List Value) {xs' : List Value},
    List.Forall₂ (Value.Alike m) xs xs' → valuesHold kind xs = false
  | [], _, _ => rfl
  | x :: xs, _, h => by
    cases h with
    | cons hx hxs => rw [valuesHold, x.holds_of_alike hm hx, valuesHold_of_alike hm xs hxs, Bool.or_self]
termination_by structural xs => xs

theorem entriesHold_of_alike {kind : Kind} (hm : m.Excludes kind) :
    ∀ (es : List (Entry Value)) {es' : List (Entry Value)}, List.Forall₂ (EntryAlike m) es es' →
      entriesHold kind es = false
  | [], _, _ => rfl
  | ⟨_, key, value⟩ :: es, _, h => by
    cases h with
    | cons hentry hes =>
      obtain ⟨hkey, hvalue⟩ := hentry
      rw [entriesHold, key.holds_of_alike hm hkey, value.holds_of_alike hm hvalue, entriesHold_of_alike hm es hes]
      rfl
termination_by structural es => es

end

theorem forall_holds_of_alike {kind : Kind} (hm : m.Excludes kind) {xs ys : List Value}
    (h : List.Forall₂ (Value.Alike m) xs ys) : ∀ x ∈ xs, x.holds kind = false := by
  induction h with
  | nil => exact fun _ hx => nomatch hx
  | @cons x y _ _ hx _ ih => exact List.forall_mem_cons.mpr ⟨x.holds_of_alike hm hx, ih⟩

theorem Matching.excludes_error (hm : ¬ m.fault) : m.Excludes .error := by
  intro x y h hkind
  cases h with
  | error _ hfault => exact hm hfault
  | _ => exact nomatch hkind

theorem Matching.excludes_returned (hm : ¬ m.signal) : m.Excludes .returned := by
  intro x y h hkind
  cases h with
  | returned _ hsignal => exact hm hsignal
  | _ => exact nomatch hkind

/-- Everything stands for itself. -/
def Matching.diagonal (fault : Prop) : Matching := ⟨Eq, Eq, Eq, Eq, fault, True, fun _ => True⟩

section Diagonal

variable {fault : Prop}

theorem Matching.diagonal_diagonal : (diagonal fault).Diagonal where
  scope h := h
  macroScope h := h
  identity h := h
  span h := h

theorem Matching.lenient_diagonal : (diagonal fault).Lenient := ⟨trivial, fun _ => trivial⟩

theorem Value.alike_diagonal (x : Value) (h : x.holds .error = true → fault) : x.Alike (.diagonal fault) x :=
  x.alike_self ⟨Matching.lenient_diagonal, fun _ => rfl, fun _ => rfl⟩ (fun _ _ => rfl) (fun _ _ => rfl) h

end Diagonal

/-! ### What is made shows only in comparisons -/

namespace Value.Alike

variable {x y x' y' : Value}

theorem kind_eq (h : x.Alike m x') : x.kind = x'.kind := by
  cases h <;> rfl

theorem isTruthy_eq (h : x.Alike m x') : x.isTruthy = x'.isTruthy := by
  cases h <;> rfl

theorem hashKey?_eq (h : x.Alike m x') : x.hashKey? = x'.hashKey? := by
  cases h <;> rfl

theorem unwrap (h : x.Alike m x') : x.unwrap.Alike m x'.unwrap := by
  cases h with
  | returned hvalue _ => exact hvalue
  | integer n => exact .integer n
  | string text => exact .string text
  | boolean b => exact .boolean b
  | null => exact .null
  | array hid helements => exact .array hid helements
  | hash hid hentries => exact .hash hid hentries
  | function hid hparams hbody hscope hcode => exact .function hid hparams hbody hscope hcode
  | builtin b => exact .builtin b
  | error message hfault => exact .error message hfault
  | quote hid hnode => exact .quote hid hnode
  | macroValue hid hparams hbody hscope => exact .macroValue hid hparams hbody hscope

theorem beq_eq (hm : m.OneToOne) {a b a' b' : Identity} (ha : m.identity a a') (hb : m.identity b b') :
    (a == b) = (a' == b') := by
  rw [Bool.eq_iff_iff, beq_iff_eq, beq_iff_eq]
  exact hm.identity ha hb

theorem identical_eq (hm : m.OneToOne) (hx : x.Alike m x') (hy : y.Alike m y') :
    x.identical y = x'.identical y' := by
  cases hx with
  | array hid _ =>
    cases hy with
    | array hid' _ => exact beq_eq hm hid hid'
    | _ => rfl
  | hash hid _ =>
    cases hy with
    | hash hid' _ => exact beq_eq hm hid hid'
    | _ => rfl
  | function hid _ _ _ _ =>
    cases hy with
    | function hid' _ _ _ _ => exact beq_eq hm hid hid'
    | _ => rfl
  | quote hid _ =>
    cases hy with
    | quote hid' _ => exact beq_eq hm hid hid'
    | _ => rfl
  | macroValue hid _ _ _ =>
    cases hy with
    | macroValue hid' _ _ _ => exact beq_eq hm hid hid'
    | _ => rfl
  | _ => cases hy <;> rfl

end Value.Alike

mutual

theorem Value.inspect_eq_of_alike : ∀ (x : Value) {x' : Value}, x.Alike m x' → x.inspect = x'.inspect
  | .integer _, _, h | .string _, _, h | .boolean _, _, h | .null, _, h | .builtin _, _, h | .error _, _, h => by
    cases h
    rfl
  | .array _ elements, _, h => by
    cases h with
    | array _ helements => rw [Value.inspect, Value.inspect, inspectList_eq_of_alike elements helements]
  | .hash _ entries, _, h => by
    cases h with
    | hash _ hentries => rw [Value.inspect, Value.inspect, inspectEntries_eq_of_alike entries hentries]
  | .function .., _, h => by
    cases h with
    | function _ hparams hbody _ _ =>
      rw [Value.inspect, Value.inspect, printParams_eq_of_alike hparams, Block.print_eq_of_alike hbody]
  | .returned value, _, h => by
    cases h with
    | returned hvalue _ => rw [Value.inspect, Value.inspect, value.inspect_eq_of_alike hvalue]
  | .quote .., _, h => by
    cases h with
    | quote _ hnode => rw [Value.inspect, Value.inspect, Expr.print_eq_of_alike hnode]
  | .macroValue .., _, h => by
    cases h with
    | macroValue _ hparams hbody _ =>
      rw [Value.inspect, Value.inspect, printParams_eq_of_alike hparams, Block.print_eq_of_alike hbody]
termination_by structural x => x

theorem inspectList_eq_of_alike : ∀ (xs : List Value) {xs' : List Value},
    List.Forall₂ (Value.Alike m) xs xs' → inspectList xs = inspectList xs'
  | [], _, h => by
    cases h
    rfl
  | x :: xs, _, h => by
    cases h with
    | cons hx hxs =>
      rw [inspectList, inspectList, x.inspect_eq_of_alike hx, inspectListTail_eq_of_alike xs hxs]
termination_by structural xs => xs

theorem inspectListTail_eq_of_alike : ∀ (xs : List Value) {xs' : List Value},
    List.Forall₂ (Value.Alike m) xs xs' → inspectListTail xs = inspectListTail xs'
  | [], _, h => by
    cases h
    rfl
  | x :: xs, _, h => by
    cases h with
    | cons hx hxs =>
      rw [inspectListTail, inspectListTail, x.inspect_eq_of_alike hx, inspectListTail_eq_of_alike xs hxs]
termination_by structural xs => xs

theorem inspectEntries_eq_of_alike : ∀ (es : List (Entry Value)) {es' : List (Entry Value)},
    List.Forall₂ (EntryAlike m) es es' → inspectEntries es = inspectEntries es'
  | [], _, h => by
    cases h
    rfl
  | ⟨_, key, value⟩ :: es, _, h => by
    cases h with
    | cons hentry hes =>
      obtain ⟨hkey, hvalue⟩ := hentry
      rw [inspectEntries, inspectEntries, key.inspect_eq_of_alike hkey, value.inspect_eq_of_alike hvalue,
        inspectEntriesTail_eq_of_alike es hes]
termination_by structural es => es

theorem inspectEntriesTail_eq_of_alike : ∀ (es : List (Entry Value)) {es' : List (Entry Value)},
    List.Forall₂ (EntryAlike m) es es' → inspectEntriesTail es = inspectEntriesTail es'
  | [], _, h => by
    cases h
    rfl
  | ⟨_, key, value⟩ :: es, _, h => by
    cases h with
    | cons hentry hes =>
      obtain ⟨hkey, hvalue⟩ := hentry
      rw [inspectEntriesTail, inspectEntriesTail, key.inspect_eq_of_alike hkey, value.inspect_eq_of_alike hvalue,
        inspectEntriesTail_eq_of_alike es hes]
termination_by structural es => es

end

/-! ### Operators -/

/-- Two results of a pure operation: the same fault, or values that are related. -/
inductive ExceptAlike {α β : Type} (R : α → β → Prop) : Except Fault α → Except Fault β → Prop
  | ok {a : α} {b : β} (h : R a b) : ExceptAlike R (.ok a) (.ok b)
  | error (fault : Fault) : ExceptAlike R (.error fault) (.error fault)

variable {x y x' y' : Value} {op : Token}

theorem alike_applyUnary (h : x.Alike m x') : ExceptAlike (Value.Alike m) (applyUnary op x) (applyUnary op x') := by
  cases op with
  | bang =>
    simp only [applyUnary, h.isTruthy_eq]
    exact .ok (.boolean _)
  | minus =>
    cases h with
    | integer n => exact .ok (.integer _)
    | _ => exact .error _
  | _ =>
    simp only [applyUnary, h.kind_eq]
    exact .error _

theorem alike_applyToIntegers (a b : Int64) :
    ExceptAlike (Value.Alike m) (applyToIntegers op a b) (applyToIntegers op a b) := by
  cases op with
  | plus | minus | asterisk => exact .ok (.integer _)
  | less | greater | equal | notEqual => exact .ok (.boolean _)
  | slash =>
    simp only [applyToIntegers]
    split
    · exact .error _
    · exact .ok (.integer _)
  | _ => exact .error _

theorem alike_applyToStrings (a b : String) :
    ExceptAlike (Value.Alike m) (applyToStrings op a b) (applyToStrings op a b) := by
  unfold applyToStrings
  split
  · exact .ok (.string _)
  · exact .error _

theorem alike_applyToOthers (hm : m.OneToOne) (hx : x.Alike m x') (hy : y.Alike m y') :
    ExceptAlike (Value.Alike m) (applyToOthers op x y) (applyToOthers op x' y') := by
  unfold applyToOthers
  rw [hx.identical_eq hm hy, hx.kind_eq, hy.kind_eq]
  repeat' split
  · exact .ok (.boolean _)
  · exact .ok (.boolean _)
  · exact .error _
  · exact .error _

theorem alike_applyBinary (hm : m.OneToOne) (hx : x.Alike m x') (hy : y.Alike m y') :
    ExceptAlike (Value.Alike m) (applyBinary op x y) (applyBinary op x' y') := by
  have hothers : ExceptAlike (Value.Alike m) (applyToOthers op x y) (applyToOthers op x' y') :=
    alike_applyToOthers hm hx hy
  cases hx with
  | integer a =>
    cases hy with
    | integer b => exact alike_applyToIntegers a b
    | _ => exact hothers
  | string a =>
    cases hy with
    | string b => exact alike_applyToStrings a b
    | _ => exact hothers
  | _ => exact hothers

/-! ### Elements and pairs -/

theorem rel_getElem? {α β : Type} {R : α → β → Prop} {xs : List α} {ys : List β} (h : List.Forall₂ R xs ys) (i : Nat) :
    Option.Rel R xs[i]? ys[i]? := by
  induction h generalizing i with
  | nil => exact .none
  | cons hx _ ih =>
    cases i with
    | zero => exact .some hx
    | succ i => exact ih i

theorem alike_getD_null {a b : Option Value} (h : Option.Rel (Value.Alike m) a b) :
    (a.getD .null).Alike m (b.getD .null) := by
  cases h with
  | none => exact .null
  | some h => exact h

theorem alike_elementAt {xs xs' : List Value} (h : List.Forall₂ (Value.Alike m) xs xs') (n : Int64) :
    (elementAt xs n).Alike m (elementAt xs' n) := by
  unfold elementAt
  split
  · exact .null
  · rw [List.getD_eq_getElem?_getD, List.getD_eq_getElem?_getD]
    exact alike_getD_null (rel_getElem? h _)

theorem EntryAlike.hashKey_eq {e e' : Entry Value} (h : EntryAlike m e e') : e.hashKey = e'.hashKey := by
  cases h
  rfl

theorem alike_find? {es es' : List (Entry Value)} (h : List.Forall₂ (EntryAlike m) es es') (hashKey : HashKey) :
    (((Entry.find? hashKey es).map Entry.value).getD .null).Alike m
      (((Entry.find? hashKey es').map Entry.value).getD .null) := by
  unfold Entry.find?
  induction h with
  | nil => exact .null
  | cons hentry _ ih =>
    rw [List.find?_cons, List.find?_cons, hentry.hashKey_eq]
    split
    · obtain ⟨_, hvalue⟩ := hentry
      exact hvalue
    · exact ih

theorem alike_insert {e e' : Entry Value} {es es' : List (Entry Value)} (he : EntryAlike m e e')
    (h : List.Forall₂ (EntryAlike m) es es') :
    List.Forall₂ (EntryAlike m) (Entry.insert e es) (Entry.insert e' es') := by
  induction h with
  | nil => exact .cons he .nil
  | cons hother hrest ih =>
    unfold Entry.insert
    rw [hother.hashKey_eq, he.hashKey_eq]
    split
    · exact .cons he hrest
    · exact .cons hother ih

theorem alike_applyIndex (hx : x.Alike m x') (hy : y.Alike m y') :
    ExceptAlike (Value.Alike m) (applyIndex x y) (applyIndex x' y') := by
  cases hx with
  | array hid helements =>
    cases hy with
    | integer n => exact .ok (alike_elementAt helements n)
    | _ => exact .error _
  | hash hid hentries =>
    simp only [applyIndex, hy.hashKey?_eq, hy.kind_eq]
    split
    · exact .ok (alike_find? hentries _)
    · exact .error _
  | _ => exact .error _

/-! ### Arguments of builtins -/

theorem alike_theArgument {args args' : List Value} (h : List.Forall₂ (Value.Alike m) args args') :
    ExceptAlike (Value.Alike m) (theArgument args) (theArgument args') := by
  cases h with
  | nil => exact .error _
  | cons hx hrest =>
    cases hrest with
    | nil => exact .ok hx
    | cons _ hrest =>
      simp only [theArgument, List.length_cons, hrest.length_eq]
      exact .error _

theorem alike_theArray (builtin : Builtin) {args args' : List Value} (h : List.Forall₂ (Value.Alike m) args args') :
    ExceptAlike (List.Forall₂ (Value.Alike m)) (theArray builtin args) (theArray builtin args') := by
  have hargument := alike_theArgument h
  unfold theArray
  generalize theArgument args = r at hargument ⊢
  generalize theArgument args' = r' at hargument ⊢
  cases hargument with
  | error fault => exact .error fault
  | ok hx =>
    cases hx with
    | array _ helements => exact .ok helements
    | _ => exact .error _

theorem alike_lengthOf (h : x.Alike m x') : ExceptAlike (Value.Alike m) (lengthOf x) (lengthOf x') := by
  cases h with
  | string text => exact .ok (.integer _)
  | array _ helements =>
    simp only [lengthOf, helements.length_eq]
    exact .ok (.integer _)
  | _ => exact .error _

end Simian
