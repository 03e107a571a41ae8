import Simian.Proofs.Tree.Printable
import Simian.Proofs.Value.Entries
import Simian.Proofs.Value.Likeness
import Simian.Proofs.Value.Vocabulary
import Simian.Value.Equality

/-!
# Data

Data are built from integers, truth values and texts by collecting them in arrays and hashes, with every pair of a hash under the hash key of its own key. They hold neither code nor spans, so two of them that are made in the same way differ in the identities of their arrays and hashes only, and a host takes them for equal.
-/

namespace Simian

/-- Values that are data. A hash stores no two pairs under one hash key. -/
inductive Value.IsData : Value → Prop
  | integer (n : Int64) : IsData (.integer n)
  | boolean (b : Bool) : IsData (.boolean b)
  | string (text : String) : IsData (.string text)
  | array (id : Identity) {elements : List Value} (helements : ∀ x ∈ elements, x.IsData) : IsData (.array id elements)
  | hash (id : Identity) {entries : List (Entry Value)} (hdistinct : (entries.map (·.hashKey)).Nodup)
      (hunder : ∀ e ∈ entries, e.key.hashKey? = some e.hashKey) (hkeys : ∀ e ∈ entries, e.key.IsData)
      (hvalues : ∀ e ∈ entries, e.value.IsData) : IsData (.hash id entries)

/-- All but the identities stands for itself. -/
def Matching.contents : Matching := ⟨Eq, Eq, fun _ _ => True, Eq, True, True, fun _ => True⟩

variable {m m' : Matching}

theorem Value.IsData.isError {x : Value} (hx : x.IsData) : x.isError = false := by
  cases hx <;> rfl

/-- What is like data is no error and not on its way out of a function. -/
theorem Value.IsData.plain {x y : Value} (hx : x.IsData) (h : x.Alike m y) : y.isError = false ∧ y.kind ≠ .returned := by
  cases hx <;> cases h <;> exact ⟨rfl, nofun⟩

/-! ### Likeness of data -/

/-- Lists that are related element by element, composed; how two elements compose may rest on what the first list holds. -/
theorem forall₂_comp {α β γ : Type} {R : α → β → Prop} {S : β → γ → Prop} {T : α → γ → Prop} {xs : List α}
    {ys : List β} {zs : List γ} (h : List.Forall₂ R xs ys) (h' : List.Forall₂ S ys zs)
    (himp : ∀ x ∈ xs, ∀ y z, R x y → S y z → T x z) : List.Forall₂ T xs zs := by
  induction h generalizing zs with
  | nil =>
    cases h'
    exact .nil
  | cons hxy _ ih =>
    rw [List.forall_mem_cons] at himp
    cases h' with
    | cons hyz hrest => exact .cons (himp.1 _ _ hxy hyz) (ih hrest himp.2)

/-- Data that are like data that are like others have the same contents as these. -/
theorem Value.IsData.trans {x y z : Value} (hx : x.IsData) (h : x.Alike m y) (h' : y.Alike m' z) :
    x.Alike .contents z := by
  induction hx generalizing y z with
  | integer n =>
    cases h
    cases h'
    exact .integer n
  | boolean b =>
    cases h
    cases h'
    exact .boolean b
  | string text =>
    cases h
    cases h'
    exact .string text
  | array id _ ih =>
    cases h with
    | array _ helements =>
      cases h' with
      | array _ helements' => exact .array trivial (forall₂_comp helements helements' ih)
  | hash id _ _ _ _ ihkey ihvalue =>
    cases h with
    | hash _ hentries =>
      cases h' with
      | hash _ hentries' =>
        refine .hash trivial (forall₂_comp hentries hentries' fun e he _ _ hentry hentry' => ?_)
        obtain ⟨hkey, hvalue⟩ := hentry
        obtain ⟨hkey', hvalue'⟩ := hentry'
        exact .mk (ihkey _ he hkey hkey') (ihvalue _ he hvalue hvalue')

/-! ### Data alike are equal -/

theorem sameValues_of_alike {xs ys : List Value} (h : List.Forall₂ (Value.Alike m) xs ys)
    (hsame : ∀ x ∈ xs, ∀ y, x.Alike m y → x.same y = true ∧ y.same x = true) :
    sameValues xs ys = true ∧ sameValues ys xs = true := by
  induction h with
  | nil => exact ⟨rfl, rfl⟩
  | cons hxy _ ih =>
    rw [List.forall_mem_cons] at hsame
    obtain ⟨hforth, hback⟩ := hsame.1 _ hxy
    obtain ⟨hrest, hrest'⟩ := ih hsame.2
    rw [sameValues, sameValues, hforth, hback, hrest, hrest']
    exact ⟨rfl, rfl⟩

theorem entriesWithin_iff {es others : List (Entry Value)} : entriesWithin es others = true ↔
    ∀ e ∈ es, ∃ other, Entry.find? e.hashKey others = some other ∧ e.key.same other.key = true ∧
      e.value.same other.value = true := by
  induction es with
  | nil => simp [entriesWithin]
  | cons e es ih =>
    rw [entriesWithin, Bool.and_eq_true, ih, List.forall_mem_cons]
    refine and_congr_left fun _ => ?_
    cases Entry.find? e.hashKey others <;> simp

theorem map_hashKey_eq {es es' : List (Entry Value)} (h : List.Forall₂ (EntryAlike m) es es') :
    es.map (·.hashKey) = es'.map (·.hashKey) := by
  induction h with
  | nil => rfl
  | cons hentry _ ih => rw [List.map_cons, List.map_cons, hentry.hashKey_eq, ih]

theorem exists_mem_of_forall₂ {α β : Type} {R : α → β → Prop} {xs : List α} {ys : List β} (h : List.Forall₂ R xs ys)
    {x : α} (hx : x ∈ xs) : ∃ y ∈ ys, R x y := by
  induction h with
  | nil => exact nomatch hx
  | cons hxy _ ih =>
    rcases List.mem_cons.mp hx with rfl | hx
    · exact ⟨_, List.mem_cons_self, hxy⟩
    · obtain ⟨y, hy, hxy⟩ := ih hx
      exact ⟨y, List.mem_cons_of_mem _ hy, hxy⟩

/-- Entries of hashes that are alike come in pairs, and each of the two is found under the hash key of the other. -/
theorem entriesWithin_of_alike {es es' : List (Entry Value)} (h : List.Forall₂ (EntryAlike m) es es')
    (hdistinct : (es.map (·.hashKey)).Nodup)
    (hkeys : ∀ e ∈ es, ∀ y, e.key.Alike m y → e.key.same y = true ∧ y.same e.key = true)
    (hvalues : ∀ e ∈ es, ∀ y, e.value.Alike m y → e.value.same y = true ∧ y.same e.value = true) :
    entriesWithin es es' = true ∧ entriesWithin es' es = true := by
  have hdistinct' : (es'.map (·.hashKey)).Nodup := map_hashKey_eq h ▸ hdistinct
  rw [entriesWithin_iff, entriesWithin_iff]
  refine ⟨fun e he => ?_, fun e' he' => ?_⟩
  · obtain ⟨e', he', hentry⟩ := exists_mem_of_forall₂ h he
    refine ⟨e', hentry.hashKey_eq ▸ Entry.find?_of_mem hdistinct' he', ?_⟩
    obtain ⟨hkey, hvalue⟩ := hentry
    exact ⟨(hkeys _ he _ hkey).1, (hvalues _ he _ hvalue).1⟩
  · obtain ⟨e, he, hentry⟩ := exists_mem_of_forall₂ (List.Forall₂.flip h) he'
    refine ⟨e, hentry.hashKey_eq ▸ Entry.find?_of_mem hdistinct he, ?_⟩
    obtain ⟨hkey, hvalue⟩ := hentry
    exact ⟨(hkeys _ he _ hkey).2, (hvalues _ he _ hvalue).2⟩

theorem Value.IsData.same_of_alike {x y : Value} (hx : x.IsData) (h : x.Alike m y) :
    x.same y = true ∧ y.same x = true := by
  induction hx generalizing y with
  | integer n =>
    cases h
    exact ⟨beq_self_eq_true n, beq_self_eq_true n⟩
  | boolean b =>
    cases h
    exact ⟨beq_self_eq_true b, beq_self_eq_true b⟩
  | string text =>
    cases h
    exact ⟨beq_self_eq_true text, beq_self_eq_true text⟩
  | array id _ ih =>
    cases h with
    | array _ helements => exact sameValues_of_alike helements fun x hx _ => ih x hx
  | hash id hdistinct _ _ _ ihkey ihvalue =>
    cases h with
    | hash _ hentries =>
      obtain ⟨hforth, hback⟩ :=
        entriesWithin_of_alike hentries hdistinct (fun e he _ => ihkey e he) fun e he _ => ihvalue e he
      simp only [Value.same, hentries.length_eq, hforth, hback, beq_self_eq_true, Bool.and_self, and_self]

/-! ### Texts in data -/

mutual

/-- The texts in a value, those of keys included. -/
def Value.texts : Value → List String
  | .string text => [text]
  | .array _ elements => textsOfValues elements
  | .hash _ entries => textsOfEntries entries
  | .returned value => value.texts
  | _ => []

def textsOfValues : List Value → List String
  | [] => []
  | x :: xs => x.texts ++ textsOfValues xs

def textsOfEntries : List (Entry Value) → List String
  | [] => []
  | ⟨_, key, value⟩ :: es => key.texts ++ value.texts ++ textsOfEntries es

end

theorem subset_textsOfValues {xs : List Value} {x : Value} (hx : x ∈ xs) : x.texts ⊆ textsOfValues xs := by
  induction xs with
  | nil => exact nomatch hx
  | cons other xs ih =>
    rcases List.mem_cons.mp hx with rfl | hx
    · exact List.subset_append_left _ _
    · exact List.subset_append_of_subset_right _ (ih hx)

theorem subset_textsOfEntries {es : List (Entry Value)} {e : Entry Value} (he : e ∈ es) :
    e.key.texts ++ e.value.texts ⊆ textsOfEntries es := by
  induction es with
  | nil => exact nomatch he
  | cons other es ih =>
    rcases List.mem_cons.mp he with rfl | he
    · exact List.subset_append_left _ _
    · exact List.subset_append_of_subset_right _ (ih he)

/-- Data can be printed as long as no text in them has a quote. -/
theorem Value.IsData.within_printable {x : Value} (hx : x.IsData) (htexts : ∀ text ∈ x.texts, '"' ∉ text.toList) :
    x.within .printable = true := by
  induction hx with
  | integer | boolean => rfl
  | string text =>
    have hquote : '"' ∉ text.toList := htexts text (List.mem_singleton_self text)
    refine List.all_eq_true.mpr fun c hc => ?_
    exact bne_iff_ne.mpr fun heq => hquote (heq ▸ hc)
  | array id _ ih =>
    exact withinValues_iff.mpr fun x hx => ih x hx fun text ht => htexts text (subset_textsOfValues hx ht)
  | hash id _ _ _ _ ihkey ihvalue =>
    refine withinEntries_iff.mpr fun e he => ⟨ihkey e he fun text ht => ?_, ihvalue e he fun text ht => ?_⟩
    · exact htexts text (subset_textsOfEntries he (List.mem_append_left _ ht))
    · exact htexts text (subset_textsOfEntries he (List.mem_append_right _ ht))

end Simian
