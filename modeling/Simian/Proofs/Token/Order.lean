import Simian.Proofs.Token.Cutting

/-!
# Tokens lie one behind the other

The spans of the tokens of a text do not overlap, and they come in the order of the tokens. Each token takes up at least one byte, except for the end token, which lies at the end of the text. That end is within the text, if there is any text at all.
-/

namespace Simian

open Token

/-! ### Lexemes in order -/

/-- The lexemes lie one behind the other from the first offset on up to the second one, and every token but the end token takes up space. -/
def InOrder (lo : Nat) : List Lexeme → (hi : Nat) → Prop
  | [], hi => lo ≤ hi
  | l :: ls, hi =>
    lo ≤ l.span.start ∧ l.span.start ≤ l.span.stop ∧ (l.token ≠ eof → l.span.start < l.span.stop) ∧ InOrder l.span.stop ls hi

namespace InOrder

variable {lo lo' hi hi' : Nat} {l close : Lexeme} {ls ls' : List Lexeme}

theorem le (h : InOrder lo ls hi) : lo ≤ hi := by
  induction ls generalizing lo with
  | nil => exact h
  | cons l ls ih =>
    obtain ⟨hlo, hspan, _, hrest⟩ := h
    exact Nat.le_trans hlo (Nat.le_trans hspan (ih hrest))

theorem mono (h : InOrder lo ls hi) (hlo : lo' ≤ lo) (hhi : hi ≤ hi') : InOrder lo' ls hi' := by
  induction ls generalizing lo lo' with
  | nil => exact Nat.le_trans hlo (Nat.le_trans h hhi)
  | cons l ls ih =>
    obtain ⟨hstart, hspan, hspace, hrest⟩ := h
    exact ⟨Nat.le_trans hlo hstart, hspan, hspace, ih hrest (Nat.le_refl _)⟩

theorem exists_append (h : InOrder lo (ls ++ ls') hi) : ∃ mid, InOrder lo ls mid ∧ InOrder mid ls' hi := by
  induction ls generalizing lo with
  | nil => exact ⟨lo, Nat.le_refl lo, h⟩
  | cons l ls ih =>
    obtain ⟨hlo, hspan, hspace, hrest⟩ := h
    obtain ⟨mid, hls, hls'⟩ := ih hrest
    exact ⟨mid, ⟨hlo, hspan, hspace, hls⟩, hls'⟩

theorem behind (h : InOrder lo (ls ++ ls') hi) : InOrder lo ls' hi := by
  obtain ⟨mid, hls, hls'⟩ := h.exists_append
  exact hls'.mono hls.le (Nat.le_refl hi)

/-- What is behind a token comes after its start. -/
theorem token (h : InOrder lo (l :: ls) hi) : lo ≤ l.span.start ∧ InOrder l.span.start ls hi :=
  ⟨h.1, h.2.2.2.mono h.2.1 (Nat.le_refl hi)⟩

/-- What is between two tokens lies between the start of the one and the stop of the other. -/
theorem enclosed (h : InOrder lo (l :: (ls ++ [close])) hi) :
    lo ≤ l.span.start ∧ InOrder l.span.start ls close.span.stop ∧ close.span.stop ≤ hi := by
  obtain ⟨hlo, hrest⟩ := h.token
  obtain ⟨mid, hls, hclose⟩ := hrest.exists_append
  obtain ⟨hstart, hspan, _, hhi⟩ := hclose
  exact ⟨hlo, hls.mono (Nat.le_refl _) (Nat.le_trans hstart hspan), hhi⟩

/-- Every one of the lexemes lies between the two offsets. -/
theorem mem (h : InOrder lo ls hi) (hl : l ∈ ls) :
    lo ≤ l.span.start ∧ l.span.start ≤ l.span.stop ∧ l.span.stop ≤ hi := by
  obtain ⟨before, after, rfl⟩ := List.append_of_mem hl
  obtain ⟨hlo, hspan, _, hafter⟩ := h.behind
  exact ⟨hlo, hspan, hafter.le⟩

end InOrder

/-! ### Offsets in a text -/

theorem byteOffset_append (before text : List Char) :
    byteOffset (before ++ text) = byteOffset before + byteOffset text := by
  rw [byteOffset, String.ofList_append, String.utf8ByteSize_append]
  rfl

/-- Behind a piece of text the offset is larger, even where the text ends. -/
theorem byteOffset_lt_offsetBetween (before : List Char) {text : List Char} (htext : text ≠ []) (rest : List Char) :
    byteOffset before < offsetBetween (before ++ text) rest := by
  obtain ⟨init, c, rfl⟩ := (List.eq_nil_or_concat text).resolve_left htext
  rw [List.concat_eq_append, ← List.append_assoc]
  unfold offsetBetween
  split
  · rw [endOffset, List.dropLast_concat, byteOffset_append]
    omega
  · rw [byteOffset_concat, byteOffset_append]
    have hpos := Char.utf8Size_pos c
    omega

theorem offsetBetween_le_endOffset (before rest : List Char) : offsetBetween before rest ≤ endOffset (before ++ rest) := by
  by_cases hrest : rest = []
  · have heq : offsetBetween before rest = endOffset (before ++ rest) := by
      rw [hrest, List.append_nil, offsetBetween, if_pos rfl]
    exact Nat.le_of_eq heq
  · have hend := byteOffset_lt_offsetBetween before hrest []
    rw [offsetBetween, if_pos rfl] at hend
    rw [offsetBetween, if_neg hrest]
    exact Nat.le_of_lt hend

theorem endOffset_le_byteOffset {text : List Char} (htext : text ≠ []) : endOffset text ≤ byteOffset text := by
  obtain ⟨init, c, rfl⟩ := (List.eq_nil_or_concat text).resolve_left htext
  rw [List.concat_eq_append, endOffset, List.dropLast_concat, byteOffset_concat]
  have hpos := Char.utf8Size_pos c
  omega

/-! ### The tokens of a text -/

theorem Cuts.inOrder {before rest : List Char} {lexemes : List Lexeme} (h : Cuts before rest lexemes) :
    InOrder (offsetBetween before rest) lexemes (endOffset (before ++ rest)) := by
  induction h with
  | @fin before gap hgap =>
    exact ⟨offsetBetween_le_endOffset before gap, Nat.le_refl _, fun hne => absurd rfl hne, Nat.le_refl _⟩
  | @token before gap text rest token lexemes hgap htoken _ ih =>
    have htext : text ≠ [] := List.ne_nil_of_length_pos htoken.length_pos
    have hgapped : offsetBetween before (gap ++ (text ++ rest)) ≤ byteOffset (before ++ gap) := by
      rw [offsetBetween, if_neg (by simp [htext]), byteOffset_append]
      exact Nat.le_add_right _ _
    have hspace := byteOffset_lt_offsetBetween (before ++ gap) htext rest
    have hwhole : before ++ gap ++ text ++ rest = before ++ (gap ++ (text ++ rest)) := by simp only [List.append_assoc]
    rw [hwhole] at ih
    exact ⟨hgapped, Nat.le_of_lt hspace, fun _ => hspace, ih⟩

theorem inOrder_tokenize (source : String) : InOrder 0 (tokenize source) (endOffset source.toList) :=
  (cuts_tokenize source).inOrder.mono (Nat.zero_le _) (Nat.le_refl _)

theorem endOffset_le_utf8ByteSize {source : String} (h : source ≠ "") : endOffset source.toList ≤ source.utf8ByteSize := by
  have htext : source.toList ≠ [] := fun hnil => h (String.toList_eq_nil_iff.mp hnil)
  have hbytes := endOffset_le_byteOffset htext
  rwa [byteOffset, String.ofList_toList] at hbytes

/-! ### Offsets that fit words -/

theorem Lexeme.inWords_eq_self {l : Lexeme} (hspan : l.span.start ≤ l.span.stop) (hstop : l.span.stop < UInt32.size) :
    l.inWords = l := by
  rw [inWords, Span.inWords_eq_self (Nat.lt_of_le_of_lt hspan hstop) hstop]

/-- In a text of fewer bytes than there are words, no token ends behind the last word. -/
theorem map_inWords_tokenize {source : String} (h : source.utf8ByteSize < UInt32.size) :
    (tokenize source).map Lexeme.inWords = tokenize source := by
  have hend : endOffset source.toList < UInt32.size := by
    by_cases hempty : source = ""
    · subst hempty
      decide
    · exact Nat.lt_of_le_of_lt (endOffset_le_utf8ByteSize hempty) h
  have hself : ∀ l ∈ tokenize source, l.inWords = id l := fun l hl => by
    obtain ⟨_, hspan, hstop⟩ := (inOrder_tokenize source).mem hl
    exact Lexeme.inWords_eq_self hspan (Nat.lt_of_le_of_lt hstop hend)
  rw [List.map_congr_left hself, List.map_id]

end Simian
