import Mathlib.Algebra.Group.Nat.Defs
import Simian.Proofs.Parser.Stream
import Simian.Proofs.Text.Utf8
import Simian.Source

/-!
# Reading a file

A file is parsed while it is decoded, and yet it is as if its text had been there at once. If its bytes encode a text, the copy made on the way is that text and the program is the one that the text alone gives, with the same spans and errors. If they do not, the file is refused, whatever the parser made of the text before the error.

Little is asked of the decoder for this (`Decoded`): that it hands out the text of bytes that encode one, and of other bytes the text in front of the first place where they are invalid, and then says so. What it does behind that place is left open, but it is not without effect. The feed is asked once more there, and if the decoder has a second error to tell at once, that is the one that is told.
-/

namespace Simian

open Text

/-- What reading relies on a decoder to make of some bytes. -/
structure Decoded (bytes : List UInt8) (items : List (Except IoError Char)) : Prop where
  /-- Bytes that encode a text are its characters, and nothing stands behind these. -/
  text : ∀ text, utf8Bytes text = bytes → items = text.toList.map .ok
  /-- Other bytes are the characters of the longest text that they begin with, and then an error. -/
  invalid : (∀ text, utf8Bytes text ≠ bytes) → ∃ text behind, utf8Bytes text <+: bytes ∧
    (∀ text', utf8Bytes text' <+: bytes → utf8Bytes text' <+: utf8Bytes text) ∧
    items = text.toList.map .ok ++ .error .invalidData :: behind

/-! ### Any decoder -/

/-- The copy and the error of the feed are those of all the items at once. -/
theorem FileState.readWith_file (decode : List UInt8 → List (Except IoError Char)) (bytes : List UInt8) :
    (file bytes).readWith decode =
      (fun chars => (String.ofList chars, (parseFeed (.ofItems (decode bytes))).1)) <$> allChars (decode bytes) := by
  have houtcome : (parseFeed (.ofItems (decode bytes))).2.outcome = String.ofList <$> allChars (decode bytes) := by
    rw [parseFeed_ofItems, Feed.outcome_ofItems]
  simp only [readWith, houtcome]
  cases allChars (decode bytes) <;> rfl

/-- Reading a file while parsing it agrees with parsing its text, whatever decoder is used, as long as the offsets fit words. A file that encodes a text gives this text and what the text is parsed to. Any other file is refused, wherever its bytes are invalid: as invalid, or with the error that the decoder tells directly behind that place. And a text that is parsed character by character is parsed as it is as a whole. -/
theorem reading_agrees_with_parsing {decode : List UInt8 → List (Except IoError Char)} {bytes : List UInt8}
    (hsize : bytes.length < 2 ^ 32 - 1) (hdecode : Decoded bytes (decode bytes)) :
    (∀ text, utf8Bytes text = bytes → (FileState.file bytes).readWith decode = .ok (text, parse text)) ∧
    ((∀ text, utf8Bytes text ≠ bytes) → ∃ (before : String) (behind : List (Except IoError Char)),
      decode bytes = before.toList.map .ok ++ .error .invalidData :: behind ∧
        (FileState.file bytes).readWith decode = .error (told .invalidData behind)) ∧
    ∀ text : String, text.utf8ByteSize < 2 ^ 32 - 1 → (parseFeed (.ofChars text.toList)).1 = parse text := by
  have hfits : 2 ^ 32 - 1 ≤ UInt32.size := by decide
  refine ⟨fun text htext => ?_, fun hbytes => ?_, fun text htext => parseFeed_ofChars (Nat.lt_of_lt_of_le htext hfits)⟩
  · rw [← htext, length_utf8Bytes] at hsize
    rw [FileState.readWith_file, hdecode.text text htext, allChars_map_ok, ← Feed.ofChars,
      parseFeed_ofChars (Nat.lt_of_lt_of_le hsize hfits)]
    exact congrArg (fun copy => Except.ok (copy, parse text)) text.ofList_toList
  · obtain ⟨before, behind, _, _, hitems⟩ := hdecode.invalid hbytes
    refine ⟨before, behind, hitems, ?_⟩
    rw [FileState.readWith_file, hitems, allChars_append]
    rfl

/-! ### The decoder in use -/

/-- What is read of a file that is a text is the program of that text, up to the spans of one too long for words. -/
theorem FileState.read?_of_text {file : FileState} {text : String} (h : file.text? = .ok text) :
    ∃ parsed, file.read? = .ok (text, parsed) ∧ parsed.erase = (parse text).erase := by
  cases file with
  | refused error => cases h
  | file bytes =>
    rw [text?] at h
    cases hchars : allChars (decodeUtf8 bytes) with
    | error error =>
      rw [hchars] at h
      cases h
    | ok chars =>
      rw [hchars] at h
      cases h
      refine ⟨_, by rw [read?, readWith_file, hchars]; rfl, ?_⟩
      rw [parseFeed_erase, items_of_allChars hchars, beforeFault_map_ok]

theorem decoded_utf8Bytes (text : String) : Decoded (utf8Bytes text) (decodeUtf8 (utf8Bytes text)) where
  text text' h := h ▸ decodeUtf8_utf8Bytes text'
  invalid h := absurd rfl (h text)

/-- A first error of invalid data shows that the bytes encode no text, and the characters before it are all that can be had of them. -/
theorem decoded_of_invalidData {bytes : List UInt8} {chars : List Char} {behind : List (Except IoError Char)}
    (h : decodeUtf8 bytes = chars.map .ok ++ .error .invalidData :: behind) : Decoded bytes (decodeUtf8 bytes) where
  text text htext := absurd htext (utf8Bytes_ne h text)
  invalid _ := by
    obtain ⟨rest, hbytes, _⟩ := exists_of_decodeFrom_eq h
    refine ⟨String.ofList chars, behind, hbytes ▸ List.prefix_append _ _, fun text' hprefix => ?_, ?_⟩
    · obtain ⟨rest', rfl⟩ := hprefix
      have hchars := congrArg beforeFault h
      rw [decodeUtf8, decodeFrom_utf8Bytes_append, beforeFault_append, beforeFault_append_error] at hchars
      rw [← hchars, utf8Bytes_ofList, List.flatMap_append, ← utf8Bytes_eq]
      exact List.prefix_append _ _
    · rw [String.toList_ofList]
      exact h

/-- A file that is a text; one with a byte in it that begins no character; and one in which a character that is cut off stands behind such a byte. -/
theorem reading_agrees_with_parsing_two_faults :
    (FileState.file [0xc3, 0xa9]).readWith decodeUtf8 = .ok ("é", parse "é") ∧
      (FileState.file [0x35, 0xff, 0x35]).readWith decodeUtf8 = .error .invalidData ∧
      (FileState.file [0x35, 0xff, 0xe2]).readWith decodeUtf8 = .error .unexpectedEof := by
  have htext : utf8Bytes "é" = [0xc3, 0xa9] := by decide
  have hfault : decodeUtf8 [0x35, 0xff, 0x35] = ['5'].map .ok ++ .error .invalidData :: [.ok '5'] := by decide
  have hfaults : decodeUtf8 [0x35, 0xff, 0xe2] = ['5'].map .ok ++ .error .invalidData :: [.error .unexpectedEof] := by
    decide
  have hread := (reading_agrees_with_parsing (by decide) (htext ▸ decoded_utf8Bytes "é")).1 "é" htext
  obtain ⟨before, behind, hitems, hrefused⟩ :=
    (reading_agrees_with_parsing (by decide) (decoded_of_invalidData hfault)).2.1 (utf8Bytes_ne hfault)
  obtain ⟨before', behind', hitems', hrefused'⟩ :=
    (reading_agrees_with_parsing (by decide) (decoded_of_invalidData hfaults)).2.1 (utf8Bytes_ne hfaults)
  rw [← behind_error_inj (hfault.symm.trans hitems)] at hrefused
  rw [← behind_error_inj (hfaults.symm.trans hitems')] at hrefused'
  exact ⟨hread, hrefused, hrefused'⟩

/-- Within what is relied on, a file whose bytes are no text may be refused with another error than that they are invalid. -/
theorem second_error_is_told :
    Decoded [0x35, 0xff, 0xe2] (decodeUtf8 [0x35, 0xff, 0xe2]) ∧ (∀ text, utf8Bytes text ≠ [0x35, 0xff, 0xe2]) ∧
      (FileState.file [0x35, 0xff, 0xe2]).readWith decodeUtf8 ≠ .error .invalidData := by
  have hfaults : decodeUtf8 [0x35, 0xff, 0xe2] = ['5'].map .ok ++ .error .invalidData :: [.error .unexpectedEof] := by
    decide
  refine ⟨decoded_of_invalidData hfaults, utf8Bytes_ne hfaults, fun h => ?_⟩
  rw [FileState.readWith_file, hfaults] at h
  exact nomatch h

end Simian
