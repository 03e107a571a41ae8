import Simian.Proofs.Token.Spelling

/-!
# A text is cut where its tokens end

Reading a text for its tokens cuts it into pieces: a gap of blank characters, the characters of a token, another gap, and so on. Each piece is as long as a token of its class can be at that place, and the offsets of its token are those of its first character and of the character behind it. Only the end of the text is out of line: it lies one behind the offset of the last character, however many bytes that character takes.

These rules leave nothing open. A list of lexemes obeys them if and only if it is the one that the scanner finds.
-/

namespace Simian

open Token

/-! ### Offsets -/

/-- The byte offset of what follows the given characters. -/
def byteOffset (before : List Char) : Nat :=
  (String.ofList before).utf8ByteSize

/-- The offset at which a text ends: one more than that of its last character, and one for the empty text. -/
def endOffset (text : List Char) : Nat :=
  byteOffset text.dropLast + 1

/-- The offset of the place between the two parts of a text. -/
def offsetBetween (before rest : List Char) : Nat :=
  if rest = [] then endOffset before else byteOffset before

theorem byteOffset_concat (before : List Char) (c : Char) :
    byteOffset (before ++ [c]) = byteOffset before + c.utf8Size := by
  rw [byteOffset, String.ofList_append, String.utf8ByteSize_append]
  exact congrArg _ String.utf8ByteSize_singleton

namespace Cursor

/-- The cursor stands between the two parts of a text. -/
structure StandsAt (cur : Cursor) (before rest : List Char) : Prop where
  ahead : cur.rest = rest
  offset : cur.offset = offsetBetween before rest

variable {cur : Cursor} {before rest : List Char}

theorem standsAt_ofChars (text : List Char) : (ofChars text).StandsAt [] text := by
  cases text with
  | nil => exact ⟨rfl, rfl⟩
  | cons c cs => exact ⟨rfl, rfl⟩

theorem StandsAt.next {c : Char} (h : cur.StandsAt before (c :: rest)) : cur.next.StandsAt (before ++ [c]) rest := by
  obtain ⟨hrest, hoffset⟩ := h
  have hbefore : cur.offset = byteOffset before := hoffset
  refine ⟨by rw [rest_next, hrest, List.tail_cons], ?_⟩
  cases rest with
  | nil =>
    have hnext : cur.next.offset = cur.offset + 1 := by simp only [Cursor.next, nextOffset, hrest]
    rw [hnext, hbefore, offsetBetween, if_pos rfl, endOffset, List.dropLast_concat]
  | cons d rest =>
    have hnext : cur.next.offset = cur.offset + c.utf8Size := by simp only [Cursor.next, nextOffset, hrest]
    rw [hnext, hbefore, offsetBetween, if_neg (List.cons_ne_nil d rest), byteOffset_concat]

/-- Moving past a piece of text keeps count of its bytes. -/
theorem StandsAt.skip {piece : List Char} (h : cur.StandsAt before (piece ++ rest)) :
    (cur.skip piece.length).StandsAt (before ++ piece) rest := by
  induction piece generalizing cur before with
  | nil => rwa [List.append_nil]
  | cons c piece ih =>
    have hskip := ih h.next
    rwa [List.append_assoc, List.singleton_append] at hskip

theorem StandsAt.skipBlanks {gap : List Char} (h : cur.StandsAt before (gap ++ rest)) (hgap : gap.all isBlank = true)
    (hrest : rest.head?.any isBlank = false) : cur.skipBlanks.StandsAt (before ++ gap) rest := by
  rw [Cursor.skipBlanks, h.ahead, takeWhile_append_stop hgap hrest]
  exact h.skip

end Cursor

/-! ### The longest token -/

/-- The characters `text`, before `rest`, are an occurrence of the token: they spell it, and no longer token of its class begins where they begin. A string that is never closed goes on to the end. -/
structure Token.Occurs (token : Token) (text rest : List Char) : Prop where
  spelled : token.isSpelled = true
  longest : token.endsBefore rest = true
  text : text = token.spelling ∨ rest = [] ∧ ∃ contents, token = str contents ∧ text = '"' :: contents.toList

namespace Token

theorem take_length_takeWhile (p : Char → Bool) (cs : List Char) : cs.take (cs.takeWhile p).length = cs.takeWhile p := by
  have htake : (cs.takeWhile p ++ cs.dropWhile p).take (cs.takeWhile p).length = cs.takeWhile p := List.take_left
  rwa [List.takeWhile_append_dropWhile] at htake

theorem drop_length_takeWhile (p : Char → Bool) (cs : List Char) : cs.drop (cs.takeWhile p).length = cs.dropWhile p := by
  have hdrop : (cs.takeWhile p ++ cs.dropWhile p).drop (cs.takeWhile p).length = cs.dropWhile p := List.drop_left
  rwa [List.takeWhile_append_dropWhile] at hdrop

theorem endsBefore_ofWord (word : String) (rest : List Char) :
    (ofWord word).endsBefore rest = !rest.head?.any isWordRest := by
  unfold ofWord
  split <;> rfl

theorem spelling_ofWord (word : String) : (ofWord word).spelling = word.toList := by
  unfold ofWord
  split <;> rfl

theorem occurs_word {c : Char} {rest : List Char} (h : isWordStart c = true) :
    (ofWord (String.ofList ((c :: rest).takeWhile isWordRest))).Occurs ((c :: rest).takeWhile isWordRest)
      ((c :: rest).dropWhile isWordRest) where
  spelled := by
    rw [List.takeWhile_cons_of_pos (isWordRest_of_isWordStart h)]
    exact isSpelled_ofWord h List.all_takeWhile
  longest := by rw [endsBefore_ofWord, head?_dropWhile, Bool.not_false]
  text := .inl (by rw [spelling_ofWord, String.toList_ofList])

theorem occurs_digits {c : Char} {rest : List Char} (h : c.isDigit = true) :
    (int (String.ofList ((c :: rest).takeWhile Char.isDigit))).Occurs ((c :: rest).takeWhile Char.isDigit)
      ((c :: rest).dropWhile Char.isDigit) where
  spelled := by
    rw [isSpelled_int, String.toList_ofList, List.all_takeWhile, List.takeWhile_cons_of_pos h]
    rfl
  longest := by rw [endsBefore_int, head?_dropWhile, Bool.not_false]
  text := .inl String.toList_ofList.symm

theorem occurs_symbol {c : Char} {rest : List Char} (hblank : isBlank c = false) (hword : ¬ isWordStart c = true)
    (hdigit : ¬ c.isDigit = true) (hquote : c ≠ '"') (hassign : c = '=' → rest.head? ≠ some '=')
    (hbang : c = '!' → rest.head? ≠ some '=') : ((ofSymbol? c).getD (illegal c)).Occurs [c] rest := by
  cases hsymbol : ofSymbol? c with
  | none =>
    refine ⟨?_, rfl, .inl (spelling_illegal c).symm⟩
    simp [isStray, hblank, hword, hdigit, hquote, hsymbol]
  | some token =>
    refine ⟨isSpelled_of_ofSymbol? hsymbol, ?_, .inl ?_⟩
    · unfold ofSymbol? at hsymbol
      split at hsymbol <;> cases hsymbol
      · simpa using hassign rfl
      · simpa using hbang rfl
      all_goals rfl
    · unfold ofSymbol? at hsymbol
      split at hsymbol <;> cases hsymbol <;> rfl

/-- A string goes on to the next quote, or else to the end of the text. -/
theorem occurs_quoted {text : List Char} (htext : text.all (· != '"') = true) {after : List Char}
    (hafter : after.head?.any (· != '"') = false) :
    (str (String.ofList text)).Occurs (('"' :: text ++ after).take (quotedLength text.length (text ++ after)))
      (('"' :: text ++ after).drop (quotedLength text.length (text ++ after))) := by
  have hspelled : (str (String.ofList text)).isSpelled = true := by rwa [isSpelled_str, String.toList_ofList]
  cases after with
  | nil =>
    refine ⟨hspelled, rfl, .inr ⟨?_, String.ofList text, rfl, ?_⟩⟩
    · simp [quotedLength]
    · simp [quotedLength]
  | cons c rest =>
    obtain rfl : c = '"' := by simpa using hafter
    have hsplit : '"' :: text ++ '"' :: rest = ('"' :: text ++ ['"']) ++ rest := by simp
    have hlength : quotedLength text.length (text ++ '"' :: rest) = ('"' :: text ++ ['"']).length := by simp [quotedLength]
    refine ⟨hspelled, rfl, .inl ?_⟩
    rw [hsplit, hlength, List.take_left, spelling, String.toList_ofList]

/-- What is read at the head of a text is an occurrence of the token. -/
theorem occurs_of_munch {cs : List Char} {token : Token} {length : Nat} (hblank : cs.head?.any isBlank = false)
    (h : munch cs = some (token, length)) : token.Occurs (cs.take length) (cs.drop length) := by
  unfold munch at h
  split at h
  · exact nomatch h
  · cases h
    exact ⟨rfl, rfl, .inl rfl⟩
  · cases h
    exact ⟨rfl, rfl, .inl rfl⟩
  · rename_i rest
    cases h
    have htext : (rest.takeWhile (· != '"')).all (· != '"') = true := List.all_takeWhile
    have hquoted := occurs_quoted htext (head?_dropWhile (· != '"') rest)
    rwa [List.cons_append, List.takeWhile_append_dropWhile] at hquoted
  · rename_i c rest hassign hbang hquote
    have hc : isBlank c = false := by simpa using hblank
    split at h
    · rename_i hword
      cases h
      rw [take_length_takeWhile, drop_length_takeWhile]
      exact occurs_word hword
    · rename_i hword
      split at h
      · rename_i hdigit
        cases h
        rw [take_length_takeWhile, drop_length_takeWhile]
        exact occurs_digits hdigit
      · rename_i hdigit
        cases h
        refine occurs_symbol hc hword hdigit hquote ?_ ?_
        · rintro rfl hhead
          obtain ⟨rest', rfl⟩ := List.head?_eq_some_iff.mp hhead
          exact hassign rest' rfl rfl
        · rintro rfl hhead
          obtain ⟨rest', rfl⟩ := List.head?_eq_some_iff.mp hhead
          exact hbang rest' rfl rfl

theorem eq_nil_of_munch {cs : List Char} (h : munch cs = none) : cs = [] := by
  unfold munch at h
  split at h
  · rfl
  · exact nomatch h
  · exact nomatch h
  · exact nomatch h
  · split at h
    · exact nomatch h
    · split at h <;> exact nomatch h

/-- An occurrence of a token is what is read there. -/
theorem Occurs.munch {token : Token} {text rest : List Char} (h : token.Occurs text rest) :
    munch (text ++ rest) = some (token, text.length) := by
  rcases h.text with rfl | ⟨rfl, contents, rfl, rfl⟩
  · exact munch_spelling h.spelled h.longest
  · have hcontents : (contents.toList ++ []).takeWhile (· != '"') = contents.toList :=
      takeWhile_append_stop h.spelled rfl
    rw [List.append_nil] at hcontents
    simp [Token.munch, hcontents, quotedLength]

theorem Occurs.head? {token : Token} {text rest : List Char} (h : token.Occurs text rest) :
    (text ++ rest).head?.any isBlank = false := by
  rcases h.text with rfl | ⟨_, contents, _, rfl⟩
  · exact head?_spelling h.spelled rest
  · rfl

theorem Occurs.ne_eof {token : Token} {text rest : List Char} (h : token.Occurs text rest) : token ≠ eof :=
  fun heq => nomatch heq ▸ h.spelled

theorem Occurs.length_pos {token : Token} {text rest : List Char} (h : token.Occurs text rest) : 0 < text.length :=
  (isSpelled_of_munch h.head? h.munch).2

theorem Occurs.ne_nil {token : Token} {text rest : List Char} (h : token.Occurs text rest) : text ++ rest ≠ [] :=
  List.append_ne_nil_of_left_ne_nil (List.ne_nil_of_length_pos h.length_pos) rest

end Token

/-! ### The whole text -/

/-- The lexemes cut `rest`, which follows `before` in a text, into tokens with blank characters between and around them. Each token is the longest of its class at its place, and its span goes from its first character to the one behind it; the end token is at the end of the text. -/
inductive Cuts : (before rest : List Char) → List Lexeme → Prop
  | fin {before gap : List Char} (hgap : gap.all isBlank = true) :
      Cuts before gap [⟨eof, .point (endOffset (before ++ gap))⟩]
  | token {before gap text rest : List Char} {token : Token} {lexemes : List Lexeme} (hgap : gap.all isBlank = true)
      (htoken : token.Occurs text rest) (h : Cuts (before ++ gap ++ text) rest lexemes) :
      Cuts before (gap ++ (text ++ rest))
        (⟨token, byteOffset (before ++ gap), offsetBetween (before ++ gap ++ text) rest⟩ :: lexemes)

namespace Cursor

variable {cur : Cursor} {before gap text rest : List Char}

theorem StandsAt.scan_end (h : cur.StandsAt before gap) (hgap : gap.all isBlank = true) :
    cur.scan.1 = ⟨eof, .point (endOffset (before ++ gap))⟩ := by
  have hfin : cur.skipBlanks.StandsAt (before ++ gap) [] := by
    rw [← List.append_nil gap] at h
    exact h.skipBlanks hgap rfl
  simp only [scan, hfin.ahead, munch, hfin.offset]
  rfl

theorem StandsAt.scan_token {token : Token} (h : cur.StandsAt before (gap ++ (text ++ rest)))
    (hgap : gap.all isBlank = true) (htoken : token.Occurs text rest) :
    cur.scan.1 = ⟨token, byteOffset (before ++ gap), offsetBetween (before ++ gap ++ text) rest⟩ ∧
      cur.scan.2.StandsAt (before ++ gap ++ text) rest := by
  have hhere : cur.skipBlanks.StandsAt (before ++ gap) (text ++ rest) := h.skipBlanks hgap htoken.head?
  have hafter := hhere.skip
  have hscan : cur.scan = (⟨token, cur.skipBlanks.offset, (cur.skipBlanks.skip text.length).offset⟩,
      cur.skipBlanks.skip text.length) := by
    simp only [scan, hhere.ahead, htoken.munch]
  rw [hscan]
  refine ⟨?_, hafter⟩
  rw [hhere.offset, hafter.offset, offsetBetween, if_neg htoken.ne_nil]

theorem StandsAt.scanAll_end (h : cur.StandsAt before gap) (hgap : gap.all isBlank = true) (bound : Nat) :
    scanAll (bound + 1) cur = [⟨eof, .point (endOffset (before ++ gap))⟩] := by
  simp only [scanAll, h.scan_end hgap, if_true]

theorem StandsAt.scanAll_token {token : Token} (h : cur.StandsAt before (gap ++ (text ++ rest)))
    (hgap : gap.all isBlank = true) (htoken : token.Occurs text rest) (bound : Nat) :
    scanAll (bound + 1) cur = ⟨token, byteOffset (before ++ gap), offsetBetween (before ++ gap ++ text) rest⟩ ::
      scanAll bound cur.scan.2 := by
  simp only [scanAll, (h.scan_token hgap htoken).1, htoken.ne_eof, if_false]

/-- Lexemes that cut the text are those that are found in it, as long as the bound allows for all of them. -/
theorem StandsAt.scanAll_of_cuts {lexemes : List Lexeme} (h : cur.StandsAt before rest) (hcuts : Cuts before rest lexemes)
    {bound : Nat} (hbound : rest.length < bound) : scanAll bound cur = lexemes := by
  induction hcuts generalizing cur bound with
  | fin hgap =>
    obtain ⟨bound, rfl⟩ := Nat.exists_eq_add_one_of_ne_zero (Nat.ne_zero_of_lt hbound)
    exact h.scanAll_end hgap bound
  | @token _ gap text rest _ _ hgap htoken _ ih =>
    obtain ⟨bound, rfl⟩ := Nat.exists_eq_add_one_of_ne_zero (Nat.ne_zero_of_lt hbound)
    have hshort : rest.length < bound := by
      have hpos := htoken.length_pos
      simp only [List.length_append] at hbound
      omega
    rw [h.scanAll_token hgap htoken, ih (h.scan_token hgap htoken).2 hshort]

theorem StandsAt.cuts_scanAll (h : cur.StandsAt before rest) {bound : Nat} (hbound : rest.length < bound) :
    Cuts before rest (scanAll bound cur) := by
  induction bound generalizing cur before rest with
  | zero => exact absurd hbound (Nat.not_lt_zero _)
  | succ bound ih =>
    have hgap : (rest.takeWhile isBlank).all isBlank = true := List.all_takeWhile
    cases hmunch : munch (rest.dropWhile isBlank) with
    | none =>
      have hblank : rest.all isBlank = true := by
        have hnil : rest.dropWhile isBlank = [] := eq_nil_of_munch hmunch
        rw [← rest.takeWhile_append_dropWhile (p := isBlank), hnil, List.append_nil]
        exact hgap
      rw [h.scanAll_end hblank]
      exact .fin hblank
    | some read =>
      obtain ⟨token, length⟩ := read
      have htoken := occurs_of_munch (head?_dropWhile isBlank rest) hmunch
      have hshort := length_drop_lt_of_munch hmunch
      -- The text is its blank characters, the token and what comes behind that.
      have hsplit : rest = rest.takeWhile isBlank ++
          ((rest.dropWhile isBlank).take length ++ (rest.dropWhile isBlank).drop length) := by
        rw [List.take_append_drop, List.takeWhile_append_dropWhile]
      rw [hsplit] at h
      have hcuts := Cuts.token hgap htoken (ih (h.scan_token hgap htoken).2 (by omega))
      rwa [← h.scanAll_token hgap htoken, ← hsplit] at hcuts

end Cursor

theorem Cuts.exists_concat {before rest : List Char} {lexemes : List Lexeme} (h : Cuts before rest lexemes) :
    ∃ tokens, lexemes = tokens ++ [⟨eof, .point (endOffset (before ++ rest))⟩] ∧ ∀ l ∈ tokens, l.token ≠ eof := by
  induction h with
  | fin hgap => exact ⟨[], rfl, fun _ hl => nomatch hl⟩
  | @token before gap text rest token _ _ htoken _ ih =>
    obtain ⟨tokens, rfl, htokens⟩ := ih
    refine ⟨⟨token, byteOffset (before ++ gap), offsetBetween (before ++ gap ++ text) rest⟩ :: tokens, ?_,
      List.forall_mem_cons.mpr ⟨htoken.ne_eof, htokens⟩⟩
    simp only [List.append_assoc, List.cons_append]

theorem cuts_tokenize (source : String) : Cuts [] source.toList (tokenize source) := by
  refine (Cursor.standsAt_ofChars source.toList).cuts_scanAll ?_
  rw [String.length_toList]
  exact Nat.lt_succ_self _

theorem tokenize_of_cuts {source : String} {lexemes : List Lexeme} (h : Cuts [] source.toList lexemes) :
    tokenize source = lexemes := by
  refine (Cursor.standsAt_ofChars source.toList).scanAll_of_cuts h ?_
  rw [String.length_toList]
  exact Nat.lt_succ_self _

/-- The tokens of a text are exactly those that the rules of longest match cut it into, at exactly these offsets, and they end with the only end token. -/
theorem tokens_are_longest_matches (source : String) :
    (∀ lexemes, Cuts [] source.toList lexemes ↔ tokenize source = lexemes) ∧
      ∃ tokens, tokenize source = tokens ++ [⟨eof, .point (endOffset source.toList)⟩] ∧ ∀ l ∈ tokens, l.token ≠ eof := by
  have hcuts := cuts_tokenize source
  exact ⟨fun lexemes => ⟨tokenize_of_cuts, fun h => h ▸ hcuts⟩, hcuts.exists_concat⟩

/-- An unclosed string reaches the end of the text, which counts the character before it as one byte. -/
example : tokenize "ab==\"é" = [⟨.ident "ab", ⟨0, 2⟩⟩, ⟨equal, ⟨2, 4⟩⟩, ⟨.str "é", ⟨4, 6⟩⟩, ⟨eof, ⟨6, 6⟩⟩] := by decide

end Simian
