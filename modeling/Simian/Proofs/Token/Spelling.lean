import Simian.Token.Lexer

/-!
# Tokens and the texts that spell them

Which tokens a text can hold, how each of them is spelled, and that the spelling is read back as the token wherever no longer token begins there. What a text reads as is a function of its characters alone (`Token.readAll`); offsets only decorate the tokens.
-/

namespace Simian

namespace Token

/-- A word that is read as an identifier. -/
def isName (name : String) : Bool :=
  match name.toList with
  | [] => false
  | c :: cs => isWordStart c && cs.all isWordRest && ofWord name == ident name

/-- A character that no token begins with. -/
def isStray (c : Char) : Bool :=
  !isBlank c && !isWordStart c && !c.isDigit && c != '"' && (ofSymbol? c).isNone

/-- Whether some text holds the token. -/
def isSpelled : Token → Bool
  | ident name => isName name
  | int digits => !digits.toList.isEmpty && digits.toList.all Char.isDigit
  | str text => text.toList.all (· != '"')
  | illegal c => isStray c
  | eof => false
  | _ => true

/-- The characters of a token in a text. -/
def spelling : Token → List Char
  | str text => '"' :: text.toList ++ ['"']
  | token => token.literal.toList

/-- Whether the token ends where `rest` begins: no longer token is spelled there. -/
def endsBefore (token : Token) (rest : List Char) : Bool :=
  match token with
  | ident _ | kwFn | kwLet | kwTrue | kwFalse | kwIf | kwElse | kwReturn | kwMacro =>
    !rest.head?.any isWordRest
  | int _ => !rest.head?.any Char.isDigit
  | assign | bang => rest.head? != some '='
  | _ => true

section Tokens

variable (name digits text : String) (c : Char) (rest : List Char)

@[simp] theorem isSpelled_ident : (ident name).isSpelled = isName name := rfl

@[simp] theorem isSpelled_int :
    (int digits).isSpelled = (!digits.toList.isEmpty && digits.toList.all Char.isDigit) := rfl

@[simp] theorem isSpelled_str : (str text).isSpelled = text.toList.all (· != '"') := rfl

@[simp] theorem isSpelled_illegal : (illegal c).isSpelled = isStray c := rfl

@[simp] theorem spelling_illegal : (illegal c).spelling = [c] :=
  String.toList_singleton c

@[simp] theorem endsBefore_ident : (ident name).endsBefore rest = !rest.head?.any isWordRest := rfl

@[simp] theorem endsBefore_int : (int digits).endsBefore rest = !rest.head?.any Char.isDigit := rfl

@[simp] theorem endsBefore_assign : assign.endsBefore rest = (rest.head? != some '=') := rfl

@[simp] theorem endsBefore_bang : bang.endsBefore rest = (rest.head? != some '=') := rfl

end Tokens

/-! ### One token -/

theorem munch_plain {c : Char} {rest : List Char} (hassign : c ≠ '=') (hbang : c ≠ '!')
    (hquote : c ≠ '"') :
    munch (c :: rest) =
      if isWordStart c then
        some (ofWord (String.ofList ((c :: rest).takeWhile isWordRest)),
          ((c :: rest).takeWhile isWordRest).length)
      else if c.isDigit then
        some (int (String.ofList ((c :: rest).takeWhile Char.isDigit)),
          ((c :: rest).takeWhile Char.isDigit).length)
      else some ((ofSymbol? c).getD (illegal c), 1) := by
  unfold munch
  split <;> simp_all

theorem takeWhile_append_stop {p : Char → Bool} {word rest : List Char} (hword : word.all p = true)
    (hrest : rest.head?.any p = false) : (word ++ rest).takeWhile p = word := by
  induction word with
  | nil =>
    cases rest with
    | nil => rfl
    | cons c cs =>
      have hc : p c = false := by simpa using hrest
      simp [hc]
  | cons c cs ih =>
    simp only [List.all_cons, Bool.and_eq_true] at hword
    simp [hword.1, ih hword.2]

theorem isWordRest_of_isWordStart {c : Char} (h : isWordStart c = true) : isWordRest c = true := by
  simp only [isWordStart, isWordRest, Char.isAlphanum, Bool.or_eq_true] at h ⊢
  rcases h with h | h
  · exact Or.inl (Or.inl h)
  · exact Or.inr h

theorem ne_of_isWordStart {c d : Char} (h : isWordStart c = true) (hd : isWordStart d = false) :
    c ≠ d := by
  intro heq
  rw [heq, hd] at h
  exact absurd h (by decide)

theorem munch_word {c : Char} {cs rest : List Char} (hstart : isWordStart c = true)
    (hrest : cs.all isWordRest = true) (hend : rest.head?.any isWordRest = false) :
    munch (c :: cs ++ rest) = some (ofWord (String.ofList (c :: cs)), (c :: cs).length) := by
  have hword : ((c :: cs) ++ rest).takeWhile isWordRest = c :: cs :=
    takeWhile_append_stop (by simp [isWordRest_of_isWordStart hstart, hrest]) hend
  rw [List.cons_append] at hword ⊢
  rw [munch_plain (ne_of_isWordStart hstart (by decide)) (ne_of_isWordStart hstart (by decide))
    (ne_of_isWordStart hstart (by decide)), if_pos hstart, hword]

theorem isWordStart_eq_false_of_isDigit {c : Char} (h : c.isDigit = true) :
    isWordStart c = false := by
  have hbounds : 48 ≤ c.val ∧ c.val ≤ 57 := by simpa [Char.isDigit] using h
  have hne : c ≠ '_' := by
    intro heq
    rw [heq] at hbounds
    exact absurd hbounds (by decide)
  have hupper : ¬ (65 ≤ c.val ∧ c.val ≤ 90) := by
    intro hupper
    exact absurd (UInt32.le_trans hupper.1 hbounds.2) (by decide)
  have hlower : ¬ (97 ≤ c.val ∧ c.val ≤ 122) := by
    intro hlower
    exact absurd (UInt32.le_trans hlower.1 hbounds.2) (by decide)
  change ((decide (65 ≤ c.val ∧ c.val ≤ 90) || (97 ≤ c.val && c.val ≤ 122)) || c == '_') = false
  simp_all

theorem munch_digits {c : Char} {cs rest : List Char} (hdigits : (c :: cs).all Char.isDigit = true)
    (hend : rest.head?.any Char.isDigit = false) :
    munch (c :: cs ++ rest) = some (int (String.ofList (c :: cs)), (c :: cs).length) := by
  have hword : ((c :: cs) ++ rest).takeWhile Char.isDigit = c :: cs :=
    takeWhile_append_stop hdigits hend
  have hdigit : c.isDigit = true := by simp_all
  have hne : ∀ d : Char, d.isDigit = false → c ≠ d := by
    intro d hd heq
    rw [heq, hd] at hdigit
    exact absurd hdigit (by decide)
  rw [List.cons_append] at hword ⊢
  rw [munch_plain (hne _ (by decide)) (hne _ (by decide)) (hne _ (by decide)),
    if_neg (by simp [isWordStart_eq_false_of_isDigit hdigit]), if_pos hdigit, hword]

theorem munch_quoted {text : List Char} (htext : text.all (· != '"') = true) (rest : List Char) :
    munch ('"' :: text ++ '"' :: rest) = some (str (String.ofList text), text.length + 2) := by
  have hword : (text ++ '"' :: rest).takeWhile (· != '"') = text :=
    takeWhile_append_stop htext (by simp)
  simp [munch, hword, quotedLength]

theorem munch_stray {c : Char} (h : isStray c = true) (rest : List Char) :
    munch (c :: rest) = some (illegal c, 1) := by
  simp only [isStray, Bool.and_eq_true, Bool.not_eq_true', bne_iff_ne, Option.isNone_iff_eq_none] at h
  obtain ⟨⟨⟨⟨_, hword⟩, hdigit⟩, hquote⟩, hsymbol⟩ := h
  have hne : ∀ d : Char, (ofSymbol? d).isSome = true → c ≠ d := by
    intro d hd heq
    rw [← heq, hsymbol] at hd
    exact absurd hd (by decide)
  rw [munch_plain (hne _ (by decide)) (hne _ (by decide)) hquote, if_neg (by simp [hword]),
    if_neg (by simp [hdigit]), hsymbol]
  rfl

/-- A token that some text holds is read back from its spelling, unless a longer token begins there. -/
theorem munch_spelling {token : Token} {rest : List Char} (hspelled : token.isSpelled = true)
    (hends : token.endsBefore rest = true) :
    munch (token.spelling ++ rest) = some (token, token.spelling.length) := by
  cases token with
  | ident name =>
    obtain ⟨c, cs, hname⟩ : ∃ c cs, name.toList = c :: cs := by
      cases h : name.toList with
      | nil => simp [isName, h] at hspelled
      | cons c cs => exact ⟨c, cs, rfl⟩
    simp only [isSpelled_ident, isName, hname, Bool.and_eq_true, beq_iff_eq] at hspelled
    have hend : rest.head?.any isWordRest = false := by simpa using hends
    change munch (name.toList ++ rest) = some (ident name, name.toList.length)
    rw [hname, munch_word hspelled.1.1 hspelled.1.2 hend, ← hname,
      String.ofList_toList, hspelled.2]
  | int digits =>
    obtain ⟨c, cs, hdigits⟩ : ∃ c cs, digits.toList = c :: cs := by
      cases h : digits.toList with
      | nil => simp [h] at hspelled
      | cons c cs => exact ⟨c, cs, rfl⟩
    have hall : (c :: cs).all Char.isDigit = true := by
      rw [← hdigits]
      simp only [isSpelled_int, Bool.and_eq_true] at hspelled
      exact hspelled.2
    have hend : rest.head?.any Char.isDigit = false := by simpa using hends
    change munch (digits.toList ++ rest) = some (int digits, digits.toList.length)
    rw [hdigits, munch_digits hall hend, ← hdigits, String.ofList_toList]
  | str text =>
    have htext : text.toList.all (· != '"') = true := hspelled
    have hmunch := munch_quoted htext rest
    rw [String.ofList_toList] at hmunch
    simpa [spelling] using hmunch
  | illegal c =>
    have hmunch := munch_stray hspelled rest
    simpa using hmunch
  | eof => exact absurd hspelled (by decide)
  | kwFn | kwLet | kwTrue | kwFalse | kwIf | kwElse | kwReturn | kwMacro =>
    have hend : rest.head?.any isWordRest = false := by
      rw [← Bool.not_eq_true']
      exact hends
    exact munch_word (by decide) (by decide) hend
  | assign =>
    cases rest with
    | nil => rfl
    | cons c cs =>
      have hne : c ≠ '=' := by simpa using hends
      change munch ('=' :: c :: cs) = some (assign, 1)
      simp [munch, hne]
      rfl
  | bang =>
    cases rest with
    | nil => rfl
    | cons c cs =>
      have hne : c ≠ '=' := by simpa using hends
      change munch ('!' :: c :: cs) = some (bang, 1)
      simp [munch, hne]
      rfl
  | _ => rfl

theorem isSpelled_ofWord {c : Char} {cs : List Char} (hstart : isWordStart c = true)
    (hrest : cs.all isWordRest = true) : (ofWord (String.ofList (c :: cs))).isSpelled = true := by
  by_cases hident : ofWord (String.ofList (c :: cs)) = ident (String.ofList (c :: cs))
  · rw [hident]
    simp only [isSpelled_ident, isName, String.toList_ofList, hident, hstart, hrest, Bool.true_and,
      beq_self_eq_true]
  · revert hident
    unfold ofWord
    split
    case h_9 => exact fun hident => absurd rfl hident
    all_goals exact fun _ => rfl

theorem isSpelled_of_ofSymbol? {c : Char} {token : Token} (h : ofSymbol? c = some token) :
    token.isSpelled = true := by
  unfold ofSymbol? at h
  split at h <;> cases h <;> rfl

/-- What is read at the head of a text is not empty and is a token that some text holds. -/
theorem isSpelled_of_munch {cs : List Char} {token : Token} {length : Nat}
    (hblank : cs.head?.any isBlank = false) (h : munch cs = some (token, length)) :
    token.isSpelled = true ∧ 0 < length := by
  unfold munch at h
  split at h
  · exact absurd h (by simp)
  · cases h
    exact ⟨rfl, by decide⟩
  · cases h
    exact ⟨rfl, by decide⟩
  · rename_i rest
    cases h
    refine ⟨?_, ?_⟩
    · simp only [isSpelled_str, String.toList_ofList]
      exact List.all_takeWhile
    · unfold quotedLength
      split <;> omega
  · rename_i c rest _ _ hquote
    have hc : isBlank c = false := by simpa using hblank
    split at h
    · rename_i hstart
      have hword : (c :: rest).takeWhile isWordRest = c :: rest.takeWhile isWordRest :=
        List.takeWhile_cons_of_pos (isWordRest_of_isWordStart hstart)
      simp only [hword, Option.some.injEq, Prod.mk.injEq] at h
      rw [← h.1, ← h.2]
      exact ⟨isSpelled_ofWord hstart List.all_takeWhile, by simp⟩
    · rename_i hstart
      split at h
      · rename_i hdigit
        simp only [List.takeWhile_cons_of_pos hdigit, Option.some.injEq, Prod.mk.injEq] at h
        rw [← h.1, ← h.2]
        simp [hdigit, -List.all_eq_true, List.all_takeWhile]
      · rename_i hdigit
        simp only [Option.some.injEq, Prod.mk.injEq] at h
        rw [← h.1, ← h.2]
        refine ⟨?_, by decide⟩
        cases hsymbol : ofSymbol? c with
        | some symbol => exact isSpelled_of_ofSymbol? hsymbol
        | none => simp [isStray, hc, hstart, hdigit, show c ≠ '"' from hquote, hsymbol]

/-! ### Whole texts -/

/-- The tokens that a text reads as, `bound` of them at most. -/
def readWithin : (bound : Nat) → List Char → List Token
  | 0, _ => []
  | bound + 1, cs =>
    match munch (cs.dropWhile isBlank) with
    | none => [eof]
    | some (token, length) => token :: readWithin bound ((cs.dropWhile isBlank).drop length)

/-- The tokens that a text reads as, the end token last. -/
def readAll (cs : List Char) : List Token :=
  readWithin (cs.length + 1) cs

/-- What is left behind a run of characters does not go on with it. -/
theorem head?_dropWhile (p : Char → Bool) (cs : List Char) : (cs.dropWhile p).head?.any p = false := by
  induction cs with
  | nil => rfl
  | cons c cs ih =>
    by_cases hc : p c = true
    · simpa [hc] using ih
    · simp [hc]

theorem length_drop_lt_of_munch {cs : List Char} {token : Token} {length : Nat}
    (h : munch (cs.dropWhile isBlank) = some (token, length)) :
    ((cs.dropWhile isBlank).drop length).length < cs.length := by
  have hpos := (isSpelled_of_munch (head?_dropWhile isBlank cs) h).2
  have hle : (cs.dropWhile isBlank).length ≤ cs.length := (List.dropWhile_sublist _).length_le
  have hne : (cs.dropWhile isBlank).length ≠ 0 := by
    intro hzero
    rw [List.length_eq_zero_iff.mp hzero] at h
    simp [munch] at h
  rw [List.length_drop]
  omega

/-- A bound that exceeds the length of the text leaves nothing out. -/
theorem readWithin_eq {bound : Nat} {cs : List Char} (h : cs.length < bound) :
    readWithin bound cs = readAll cs := by
  suffices ∀ bound bound' (cs : List Char), cs.length < bound → cs.length < bound' →
      readWithin bound cs = readWithin bound' cs from
    this bound (cs.length + 1) cs h (Nat.lt_succ_self _)
  clear h bound cs
  intro bound
  induction bound with
  | zero =>
    intro _ _ h
    omega
  | succ bound ih =>
    intro bound' cs h h'
    obtain ⟨bound', rfl⟩ : ∃ n, bound' = n + 1 := ⟨bound' - 1, by omega⟩
    rw [readWithin, readWithin]
    cases hmunch : munch (cs.dropWhile isBlank) with
    | none => rfl
    | some read =>
      obtain ⟨token, length⟩ := read
      have hshort := length_drop_lt_of_munch hmunch
      exact congrArg (token :: ·) (ih bound' _ (by omega) (by omega))

@[simp] theorem readAll_nil : readAll [] = [eof] := rfl

theorem readAll_munch {cs : List Char} {token : Token} {length : Nat}
    (h : munch (cs.dropWhile isBlank) = some (token, length)) :
    readAll cs = token :: readAll ((cs.dropWhile isBlank).drop length) := by
  rw [readAll, readWithin, h]
  exact congrArg (token :: ·) (readWithin_eq (length_drop_lt_of_munch h))

/-- Blank characters before a token are skipped. -/
theorem readAll_blank {c : Char} {cs : List Char} (h : isBlank c = true) :
    readAll (c :: cs) = readAll cs := by
  have hskip : readWithin (cs.length + 2) (c :: cs) = readWithin (cs.length + 2) cs := by
    rw [readWithin, readWithin, List.dropWhile_cons_of_pos h]
  exact hskip.trans (readWithin_eq (by omega))

theorem isBlank_eq_false {c : Char} (h : isWordStart c = true ∨ c.isDigit = true) :
    isBlank c = false := by
  cases hblank : isBlank c with
  | false => rfl
  | true =>
    simp only [isBlank, Bool.or_eq_true, beq_iff_eq] at hblank
    rcases hblank with (((rfl | rfl) | rfl) | rfl) | rfl <;> exact absurd h (by decide)

theorem head?_spelling {token : Token} (h : token.isSpelled = true) (rest : List Char) :
    (token.spelling ++ rest).head?.any isBlank = false := by
  cases token with
  | ident name =>
    change (name.toList ++ rest).head?.any isBlank = false
    cases hname : name.toList with
    | nil => simp [isName, hname] at h
    | cons c cs =>
      simp only [isSpelled_ident, isName, hname, Bool.and_eq_true] at h
      exact isBlank_eq_false (Or.inl h.1.1)
  | int digits =>
    change (digits.toList ++ rest).head?.any isBlank = false
    cases hdigits : digits.toList with
    | nil => simp [hdigits] at h
    | cons c cs =>
      simp only [isSpelled_int, hdigits, List.all_cons, Bool.and_eq_true] at h
      exact isBlank_eq_false (Or.inr h.2.1)
  | illegal c =>
    simp only [isSpelled_illegal, isStray, Bool.and_eq_true, Bool.not_eq_true'] at h
    simpa using h.1.1.1.1
  | eof => exact absurd h (by decide)
  | _ => rfl

/-- A spelled token is read as itself, and what follows it as it would be on its own. -/
theorem readAll_spelling (token : Token) {rest : List Char} (hspelled : token.isSpelled = true)
    (hends : token.endsBefore rest = true) :
    readAll (token.spelling ++ rest) = token :: readAll rest := by
  have hblank : (token.spelling ++ rest).dropWhile isBlank = token.spelling ++ rest := by
    have hhead := head?_spelling hspelled rest
    cases h : token.spelling ++ rest with
    | nil => rfl
    | cons c cs =>
      rw [h] at hhead
      exact List.dropWhile_cons_of_neg (by simpa using hhead)
  have hmunch := munch_spelling hspelled hends
  rw [← hblank] at hmunch
  rw [readAll_munch hmunch, hblank, List.drop_left]

/-- Whatever a text is, its tokens are such as texts hold, up to the end token. -/
theorem isSpelled_of_mem_readAll {cs : List Char} {token : Token} (h : token ∈ readAll cs) :
    token = eof ∨ token.isSpelled = true := by
  suffices ∀ bound (cs : List Char), token ∈ readWithin bound cs →
      token = eof ∨ token.isSpelled = true from this _ cs h
  clear h cs
  intro bound
  induction bound with
  | zero =>
    intro cs h
    exact absurd h (by simp [readWithin])
  | succ bound ih =>
    intro cs h
    rw [readWithin] at h
    cases hmunch : munch (cs.dropWhile isBlank) with
    | none =>
      rw [hmunch] at h
      exact Or.inl (List.mem_singleton.mp h)
    | some read =>
      rw [hmunch] at h
      rcases List.mem_cons.mp h with rfl | hrest
      · exact Or.inr (isSpelled_of_munch (head?_dropWhile isBlank cs) hmunch).1
      · exact ih _ hrest

end Token

open Token

theorem Cursor.rest_skipBlanks (cur : Cursor) : cur.skipBlanks.rest = cur.rest.dropWhile isBlank := by
  rw [skipBlanks, rest_skip]
  induction cur.rest with
  | nil => rfl
  | cons c cs ih =>
    by_cases hc : isBlank c = true
    · simpa [hc] using ih
    · simp [hc]

theorem Cursor.map_token_scanAll (bound : Nat) (cur : Cursor) :
    (scanAll bound cur).map (·.token) = readWithin bound cur.rest := by
  induction bound generalizing cur with
  | zero => rfl
  | succ bound ih =>
    rw [scanAll, scan, readWithin, ← rest_skipBlanks]
    cases hmunch : munch cur.skipBlanks.rest with
    | none => rfl
    | some read =>
      obtain ⟨token, length⟩ := read
      have hne : token ≠ eof := by
        intro heq
        have hspelled := (isSpelled_of_munch (by rw [rest_skipBlanks]; exact head?_dropWhile isBlank _) hmunch).1
        rw [heq] at hspelled
        exact absurd hspelled (by decide)
      simp [hne, ih]

/-- The tokens of a text are read off its characters. -/
theorem map_token_tokenize (source : String) :
    (tokenize source).map (·.token) = readAll source.toList := by
  rw [tokenize, Cursor.map_token_scanAll]
  have hrest : (Cursor.ofChars source.toList).rest = source.toList := by
    cases source.toList <;> rfl
  rw [hrest, readAll, String.length_toList]

end Simian
