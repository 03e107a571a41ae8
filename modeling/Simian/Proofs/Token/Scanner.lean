import Simian.Proofs.Text.Feed
import Simian.Proofs.Token.Cutting
import Simian.Token.Scanner

/-!
# A text that is decoded while it is scanned

A scanner that decodes its text as it goes finds the tokens that are in the text up to the first error. At every place it follows the cursor at that place of the whole text (`Follows`), although it counts the bytes in another way and knows only two characters; each step of the one is matched by a step of the other.

The scanner counts in words, and the cursor in numbers. It counts by addition alone, so its offsets are those of the cursor put into words, in texts of any length; and in a text whose offsets all fit, they are the same.

When it has come to the end, the feed has been asked once for each character and twice more: for what comes behind the last character, when that became the character ahead, and again when the last character was read. So of the errors among the items the scanner meets the first one, and the one directly behind it, and no other.
-/

namespace Simian

open Token
open Text (Feed beforeFault)

theorem Cursor.skip_succ (n : Nat) (cur : Cursor) : cur.skip (n + 1) = (cur.skip n).next := by
  induction n generalizing cur with
  | zero => rfl
  | succ n ih => exact ih cur.next

theorem Cursor.rest_next_of_cons {cur : Cursor} {c : Char} {cs : List Char} (h : cur.rest = c :: cs) :
    cur.next.rest = cs := by
  rw [rest_next, h, List.tail_cons]

theorem Cursor.rest_scan_of_eof {cur : Cursor} (h : cur.scan.1.token = eof) : cur.scan.2.rest = [] := by
  cases hmunch : munch cur.skipBlanks.rest with
  | none =>
    simp only [scan, hmunch]
    exact eq_nil_of_munch hmunch
  | some read =>
    obtain ⟨token, length⟩ := read
    obtain rfl : token = eof := by simpa only [scan, hmunch] using h
    rw [rest_skipBlanks] at hmunch
    exact absurd (isSpelled_of_munch (head?_dropWhile isBlank cur.rest) hmunch).1 (by decide)

theorem Cursor.length_rest_scan_lt {cur : Cursor} (h : cur.scan.1.token ≠ eof) :
    cur.scan.2.rest.length < cur.rest.length := by
  cases hmunch : munch cur.skipBlanks.rest with
  | none =>
    simp only [scan, hmunch] at h
    exact absurd rfl h
  | some read =>
    obtain ⟨token, length⟩ := read
    simp only [scan, hmunch, rest_skip]
    rw [rest_skipBlanks] at hmunch ⊢
    exact length_drop_lt_of_munch hmunch

namespace Scanner

/-- The scanner sees of the text what the cursor stands before: two characters, and where they are. Its feed is two characters ahead, and becomes `last` when the end of the text is reached. -/
structure Follows (last : Feed) (s : Scanner) (cur : Cursor) : Prop where
  offset : s.offset = .ofNat cur.offset
  char : s.char = cur.rest.head?
  ahead : ∀ c cs, cur.rest = c :: cs → s.nextOffset = .ofNat cur.nextOffset ∧ s.nextChar = cs.head?
  feed : ∀ c d cs, cur.rest = c :: d :: cs → s.feed.text = cs ∧ s.feed.offset = .ofNat (cur.nextOffset + d.utf8Size)
  polls : s.feed.polls cur.rest.length = last

variable {last : Feed} {s : Scanner} {cur : Cursor}

theorem Follows.next {c : Char} {cs : List Char} (h : Follows last s cur) (hrest : cur.rest = c :: cs) :
    Follows last s.next cur.next := by
  obtain ⟨hoffset, hchar⟩ := h.ahead c cs hrest
  have hnext : cur.next = ⟨cur.nextOffset, cs⟩ := by simp only [Cursor.next, hrest]
  have hpolls := h.polls
  rw [hrest] at hpolls
  rw [hnext]
  refine ⟨by rw [offset_next, hoffset], by rw [char_next, hchar], fun d ds hds => ?_, fun d e ds hds => ?_, ?_⟩
  · obtain rfl : cs = d :: ds := hds
    obtain ⟨htext, hbytes⟩ := h.feed c d ds hrest
    -- The feed is asked for the character behind `d`. Where there is none, the next offset is one more than that of `d`.
    cases ds with
    | nil => simp [nextOffset_next, nextChar_next, Feed.poll_nil htext, hoffset, Cursor.nextOffset]
    | cons e ds => simp [nextOffset_next, nextChar_next, Feed.poll_cons htext, hbytes, Cursor.nextOffset]
  · obtain rfl : cs = d :: e :: ds := hds
    obtain ⟨htext, hbytes⟩ := h.feed c d (e :: ds) hrest
    rw [feed_next, Feed.text_poll htext, Feed.offset_poll htext, hbytes, ← UInt32.ofNat_add]
    exact ⟨rfl, rfl⟩
  · rw [feed_next]
    exact hpolls

theorem Follows.char_eq_none (h : Follows last s cur) (hrest : cur.rest = []) : s.char = none := by
  rw [h.char, hrest, List.head?_nil]

theorem Follows.char_eq_some {c : Char} {cs : List Char} (h : Follows last s cur) (hrest : cur.rest = c :: cs) :
    s.char = some c := by
  rw [h.char, hrest, List.head?_cons]

theorem Follows.takeWhile (h : Follows last s cur) (p : Char → Bool) :
    (s.takeWhile p).1 = cur.rest.takeWhile p ∧
      Follows last (s.takeWhile p).2 (cur.skip (cur.rest.takeWhile p).length) := by
  induction hrest : cur.rest generalizing s cur with
  | nil =>
    rw [takeWhile_end (h.char_eq_none hrest)]
    exact ⟨rfl, h⟩
  | cons c cs ih =>
    have hchar := h.char_eq_some hrest
    by_cases hc : p c = true
    · obtain ⟨hchars, hfollows⟩ := ih (h.next hrest) (Cursor.rest_next_of_cons hrest)
      rw [takeWhile_pos hchar hc, List.takeWhile_cons_of_pos hc, hchars]
      exact ⟨rfl, hfollows⟩
    · rw [takeWhile_neg hchar hc, List.takeWhile_cons_of_neg hc]
      exact ⟨rfl, h⟩

theorem Follows.skipBlanks (h : Follows last s cur) : Follows last s.skipBlanks cur.skipBlanks :=
  (h.takeWhile isBlank).2

theorem munch_sign {c : Char} (hc : c = '=' ∨ c = '!') (cs : List Char) :
    munch (c :: cs) =
      if cs.head? = some '=' then some (if c = '=' then equal else notEqual, 2)
      else some (if c = '=' then assign else bang, 1) := by
  cases cs with
  | nil => rcases hc with rfl | rfl <;> rfl
  | cons d cs =>
    by_cases hd : d = '='
    · subst hd
      rcases hc with rfl | rfl <;> rfl
    · simp only [List.head?_cons, Option.some.injEq, hd, if_false]
      rcases hc with rfl | rfl <;> simp [munch, hd] <;> rfl

/-- One character ahead tells whether a sign is doubled. -/
theorem Follows.sign {c : Char} {cs : List Char} {token : Token} {length : Nat} (h : Follows last s cur)
    (hrest : cur.rest = c :: cs) (hc : c = '=' ∨ c = '!') (hmunch : munch (c :: cs) = some (token, length)) :
    s.token.1 = token ∧ Follows last s.token.2 (cur.skip length) := by
  have htoken : s.token =
      if s.nextChar = some '=' then (if c = '=' then equal else notEqual, s.next.next)
      else (if c = '=' then assign else bang, s.next) := by
    rw [Scanner.token, h.char_eq_some hrest]
    rcases hc with rfl | rfl <;> rfl
  rw [htoken, (h.ahead c cs hrest).2]
  rw [munch_sign hc] at hmunch
  by_cases hahead : cs.head? = some '='
  · rw [if_pos hahead] at hmunch ⊢
    cases hmunch
    obtain ⟨after, hafter⟩ := List.head?_eq_some_iff.mp hahead
    subst hafter
    exact ⟨rfl, (h.next hrest).next (Cursor.rest_next_of_cons hrest)⟩
  · rw [if_neg hahead] at hmunch ⊢
    cases hmunch
    exact ⟨rfl, h.next hrest⟩

theorem Follows.quoted {cs : List Char} (h : Follows last s cur) (hrest : cur.rest = '"' :: cs) :
    s.token.1 = str (String.ofList (cs.takeWhile (· != '"'))) ∧
      Follows last s.token.2 (cur.skip (quotedLength (cs.takeWhile (· != '"')).length cs)) := by
  have hnext := Cursor.rest_next_of_cons hrest
  obtain ⟨htext, hfollows⟩ := (h.next hrest).takeWhile (· != '"')
  rw [hnext] at htext hfollows
  have hbehind := Cursor.rest_skip (cs.takeWhile (· != '"')).length cur.next
  rw [hnext] at hbehind
  simp only [token, h.char_eq_some hrest, htext, true_and]
  by_cases hclosed : (cs.takeWhile (· != '"')).length < cs.length
  · obtain ⟨quote, after, hafter⟩ :=
      List.exists_cons_of_ne_nil (mt List.drop_eq_nil_iff.mp (Nat.not_le_of_lt hclosed))
    have hquote := hbehind.trans hafter
    have hend := hfollows.next hquote
    rw [← Cursor.skip_succ] at hend
    rw [quotedLength, if_pos hclosed, hfollows.char_eq_some hquote]
    exact hend
  · have hnil := hbehind.trans (List.drop_eq_nil_of_le (Nat.le_of_not_lt hclosed))
    rw [quotedLength, if_neg hclosed, hfollows.char_eq_none hnil]
    exact hfollows

theorem Follows.plain {c : Char} {cs : List Char} {token : Token} {length : Nat} (h : Follows last s cur)
    (hrest : cur.rest = c :: cs) (hassign : c ≠ '=') (hbang : c ≠ '!') (hquote : c ≠ '"')
    (hmunch : munch (c :: cs) = some (token, length)) :
    s.token.1 = token ∧ Follows last s.token.2 (cur.skip length) := by
  have hword := h.takeWhile isWordRest
  have hdigits := h.takeWhile Char.isDigit
  rw [hrest] at hword hdigits
  rw [munch_plain hassign hbang hquote] at hmunch
  have htoken : s.token =
      if isWordStart c then (ofWord (String.ofList (s.takeWhile isWordRest).1), (s.takeWhile isWordRest).2)
      else if c.isDigit then (int (String.ofList (s.takeWhile Char.isDigit).1), (s.takeWhile Char.isDigit).2)
      else ((ofSymbol? c).getD (illegal c), s.next) := by
    rw [Scanner.token, h.char_eq_some hrest]
    split <;> simp_all
  rw [htoken]
  by_cases hstart : isWordStart c = true
  · rw [if_pos hstart] at hmunch ⊢
    cases hmunch
    rw [hword.1]
    exact ⟨rfl, hword.2⟩
  rw [if_neg hstart] at hmunch ⊢
  by_cases hdigit : c.isDigit = true
  · rw [if_pos hdigit] at hmunch ⊢
    cases hmunch
    rw [hdigits.1]
    exact ⟨rfl, hdigits.2⟩
  · rw [if_neg hdigit] at hmunch ⊢
    cases hmunch
    exact ⟨rfl, h.next hrest⟩

/-- The token that begins here is the one that the text begins with. -/
theorem Follows.token {token : Token} {length : Nat} (h : Follows last s cur)
    (hmunch : munch cur.rest = some (token, length)) :
    s.token.1 = token ∧ Follows last s.token.2 (cur.skip length) := by
  obtain ⟨c, cs, hrest⟩ : ∃ c cs, cur.rest = c :: cs := by
    refine List.exists_cons_of_ne_nil fun hnil => ?_
    rw [hnil] at hmunch
    exact nomatch hmunch
  rw [hrest] at hmunch
  by_cases hsign : c = '=' ∨ c = '!'
  · exact h.sign hrest hsign hmunch
  by_cases hquote : c = '"'
  · subst hquote
    cases hmunch
    exact h.quoted hrest
  · rw [not_or] at hsign
    exact h.plain hrest hsign.1 hsign.2 hquote hmunch

/-- The scanner and the cursor find the same token, the one with offsets in words, and then follow each other as before. -/
theorem Follows.scan (h : Follows last s cur) :
    s.scan.1 = cur.scan.1.inWords ∧ Follows last s.scan.2 cur.scan.2 := by
  have hhere := h.skipBlanks
  cases hmunch : munch cur.skipBlanks.rest with
  | none =>
    have hnil := eq_nil_of_munch hmunch
    have htoken : s.skipBlanks.token = (eof, s.skipBlanks) := by
      rw [Scanner.token, hhere.char_eq_none hnil]
    simp only [Scanner.scan, Cursor.scan, htoken, hmunch, hhere.offset]
    exact ⟨rfl, hhere⟩
  | some read =>
    obtain ⟨token, length⟩ := read
    obtain ⟨htoken, hafter⟩ := hhere.token hmunch
    simp only [Scanner.scan, Cursor.scan, htoken, hmunch, hhere.offset, hafter.offset]
    exact ⟨rfl, hafter⟩

theorem Follows.scanAll (h : Follows last s cur) (bound : Nat) :
    s.scanAll bound = (cur.scanAll bound).map Lexeme.inWords := by
  induction bound generalizing s cur with
  | zero => rfl
  | succ bound ih =>
    obtain ⟨hlexeme, hafter⟩ := h.scan
    have htoken : cur.scan.1.inWords.token = cur.scan.1.token := rfl
    simp only [Scanner.scanAll, Cursor.scanAll, hlexeme, ih hafter, htoken]
    split <;> rfl

/-- Past the end of the text nothing is asked for. -/
theorem Follows.after_end (h : Follows last s cur) (hrest : cur.rest = []) (count : Nat) :
    (s.after count).feed = last := by
  have hpolls := h.polls
  rw [hrest] at hpolls
  have hscan : s.scan.2 = s := by
    have hchar := h.char_eq_none hrest
    have hblanks : s.skipBlanks = s := by rw [Scanner.skipBlanks, takeWhile_end hchar]
    simp only [Scanner.scan, hblanks, Scanner.token, hchar]
  induction count with
  | zero => exact hpolls
  | succ count ih => rw [Scanner.after, hscan, ih]

/-- Whoever has taken all the tokens has the feed asked for all there is. -/
theorem Follows.after_scanAll (h : Follows last s cur) {bound count : Nat} (hbound : cur.rest.length < bound)
    (hcount : (cur.scanAll bound).length ≤ count) : (s.after count).feed = last := by
  induction bound generalizing s cur count with
  | zero => exact absurd hbound (Nat.not_lt_zero _)
  | succ bound ih =>
    obtain ⟨_, hafter⟩ := h.scan
    rw [Cursor.scanAll] at hcount
    by_cases heof : cur.scan.1.token = eof
    · simp only [heof, if_true] at hcount
      obtain ⟨count, rfl⟩ := Nat.exists_eq_add_one_of_ne_zero (Nat.ne_of_gt hcount)
      exact hafter.after_end (Cursor.rest_scan_of_eof heof) count
    · simp only [heof, if_false, List.length_cons] at hcount
      obtain ⟨count, rfl⟩ := Nat.exists_eq_add_one_of_ne_zero (Nat.ne_zero_of_lt hcount)
      have hshort := Cursor.length_rest_scan_lt heof
      exact ih hafter (by omega) (Nat.le_of_succ_le_succ hcount)

theorem follows_start (items : List (Except IoError Char)) :
    Follows ((Feed.ofItems items).polls ((beforeFault items).length + 2)) (start (.ofItems items))
      (.ofChars (beforeFault items)) := by
  have htext : (Feed.ofItems items).text = beforeFault items := rfl
  have hoffset : (Feed.ofItems items).offset = 0 := rfl
  generalize Feed.ofItems items = feed at htext hoffset ⊢
  generalize beforeFault items = chars at htext ⊢
  cases chars with
  | nil =>
    have hpoll := Feed.poll_nil htext
    refine ⟨?_, ?_, nofun, nofun, ?_⟩
    · simp [start, nextOffset_next, hpoll, Cursor.ofChars]
    · simp [start, nextChar_next, hpoll, Cursor.ofChars]
    · simp only [start, feed_next]
      rfl
  | cons c cs =>
    have hchar := Feed.poll_cons htext
    have htext' := Feed.text_poll htext
    have hoffset' := Feed.offset_poll htext
    refine ⟨?_, ?_, fun d ds hds => ?_, fun d e ds hds => ?_, ?_⟩
    · simp [start, nextOffset_next, hchar, hoffset, Cursor.ofChars]
    · simp [start, nextChar_next, hchar, Cursor.ofChars]
    · obtain ⟨rfl, rfl⟩ := List.cons.inj hds
      cases cs with
      | nil =>
        have hnone := Feed.poll_nil htext'
        simp [start, nextOffset_next, nextChar_next, hchar, hnone, hoffset, Cursor.nextOffset, Cursor.ofChars]
      | cons d cs =>
        have hsome := Feed.poll_cons htext'
        simp [start, nextOffset_next, nextChar_next, hsome, hoffset, hoffset', Cursor.nextOffset, Cursor.ofChars]
    · obtain ⟨rfl, rfl⟩ := List.cons.inj hds
      simp [start, Feed.text_poll htext', Feed.offset_poll htext', hoffset, hoffset', Cursor.nextOffset, Cursor.ofChars]
    · simp only [start, feed_next]
      rfl

end Scanner

end Simian
