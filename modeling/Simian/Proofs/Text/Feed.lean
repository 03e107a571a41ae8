import Simian.Text.Feed

/-!
# What a feed hands out

A feed that has been asked for all its characters, and twice for what is behind them, has met the first error among the items and the one that stands directly behind it. So its outcome is that of looking through all the items at once.
-/

namespace Simian.Text

/-- The characters before the first error. -/
def beforeFault : List (Except IoError Char) → List Char
  | .ok c :: items => c :: beforeFault items
  | _ => []

theorem length_beforeFault_le (items : List (Except IoError Char)) : (beforeFault items).length ≤ items.length := by
  induction items with
  | nil => exact Nat.le_refl _
  | cons item items ih =>
    cases item with
    | ok c => exact Nat.succ_le_succ ih
    | error fault => exact Nat.zero_le _

theorem beforeFault_append (chars : List Char) (items : List (Except IoError Char)) :
    beforeFault (chars.map .ok ++ items) = chars ++ beforeFault items := by
  induction chars with
  | nil => rfl
  | cons c chars ih => exact congrArg (c :: ·) ih

@[simp] theorem beforeFault_map_ok (chars : List Char) : beforeFault (chars.map .ok) = chars := by
  have happend := beforeFault_append chars []
  rwa [List.append_nil, show beforeFault [] = [] from rfl, List.append_nil] at happend

theorem beforeFault_append_error (chars : List Char) (error : IoError) (behind : List (Except IoError Char)) :
    beforeFault (chars.map .ok ++ .error error :: behind) = chars := by
  rw [beforeFault_append]
  exact List.append_nil chars

/-- What stands behind the first error is told from the items. -/
theorem behind_error_inj {chars chars' : List Char} {error error' : IoError} {behind behind' : List (Except IoError Char)}
    (h : chars.map .ok ++ .error error :: behind = chars'.map .ok ++ .error error' :: behind') : behind = behind' := by
  have hchars := congrArg beforeFault h
  rw [beforeFault_append_error, beforeFault_append_error] at hchars
  rw [hchars] at h
  exact (List.cons.inj (List.append_cancel_left h)).2

section AllChars

variable {items : List (Except IoError Char)}

/-- Items that come to a text hold no error. -/
theorem items_of_allChars {chars : List Char} (h : allChars items = .ok chars) : items = chars.map .ok := by
  induction items generalizing chars with
  | nil =>
    cases h
    rfl
  | cons item items ih =>
    cases item with
    | error error => cases h
    | ok c =>
      rw [allChars] at h
      cases hrest : allChars items with
      | error error =>
        rw [hrest] at h
        cases h
      | ok rest =>
        rw [hrest] at h
        cases h
        rw [ih hrest, List.map_cons]

theorem allChars_append (chars : List Char) :
    allChars (chars.map .ok ++ items) = (chars ++ ·) <$> allChars items := by
  induction chars with
  | nil =>
    rw [List.map_nil, List.nil_append]
    cases allChars items <;> rfl
  | cons c chars ih =>
    rw [List.map_cons, List.cons_append, allChars, ih]
    cases allChars items <;> rfl

end AllChars

namespace Feed

/-- The text that the feed hands out before it meets an error or the end. -/
def text (feed : Feed) : List Char :=
  beforeFault feed.items

/-- The feed when it has been asked `count` times. -/
def polls : (count : Nat) → Feed → Feed
  | 0, feed => feed
  | count + 1, feed => polls count feed.poll.2

variable {feed : Feed} {c : Char} {cs : List Char}

theorem exists_items (h : feed.text = c :: cs) : ∃ items, feed.items = .ok c :: items ∧ beforeFault items = cs := by
  unfold text beforeFault at h
  split at h
  · rename_i d items hitems
    obtain ⟨rfl, hcs⟩ := List.cons.inj h
    exact ⟨items, hitems, hcs⟩
  · exact nomatch h

theorem poll_cons (h : feed.text = c :: cs) : feed.poll.1 = some (feed.offset, c) := by
  obtain ⟨items, hitems, _⟩ := exists_items h
  rw [poll, hitems]

theorem text_poll (h : feed.text = c :: cs) : feed.poll.2.text = cs := by
  obtain ⟨items, hitems, hcs⟩ := exists_items h
  rw [poll, hitems]
  exact hcs

theorem offset_poll (h : feed.text = c :: cs) : feed.poll.2.offset = feed.offset + .ofNat c.utf8Size := by
  obtain ⟨items, hitems, _⟩ := exists_items h
  rw [poll, hitems]

theorem poll_nil (h : feed.text = []) : feed.poll.1 = none := by
  unfold text at h
  unfold poll
  split
  · rfl
  · rename_i hitems
    rw [hitems] at h
    exact nomatch h
  · rfl

/-- When a feed has been asked twice for what is behind its text, it has the outcome of decoding all at once. -/
theorem outcome_polls (feed : Feed) (h : feed.fault = none) :
    (feed.polls ((beforeFault feed.items).length + 2)).outcome =
      (fun chars => feed.copy ++ String.ofList chars) <$> allChars feed.items := by
  obtain ⟨items, copy, offset, fault⟩ := feed
  obtain rfl : fault = none := h
  induction items generalizing copy offset with
  | nil =>
    have hcopy : copy ++ String.ofList [] = copy := by rw [String.ofList_nil, String.append_empty]
    exact congrArg Except.ok hcopy.symm
  | cons item items ih =>
    cases item with
    | ok c =>
      have hrest := ih (copy.push c) (offset + .ofNat c.utf8Size)
      have hpush (chars : List Char) : copy.push c ++ String.ofList chars = copy ++ String.ofList (c :: chars) := by
        rw [String.push_eq_append, String.append_assoc, ← String.ofList_cons]
      simp only [hpush] at hrest
      rw [allChars]
      refine hrest.trans ?_
      cases allChars items <;> rfl
    | error fault =>
      cases items with
      | nil => rfl
      | cons next items => cases next <;> rfl

theorem outcome_ofItems (items : List (Except IoError Char)) :
    ((ofItems items).polls ((beforeFault items).length + 2)).outcome = String.ofList <$> allChars items := by
  have houtcome := outcome_polls (ofItems items) rfl
  simp only [ofItems, String.empty_append] at houtcome
  exact houtcome

end Feed

end Simian.Text
