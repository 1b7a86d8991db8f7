/-! # Blank characters

Two sets of characters count as blank. *White space* is the Unicode property White_Space; the
*blank* characters are these and the four information separators. Texts are cut at both ends by
either set, and cutting by the larger one leaves nothing for the smaller one to cut.
-/

namespace Bookkeeping.Text

/-- A character with the Unicode property White_Space. -/
def isWhite (c : Char) : Bool :=
  let n := c.toNat
  (9 ≤ n && n ≤ 13) || n == 0x20 || n == 0x85 || n == 0xa0 || n == 0x1680
    || (0x2000 ≤ n && n ≤ 0x200a) || n == 0x2028 || n == 0x2029 || n == 0x202f || n == 0x205f
    || n == 0x3000

/-- A white-space character or one of the information separators U+001C to U+001F. -/
def isBlank (c : Char) : Bool :=
  isWhite c || (0x1c ≤ c.toNat && c.toNat ≤ 0x1f)

/-- A list without the members at either end that satisfy `p`. -/
def cutEnds (p : Char → Bool) (cs : List Char) : List Char :=
  ((cs.dropWhile p).reverse.dropWhile p).reverse

/-- A text without blank characters at either end. -/
def strip (s : String) : String := String.ofList (cutEnds isBlank s.toList)

/-- A text without white space at either end. -/
def trim (s : String) : String := String.ofList (cutEnds isWhite s.toList)

/-- A text with spaces after it up to a width. -/
def pad (width : Nat) (s : String) : String := s ++ "".pushn ' ' (width - s.length)

theorem isBlank_of_isWhite {c : Char} (h : isWhite c = true) : isBlank c = true := by
  simp [isBlank, h]

/-! ## Cutting twice -/

section

variable {p q : Char → Bool}

theorem dropWhile_eq_self {cs : List Char} (h : ∀ c ∈ cs.head?, p c = false) :
    cs.dropWhile p = cs := by
  cases cs with
  | nil => rfl
  | cons c cs => rw [List.dropWhile_cons_of_neg (by simpa using h c rfl)]

theorem head?_dropWhile (cs : List Char) : ∀ c ∈ (cs.dropWhile q).head?, q c = false := by
  intro c hc
  have h := List.head?_dropWhile_not q cs
  rw [Option.mem_def.1 hc] at h
  exact h

/-- Members that are cut off anyway may stand at the ends. -/
theorem cutEnds_append {front back : List Char} (hf : ∀ c ∈ front, q c = true)
    (hb : ∀ c ∈ back, q c = true) (cs : List Char) :
    cutEnds q (front ++ cs ++ back) = cutEnds q cs := by
  have hfront : (front ++ cs ++ back).dropWhile q = (cs ++ back).dropWhile q := by
    rw [List.append_assoc, List.dropWhile_append_of_pos hf]
  have hback : back.dropWhile q = [] := by
    have h : (back ++ []).dropWhile q = [] := List.dropWhile_append_of_pos hb
    rwa [List.append_nil] at h
  rw [cutEnds, cutEnds, hfront, List.dropWhile_append]
  split
  · rename_i hnil
    rw [List.isEmpty_iff] at hnil
    rw [hnil, hback]
  · rw [List.reverse_append,
      List.dropWhile_append_of_pos fun c hc => hb c (List.mem_reverse.1 hc)]

/-- A list that is cut at both ends is not cut any further by a smaller set of characters. -/
theorem cutEnds_cutEnds (h : ∀ c, p c = true → q c = true) (cs : List Char) :
    cutEnds p (cutEnds q cs) = cutEnds q cs := by
  have hp (c : Char) (hq : q c = false) : p c = false := by
    cases hpc : p c with
    | false => rfl
    | true =>
      rw [h c hpc] at hq
      cases hq
  have hback : ((cs.dropWhile q).reverse.dropWhile q).dropWhile p
      = (cs.dropWhile q).reverse.dropWhile q :=
    dropWhile_eq_self fun c hc => hp c (head?_dropWhile _ c hc)
  -- what is left after both ends are cut is a start of what was left after the first cut
  obtain ⟨cut, hcut⟩ := List.dropWhile_suffix (l := (cs.dropWhile q).reverse) q
  have hfront : (cutEnds q cs).dropWhile p = cutEnds q cs := by
    refine dropWhile_eq_self fun c hc => hp c (head?_dropWhile cs c ?_)
    rw [← List.reverse_reverse (cs.dropWhile q), ← hcut, List.reverse_append, List.head?_append]
    exact Option.or_eq_some_iff.2 (.inl hc)
  rw [cutEnds, hfront, cutEnds, List.reverse_reverse, hback]

end

@[simp] theorem trim_trim (s : String) : trim (trim s) = trim s := by
  rw [trim, trim, String.toList_ofList, cutEnds_cutEnds fun _ h => h]

@[simp] theorem strip_strip (s : String) : strip (strip s) = strip s := by
  rw [strip, strip, String.toList_ofList, cutEnds_cutEnds fun _ h => h]

/-- A text that neither starts nor ends with a blank is stripped of nothing. -/
theorem strip_eq_self {s : String} (hfirst : ∀ c ∈ s.toList.head?, isBlank c = false)
    (hlast : ∀ c ∈ s.toList.getLast?, isBlank c = false) : strip s = s := by
  rw [strip, cutEnds, dropWhile_eq_self hfirst,
    dropWhile_eq_self (by rwa [List.head?_reverse]), List.reverse_reverse, String.ofList_toList]

@[simp] theorem trim_strip (s : String) : trim (strip s) = strip s := by
  rw [trim, strip, String.toList_ofList, cutEnds_cutEnds fun _ => isBlank_of_isWhite]

end Bookkeeping.Text
