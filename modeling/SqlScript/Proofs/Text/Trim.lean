import SqlScript.Text

/-! Trimming a text that is put together from parts. A character that is not blank keeps
the blanks behind it from being trimmed in front, and those in front of it from being
trimmed at the end. What trimming takes off are blanks at either end (`exists_trim`), which are
the characters of `blankCharacters` (`isBlank_iff`), and more or fewer blanks there change
nothing (`trim_blanks_append`, `trim_append_blanks`). -/
namespace SqlScript

/-- The characters that are blank. -/
def blankCharacters : List Char :=
  ['\t', '\n', '\x0b', '\x0c', '\r', '\x1c', '\x1d', '\x1e', '\x1f', ' ', '\x85', '\xa0', '\u1680',
   '\u2000', '\u2001', '\u2002', '\u2003', '\u2004', '\u2005', '\u2006', '\u2007', '\u2008',
   '\u2009', '\u200a', '\u2028', '\u2029', '\u202f', '\u205f', '\u3000']

theorem isBlank_iff {c : Char} : isBlank c = true ↔ c ∈ blankCharacters := by
  simp only [isBlank, blankCharacters, List.mem_cons, List.not_mem_nil, or_false, ← Char.toNat_inj,
    Bool.or_eq_true, Bool.and_eq_true, decide_eq_true_eq, beq_iff_eq]
  simp only [Char.reduceToNat]
  omega

namespace Text

theorem trimStart_append {c : Char} (hc : isBlank c = false) (l m : Text) :
    trimStart (l ++ c :: m) = trimStart l ++ c :: m := by
  rw [trimStart, trimStart, List.dropWhile_append]
  split
  · next h => simp [List.isEmpty_iff.mp h, hc]
  · rfl

theorem trimEnd_append {c : Char} (hc : isBlank c = false) (l m : Text) :
    trimEnd (l ++ c :: m) = l ++ c :: trimEnd m := by
  have hr : (l ++ c :: m).reverse = m.reverse ++ (c :: l.reverse) := by simp
  rw [trimEnd, hr, List.dropWhile_append, trimEnd]
  split
  · next h => simp [List.isEmpty_iff.mp h, hc]
  · simp

/-- Around a character that is not blank, the two sides are trimmed apart. -/
theorem trim_append {c : Char} (hc : isBlank c = false) (l m : Text) :
    trim (l ++ c :: m) = trimStart l ++ c :: trimEnd m := by
  rw [trim, trimStart_append hc, trimEnd_append hc]

/-! ### Blanks at the ends -/

/-- A text of blanks alone. -/
def Blanks (t : Text) : Prop := ∀ c ∈ t, isBlank c = true

variable {w : Text}

theorem trimStart_blanks_append (hw : Blanks w) (t : Text) : trimStart (w ++ t) = trimStart t :=
  List.dropWhile_append_of_pos hw

theorem trimStart_of_blanks (hw : Blanks w) : trimStart w = [] := by
  have hdrop := trimStart_blanks_append hw []
  rwa [List.append_nil] at hdrop

theorem trimEnd_append_blanks (hw : Blanks w) (t : Text) : trimEnd (t ++ w) = trimEnd t := by
  have hr : ∀ c ∈ w.reverse, isBlank c = true := fun c hc => hw c (List.mem_reverse.mp hc)
  rw [trimEnd, List.reverse_append, List.dropWhile_append_of_pos hr, trimEnd]

theorem trim_blanks_append (hw : Blanks w) (t : Text) : trim (w ++ t) = trim t := by
  rw [trim, trimStart_blanks_append hw, trim]

theorem trim_append_blanks (hw : Blanks w) (t : Text) : trim (t ++ w) = trim t := by
  rw [trim, trimStart, List.dropWhile_append]
  split
  · next h =>
    have hnil : trimStart t = [] := List.isEmpty_iff.mp h
    rw [show w.dropWhile isBlank = [] from trimStart_of_blanks hw, trim, hnil]
  · rw [trimEnd_append_blanks hw]
    rfl

theorem trimEnd_prefix (t : Text) : trimEnd t <+: t := by
  have hsuffix : t.reverse.dropWhile isBlank <:+ t.reverse := List.dropWhile_suffix isBlank
  have hprefix := List.reverse_prefix.mpr hsuffix
  rwa [List.reverse_reverse] at hprefix

/-- What trimming takes off are blanks. -/
theorem exists_trim (t : Text) :
    ∃ front back, Blanks front ∧ Blanks back ∧ front ++ (trim t ++ back) = t := by
  have htake (l : Text) : Blanks (l.takeWhile isBlank) := List.all_eq_true.mp List.all_takeWhile
  refine ⟨t.takeWhile isBlank, ((trimStart t).reverse.takeWhile isBlank).reverse, htake t, ?_, ?_⟩
  · intro c hc
    exact htake _ c (List.mem_reverse.mp hc)
  · rw [trim, trimEnd, ← List.reverse_append, List.takeWhile_append_dropWhile, List.reverse_reverse,
      trimStart, List.takeWhile_append_dropWhile]

theorem trim_trim (t : Text) : trim (trim t) = trim t := by
  obtain ⟨front, back, hfront, hback, h⟩ := exists_trim t
  calc trim (trim t) = trim (front ++ (trim t ++ back)) := by
        rw [trim_blanks_append hfront, trim_append_blanks hback]
    _ = trim t := by rw [h]

/-- A trimmed text begins with a character that is not blank. -/
theorem not_isBlank_of_head?_trim {t : Text} {c : Char} (h : c ∈ (trim t).head?) :
    isBlank c = false := by
  obtain ⟨rest, hrest⟩ := List.head?_eq_some_iff.mp h
  obtain ⟨back, hback⟩ := trimEnd_prefix (trimStart t)
  have hstart : (t.dropWhile isBlank).head? = some c := by
    show (trimStart t).head? = some c
    rw [← hback, show trimEnd (trimStart t) = c :: rest from hrest]
    rfl
  have hnot := List.head?_dropWhile_not isBlank t
  rw [hstart] at hnot
  exact hnot

/-- And it ends in one. -/
theorem not_isBlank_of_getLast?_trim {t : Text} {c : Char} (h : c ∈ (trim t).getLast?) :
    isBlank c = false := by
  have hend : (((trimStart t).reverse).dropWhile isBlank).head? = some c := by
    rw [← List.getLast?_reverse]
    exact h
  have hnot := List.head?_dropWhile_not isBlank (trimStart t).reverse
  rw [hend] at hnot
  exact hnot

/-- Trimming takes off no character of a sort that no blank is of. -/
theorem filter_trim {p : Char → Bool} (hp : ∀ c, isBlank c = true → p c = false) (t : Text) :
    (trim t).filter p = t.filter p := by
  obtain ⟨front, back, hfront, hback, h⟩ := exists_trim t
  have hnone {w : Text} (hw : Blanks w) : w.filter p = [] :=
    List.filter_eq_nil_iff.mpr fun c hc => by simp [hp c (hw c hc)]
  conv => rhs; rw [← h]
  rw [List.filter_append, List.filter_append, hnone hfront, hnone hback, List.append_nil,
    List.nil_append]

end Text

end SqlScript
