import SqlScript.Dialect
import SqlScript.Proofs.Concatenation
import SqlScript.Proofs.Padding

/-! Gaps: the blanks and semicolons that may stand between two statements, in front of the
first one and, as far as they are blank, behind the last.

A gap in front of a script is read piece by piece and leaves no statement (`gap_append`). A
gap between two parts does the work of one separator, since the first part ends at top level
and goes on doing so behind blanks (`endsAtTopLevel_append_blanks`). `statements_normalized`
puts the two together: gaps may be made as long or as short as one likes. -/
namespace SqlScript

open Text (Blanks)

/-- A text of blanks and semicolons alone. -/
def Gap (g : Text) : Prop := ∀ c ∈ g, isBlank c = true ∨ c = ';'

instance (g : Text) : Decidable (Gap g) :=
  List.decidableBAll (fun c => isBlank c = true ∨ c = ';') g

variable {rules : Rules} {a b g w : Text}

/-- A gap with a semicolon in it is blanks up to the first one and a gap behind it. -/
theorem Gap.exists_separator (hg : Gap g) (hsep : ';' ∈ g) :
    ∃ w others, g = w ++ ';' :: others ∧ Blanks w ∧ Gap others := by
  obtain ⟨w, others, rfl, hw⟩ := List.eq_append_cons_of_mem hsep
  refine ⟨w, others, rfl, fun c hc => ?_, fun c hc => hg c (by simp [hc])⟩
  rcases hg c (List.mem_append_left _ hc) with hblank | rfl
  · exact hblank
  · exact absurd hc hw

/-! ### In front of a script -/

/-- One character of a gap, in front of a script. -/
theorem gap_cons (rules : Rules) {c : Char} (hc : isBlank c = true ∨ c = ';') (t : Text) :
    statements rules (c :: t) = statements rules t ∧
      unclosed rules (c :: t) = (unclosed rules t).map (Unclosed.shift 1) := by
  rcases hc with hblank | rfl
  · have hone : Blanks [c] := by simpa [Blanks] using hblank
    exact ⟨statements_blanks_append hone t, unclosed_blanks_append hone t⟩
  · have htop := endsAtTopLevel_nil rules
    have hstatements := statements_concat htop t
    rw [statements_nil] at hstatements
    exact ⟨hstatements, unclosed_concat htop t⟩

/-- **A gap in front of a script adds nothing.** -/
theorem gap_append (rules : Rules) (hg : Gap g) (t : Text) :
    statements rules (g ++ t) = statements rules t ∧
      unclosed rules (g ++ t) = (unclosed rules t).map (Unclosed.shift g.length) := by
  induction g with
  | nil =>
    refine ⟨rfl, ?_⟩
    exact (List.map_id (unclosed rules t)).symm
  | cons c g ih =>
    obtain ⟨hc, hg⟩ := List.forall_mem_cons.mp hg
    obtain ⟨hstatements, hunclosed⟩ := ih hg
    obtain ⟨hfirst, hshift⟩ := gap_cons rules hc (g ++ t)
    refine ⟨hfirst.trans hstatements, ?_⟩
    rw [List.cons_append, hshift, hunclosed, map_shift_shift]
    rfl

/-! ### Between two parts of a script -/

/-- In front of a separator a script ends at top level. -/
theorem endsAtTopLevel_of_mem_separators (h : a.length ∈ separators rules (a ++ ';' :: b)) :
    EndsAtTopLevel rules a := by
  obtain ⟨x, y, htokens, hlength⟩ := mem_separators.mp h
  obtain ⟨hscript, hfront⟩ := reads_front htokens
  obtain ⟨rfl, -⟩ := List.append_inj hscript hlength
  exact (hfront.endsAtTopLevel (List.cons_ne_nil _ _) (by simp)).2

theorem inert_of_blanks (hw : Blanks w) : Inert w :=
  fun c hc => not_continues_of_isBlank (hw c (List.mem_of_head? hc))

/-- Blanks behind a script that ends at top level leave it there. -/
theorem endsAtTopLevel_append_blanks (h : EndsAtTopLevel rules a) (hw : Blanks w) :
    EndsAtTopLevel rules (a ++ w) := by
  have hblanks : tokens rules w = w.map .plain ++ [] := by
    rw [← tokens_nil rules, ← tokens_blanks_append hw, List.append_nil]
  rw [List.append_nil] at hblanks
  have htokens := tokens_of_reads (reads_of_endsAtTopLevel h (inert_of_blanks hw))
  rw [tokens_text, hblanks] at htokens
  intro last hlast
  rw [htokens, List.getLast?_append] at hlast
  rcases Option.or_eq_some_iff.mp hlast with hplain | ⟨-, hlast⟩
  · obtain ⟨c, -, rfl⟩ := List.mem_map.mp (List.mem_of_getLast? hplain)
    exact ⟨id, id⟩
  · exact h last hlast

/-- **A gap does the work of one separator**, be it in front of blanks or behind them. -/
theorem gap_between (h : EndsAtTopLevel rules a) (hg : Gap g) (hsep : ';' ∈ g) (b : Text) :
    statements rules (a ++ g ++ b) = statements rules (a ++ ';' :: b) ∧
      unclosed rules (a ++ g ++ b) =
        (unclosed rules (a ++ ';' :: b)).map (Unclosed.shift (g.length - 1)) := by
  obtain ⟨w, others, rfl, hw, hothers⟩ := hg.exists_separator hsep
  have hblanks := endsAtTopLevel_append_blanks h hw
  obtain ⟨hstatements, hunclosed⟩ := gap_append rules hothers b
  have hsplit : a ++ (w ++ ';' :: others) ++ b = a ++ w ++ ';' :: (others ++ b) := by simp
  rw [hsplit]
  constructor
  · rw [statements_concat hblanks, (append_blanks hw a).1, hstatements, statements_concat h]
  · have hlength : others.length + ((a ++ w).length + 1) =
        a.length + 1 + ((w ++ ';' :: others).length - 1) := by
      simp only [List.length_append, List.length_cons]
      omega
    rw [unclosed_concat hblanks, hunclosed, unclosed_concat h, map_shift_shift, map_shift_shift,
      hlength]

/-! ### Whole scripts -/

/-- Nothing is left open in front of a separator. -/
theorem lt_start_of_mem_unclosed (h : EndsAtTopLevel rules a) {u : Unclosed}
    (hu : u ∈ unclosed rules (a ++ ';' :: b)) : a.length < u.start := by
  rw [unclosed_concat h] at hu
  obtain ⟨v, -, rfl⟩ := List.mem_map.mp hu
  show a.length < v.start + (a.length + 1)
  omega

/-- **Gaps may be made longer or shorter.** A gap with a semicolon in it, put in the place of
a separator, leaves the statements what they are, and only moves what is left open, which is
all behind it. The same goes for a gap in front of a script, balanced or not, and blanks
behind it, which move nothing. -/
theorem statements_normalized (rules : Rules) :
    (∀ a b g : Text, a.length ∈ separators rules (a ++ ';' :: b) → Gap g → ';' ∈ g →
      statements rules (a ++ g ++ b) = statements rules (a ++ ';' :: b) ∧
      (∀ u ∈ unclosed rules (a ++ ';' :: b), a.length < u.start) ∧
      unclosed rules (a ++ g ++ b) =
        (unclosed rules (a ++ ';' :: b)).map (Unclosed.shift (g.length - 1))) ∧
    ∀ script g w : Text, Gap g → Blanks w →
      statements rules (g ++ script ++ w) = statements rules script ∧
      unclosed rules (g ++ script ++ w) = (unclosed rules script).map (Unclosed.shift g.length) := by
  constructor
  · intro a b g hsep hg hmem
    have htop := endsAtTopLevel_of_mem_separators hsep
    obtain ⟨hstatements, hunclosed⟩ := gap_between htop hg hmem b
    exact ⟨hstatements, fun u hu => lt_start_of_mem_unclosed htop hu, hunclosed⟩
  · intro script g w hg hw
    obtain ⟨hstatements, hunclosed⟩ := gap_append rules hg script
    exact ⟨(append_blanks hw _).1.trans hstatements, (append_blanks hw _).2.trans hunclosed⟩

/-- A gap behind a line comment, in front of a string that is left open with a backslash at its
end, and blanks that the backslash takes along. -/
theorem statements_normalized_half_typed :
    let rules := Dialect.mysql.rules
    let a := "a -- b;\n".toList
    let b := " 'c\\".toList
    let g := "\t;\n; ".toList
    a.length ∈ separators rules (a ++ ';' :: b) ∧ Gap g ∧ ';' ∈ g ∧
      statements rules (a ++ g ++ b) = ["a -- b;".toList, "'c\\".toList] ∧
      unclosed rules (a ++ g ++ b) = [⟨.singleQuoted, 14, ['\'']⟩] ∧
      statements rules (g ++ b ++ "\n ".toList) = ["'c\\".toList] ∧
      unclosed rules (g ++ b ++ "\n ".toList) = [⟨.singleQuoted, 6, ['\'']⟩] := by
  intro rules a b g
  have hsep : a.length ∈ separators rules (a ++ ';' :: b) := by decide +kernel
  have hstatements : statements rules (a ++ ';' :: b) = ["a -- b;".toList, "'c\\".toList] := by
    decide +kernel
  have hunclosed : unclosed rules (a ++ ';' :: b) = [⟨.singleQuoted, 10, ['\'']⟩] := by
    decide +kernel
  have hlast : statements rules b = ["'c\\".toList] := by decide +kernel
  have hopen : unclosed rules b = [⟨.singleQuoted, 1, ['\'']⟩] := by decide +kernel
  have hg : Gap g := by decide
  have hw : Blanks "\n ".toList := List.all_eq_true.mp rfl
  obtain ⟨hbetween, haround⟩ := statements_normalized rules
  obtain ⟨hsame, -, hmoved⟩ := hbetween a b g hsep hg (by decide)
  obtain ⟨hsame', hmoved'⟩ := haround b g "\n ".toList hg hw
  rw [hsame, hmoved, hsame', hmoved', hstatements, hunclosed, hlast, hopen]
  exact ⟨hsep, hg, by decide, rfl, rfl, rfl, rfl⟩

end SqlScript
