import SqlScript.Text
import SqlScript.Proofs.Text.Trim

/-! The lines of a text are the one way to write it in lines (`lined_iff`): each line but the
last one is ended by a break, and a carriage return with a line feed behind it is one break. A
text that does not end in a break therefore ends in its last line (`exists_last_line`). -/
namespace SqlScript

/-- The characters that end a line. -/
def lineBreaks : List Char :=
  ['\n', '\x0b', '\x0c', '\r', '\x1c', '\x1d', '\x1e', '\x85', '\u2028', '\u2029']

theorem isLineBreak_iff {c : Char} : isLineBreak c = true ↔ c ∈ lineBreaks := by
  simp only [isLineBreak, lineBreaks, List.mem_cons, List.not_mem_nil, or_false, ← Char.toNat_inj,
    Bool.or_eq_true, Bool.and_eq_true, decide_eq_true_eq, beq_iff_eq]
  simp only [Char.reduceToNat]
  omega

theorem isBlank_of_isLineBreak {c : Char} (h : isLineBreak c = true) : isBlank c = true := by
  have hall : lineBreaks.all isBlank = true := by decide
  exact List.all_eq_true.mp hall c (isLineBreak_iff.mp h)

namespace Text

/-- A text in which no line ends. -/
def Unbroken (t : Text) : Prop := ∀ c ∈ t, isLineBreak c = false

/-- What ends a line in front of a text: one character or, as the two belong together, a
carriage return and the line feed behind it. -/
inductive Breaks : Text → Text → Prop
  | pair (rest : Text) : Breaks ['\r', '\n'] rest
  | one {c : Char} {rest : Text} : isLineBreak c = true → ¬ (c = '\r' ∧ rest.head? = some '\n') →
      Breaks [c] rest

/-- A text written in lines. There is no empty line behind the last break. -/
inductive Lined : Text → List Text → Prop
  | none : Lined [] []
  | last {line : Text} : line ≠ [] → Unbroken line → Lined line [line]
  | broken {line brk rest : Text} {ls : List Text} : Unbroken line → Breaks brk rest →
      Lined rest ls → Lined (line ++ (brk ++ rest)) (line :: ls)

/-! ### Line by line -/

theorem lines_cons {c : Char} (hc : isLineBreak c = false) (t : Text) :
    lines (c :: t) = consLine c (lines t) := by
  rw [lines]
  · rw [if_neg (by simp [hc])]
  · rintro cs rfl -
    cases hc

theorem lines_breaks {brk rest : Text} (h : Breaks brk rest) :
    lines (brk ++ rest) = [] :: lines rest := by
  cases h with
  | pair => rw [List.cons_append, List.cons_append, List.nil_append, lines]
  | @one c _ hc hpair =>
    rw [List.singleton_append, lines]
    · rw [if_pos hc]
    · rintro cs rfl rfl
      exact hpair ⟨rfl, rfl⟩

theorem lines_broken {line brk rest : Text} (hline : Unbroken line) (h : Breaks brk rest) :
    lines (line ++ (brk ++ rest)) = line :: lines rest := by
  induction line with
  | nil => exact lines_breaks h
  | cons c line ih =>
    obtain ⟨hc, hline⟩ := List.forall_mem_cons.mp hline
    rw [List.cons_append, lines_cons hc, ih hline, consLine]

theorem lines_unbroken {line : Text} (hne : line ≠ []) (hline : Unbroken line) :
    lines line = [line] := by
  induction line with
  | nil => exact absurd rfl hne
  | cons c line ih =>
    obtain ⟨hc, hline⟩ := List.forall_mem_cons.mp hline
    rw [lines_cons hc]
    cases line with
    | nil => rfl
    | cons d line => rw [ih (List.cons_ne_nil d line) hline, consLine]

/-! ### All lines -/

theorem Lined.cons {c : Char} (hc : isLineBreak c = false) {t : Text} {ls : List Text}
    (h : Lined t ls) : Lined (c :: t) (consLine c ls) := by
  cases h with
  | none => exact .last (List.cons_ne_nil c []) (by simpa [Unbroken] using hc)
  | last hne hline => exact .last (List.cons_ne_nil c _) (List.forall_mem_cons.mpr ⟨hc, hline⟩)
  | broken hline hbreak hrest =>
    exact .broken (List.forall_mem_cons.mpr ⟨hc, hline⟩) hbreak hrest

theorem lined_lines (t : Text) : Lined t t.lines := by
  induction t using lines.induct with
  | case1 => exact .none
  | case2 cs ih =>
    have hbreak : Breaks ['\r', '\n'] cs := .pair cs
    have hlined := Lined.broken (List.forall_mem_nil _) hbreak ih
    rwa [← lines_broken (List.forall_mem_nil _) hbreak] at hlined
  | case3 c cs hpair hc ih =>
    have hbreak : Breaks [c] cs := by
      refine .one hc fun hboth => ?_
      obtain ⟨rest, rfl⟩ := List.head?_eq_some_iff.mp hboth.2
      exact hpair rest hboth.1 rfl
    have hlined := Lined.broken (List.forall_mem_nil _) hbreak ih
    rwa [← lines_broken (List.forall_mem_nil _) hbreak] at hlined
  | case4 c cs hpair hc ih =>
    rw [lines_cons (by simpa using hc)]
    exact ih.cons (by simpa using hc)

/-- **The lines of a text are the one way to write it in lines.** -/
theorem lined_iff {t : Text} {ls : List Text} : Lined t ls ↔ ls = t.lines := by
  refine ⟨fun h => ?_, fun h => h ▸ lined_lines t⟩
  induction h with
  | none => rfl
  | last hne hline => rw [lines_unbroken hne hline]
  | broken hline hbreak _ ih => rw [lines_broken hline hbreak, ih]

/-! ### The last line -/

theorem Lined.exists_last {t : Text} {ls : List Text} (h : Lined t ls) (hne : t ≠ [])
    (hend : ∀ c ∈ t.getLast?, isLineBreak c = false) :
    ∃ line, ls.getLast? = some line ∧ line ≠ [] ∧ Unbroken line ∧ line <:+ t := by
  induction h with
  | none => exact absurd rfl hne
  | @last line hline hunbroken => exact ⟨line, rfl, hline, hunbroken, List.suffix_rfl⟩
  | @broken line brk rest ls _ hbreak hrest ih =>
    -- Behind the break there is something, for the text does not end in one.
    have hrest' : rest ≠ [] := by
      rintro rfl
      cases hbreak with
      | pair => exact absurd (hend '\n' (by simp)) (by decide)
      | @one c _ hc => simp [hend c (by simp)] at hc
    have hlast : (line ++ (brk ++ rest)).getLast? = rest.getLast? := by
      rw [← List.append_assoc, List.getLast?_append, List.getLast?_eq_some_getLast hrest']
      rfl
    obtain ⟨last, hmem, hne, hunbroken, hsuffix⟩ := ih hrest' fun c hc => hend c (hlast ▸ hc)
    refine ⟨last, ?_, hne, hunbroken, ?_⟩
    · rw [← List.singleton_append, List.getLast?_append, hmem]
      rfl
    · rw [← List.append_assoc]
      exact hsuffix.trans (List.suffix_append _ rest)

/-- **A trimmed text ends in its last line**, less the blanks in front of that. -/
theorem exists_last_line {t : Text} (hne : t ≠ []) (h : t.trim = t) :
    ∃ line, t.lines.getLast? = some line ∧ line.trim ≠ [] ∧ Unbroken line.trim ∧
      line.trim <:+ t := by
  have hend : ∀ c ∈ t.getLast?, isBlank c = false := by
    rw [← h]
    exact fun c => not_isBlank_of_getLast?_trim
  have hbreak : ∀ c ∈ t.getLast?, isLineBreak c = false := by
    intro c hc
    rw [Bool.eq_false_iff]
    intro hbreak
    have hblank := isBlank_of_isLineBreak hbreak
    rw [hend c hc] at hblank
    cases hblank
  obtain ⟨line, hlast, hline, hunbroken, hsuffix⟩ := (lined_lines t).exists_last hne hbreak
  obtain ⟨before, rfl⟩ := hsuffix
  obtain ⟨front, c, rfl⟩ : ∃ front c, line = front ++ [c] :=
    ⟨_, _, (List.dropLast_concat_getLast hline).symm⟩
  have hc : isBlank c = false := hend c (by simp)
  have htrim : trim (front ++ [c]) = trimStart front ++ [c] := trim_append hc front []
  have hpart : trimStart front ++ [c] <:+ front ++ [c] := by
    obtain ⟨blanks, hfront⟩ : trimStart front <:+ front := List.dropWhile_suffix isBlank
    exact ⟨blanks, by rw [← List.append_assoc, hfront]⟩
  have hne' : trimStart front ++ [c] ≠ [] :=
    List.append_ne_nil_of_right_ne_nil _ (List.cons_ne_nil c [])
  refine ⟨_, hlast, ?_⟩
  rw [htrim]
  exact ⟨hne', fun x hx => hunbroken x (hpart.subset hx), hpart.trans (List.suffix_append before _)⟩

end Text

end SqlScript
