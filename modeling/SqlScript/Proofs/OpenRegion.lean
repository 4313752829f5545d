import SqlScript.Proofs.Balance

/-! What a region goes on over. A region that ends nowhere takes further text as well, as
long as no character of it could end a closer (`Token.Stands.extend`). -/
namespace SqlScript

/-- The text that closes a region. A line comment has none. -/
def closer : Kind → Text → Text
  | .singleQuoted, _ => ['\'']
  | .doubleQuoted, _ => ['"']
  | .backtickName, _ => ['\x60']
  | .bracketName, _ => [']']
  | .dollarQuoted, tag => tag
  | .lineComment, _ => []
  | .blockComment, _ => Comment.blockCloser

/-- The characters that a closer can end with. -/
def closingChars : Text := ['\'', '"', '\x60', ']', '$', '/']

/-- A text without a character that a closer can end with. -/
def ClosesNothing (u : Text) : Prop := ∀ c ∈ u, c ∉ closingChars

theorem Comment.closer_suffix_of_closes {depth : Nat} {items : List Comment.Item}
    (h : Comment.Closes depth items) : Comment.blockCloser <:+ Comment.written items := by
  induction items generalizing depth with
  | nil => exact absurd h (by simp [Comment.Closes])
  | cons item items ih =>
    cases item with
    | opening => exact (ih (show Comment.Closes (depth + 1) items from h)).trans (List.suffix_append _ _)
    | other c => exact (ih (show Comment.Closes depth items from h)).trans (List.suffix_append _ _)
    | closing =>
      cases depth with
      | zero =>
        cases h
        exact List.suffix_refl _
      | succ outer => exact (ih (show Comment.Closes outer items from h)).trans (List.suffix_append _ _)

/-- A region that ends does so with its closer. -/
theorem Ends.closer_suffix {rules : Rules} {kind : Kind} {opener body rest : Text}
    (h : Ends rules kind opener body rest) : closer kind opener <:+ body := by
  have quote {close : Char} {escapes : Bool} (hq : Quote.Ends close escapes body rest) :
      [close] <:+ body := by
    obtain ⟨content, rfl, -⟩ := hq
    exact List.suffix_append content [close]
  cases kind with
  | singleQuoted => exact quote h
  | doubleQuoted => exact quote h
  | backtickName => exact quote h
  | bracketName => exact quote h
  | dollarQuoted => exact h.ends
  | lineComment => exact List.nil_suffix
  | blockComment =>
    rw [Ends] at h
    split at h
    · obtain ⟨items, hbalanced, rfl⟩ := h
      exact Comment.closer_suffix_of_closes (Comment.balanced_iff.mp hbalanced).2
    · exact h.ends

theorem exists_last_of_closer {rules : Rules} {kind : Kind} {opener : Text}
    (h : Opens rules kind opener) (hk : kind ≠ .lineComment) :
    ∃ front c, closer kind opener = front ++ [c] ∧ c ∈ closingChars := by
  cases h with
  | single => exact ⟨[], _, rfl, by decide⟩
  | double => exact ⟨[], _, rfl, by decide⟩
  | backtick => exact ⟨[], _, rfl, by decide⟩
  | bracket => exact ⟨[], _, rfl, by decide⟩
  | @dollar name => exact ⟨'$' :: name, _, rfl, by decide⟩
  | block => exact ⟨['*'], _, rfl, by decide⟩
  | hash => exact absurd rfl hk
  | dashes => exact absurd rfl hk

theorem not_isBlank_of_mem_closingChars : ∀ c ∈ closingChars, isBlank c = false := by
  have hall : closingChars.all (!isBlank ·) = true := by decide
  simpa using hall

/-- A region that ends in a text with something behind that closes nothing ends in the
text alone. -/
theorem Ends.of_append {rules : Rules} {kind : Kind} {opener body u before after : Text}
    (hopens : Opens rules kind opener) (hk : kind ≠ .lineComment) (hu : ClosesNothing u)
    (h : Ends rules kind opener before after) (heq : before ++ after = body ++ u) :
    ∃ rest, before ++ rest = body ∧ Ends rules kind opener before rest := by
  rcases List.append_eq_append_iff.mp heq with ⟨rest, rfl, rfl⟩ | ⟨beyond, rfl, rfl⟩
  · exact ⟨rest, rfl, (Replaces.of_append rest u).ends h fun hline => absurd hline hk⟩
  · rcases List.eq_nil_or_concat beyond with rfl | ⟨init, d, rfl⟩
    · refine ⟨[], by simp, ?_⟩
      exact (Replaces.of_append [] after).ends h fun hline => absurd hline hk
    · -- The closer ends in the text behind, which holds no character that could be its last.
      obtain ⟨front, c, hcloser, hlast⟩ := exists_last_of_closer hopens hk
      obtain ⟨start, hstart⟩ := h.closer_suffix
      rw [hcloser, ← List.append_assoc, List.concat_eq_append, ← List.append_assoc] at hstart
      obtain ⟨-, hcd⟩ := List.append_inj' hstart rfl
      cases hcd
      exact absurd hlast (hu d (by simp))

namespace Token.Stands

variable {rules : Rules} {r : Region} {u : Text}

/-- **A region that ends nowhere goes on over what closes nothing.** -/
theorem extend (h : Stands rules (.region r) []) (hr : r.closed = false) (hu : ClosesNothing u) :
    Stands rules (.region {r with body := r.body ++ u}) [] := by
  have hline : r.kind ≠ .lineComment := fun hl => h.not_isOpen_of_isLineComment hl hr
  cases h with
  | closed => cases hr
  | unclosed hopens hends =>
    refine .unclosed hopens fun before after heq hbefore => ?_
    obtain ⟨rest, hrest, hends'⟩ := hbefore.of_append hopens hline hu heq
    exact hends before rest hrest hends'

/-- A line comment goes on over what is on the same line. -/
theorem extend_lineComment (h : Stands rules (.region r) []) (hr : r.kind = .lineComment)
    (hu : '\n' ∉ u) : Stands rules (.region {r with body := r.body ++ u}) [] := by
  have hopen := h.not_isOpen_of_isLineComment hr
  cases h with
  | unclosed => exact absurd rfl hopen
  | @closed kind opener body rest hopens hends =>
    cases hr
    refine .closed hopens ⟨fun hmem => ?_, .inl rfl⟩
    rcases List.mem_append.mp hmem with hbody | hafter
    · exact hends.inLine hbody
    · exact hu hafter

end Token.Stands

end SqlScript
