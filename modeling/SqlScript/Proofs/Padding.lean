import SqlScript.Proofs.Accounting
import SqlScript.Proofs.OpenRegion

/-! Blanks around a script. In front they are read one by one; at the end they are read one
by one as well, or go with the region that the script ends in (`tokens_append_blank`). In
either case the statements are those of the script without them (`statements_trim`), and
so are the regions left open, but for the places. -/
namespace SqlScript

open Text (Blanks)

variable {rules : Rules} {c : Char} {w : Text}

/-! ### What a blank is not -/

theorem not_isBlank_of_tagChar (h : TagChar c) : isBlank c = false := by
  have bounds {a b : Char} (hab : a ≤ c ∧ c ≤ b) : a.toNat ≤ c.toNat ∧ c.toNat ≤ b.toNat := hab
  have hrange : (97 ≤ c.toNat ∧ c.toNat ≤ 122) ∨ (65 ≤ c.toNat ∧ c.toNat ≤ 90) ∨
      (48 ≤ c.toNat ∧ c.toNat ≤ 57) ∨ c.toNat = 95 := by
    rcases h with h | h | h | rfl
    · exact .inl (bounds h)
    · exact .inr (.inl (bounds h))
    · exact .inr (.inr (.inl (bounds h)))
    · exact .inr (.inr (.inr rfl))
  simp only [isBlank, Bool.or_eq_false_iff, Bool.and_eq_false_iff, decide_eq_false_iff_not,
    beq_eq_false_iff_ne]
  omega

theorem not_continues_of_isBlank (hc : isBlank c = true) : ¬ Continues c := by
  intro hcontinues
  rcases hcontinues with hmem | htag
  · have hall : ['-', '*', '\'', '"', '\x60', ']', '$'].all (!isBlank ·) = true := by decide
    have hblank := List.all_eq_true.mp hall c hmem
    rw [hc] at hblank
    cases hblank
  · rw [not_isBlank_of_tagChar htag] at hc
    cases hc

theorem not_opening_of_isBlank (hc : isBlank c = true) (t : Text) : ¬ Opening rules (c :: t) := by
  intro hopening
  obtain ⟨kind, opener, hopens, hprefix⟩ := hopening
  obtain ⟨d, ds, rfl, hblank, -⟩ := hopens.exists_cons
  obtain ⟨rfl, -⟩ := List.cons_prefix_cons.mp hprefix
  rw [hc] at hblank
  cases hblank

theorem ne_separator_of_isBlank (hc : isBlank c = true) : c ≠ ';' := by
  rintro rfl
  exact absurd hc (by decide)

theorem stands_of_isBlank (hc : isBlank c = true) (t : Text) : Token.Stands rules (.plain c) t :=
  .plain (ne_separator_of_isBlank hc) (not_opening_of_isBlank hc t)

/-- Opening sequences end with a character that is not blank. -/
theorem Opens.exists_last {kind : Kind} {opener : Text} (h : Opens rules kind opener) :
    ∃ front d, opener = front ++ [d] ∧ isBlank d = false := by
  cases h with
  | single => exact ⟨[], _, rfl, by decide⟩
  | double => exact ⟨[], _, rfl, by decide⟩
  | backtick => exact ⟨[], _, rfl, by decide⟩
  | bracket => exact ⟨[], _, rfl, by decide⟩
  | @dollar name => exact ⟨'$' :: name, _, rfl, by decide⟩
  | hash => exact ⟨[], _, rfl, by decide⟩
  | dashes => exact ⟨['-'], _, rfl, by decide⟩
  | block => exact ⟨['/'], _, rfl, by decide⟩

theorem statement?_blanks_append (hw : Blanks w) (t : Text) : statement? (w ++ t) = statement? t := by
  rw [statement?, Text.trim_blanks_append hw, statement?]

theorem statement?_append_blanks (hw : Blanks w) (t : Text) : statement? (t ++ w) = statement? t := by
  rw [statement?, Text.trim_append_blanks hw, statement?]

/-! ### In front of a script -/

theorem flatMap_text_plain (w : Text) : (w.map Token.plain).flatMap Token.text = w := by
  induction w with
  | nil => rfl
  | cons c w ih => rw [List.map_cons, List.flatMap_cons, ih]; rfl

theorem segments_plain (w : Text) : segments (w.map .plain) = [w] := by
  induction w with
  | nil => rfl
  | cons c w ih =>
    have hne : Token.plain c ≠ .separator := Token.noConfusion
    exact segments_cons hne ih

/-- Blanks are read one by one. -/
theorem reads_blanks (rules : Rules) (hw : Blanks w) (t : Text) : Reads rules (w.map .plain) t := by
  induction w with
  | nil => trivial
  | cons c w ih =>
    obtain ⟨hc, hw⟩ := List.forall_mem_cons.mp hw
    exact ⟨stands_of_isBlank hc _, ih hw⟩

theorem tokens_blanks_append (hw : Blanks w) (t : Text) :
    tokens rules (w ++ t) = w.map .plain ++ tokens rules t := by
  have htokens := tokens_of_reads (reads_blanks rules hw t)
  rwa [flatMap_text_plain] at htokens

theorem statements_blanks_append (hw : Blanks w) (t : Text) :
    statements rules (w ++ t) = statements rules t := by
  obtain ⟨first, back, ht⟩ := exists_first_segment (tokens rules t)
  have hsegments : segments (tokens rules (w ++ t)) = (w ++ first) :: back := by
    rw [tokens_blanks_append hw]
    exact @segments_append _ _ [] back w first (segments_plain w) ht
  rw [statements, statements, hsegments, ht, List.filterMap_cons, List.filterMap_cons,
    statement?_blanks_append hw]

theorem unclosed_blanks_append (hw : Blanks w) (t : Text) :
    unclosed rules (w ++ t) = (unclosed rules t).map (Unclosed.shift w.length) := by
  have hopen : ∀ token ∈ w.map Token.plain, ¬ token.IsOpen := by
    intro token htoken
    obtain ⟨c, -, rfl⟩ := List.mem_map.mp htoken
    exact id
  have hunclosed := unclosed_append (reads_blanks rules hw t) hopen
  rwa [flatMap_text_plain] at hunclosed

/-! ### At the end of a script -/

/-- A region at the end of a script stays what it is when a blank at its end is cut off. -/
theorem Token.Stands.shorten {r : Region} (hc : isBlank c = true)
    (h : Token.Stands rules (.region {r with body := r.body ++ [c]}) []) :
    Token.Stands rules (.region r) [] := by
  obtain ⟨kind, opener, body, closed⟩ := r
  by_cases hk : kind = .lineComment
  · have hopen := h.not_isOpen_of_isLineComment hk
    cases h with
    | unclosed => exact absurd rfl hopen
    | closed hopens hends =>
      subst hk
      exact .closed hopens ⟨fun hmem => hends.inLine (List.mem_append_left _ hmem), .inl rfl⟩
  · cases h with
    | closed hopens hends =>
      -- No closer ends with a blank.
      obtain ⟨front, d, hcloser, hd⟩ := exists_last_of_closer hopens hk
      obtain ⟨start, hstart⟩ := hends.closer_suffix
      rw [hcloser, ← List.append_assoc] at hstart
      obtain ⟨-, hdc⟩ := List.append_inj' hstart rfl
      cases hdc
      rw [not_isBlank_of_mem_closingChars _ hd] at hc
      cases hc
    | unclosed hopens hends =>
      refine .unclosed hopens fun before after heq hbefore => ?_
      subst heq
      have hinert : Inert [c] := by
        intro d hd
        cases hd
        exact not_continues_of_isBlank hc
      have hreplaces : Replaces (after ++ [c]) (after ++ []) :=
        (Replaces.of_inert hinert []).append_left after
      rw [List.append_nil] at hreplaces
      refine hends before (after ++ [c]) (List.append_assoc ..).symm ?_
      exact hreplaces.ends hbefore fun hline => absurd hline hk

theorem exists_last_token (rules : Rules) {t : Text} (h : t ≠ []) :
    ∃ last, last ∈ (tokens rules t).getLast? := by
  have htokens : tokens rules t ≠ [] := by
    intro hnil
    have htext := tokens_text rules t
    rw [hnil] at htext
    exact h htext.symm
  exact ⟨_, List.getLast?_eq_some_getLast htokens⟩

/-- **A blank at the end of a script stands alone, or belongs to the region that the script
ends in** and could be missing there. -/
theorem tokens_append_blank (rules : Rules) (hc : isBlank c = true) (t : Text) :
    tokens rules (t ++ [c]) = tokens rules t ++ [.plain c] ∨
    ∃ ts r, tokens rules t = ts ++ [.region r] ∧
      tokens rules (t ++ [c]) = ts ++ [.region {r with body := r.body ++ [c]}] := by
  have hne : t ++ [c] ≠ [] := List.append_ne_nil_of_right_ne_nil t (List.cons_ne_nil c [])
  obtain ⟨last, hlast⟩ := exists_last_token rules hne
  obtain ⟨ts, htokens, htext, hfront, hstands⟩ := exists_reads_last hlast
  have hcut {x : Text} {d : Char} (hx : last.text = x ++ [d]) : t = ts.flatMap Token.text ++ x ∧ d = c := by
    rw [hx, ← List.append_assoc] at htext
    obtain ⟨hleft, hright⟩ := List.append_inj' htext rfl
    exact ⟨hleft, (List.cons.inj hright).1.symm⟩
  cases last with
  | separator =>
    obtain ⟨-, rfl⟩ := @hcut [] ';' rfl
    exact absurd rfl (ne_separator_of_isBlank hc)
  | plain d =>
    obtain ⟨ht, rfl⟩ := @hcut [] d rfl
    rw [List.append_nil] at ht
    subst ht
    rw [tokens_of_reads_nil hfront.cut]
    exact .inl htokens
  | region r =>
    obtain ⟨kind, opener, body, closed⟩ := r
    have hopens : Opens rules kind opener := hstands.opens
    rcases List.eq_nil_or_concat body with rfl | ⟨body, d, rfl⟩
    · obtain ⟨front, d, rfl, hd⟩ := hopens.exists_last
      obtain ⟨-, rfl⟩ := @hcut front d (List.append_nil _)
      rw [hc] at hd
      cases hd
    · rw [List.concat_eq_append] at htokens hstands hcut hfront
      obtain ⟨rfl, rfl⟩ := @hcut (opener ++ body) d (List.append_assoc ..).symm
      have hshort : Token.Stands rules (.region ⟨kind, opener, body, closed⟩) [] :=
        hstands.shorten hc
      exact .inr ⟨ts, _, hshort.tokens_append hfront, htokens⟩

theorem statements_append_blank (hc : isBlank c = true) (t : Text) :
    statements rules (t ++ [c]) = statements rules t := by
  have hblanks : Blanks [c] := by simpa [Blanks] using hc
  rcases tokens_append_blank rules hc t with htokens | ⟨ts, r, ht, htokens⟩
  · obtain ⟨front, last, ht⟩ := exists_last_segment (tokens rules t)
    have hplain : segments [.plain c] = [[c]] := segments_plain [c]
    rw [statements, statements, htokens, segments_append ht hplain, ht,
      List.filterMap_append, List.filterMap_append, List.filterMap_cons, List.filterMap_cons,
      statement?_append_blanks hblanks]
  · obtain ⟨front, last, hts⟩ := exists_last_segment ts
    have hregion (r : Region) : segments (ts ++ [.region r]) = front ++ [last ++ r.text] := by
      have hne : Token.region r ≠ .separator := Token.noConfusion
      have hsegments : segments [.region r] = [r.text ++ []] := segments_cons hne rfl
      rw [List.append_nil] at hsegments
      exact segments_append hts hsegments
    have htext : last ++ Region.text {r with body := r.body ++ [c]} = last ++ r.text ++ [c] := by
      simp [Region.text]
    rw [statements, statements, htokens, ht, hregion, hregion, htext, List.filterMap_append,
      List.filterMap_append, List.filterMap_cons, List.filterMap_cons,
      statement?_append_blanks hblanks]

theorem unclosed_append_blank (hc : isBlank c = true) (t : Text) :
    unclosed rules (t ++ [c]) = unclosed rules t := by
  rcases tokens_append_blank rules hc t with htokens | ⟨ts, r, ht, htokens⟩
  · rw [unclosed, unclosed, htokens, unclosedFrom_append, unclosedFrom_cons]
    exact List.append_nil _
  · rw [unclosed, unclosed, htokens, ht, unclosedFrom_append, unclosedFrom_append]
    rfl

theorem append_blanks (hw : Blanks w) (t : Text) :
    statements rules (t ++ w) = statements rules t ∧ unclosed rules (t ++ w) = unclosed rules t := by
  induction w generalizing t with
  | nil => rw [List.append_nil]; exact ⟨rfl, rfl⟩
  | cons c w ih =>
    obtain ⟨hc, hw⟩ := List.forall_mem_cons.mp hw
    rw [List.append_cons, (ih hw _).1, (ih hw _).2]
    exact ⟨statements_append_blank hc t, unclosed_append_blank hc t⟩

/-! ### Trimming a script -/

/-- **Trimming a script does not change its statements.** -/
theorem statements_trim (rules : Rules) (t : Text) :
    statements rules t.trim = statements rules t := by
  obtain ⟨front, back, hfront, hback, h⟩ := Text.exists_trim t
  conv => rhs; rw [← h]
  rw [statements_blanks_append hfront, (append_blanks hback _).1]

theorem unclosed_trim_eq_nil_iff {t : Text} : unclosed rules t.trim = [] ↔ unclosed rules t = [] := by
  obtain ⟨front, back, hfront, hback, h⟩ := Text.exists_trim t
  conv => rhs; rw [← h]
  rw [unclosed_blanks_append hfront, (append_blanks hback _).2, List.map_eq_nil_iff]

end SqlScript
