import SqlScript.Proofs.OpenRegion
import SqlScript.Proofs.Segments

/-! Scripts put one behind the other, with a separator between them.

`statements_concat_iff` says when the statements of the whole are those of the two parts,
whatever the second part is: when the first one ends at top level. A line comment or an
open region at its end takes the separator along. -/
namespace SqlScript

variable {rules : Rules}

theorem tokens_separator (rules : Rules) (b : Text) :
    tokens rules (';' :: b) = .separator :: tokens rules b :=
  tokens_of_read? rfl

/-! ### Behind a script that ends at top level -/

theorem reads_of_endsAtTopLevel {a : Text} (h : EndsAtTopLevel rules a) {t : Text}
    (ht : Inert t) : Reads rules (tokens rules a) t := by
  apply (reads_tokens rules a).replace (.of_inert ht [])
  intro token htoken
  obtain ⟨hopen, hline⟩ := h token htoken
  exact ⟨hopen, fun hl => absurd hl hline⟩

theorem tokens_concat {a : Text} (h : EndsAtTopLevel rules a) (b : Text) :
    tokens rules (a ++ ';' :: b) = tokens rules a ++ .separator :: tokens rules b := by
  have htokens := tokens_of_reads (reads_of_endsAtTopLevel h (inert_separator b))
  rwa [tokens_text, tokens_separator] at htokens

theorem statements_concat {a : Text} (h : EndsAtTopLevel rules a) (b : Text) :
    statements rules (a ++ ';' :: b) = statements rules a ++ statements rules b := by
  rw [statements, tokens_concat h, segments_separator, List.filterMap_append]
  rfl

theorem unclosed_concat {a : Text} (h : EndsAtTopLevel rules a) (b : Text) :
    unclosed rules (a ++ ';' :: b) = (unclosed rules b).map (Unclosed.shift (a.length + 1)) := by
  have hopen : ∀ token ∈ tokens rules a, ¬ token.IsOpen :=
    (reads_tokens rules a).not_isOpen fun token htoken => (h token htoken).1
  rw [unclosed, tokens_concat h, unclosedFrom_append, unclosedFrom_eq_nil_iff.mpr hopen,
    tokens_text, Nat.zero_add, List.nil_append, unclosedFrom_cons]
  show unclosedFrom (a.length + 1) (tokens rules b) = _
  rw [← Nat.zero_add (a.length + 1), unclosedFrom_shift, Nat.zero_add]
  rfl

/-- In front of a separator a script is read in the same way whatever follows it. -/
theorem tokens_cut {script : Text} {a b : List Token}
    (h : tokens rules script = a ++ .separator :: b) (t : Text) :
    tokens rules (a.flatMap Token.text ++ ';' :: t) = a ++ .separator :: tokens rules t := by
  obtain ⟨-, ha⟩ := reads_front h
  have hne : ';' :: b.flatMap Token.text ≠ [] := List.cons_ne_nil _ _
  have htag : ¬ TagChar ';' := by unfold TagChar; decide
  have ha' : Reads rules a (';' :: t) := by
    refine ha.replace (.of_head? htag rfl rfl) fun token htoken => ?_
    exact ⟨ha.not_isOpen_of_ne_nil hne token (List.mem_of_getLast? htoken), fun _ => .inr rfl⟩
  rw [tokens_of_reads ha', tokens_separator]

/-! ### Behind a script that ends inside a region -/

/-- A script that does not end at top level ends in one last region, which goes on over
what neither ends a line nor closes a region. -/
theorem exists_region_of_not_endsAtTopLevel {a : Text} (h : ¬ EndsAtTopLevel rules a) :
    ∃ ts r, Opens rules r.kind r.opener ∧ tokens rules a = ts ++ [.region r] ∧
      ∀ u : Text, '\n' ∉ u → ClosesNothing u →
        tokens rules (a ++ u) = ts ++ [.region {r with body := r.body ++ u}] := by
  obtain ⟨last, hlast, hends⟩ : ∃ token ∈ (tokens rules a).getLast?,
      token.IsOpen ∨ token.IsLineComment := by
    by_contra hn
    refine h fun token htoken => ⟨fun ho => ?_, fun hl => ?_⟩
    · exact hn ⟨token, htoken, .inl ho⟩
    · exact hn ⟨token, htoken, .inr hl⟩
  obtain ⟨ts, htokens, ha, hfront, hstands⟩ := exists_reads_last hlast
  cases last with
  | separator => exact absurd hends (by simp [Token.IsOpen, Token.IsLineComment])
  | plain c => exact absurd hends (by simp [Token.IsOpen, Token.IsLineComment])
  | region r =>
    refine ⟨ts, r, hstands.opens, htokens, fun u hline hu => ?_⟩
    have hstands' : Token.Stands rules (.region {r with body := r.body ++ u}) [] := by
      rcases hends with hr | hr
      · exact hstands.extend hr hu
      · exact hstands.extend_lineComment hr hline
    rw [← hstands'.tokens_append hfront, ha]
    simp [Token.text, Region.text]

/-- The number of statements does not depend on how far a last region reaches. -/
theorem length_statements_of_last_region {ts : List Token} {r : Region}
    (h : Opens rules r.kind r.opener) {script : Text}
    (htokens : tokens rules script = ts ++ [.region r]) {front : List Text} {last : Text}
    (hts : segments ts = front ++ [last]) :
    (statements rules script).length = (front.filterMap statement?).length + 1 := by
  rw [statements, htokens, statements_around_region h hts rfl, List.length_append]
  rfl

/-- A letter is a statement. -/
theorem statements_letter (rules : Rules) : statements rules ['x'] = [['x']] := by
  have hreads : Reads rules [.plain 'x'] [] := by
    refine ⟨.plain (by decide) ?_, trivial⟩
    intro hopening
    obtain ⟨kind, opener, hopens, tail, htail⟩ := hopening
    cases hopens <;> cases htail
  have htokens : tokens rules ['x'] = [.plain 'x'] := tokens_of_reads_nil hreads
  rw [statements, htokens]
  decide

/-- Inside a region the separator and what follows it are no statement of their own. -/
theorem endsAtTopLevel_of_statements {a : Text}
    (h : ∀ b, statements rules (a ++ ';' :: b) = statements rules a ++ statements rules b) :
    EndsAtTopLevel rules a := by
  by_contra hn
  obtain ⟨ts, r, hopens, htokens, hextend⟩ := exists_region_of_not_endsAtTopLevel hn
  obtain ⟨front, last, hts⟩ := exists_last_segment ts
  have hwhole := hextend [';', 'x'] (by decide) (by simp [ClosesNothing, closingChars])
  have hshort := length_statements_of_last_region hopens htokens hts
  have hlong := length_statements_of_last_region (r := {r with body := r.body ++ [';', 'x']})
    hopens hwhole hts
  have hlength := congrArg List.length (h ['x'])
  rw [List.length_append, statements_letter, hshort, hlong] at hlength
  simp at hlength

/-- **The statements of two scripts with a separator between them are those of the first
and those of the second, whatever the second is, exactly if the first is balanced and
does not end in a line comment**. What is left open is then what the second leaves open. -/
theorem statements_concat_iff (rules : Rules) (a : Text) :
    ((∀ b, statements rules (a ++ ';' :: b) = statements rules a ++ statements rules b) ↔
      unclosed rules a = [] ∧ ¬ EndsInLineComment rules a) ∧
    (unclosed rules a = [] ∧ ¬ EndsInLineComment rules a → ∀ b,
      unclosed rules (a ++ ';' :: b) = (unclosed rules b).map (Unclosed.shift (a.length + 1))) := by
  rw [← endsAtTopLevel_iff]
  exact ⟨⟨endsAtTopLevel_of_statements, statements_concat⟩, unclosed_concat⟩

end SqlScript
