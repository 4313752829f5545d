import SqlScript.Script
import SqlScript.Proofs.Outlook

/-! What is reported about a script that ends inside a region, and what that says.

`Explains` is what a reported region has to be: the first that opens behind a part of the
script that is complete by itself, and it takes the rest. `unclosed_eq_singleton_iff`
says that these are the regions reported, and `diagnose_explains` what the ways of asking
for them make of it. -/
namespace SqlScript

variable {rules : Rules} {script : Text} {u : Unclosed}

/-- What a region is that a script leaves open. -/
structure Explains (rules : Rules) (script : Text) (u : Unclosed) : Prop where
  opens : Opens rules u.kind u.opener
  /-- A line comment is never left open. -/
  kind_ne : u.kind ≠ .lineComment
  /-- The opening sequence stands where the region is said to start. -/
  found : (script.drop u.start).take u.opener.length = u.opener
  /-- Nothing is open in front of the region. -/
  balanced : unclosed rules (script.take u.start) = []
  /-- Nor does a line comment come up to it. -/
  apart : ¬ EndsInLineComment rules (script.take u.start)
  /-- The script is read in the same way when it is cut in front of the region. -/
  cut : tokens rules script =
    tokens rules (script.take u.start) ++ tokens rules (script.drop u.start)
  /-- The rest of the script leaves the same region open. -/
  rest : unclosed rules (script.drop u.start) = [{u with start := 0}]
  /-- The rest of the script is one statement. -/
  whole : statements rules (script.drop u.start) = [Text.trim (script.drop u.start)]

/-! ### The end of a script -/

theorem unclosed_eq_nil_iff_ends :
    unclosed rules script = [] ↔ EndsAtTopLevel rules script ∨ EndsInLineComment rules script := by
  rw [endsAtTopLevel_iff]
  refine ⟨?_, ?_⟩
  · intro h
    by_cases hline : EndsInLineComment rules script
    · exact .inr hline
    · exact .inl ⟨h, hline⟩
  · intro hends
    rcases hends with ⟨h, -⟩ | ⟨token, htoken, hline⟩
    · exact h
    · rw [unclosed_eq_nil_iff]
      intro last hlast
      obtain rfl : token = last := Option.some.inj (htoken.symm.trans hlast)
      obtain ⟨ts, -, -, -, hstands⟩ := exists_reads_last hlast
      exact hstands.not_isOpen_of_isLineComment hline

/-! ### The region at the end -/

/-- A script that leaves a region open ends in it. -/
theorem exists_region_of_unclosed (h : unclosed rules script = [u]) :
    ∃ ts body, tokens rules script = ts ++ [.region ⟨u.kind, u.opener, body, false⟩] ∧
      script = ts.flatMap Token.text ++ (u.opener ++ body) ∧
      u.start = (ts.flatMap Token.text).length ∧ Reads rules ts (u.opener ++ body) ∧
      Token.Stands rules (.region ⟨u.kind, u.opener, body, false⟩) [] := by
  have hne : ¬ ∀ token ∈ (tokens rules script).getLast?, ¬ token.IsOpen := by
    rw [← unclosed_eq_nil_iff, h]
    exact List.cons_ne_nil u []
  push Not at hne
  obtain ⟨last, hlast, hopen⟩ := hne
  obtain ⟨ts, htokens, hscript, hfront, hstands⟩ := exists_reads_last hlast
  have hts := hfront.not_isOpen_of_ne_nil hstands.text_ne_nil
  rw [unclosed, htokens, unclosedFrom_append, unclosedFrom_eq_nil_iff.mpr hts] at h
  cases last with
  | separator => exact absurd hopen id
  | plain c => exact absurd hopen id
  | region r =>
    obtain ⟨kind, opener, body, closed⟩ := r
    obtain rfl : closed = false := hopen
    obtain rfl : ⟨kind, 0 + (ts.flatMap Token.text).length, opener⟩ = u := List.head_eq_of_cons_eq h
    exact ⟨ts, body, htokens, hscript, Nat.zero_add _, hfront, hstands⟩

/-- No line ends in front of a region. -/
theorem Opens.head?_ne_newline {kind : Kind} {opener : Text} (h : Opens rules kind opener)
    (body : Text) : (opener ++ body).head? ≠ some '\n' := by
  obtain ⟨c, cs, rfl, hblank, -⟩ := h.exists_cons
  intro hhead
  obtain rfl : c = '\n' := Option.some.inj hhead
  exact absurd hblank (by decide)

/-- A text that is one open region. -/
theorem tokens_region {kind : Kind} {opener body : Text}
    (h : Token.Stands rules (.region ⟨kind, opener, body, false⟩) []) :
    tokens rules (opener ++ body) = [.region ⟨kind, opener, body, false⟩] := by
  have hreads : Reads rules [.region ⟨kind, opener, body, false⟩] [] := ⟨h, trivial⟩
  simpa [Token.text, Region.text] using tokens_of_reads_nil hreads

theorem statements_region {kind : Kind} {opener body : Text}
    (h : Token.Stands rules (.region ⟨kind, opener, body, false⟩) []) :
    statements rules (opener ++ body) = [Text.trim (opener ++ body)] := by
  have hnil : segments [] = [] ++ [[]] := rfl
  have hregion := statements_around_region h.opens hnil hnil
  rw [statements, tokens_region h]
  simpa [Region.text] using hregion

/-! ### What is reported -/

theorem explains_of_unclosed (h : unclosed rules script = [u]) : Explains rules script u := by
  obtain ⟨ts, body, htokens, hscript, hstart, hfront, hstands⟩ := exists_region_of_unclosed h
  have hopens : Opens rules u.kind u.opener := hstands.opens
  obtain ⟨hts, htop⟩ := hfront.endsAtTopLevel (List.append_ne_nil_of_left_ne_nil hopens.ne_nil body)
    (hopens.head?_ne_newline body)
  have htake : script.take u.start = ts.flatMap Token.text := by rw [hscript, hstart, List.take_left]
  have hdrop : script.drop u.start = u.opener ++ body := by rw [hscript, hstart, List.drop_left]
  obtain ⟨hbalanced, hline⟩ := endsAtTopLevel_iff.mp htop
  exact
    { opens := hopens
      kind_ne := fun hk => hstands.not_isOpen_of_isLineComment hk rfl
      found := by rw [hdrop, List.take_left]
      balanced := by rw [htake, hbalanced]
      apart := by rwa [htake]
      cut := by rw [htake, hdrop, hts, htokens, tokens_region hstands]
      rest := by rw [hdrop, unclosed, tokens_region hstands]; rfl
      whole := by rw [hdrop, statements_region hstands] }

theorem unclosed_of_explains (h : Explains rules script u) : unclosed rules script = [u] := by
  have hlength : (script.take u.start).length = u.start := by
    have hrest : script.drop u.start ≠ [] := by
      intro hnil
      have hfound := h.found
      rw [hnil, List.take_nil] at hfound
      exact h.opens.ne_nil hfound.symm
    have hlt : u.start < script.length := List.length_lt_of_drop_ne_nil hrest
    rw [List.length_take]
    omega
  have hfront : unclosedFrom 0 (tokens rules (script.take u.start)) = [] := h.balanced
  have hrest : unclosedFrom 0 (tokens rules (script.drop u.start)) = [{u with start := 0}] := h.rest
  rw [unclosed, h.cut, unclosedFrom_append, hfront, tokens_text, hlength, List.nil_append,
    unclosedFrom_shift, hrest]
  simp [Unclosed.shift]

/-- **The region that a script is said to leave open is the one that explains its end**,
and every region that does so is reported. -/
theorem unclosed_eq_singleton_iff : unclosed rules script = [u] ↔ Explains rules script u :=
  ⟨explains_of_unclosed, unclosed_of_explains⟩

/-- The last statement of a script ends with the region that it leaves open. -/
theorem exists_last_statement_of_unclosed (h : unclosed rules script = [u]) :
    ∃ last ∈ (statements rules script).getLast?, Text.trimEnd (script.drop u.start) <:+ last := by
  obtain ⟨ts, body, htokens, hscript, hstart, -, hstands⟩ := exists_region_of_unclosed h
  obtain ⟨front, last, hts⟩ := exists_last_segment ts
  have hdrop : script.drop u.start = u.opener ++ body := by rw [hscript, hstart, List.drop_left]
  obtain ⟨c, cs, hc, hblank, -⟩ : ∃ c cs, u.opener = c :: cs ∧ isBlank c = false ∧ ¬ TagChar c :=
    hstands.opens.exists_cons
  refine ⟨Text.trim (last ++ (u.opener ++ body)), ?_, ?_⟩
  · rw [statements, htokens, statements_around_region hstands.opens hts rfl]
    simp [Region.text]
  · rw [hdrop, hc, List.cons_append, Text.trim_append hblank,
      ← List.nil_append (c :: (cs ++ body)), Text.trimEnd_append hblank]
    exact List.suffix_append _ _

/-! ### Asking for it -/

variable {choice : Dialect.Designator} {d : Dialect}

theorem iterate_of_resolve (h : choice.resolve = .ok d) (script : Text) :
    iterate script choice = .ok (Reader.start d.rules script) := by
  rw [iterate, rulesOf, h]
  rfl

theorem diagnose_of_resolve (h : choice.resolve = .ok d) (script : Text) :
    diagnose script choice =
      ⟨.ok ⟨statements d.rules script, unclosed d.rules script⟩, unclosed d.rules script⟩ := by
  obtain ⟨hvalues, hnotices⟩ := Reader.drain_start d.rules script
  simp only [diagnose, iterate_of_resolve h, hvalues, hnotices]

theorem split_of_resolve (h : choice.resolve = .ok d) (script : Text) :
    split script choice = ⟨.ok (statements d.rules script), unclosed d.rules script⟩ := by
  obtain ⟨hvalues, hnotices⟩ := Reader.drain_start d.rules script
  simp only [split, iterate_of_resolve h, hvalues, hnotices]

theorem check_of_balanced (h : choice.resolve = .ok d) (hu : unclosed d.rules script = []) :
    check script choice = ⟨.ok (), []⟩ := by
  rw [check, diagnose_of_resolve h]
  simp [Except.bind, hu]

theorem check_of_unclosed (h : choice.resolve = .ok d) (hu : unclosed d.rules script = [u]) :
    check script choice = ⟨.error u.failure, [u]⟩ := by
  rw [check, diagnose_of_resolve h]
  simp [Except.bind, hu]

/-- A check passes exactly if nothing is left open. -/
theorem check_eq_ok_iff (h : choice.resolve = .ok d) :
    (check script choice).outcome = .ok () ↔ unclosed d.rules script = [] := by
  refine ⟨fun hok => ?_, fun hu => by rw [check_of_balanced h hu]⟩
  cases hu : unclosed d.rules script with
  | nil => rfl
  | cons u others =>
    rw [check, diagnose_of_resolve h] at hok
    simp [Except.bind, hu] at hok

/-- **Reports are sound and complete**. At most one region is reported open, and none
exactly if the script ends at top level or in a line comment; then there is nothing to
note, and nothing fails. A region that is reported explains the end of the script, its
text is where the last statement ends, it is noted once, and a check fails with it. -/
theorem diagnose_explains (h : choice.resolve = .ok d) (script : Text) :
    ∃ found : Diagnosis, (diagnose script choice).outcome = .ok found ∧
      found.unclosed.length ≤ 1 ∧
      (found.unclosed = [] ↔ EndsAtTopLevel d.rules script ∨ EndsInLineComment d.rules script) ∧
      (found.unclosed = [] →
        (diagnose script choice).notices = [] ∧ check script choice = ⟨.ok (), []⟩) ∧
      ∀ u, (found.unclosed = [u] ↔ Explains d.rules script u) ∧
        (found.unclosed = [u] →
          (∃ last ∈ found.statements.getLast?, Text.trimEnd (script.drop u.start) <:+ last) ∧
          (diagnose script choice).notices = [u] ∧
          check script choice =
            ⟨.error (.unterminated
              ("unterminated ".toList ++ u.kind.title ++ " starting at offset ".toList ++
                Text.ofNat u.start)
              u.kind u.start u.opener), [u]⟩) := by
  rw [diagnose_of_resolve h]
  refine ⟨_, rfl, length_unclosed_le_one d.rules script,
    unclosed_eq_nil_iff_ends, fun hu => ⟨hu, check_of_balanced h hu⟩, fun u => ?_⟩
  refine ⟨unclosed_eq_singleton_iff, fun hu => ?_⟩
  exact ⟨exists_last_statement_of_unclosed hu, hu, check_of_unclosed h hu⟩

/-- A comment left open right behind a slash. -/
theorem diagnose_explains_half_typed :
    let choice := Dialect.Designator.datum (.text " PG".toList)
    let script := "a; b//* c".toList
    choice.resolve = .ok .postgres ∧ ∃ found : Diagnosis,
      (diagnose script choice).outcome = .ok found ∧
      found.unclosed = [⟨.blockComment, 5, "/*".toList⟩] ∧
      Explains Dialect.postgres.rules script ⟨.blockComment, 5, "/*".toList⟩ := by
  intro choice script
  have hchoice : choice.resolve = .ok .postgres := by rfl
  have hunclosed : unclosed Dialect.postgres.rules script = [⟨.blockComment, 5, "/*".toList⟩] := by
    decide +kernel
  obtain ⟨found, hfound, -, -, -, hexplains⟩ := diagnose_explains hchoice script
  have hopen : found.unclosed = [⟨.blockComment, 5, "/*".toList⟩] := by
    rw [diagnose_of_resolve hchoice] at hfound
    cases hfound
    exact hunclosed
  exact ⟨hchoice, found, hfound, hopen, (hexplains _).1.mp hopen⟩

end SqlScript
