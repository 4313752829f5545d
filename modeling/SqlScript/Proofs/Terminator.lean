import SqlScript.Script
import SqlScript.Proofs.Rejoining

/-! Statements that are given their separator back.

The separator ends the statement again, unless the statement ends in a line comment: the
line feed behind the comment was trimmed, and the comment takes the separator along.
`queries_terminated_iff` says that this is the only exception in a script that leaves nothing
open. -/
namespace SqlScript

variable {rules : Rules} {s : Text}

theorem trim_append_separator (hs : s.trim = s) : Text.trim (s ++ [';']) = s ++ [';'] := by
  have hsuffix : s.trimStart <:+ s := List.dropWhile_suffix isBlank
  have hprefix : s <+: s.trimStart := by
    have hend := Text.trimEnd_prefix s.trimStart
    rwa [← Text.trim, hs] at hend
  rw [Text.trim_append (by decide), hsuffix.eq_of_length_le hprefix.length_le]
  rfl

/-- Behind a statement that ends at top level a separator ends the statement. -/
theorem statements_append_separator (h : statements rules s = [s]) (hs : EndsAtTopLevel rules s) :
    statements rules (s ++ [';']) = [s] ∧ s.length ∈ separators rules (s ++ [';']) := by
  refine ⟨?_, mem_separators.mpr ⟨tokens rules s, [], ?_, ?_⟩⟩
  · rw [statements_concat hs, h, statements_nil]
    rfl
  · rw [tokens_concat hs, tokens_nil]
  · rw [tokens_text]

/-- Behind any other statement the separator goes with the region that the statement ends in. -/
theorem statements_append_separator_of_region (h : statements rules s = [s])
    (hs : ¬ EndsAtTopLevel rules s) :
    statements rules (s ++ [';']) = [s ++ [';']] ∧ s.length ∉ separators rules (s ++ [';']) := by
  obtain ⟨ts, r, -, htokens, hextend⟩ := exists_region_of_not_endsAtTopLevel hs
  have hwhole := hextend [';'] (by decide) (by simp [ClosesNothing, closingChars])
  have hcut : .separator ∉ tokens rules (s ++ [';']) := by
    have hself := separators_eq_nil_iff.mp (separators_of_statements h)
    rw [htokens] at hself
    rw [hwhole]
    simpa using hself
  refine ⟨?_, fun hmem => ?_⟩
  · have hmem : s ∈ statements rules s := by rw [h]; exact List.mem_singleton_self s
    have htrim := trim_append_separator (trim_of_mem_statements rules s hmem).2
    rw [statements_of_not_mem hcut, statement?, htrim, if_neg (by simp)]
    rfl
  · obtain ⟨a, b, hab, -⟩ := mem_separators.mp hmem
    exact hcut (hab ▸ List.mem_append_right a List.mem_cons_self)

/-! ### Batches -/

variable {choice : Dialect.Designator} {d : Dialect} {script : Text}

theorem queries_of_resolve {α : Type} (h : choice.resolve = .ok d) (script : Text) :
    (queries script choice true).outcome =
      .ok ((statements d.rules script).map fun s => (⟨s ++ [';'], []⟩ : Query α)) := by
  rw [queries, split_of_resolve h]
  rfl

/-- **Statements given their separator back are terminated unless they end in a line
comment**, which takes the separator along. -/
theorem queries_terminated_iff (α : Type) (h : choice.resolve = .ok d)
    (hcheck : (check script choice).outcome = .ok ()) :
    ∃ found, (split script choice).outcome = .ok found ∧
      (queries script choice true).outcome = .ok (found.map fun s => (⟨s ++ [';'], []⟩ : Query α)) ∧
      ∀ s ∈ found,
        ((split (s ++ [';']) choice).outcome = .ok [s] ↔ ¬ EndsInLineComment d.rules s) ∧
        (s.length ∈ separators d.rules (s ++ [';']) ↔ ¬ EndsInLineComment d.rules s) ∧
        (EndsInLineComment d.rules s → (split (s ++ [';']) choice).outcome = .ok [s ++ [';']]) := by
  refine ⟨statements d.rules script, by rw [split_of_resolve h], queries_of_resolve h script, ?_⟩
  intro s hs
  have hself : statements d.rules s = [s] := (statements_of_mem d.rules script).1 s hs
  have hclosed := unclosed_of_mem_statements ((check_eq_ok_iff h).mp hcheck) s hs
  have htop : EndsAtTopLevel d.rules s ↔ ¬ EndsInLineComment d.rules s := by
    rw [endsAtTopLevel_iff, and_iff_right hclosed]
  rw [split_of_resolve h]
  by_cases hline : EndsInLineComment d.rules s
  · obtain ⟨hkept, hsep⟩ := statements_append_separator_of_region hself fun hs => htop.mp hs hline
    rw [hkept]
    refine ⟨iff_of_false ?_ (not_not_intro hline), iff_of_false hsep (not_not_intro hline), fun _ => rfl⟩
    simp
  · obtain ⟨hended, hsep⟩ := statements_append_separator hself (htop.mpr hline)
    rw [hended]
    exact ⟨iff_of_true rfl hline, iff_of_true hsep hline, fun hcomment => absurd hcomment hline⟩

/-- A line comment in a statement that goes on behind it. -/
theorem queries_terminated_behind_comment :
    let choice := Dialect.Designator.member .postgres
    let script := "a -- b;\nc;".toList
    choice.resolve = .ok .postgres ∧ (check script choice).outcome = .ok () ∧
      (queries script choice true).outcome = .ok [(⟨"a -- b;\nc;".toList, []⟩ : Query Text)] ∧
      (split "a -- b;\nc;".toList choice).outcome = .ok ["a -- b;\nc".toList] := by
  intro choice script
  have hchoice : choice.resolve = .ok .postgres := rfl
  have hunclosed : unclosed Dialect.postgres.rules script = [] := by decide +kernel
  have hstatements : statements Dialect.postgres.rules script = ["a -- b;\nc".toList] := by
    decide +kernel
  have hcheck : (check script choice).outcome = .ok () := (check_eq_ok_iff hchoice).mpr hunclosed
  obtain ⟨found, hfound, hqueries, hended⟩ := queries_terminated_iff Text hchoice hcheck
  rw [split_of_resolve hchoice, hstatements] at hfound
  cases hfound
  refine ⟨hchoice, hcheck, hqueries, (hended _ List.mem_cons_self).1.mpr ?_⟩
  have hlast : (tokens Dialect.postgres.rules "a -- b;\nc".toList).getLast? = some (.plain 'c') := by
    decide +kernel
  intro hcomment
  obtain ⟨token, htoken, hline⟩ := hcomment
  rw [hlast] at htoken
  cases htoken
  exact hline

/-- The separator of a balanced script that is given back to a statement and does not
terminate it: trimming takes off the line feed that ended the comment. -/
theorem separator_in_line_comment :
    let choice := Dialect.Designator.member .postgres
    let script := "CREATE TABLE t (id int) -- users\n;".toList
    let s := "CREATE TABLE t (id int) -- users".toList
    (check script choice).outcome = .ok () ∧ (split script choice).outcome = .ok [s] ∧
      (queries script choice true).outcome = .ok [(⟨s ++ [';'], []⟩ : Query Text)] ∧
      (split (s ++ [';']) choice).outcome = .ok [s ++ [';']] ∧
      (split (s ++ [';']) choice).outcome ≠ .ok [s] := by
  intro choice script s
  have hchoice : choice.resolve = .ok .postgres := rfl
  have hunclosed : unclosed Dialect.postgres.rules script = [] := by decide +kernel
  have hstatements : statements Dialect.postgres.rules script = [s] := by decide +kernel
  have hkept : statements Dialect.postgres.rules (s ++ [';']) = [s ++ [';']] := by decide +kernel
  rw [queries_of_resolve hchoice, split_of_resolve hchoice, split_of_resolve hchoice, hstatements, hkept]
  exact ⟨(check_eq_ok_iff hchoice).mpr hunclosed, rfl, rfl, rfl, by simp⟩

end SqlScript
