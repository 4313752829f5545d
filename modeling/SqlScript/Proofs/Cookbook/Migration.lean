import SqlScript.Cookbook
import SqlScript.Proofs.Diagnosis
import SqlScript.Proofs.Rejoining
import SqlScript.Proofs.Text.Lines

/-! The rows on the statements of a migration.

A statement is trimmed and not empty, so it ends in its last line (`endsIn_lastLine`), and all
of its semicolons stand in regions (`count_eq_innerSemicolons`). `migration_rows` says that
this is what the rows show. -/
namespace SqlScript.Cookbook

open Dialect (Designator)

/-- The end of a statement: its last line, trimmed, of which something is left. -/
structure EndsIn (s last : Text) : Prop where
  /-- There is one way to write a text in lines. -/
  lined : ∀ ls, Text.Lined s ls ↔ ls = s.lines
  is_last : ∃ line, s.lines.getLast? = some line ∧ line.trim = last
  ne_nil : last ≠ []
  unbroken : ∀ c ∈ last, c ∉ lineBreaks
  suffix : last <:+ s

/-- The offsets of the semicolons that stand in the regions of a script. -/
def innerSemicolons (rules : Rules) (script : Text) : List Nat :=
  (List.range script.length).filter fun p => script[p]? = some ';' ∧ ¬ Outside rules script p

/-! ### One row -/

theorem endsIn_lastLine {s : Text} (hne : s ≠ []) (h : s.trim = s) : EndsIn s (lastLine s) := by
  obtain ⟨line, hlast, hline, hunbroken, hsuffix⟩ := Text.exists_last_line hne h
  have heq : lastLine s = line.trim := by
    rw [lastLine, hlast]
    rfl
  rw [heq]
  refine ⟨fun _ => Text.lined_iff, ⟨line, hlast, rfl⟩, hline, fun c hc hbreak => ?_, hsuffix⟩
  have hnone := hunbroken c hc
  rw [isLineBreak_iff.mpr hbreak] at hnone
  cases hnone

theorem preview_of_le {line : Text} (h : line.length ≤ 60) : preview line = line := by
  rw [preview, if_neg (Nat.not_lt.mpr h), List.append_nil, List.take_of_length_le h]

theorem preview_of_lt {line : Text} (h : 60 < line.length) :
    preview line = line.take 60 ++ "...".toList := by
  rw [preview, if_pos h]

/-- To count a character is to count the places where it stands. -/
theorem count_eq_length_filter (c : Char) (t : Text) :
    t.count c = ((List.range t.length).filter fun p => t[p]? = some c).length := by
  induction t with
  | nil => rfl
  | cons x t ih =>
    have hrest : ((List.range t.length).map Nat.succ).filter (fun p => (x :: t)[p]? = some c) =
        ((List.range t.length).filter fun p => t[p]? = some c).map Nat.succ := by
      rw [List.filter_map]
      rfl
    rw [List.length_cons, List.range_succ_eq_map, List.filter_cons, hrest, List.count_cons, ih]
    by_cases hx : x = c <;> simp [hx]

/-- A statement that is not cut holds no semicolons but inner ones. -/
theorem count_eq_innerSemicolons {rules : Rules} {s : Text} (h : statements rules s = [s]) :
    s.count ';' = (innerSemicolons rules s).length := by
  rw [count_eq_length_filter, innerSemicolons]
  congr 1
  refine List.filter_congr fun p _ => ?_
  rw [decide_eq_decide]
  exact ⟨fun hp => ⟨hp, not_outside_of_statements h hp⟩, And.left⟩

/-! ### All rows -/

variable {choice : Designator} {d : Dialect}

theorem migrationReport_of_resolve (h : choice.resolve = .ok d) (script : Text) :
    migrationReport script choice =
      .ok ⟨migrationHeading (statements d.rules script).length,
        (statements d.rules script).mapIdx migrationRow⟩ := by
  rw [migrationReport, split_of_resolve h]
  rfl

/-- **The rows on a migration show the real end of each statement**, on one line and cut
behind sixty characters, and count the semicolons in its regions. There are no others in it. -/
theorem migration_rows (h : choice.resolve = .ok d) (script : Text) :
    ∃ found report, (split script choice).outcome = .ok found ∧
      migrationReport script choice = .ok report ∧ report.rows.length = found.length ∧
      ∀ i s, found[i]? = some s →
        s.lines ≠ [] ∧ separators d.rules s = [] ∧
        ∃ last shown, EndsIn s last ∧ (last.length ≤ 60 → shown = last) ∧
          (60 < last.length → shown = last.take 60 ++ "...".toList) ∧
          report.rows[i]? = some (row [Text.ofNat (i + 1),
            Text.ofNat (innerSemicolons d.rules s).length, codeSpan shown]) := by
  have hsplit := congrArg Logged.outcome (split_of_resolve h script)
  refine ⟨_, _, hsplit, migrationReport_of_resolve h script, List.length_mapIdx,
    fun i s hs => ?_⟩
  have hmem : s ∈ statements d.rules script := List.mem_of_getElem? hs
  have hself := (statements_of_mem d.rules script).1 s hmem
  obtain ⟨hne, htrim⟩ := trim_of_mem_statements d.rules script hmem
  have hends := endsIn_lastLine hne htrim
  refine ⟨?_, separators_of_statements hself, lastLine s, preview (lastLine s), hends,
    preview_of_le, preview_of_lt, ?_⟩
  · intro hnil
    obtain ⟨line, hline, -⟩ := hends.is_last
    rw [hnil] at hline
    cases hline
  · rw [List.getElem?_mapIdx, hs, ← count_eq_innerSemicolons hself]
    rfl

/-- A statement whose last line begins inside a literal. -/
theorem migration_rows_literal :
    let choice : Designator := .datum (.text " PG".toList)
    let script := "a ;'b;\r\n;'  c -- d;".toList
    let s := "'b;\r\n;'  c -- d;".toList
    let last := ";'  c -- d;".toList
    choice.resolve = .ok .postgres ∧ last.length ≤ 60 ∧
      ∃ found report, (split script choice).outcome = .ok found ∧ found[1]? = some s ∧
        EndsIn s last ∧ migrationReport script choice = .ok report ∧
        report.rows[1]? = some "| 2 | 3 | `;'  c -- d;` |".toList := by
  intro choice script s last
  have hresolve : choice.resolve = .ok .postgres := by decide
  have hshort : last.length ≤ 60 := by decide
  obtain ⟨found, report, hsplit, hreport, -, hrows⟩ := migration_rows hresolve script
  have hfound : found[1]? = some s := by
    rw [split_of_resolve hresolve] at hsplit
    cases hsplit
    decide +kernel
  obtain ⟨-, -, last', shown, hends, hshown, -, hrow⟩ := hrows 1 s hfound
  have hlast : last' = last := by
    obtain ⟨line, hline, rfl⟩ := hends.is_last
    have hlines : (Text.lines s).getLast? = some last := by decide
    rw [hlines] at hline
    cases hline
    decide
  subst hlast
  have hinner : (innerSemicolons Dialect.postgres.rules s).length = 3 := by decide +kernel
  rw [hshown hshort, hinner] at hrow
  exact ⟨hresolve, hshort, found, report, hsplit, hfound, hends, hreport, hrow⟩

end SqlScript.Cookbook
