import SqlScript.Proofs.Padding
import SqlScript.Proofs.Cookbook.Migration

/-! The tables of the recipes, line by line.

A report cut at its line feeds gives back its template lines with one line for each row
(`Report.tabulates`), as long as no row holds a line feed itself. The rows of the four recipes
never do, each for a reason of its own: a last line holds no break, what is set on one line has
spaces for them, an opening sequence has no blanks in it, and words are put together with
single spaces. -/
namespace SqlScript.Cookbook

open Dialect (Designator)

/-- A text cut at its line feeds gives the lines of a template, one line for each item, in order,
which shows what `shown` says, and last a line of four spaces. -/
structure Tabulates {α : Type} (text : Text) (template : List Text) (items : List α)
    (shown : Nat → α → Text) : Prop where
  above : (text.splitOn '\n').take template.length = template
  length_eq : (text.splitOn '\n').length = template.length + max 1 items.length + 1
  /-- Only the first row is indented. -/
  row_at : ∀ i x, items[i]? = some x →
    (text.splitOn '\n')[template.length + i]? =
      some ((if i = 0 then "    ".toList else []) ++ shown i x)
  /-- Without items there is one line of the indentation alone. -/
  none_at : items = [] → (text.splitOn '\n')[template.length]? = some "    ".toList
  below : (text.splitOn '\n').getLast? = some "    ".toList

/-! ### The lines above the rows -/

/-- Above the rows on a migration with this many statements. -/
def migrationTemplate (count : Nat) : List Text := [
  [],
  "    ## Recipe 1: Split a PostgreSQL Migration".toList,
  [],
  "    `split` breaks the script at top-level semicolons only.  The".toList,
  "    semicolons inside the `$body$` function body and inside the nested".toList,
  "    block comment stay part of their statement.".toList,
  [],
  "    **".toList ++ Text.ofNat count ++ " statements found:**".toList,
  [],
  "    | # | Inner `;` | Last line |".toList,
  "    |---|-----------|-----------|".toList]

/-- Above the rows on the dialects. -/
def dialectsTemplate : List Text := [
  [],
  "    ## Recipe 2: One Script, Four Dialects".toList,
  [],
  "    Backticks, brackets, `#` comments and backslash escapes only protect".toList,
  "    semicolons in the dialects that actually use them.  `bind_dialect`".toList,
  "    returns a splitter with the dialect fixed.".toList,
  [],
  "    | Dialect | Statements | Result |".toList,
  "    |---------|------------|--------|".toList]

/-- Above the rows on editor buffers. -/
def buffersTemplate : List Text := [
  [],
  "    ## Recipe 3: Warn About Half-Typed Editor Content".toList,
  [],
  "    `split` never fails, so an unterminated quote silently swallows the".toList,
  "    statements after it.  `split_with_diagnostics` returns the same".toList,
  "    statements plus the region that was left open, so an editor can".toList,
  "    warn before running the buffer.".toList,
  [],
  "    | Buffer | Statements | Diagnostic |".toList,
  "    |--------|------------|------------|".toList]

/-- Above the rows on a batch of queries. -/
def batchTemplate : List Text := [
  [],
  "    ## Recipe 4: Transaction Batch From Generated DDL".toList,
  [],
  "    `to_queries` pairs each statement with an empty parameter tuple,".toList,
  "    ready for a runner that executes `(sql, params)` pairs in one".toList,
  "    transaction.  Bracketed identifiers containing `;` survive intact.".toList,
  [],
  "    | # | SQL | Params |".toList,
  "    |---|-----|--------|".toList]

/-! ### Texts on one line -/

def OneLine (t : Text) : Prop := '\n' ∉ t

instance (t : Text) : Decidable (OneLine t) := inferInstanceAs (Decidable ('\n' ∉ t))

variable {a b t : Text}

/-- The line feed is looked for among the characters that a fixed text is written with. -/
theorem oneLine_toList (h : OneLine t) : OneLine (String.ofList t).toList := by
  rwa [String.toList_ofList]

theorem OneLine.append (ha : OneLine a) (hb : OneLine b) : OneLine (a ++ b) :=
  mt List.mem_append.mp (not_or.mpr ⟨ha, hb⟩)

theorem OneLine.take (h : OneLine t) (n : Nat) : OneLine (t.take n) :=
  fun hmem => h (List.mem_of_mem_take hmem)

theorem oneLine_of_not_isBlank (h : ∀ c ∈ t, isBlank c = false) : OneLine t := by
  intro hmem
  have hblank : isBlank '\n' = true := by decide
  rw [h '\n' hmem] at hblank
  cases hblank

theorem oneLine_join {sep : Text} (hsep : OneLine sep) {parts : List Text}
    (hparts : ∀ part ∈ parts, OneLine part) : OneLine (Text.join sep parts) := by
  induction parts with
  | nil => simp [OneLine]
  | cons first parts ih =>
    obtain ⟨hfirst, hparts⟩ := List.forall_mem_cons.mp hparts
    cases parts with
    | nil => rwa [Text.join_singleton]
    | cons second parts =>
      rw [Text.join_cons_cons]
      exact hfirst.append (hsep.append (ih hparts))

theorem oneLine_ofNat (n : Nat) : OneLine (Text.ofNat n) := by
  intro hmem
  have hdigit : '\n'.isDigit = true :=
    Nat.isDigit_of_mem_toDigits (by decide) (Nat.le_refl 10) hmem
  exact absurd hdigit (by decide)

theorem oneLine_codeSpan (h : OneLine t) : OneLine (codeSpan t) := by
  simpa [OneLine, codeSpan] using h

theorem oneLine_row {cells : List Text} (h : ∀ cell ∈ cells, OneLine cell) :
    OneLine (row cells) := by
  have hopening : OneLine "| ".toList := oneLine_toList (by decide)
  have hbar : OneLine " | ".toList := oneLine_toList (by decide)
  have hclosing : OneLine " |".toList := oneLine_toList (by decide)
  exact (hopening.append (oneLine_join hbar h)).append hclosing

/-- A row of three cells, written out. -/
theorem row_of_three (a b t : Text) :
    row [a, b, t] = "| ".toList ++ a ++ " | ".toList ++ b ++ " | ".toList ++ t ++ " |".toList := by
  simp [row]

theorem oneLine_row_of_three (ha : OneLine a) (hb : OneLine b) (ht : OneLine t) :
    OneLine (row [a, b, t]) := by
  apply oneLine_row
  simp only [List.forall_mem_cons]
  exact ⟨ha, hb, ht, List.forall_mem_nil _⟩

theorem oneLine_margin : OneLine margin := by decide

/-! ### Templates -/

/-- A line of a heading, and how it is shown. -/
structure Above (line shown : Text) : Prop where
  eq_shown : indent line = shown
  oneLine : OneLine shown

theorem above_nil : Above [] [] := ⟨rfl, List.not_mem_nil⟩

theorem Above.of_ne_nil (hne : t ≠ []) (h : OneLine t) : Above t (margin ++ t) :=
  ⟨if_neg hne, oneLine_margin.append h⟩

/-- Fixed texts are compared by the characters that they are written with. -/
theorem above_toList (hne : t ≠ []) (h : OneLine t) :
    Above (String.ofList t).toList (String.ofList (' ' :: ' ' :: ' ' :: ' ' :: t)).toList := by
  rw [String.toList_ofList, String.toList_ofList]
  exact .of_ne_nil hne h

/-- The line that says how many statements were found. -/
theorem above_found (count : Nat) :
    Above ("**".toList ++ Text.ofNat count ++ " statements found:**".toList)
      ("    **".toList ++ Text.ofNat count ++ " statements found:**".toList) := by
  have hstars : OneLine "**".toList := oneLine_toList (by decide)
  have hfound : OneLine " statements found:**".toList := oneLine_toList (by decide)
  exact .of_ne_nil (by simp) ((hstars.append (oneLine_ofNat count)).append hfound)

theorem lines_of_above {heading template : List Text} (h : List.Forall₂ Above heading template) :
    heading.map indent = template ∧ ∀ line ∈ template, OneLine line := by
  induction h with
  | nil => exact ⟨rfl, List.forall_mem_nil _⟩
  | cons hline _ ih =>
    obtain ⟨hrest, hone⟩ := ih
    rw [List.map_cons, hline.eq_shown, hrest]
    exact ⟨rfl, List.forall_mem_cons.mpr ⟨hline.oneLine, hone⟩⟩

/-- The templates show the headings of the reports. -/
theorem headings_above (count : Nat) :
    List.Forall₂ Above ([] :: migrationHeading count) (migrationTemplate count) ∧
      List.Forall₂ Above ([] :: dialectsHeading) dialectsTemplate ∧
      List.Forall₂ Above ([] :: buffersHeading) buffersTemplate ∧
      List.Forall₂ Above ([] :: batchHeading) batchTemplate := by
  refine ⟨?_, ?_, ?_, ?_⟩ <;> repeat' apply List.Forall₂.cons
  all_goals
    first
    | exact above_toList (by decide) (by decide)
    | exact above_nil
    | exact above_found count
    | exact .nil

/-! ### Reports -/

theorem length_rowLines (rows : List Text) : (Report.rowLines rows).length = max 1 rows.length := by
  cases rows with
  | nil => rfl
  | cons first others =>
    rw [Report.rowLines, List.length_cons, List.length_cons]
    omega

theorem getElem?_rowLines {rows : List Text} {i : Nat} {line : Text} (h : rows[i]? = some line) :
    (Report.rowLines rows)[i]? = some ((if i = 0 then margin else []) ++ line) := by
  cases rows with
  | nil => cases h
  | cons first others =>
    cases i with
    | zero =>
      cases h
      rfl
    | succ i => exact h

theorem oneLine_of_mem_rowLines {rows : List Text} (h : ∀ line ∈ rows, OneLine line) :
    ∀ line ∈ Report.rowLines rows, OneLine line := by
  cases rows with
  | nil => simpa [Report.rowLines] using oneLine_margin
  | cons first others =>
    obtain ⟨hfirst, hothers⟩ := List.forall_mem_cons.mp h
    exact List.forall_mem_cons.mpr ⟨oneLine_margin.append hfirst, hothers⟩

/-- **A report has one line for each row**, if no line of it takes up more by itself. -/
theorem Report.tabulates {α : Type} {heading template : List Text} {items : List α}
    {shown : Nat → α → Text} (habove : List.Forall₂ Above ([] :: heading) template)
    (hshown : ∀ i x, items[i]? = some x → OneLine (shown i x)) :
    Tabulates (Report.text ⟨heading, items.mapIdx shown⟩) template items shown := by
  have hrows : ∀ line ∈ items.mapIdx shown, OneLine line := by
    intro line hline
    obtain ⟨i, hi, rfl⟩ := List.mem_mapIdx.mp hline
    exact hshown i _ (List.getElem?_eq_getElem hi)
  obtain ⟨hheading, htemplate⟩ := lines_of_above habove
  have hlines : Report.lines ⟨heading, items.mapIdx shown⟩ =
      template ++ (Report.rowLines (items.mapIdx shown) ++ [margin]) := by
    rw [← hheading, ← List.append_assoc]
    rfl
  have hone : ∀ line ∈ Report.lines ⟨heading, items.mapIdx shown⟩, OneLine line := by
    rw [hlines]
    simp only [List.mem_append, List.mem_singleton]
    rintro line (hmem | hmem | rfl)
    · exact htemplate line hmem
    · exact oneLine_of_mem_rowLines hrows line hmem
    · exact oneLine_margin
  have hcut : (Report.text ⟨heading, items.mapIdx shown⟩).splitOn '\n' =
      template ++ (Report.rowLines (items.mapIdx shown) ++ [margin]) := by
    rw [← hlines]
    exact List.splitOn_intercalate '\n' hone (List.cons_ne_nil _ _)
  have hlength := length_rowLines (items.mapIdx shown)
  rw [List.length_mapIdx] at hlength
  -- Behind the template stand the lines of the rows.
  have hat {i : Nat} {line : Text}
      (h : (Report.rowLines (items.mapIdx shown))[i]? = some line) :
      (template ++ (Report.rowLines (items.mapIdx shown) ++ [margin]))[template.length + i]? =
        some line := by
    rw [List.getElem?_append_right (Nat.le_add_right _ _), Nat.add_sub_cancel_left,
      List.getElem?_append_left (List.getElem?_eq_some_iff.mp h).1, h]
  rw [show margin = "    ".toList from rfl] at *
  refine ⟨?_, ?_, fun i x hx => ?_, fun hnil => ?_, ?_⟩
  · rw [hcut, List.take_left]
  · rw [hcut, List.length_append, List.length_append, hlength, List.length_singleton]
    omega
  · rw [hcut]
    exact hat (getElem?_rowLines (by rw [List.getElem?_mapIdx, hx]; rfl))
  · subst hnil
    rw [hcut]
    exact hat (i := 0) rfl
  · rw [hcut, ← List.append_assoc, List.getLast?_append]
    rfl

/-! ### What the rows show -/

theorem EndsIn.oneLine {s last : Text} (h : EndsIn s last) : OneLine last :=
  fun hmem => h.unbroken '\n' hmem (by decide)

theorem oneLine_preview {line : Text} (h : OneLine line) : OneLine (preview line) := by
  refine (h.take 60).append ?_
  split
  · exact oneLine_toList (by decide)
  · exact List.not_mem_nil

theorem oneLine_name (d : Dialect) : OneLine d.name := by
  cases d <;> exact oneLine_toList (by decide)

theorem oneLine_title (kind : Kind) : OneLine kind.title := by
  cases kind <;> exact oneLine_toList (by decide)

theorem oneLine_spaced (t : Text) : OneLine (t.map fun c => if c = '\n' then ' ' else c) := by
  intro hmem
  obtain ⟨c, -, hc⟩ := List.mem_map.mp hmem
  split at hc
  · cases hc
  · next hne => exact hne hc

theorem not_isBlank_of_opens {rules : Rules} {kind : Kind} {opener : Text}
    (h : Opens rules kind opener) : ∀ c ∈ opener, isBlank c = false := by
  cases h with
  | @dollar name _ hname =>
    intro c hc
    simp only [List.mem_cons, List.mem_append, List.not_mem_nil, or_false] at hc
    rcases hc with rfl | hc | rfl
    · decide
    · exact not_isBlank_of_tagChar (hname c hc)
    · decide
  | single | double | backtick | bracket | hash | dashes | block => simp [isBlank]

theorem oneLine_status (rules : Rules) (script : Text) (found : List Text) :
    OneLine (status ⟨found, unclosed rules script⟩) := by
  have hone := length_unclosed_le_one rules script
  have hok : OneLine "ok".toList := oneLine_toList (by decide)
  have hopened : OneLine " opened with ".toList := oneLine_toList (by decide)
  have hoffset : OneLine " at offset ".toList := oneLine_toList (by decide)
  rw [status]
  cases hunclosed : unclosed rules script with
  | nil => exact hok
  | cons u others =>
    rw [hunclosed] at hone
    obtain rfl : others = [] :=
      List.length_eq_zero_iff.mp (Nat.le_zero.mp (Nat.le_of_succ_le_succ hone))
    have hopener := not_isBlank_of_opens (explains_of_unclosed hunclosed).opens
    have hspan := oneLine_codeSpan (oneLine_of_not_isBlank hopener)
    exact ((((oneLine_title u.kind).append hopened).append hspan).append hoffset).append
      (oneLine_ofNat u.start)

theorem oneLine_words (t : Text) : OneLine (Text.join [' '] t.words) :=
  oneLine_join (by decide) fun _ hword =>
    oneLine_of_not_isBlank (Text.not_isBlank_of_mem_words hword)

/-! ### The four tables -/

variable {choice : Designator} {d : Dialect}

theorem migration_tabulates (h : choice.resolve = .ok d) (script : Text) :
    ∃ found report, (split script choice).outcome = .ok found ∧
      migrationReport script choice = .ok report ∧
      Tabulates report.text (migrationTemplate found.length) found migrationRow := by
  refine ⟨_, _, congrArg Logged.outcome (split_of_resolve h script),
    migrationReport_of_resolve h script,
    Report.tabulates (headings_above _).1 fun i s hs => ?_⟩
  obtain ⟨hne, htrim⟩ := trim_of_mem_statements d.rules script (List.mem_of_getElem? hs)
  have hlast := oneLine_preview (endsIn_lastLine hne htrim).oneLine
  exact oneLine_row_of_three (oneLine_ofNat _) (oneLine_ofNat _) (oneLine_codeSpan hlast)

theorem dialects_tabulate (script : Text) :
    ∃ report, dialectsReport script = .ok report ∧
      Tabulates report.text dialectsTemplate [Dialect.postgres, .mysql, .mssql, .sqlite]
        fun _ e => dialectRow e (statements e.rules script) := by
  have hsplitter (e : Dialect) : Splitter.bind (.member e) = .ok ⟨e⟩ := rfl
  have hrun (e : Dialect) :
      ((Splitter.mk e).run script).outcome = .ok (statements e.rules script) :=
    congrArg Logged.outcome (split_of_resolve rfl script)
  have hreport : dialectsReport script =
      .ok ⟨dialectsHeading, [Dialect.postgres, .mysql, .mssql, .sqlite].mapIdx fun _ e =>
        dialectRow e (statements e.rules script)⟩ := by
    simp only [dialectsReport, Dialect.all, hsplitter, hrun]
    rfl
  refine ⟨_, hreport, Report.tabulates (headings_above 0).2.1 fun _ e _ => ?_⟩
  have hname := oneLine_codeSpan (oneLine_name e)
  exact oneLine_row_of_three hname (oneLine_ofNat _) (oneLine_spaced _)

theorem buffers_tabulate (h : choice.resolve = .ok d) (b₁ b₂ b₃ b₄ : Text) :
    ∃ report, buffersReport (editorBuffers b₁ b₂ b₃ b₄) choice = .ok report ∧
      Tabulates report.text buffersTemplate
        [("complete".toList, b₁), ("open string".toList, b₂), ("open comment".toList, b₃),
         ("open dollar quote".toList, b₄)]
        fun _ (label, b) => bufferRow label ⟨statements d.rules b, unclosed d.rules b⟩ := by
  have hreport : buffersReport (editorBuffers b₁ b₂ b₃ b₄) choice =
      .ok ⟨buffersHeading, (editorBuffers b₁ b₂ b₃ b₄).mapIdx fun _ buffer =>
        bufferRow buffer.1 ⟨statements d.rules buffer.2, unclosed d.rules buffer.2⟩⟩ := by
    simp only [buffersReport, editorBuffers, diagnose_of_resolve h]
    rfl
  have hlabels : ∀ buffer ∈ editorBuffers b₁ b₂ b₃ b₄, OneLine buffer.1 := by
    simp only [editorBuffers, List.forall_mem_cons]
    refine ⟨?_, ?_, ?_, ?_, List.forall_mem_nil _⟩ <;> exact oneLine_toList (by decide)
  refine ⟨_, hreport, Report.tabulates (headings_above 0).2.2.1 fun i buffer hbuffer => ?_⟩
  have hlabel := hlabels buffer (List.mem_of_getElem? hbuffer)
  exact oneLine_row_of_three hlabel (oneLine_ofNat _) (oneLine_status d.rules buffer.2 _)

theorem batch_tabulates (h : choice.resolve = .ok d) (script : Text) (terminate : Bool) :
    ∃ (found : List (Query Empty)) (report : Report),
      (queries script choice terminate).outcome = .ok found ∧
      batchReport script choice terminate = .ok report ∧
      Tabulates report.text batchTemplate found queryRow := by
  have hfound : (queries script choice terminate : Logged (List (Query Empty))).outcome =
      .ok ((statements d.rules script).map fun s =>
        ⟨if terminate then s ++ [';'] else s, []⟩) := by
    rw [queries, split_of_resolve h]
    rfl
  have hreport : batchReport script choice terminate =
      .ok ⟨batchHeading, ((statements d.rules script).map fun s =>
        (⟨if terminate then s ++ [';'] else s, []⟩ : Query Empty)).mapIdx queryRow⟩ := by
    rw [batchReport, hfound]
    rfl
  have hparams : OneLine (codeSpan "()".toList) := by decide
  refine ⟨_, _, hfound, hreport, Report.tabulates (headings_above 0).2.2.2 fun i q _ => ?_⟩
  have hsql := oneLine_codeSpan ((oneLine_words q.sql).take 70)
  exact oneLine_row_of_three (oneLine_ofNat _) hsql hparams

/-- **Every table of the recipes has one line for each row**, whatever the scripts hold: one
for each statement, dialect, buffer or query, in order, with its number or its count of
statements in it, and one of the indentation alone if there are none. The other lines are those
of the template. -/
theorem recipes_tabulate (h : choice.resolve = .ok d) (script : Text) :
    (∃ found report, (split script choice).outcome = .ok found ∧
      migrationReport script choice = .ok report ∧
      Tabulates report.text (migrationTemplate found.length) found fun i s =>
        "| ".toList ++ Text.ofNat (i + 1) ++ " | ".toList ++ Text.ofNat (s.count ';') ++
          " | ".toList ++ codeSpan (preview (lastLine s)) ++ " |".toList) ∧
    ((∀ e : Dialect, (split script (.member e)).outcome = .ok (statements e.rules script)) ∧
      ∃ report, dialectsReport script = .ok report ∧
      Tabulates report.text dialectsTemplate [Dialect.postgres, .mysql, .mssql, .sqlite] fun _ e =>
        "| ".toList ++ codeSpan e.name ++ " | ".toList ++
          Text.ofNat (statements e.rules script).length ++ " | ".toList ++
          (Text.join " / ".toList ((statements e.rules script).map codeSpan)).map
            (fun c => if c = '\n' then ' ' else c) ++ " |".toList) ∧
    (∀ b₁ b₂ b₃ b₄ : Text,
      (∀ b, (diagnose b choice).outcome = .ok ⟨statements d.rules b, unclosed d.rules b⟩) ∧
      ∃ report, buffersReport (editorBuffers b₁ b₂ b₃ b₄) choice = .ok report ∧
      Tabulates report.text buffersTemplate
        [("complete".toList, b₁), ("open string".toList, b₂), ("open comment".toList, b₃),
         ("open dollar quote".toList, b₄)] fun _ buffer =>
        "| ".toList ++ buffer.1 ++ " | ".toList ++
          Text.ofNat (statements d.rules buffer.2).length ++ " | ".toList ++
          status ⟨statements d.rules buffer.2, unclosed d.rules buffer.2⟩ ++ " |".toList) ∧
    ∀ terminate, ∃ (found : List (Query Empty)) (report : Report),
      (queries script choice terminate).outcome = .ok found ∧
      batchReport script choice terminate = .ok report ∧
      Tabulates report.text batchTemplate found fun i q =>
        "| ".toList ++ Text.ofNat (i + 1) ++ " | ".toList ++
          codeSpan ((Text.join [' '] q.sql.words).take 70) ++ " | ".toList ++
          codeSpan "()".toList ++ " |".toList := by
  simp only [← row_of_three]
  have hsplit (e : Dialect) :
      (split script (.member e)).outcome = .ok (statements e.rules script) :=
    congrArg Logged.outcome (split_of_resolve rfl script)
  have hdiagnose (b : Text) :
      (diagnose b choice).outcome = .ok ⟨statements d.rules b, unclosed d.rules b⟩ :=
    congrArg Logged.outcome (diagnose_of_resolve h b)
  exact ⟨migration_tabulates h script, ⟨hsplit, dialects_tabulate script⟩,
    fun b₁ b₂ b₃ b₄ => ⟨hdiagnose, buffers_tabulate h b₁ b₂ b₃ b₄⟩, batch_tabulates h script⟩

/-- Line feeds in a literal, in a comment and between statements, four buffers of which three are
half typed, and a script that holds no statement. -/
theorem recipes_tabulate_broken_lines :
    let choice : Designator := .datum (.text "sqlite3".toList)
    let script := "'a\nb' ;\n/*\n;*/ -- c\nd".toList
    choice.resolve = .ok .sqlite ∧
      (∃ report, migrationReport script choice = .ok report ∧
        (report.text.splitOn '\n').length = 14 ∧
        (report.text.splitOn '\n')[11]? = some "    | 1 | 0 | `b'` |".toList ∧
        (report.text.splitOn '\n')[12]? = some "| 2 | 1 | `d` |".toList) ∧
      (∃ report, dialectsReport "`a;\nb`;[c;\nd]".toList = .ok report ∧
        (report.text.splitOn '\n').length = 14 ∧
        (report.text.splitOn '\n')[9]? =
          some "    | `postgres` | 4 | ``a` / `b`` / `[c` / `d]` |".toList ∧
        (report.text.splitOn '\n')[10]? =
          some "| `mysql` | 3 | ``a; b`` / `[c` / `d]` |".toList ∧
        (report.text.splitOn '\n')[11]? =
          some "| `mssql` | 3 | ``a` / `b`` / `[c; d]` |".toList ∧
        (report.text.splitOn '\n')[12]? =
          some "| `sqlite` | 2 | ``a; b`` / `[c; d]` |".toList) ∧
      (∃ report, buffersReport
          (editorBuffers "\n;".toList "a;'\n;".toList "/*\n".toList "b;[\n".toList) choice =
            .ok report ∧
        (report.text.splitOn '\n').length = 15 ∧
        (report.text.splitOn '\n')[10]? = some "    | complete | 0 | ok |".toList ∧
        (report.text.splitOn '\n')[11]? =
          some "| open string | 2 | single-quoted string opened with `'` at offset 2 |".toList ∧
        (report.text.splitOn '\n')[12]? =
          some "| open comment | 1 | block comment opened with `/*` at offset 0 |".toList ∧
        (report.text.splitOn '\n')[13]? =
          some "| open dollar quote | 2 | bracket identifier opened with `[` at offset 2 |".toList) ∧
      (∃ report, batchReport script choice true = .ok report ∧
        (report.text.splitOn '\n').length = 12 ∧
        (report.text.splitOn '\n')[9]? = some "    | 1 | `'a b';` | `()` |".toList ∧
        (report.text.splitOn '\n')[10]? = some "| 2 | `/* ;*/ -- c d;` | `()` |".toList) ∧
      ∃ report, batchReport ";\n;".toList choice true = .ok report ∧
        (report.text.splitOn '\n').length = 11 ∧
        (report.text.splitOn '\n')[9]? = some "    ".toList := by
  intro choice script
  have hresolve : choice.resolve = .ok .sqlite := by decide
  obtain ⟨⟨found, migration, hsplit, hmigration, hrows⟩, -, hbuffers, hbatch⟩ :=
    recipes_tabulate hresolve script
  obtain ⟨-, ⟨-, dialects, hdialects, hlines⟩, -⟩ :=
    recipes_tabulate hresolve "`a;\nb`;[c;\nd]".toList
  obtain ⟨-, buffers, hfour, hstates⟩ :=
    hbuffers "\n;".toList "a;'\n;".toList "/*\n".toList "b;[\n".toList
  obtain ⟨batch, full, hbatched, hfull, hqueries⟩ := hbatch true
  obtain ⟨-, -, -, hblank⟩ := recipes_tabulate hresolve ";\n;".toList
  obtain ⟨nothing, empty, hunbatched, hempty, hnone⟩ := hblank true
  have hfound : found = ["'a\nb'".toList, "/*\n;*/ -- c\nd".toList] := by
    rw [split_of_resolve hresolve] at hsplit
    cases hsplit
    decide +kernel
  have hterminated : batch =
      [⟨"'a\nb';".toList, []⟩, ⟨"/*\n;*/ -- c\nd;".toList, []⟩] := by
    rw [queries, hsplit, hfound] at hbatched
    cases hbatched
    rfl
  have hnothing : nothing = [] := by
    rw [queries, split_of_resolve hresolve] at hunbatched
    cases hunbatched
    have hstatements : statements Dialect.sqlite.rules ";\n;".toList = [] := by decide +kernel
    rw [hstatements]
    rfl
  subst hfound hterminated hnothing
  refine ⟨hresolve, ⟨migration, hmigration, hrows.length_eq, ?_, ?_⟩,
    ⟨dialects, hdialects, hlines.length_eq, ?_, ?_, ?_, ?_⟩,
    ⟨buffers, hfour, hstates.length_eq, ?_, ?_, ?_, ?_⟩,
    ⟨full, hfull, hqueries.length_eq, ?_, ?_⟩, empty, hempty, hnone.length_eq, hnone.none_at rfl⟩
  · exact (hrows.row_at 0 _ rfl).trans (by decide)
  · exact (hrows.row_at 1 _ rfl).trans (by decide)
  · exact (hlines.row_at 0 _ rfl).trans (by decide +kernel)
  · exact (hlines.row_at 1 _ rfl).trans (by decide +kernel)
  · exact (hlines.row_at 2 _ rfl).trans (by decide +kernel)
  · exact (hlines.row_at 3 _ rfl).trans (by decide +kernel)
  · exact (hstates.row_at 0 _ rfl).trans (by decide +kernel)
  · exact (hstates.row_at 1 _ rfl).trans (by decide +kernel)
  · exact (hstates.row_at 2 _ rfl).trans (by decide +kernel)
  · exact (hstates.row_at 3 _ rfl).trans (by decide +kernel)
  · exact (hqueries.row_at 0 _ rfl).trans (by decide +kernel)
  · exact (hqueries.row_at 1 _ rfl).trans (by decide +kernel)

end SqlScript.Cookbook
