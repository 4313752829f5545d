import SqlScript.Script

/-! The cookbook: recipes that report on what splitting does to a script.

A report is fixed Markdown text that ends in a table with one row per item. The text starts
with a line break and is indented, its last line being the indentation alone. Of the rows only
the first is indented. A report without rows has one indented empty line in their place. -/
namespace SqlScript.Cookbook

open Dialect (Designator)

/-! ### Reports -/

/-- The text above the rows of the table, line by line, and the rows. -/
structure Report where
  heading : List Text
  rows : List Text

/-- The indentation of a report. Its template is written eight spaces deep, and four of them are
left once the indentation of the cell that it stands in is taken off. -/
def margin : Text := List.replicate 4 ' '

/-- A line of a report. Empty lines are not indented. -/
def indent (line : Text) : Text := if line = [] then [] else margin ++ line

/-- A row of a table. -/
def row (cells : List Text) : Text := "| ".toList ++ Text.join " | ".toList cells ++ " |".toList

/-- A text set as code. -/
def codeSpan (t : Text) : Text := '\x60' :: t ++ ['\x60']

namespace Report

/-- The lines that the rows take up. -/
def rowLines : List Text → List Text
  | [] => [margin]
  | first :: others => (margin ++ first) :: others

def lines (r : Report) : List Text := [] :: r.heading.map indent ++ rowLines r.rows ++ [margin]

def text (r : Report) : Text := Text.join ['\n'] r.lines

end Report

/-! ### The scripts that the recipes are shown on -/

private def sampleOf (lines : List String) : Text := Text.join ['\n'] (lines.map String.toList)

/-- A migration with a function body and a nested comment. -/
def migrationSample : Text := sampleOf [
  "",
  "CREATE TABLE audit_log (id bigserial PRIMARY KEY, payload jsonb NOT NULL);",
  "",
  "CREATE FUNCTION audit() RETURNS trigger AS $body$",
  "BEGIN",
  "    INSERT INTO audit_log (payload) VALUES (to_jsonb(NEW));",
  "    RETURN NEW;",
  "END;",
  "$body$ LANGUAGE plpgsql;",
  "",
  "/* Attach the trigger; /* nested */ comments are fine in PostgreSQL */",
  "CREATE TRIGGER t_audit AFTER INSERT ON orders FOR EACH ROW EXECUTE FUNCTION audit();",
  ""]

/-- A script that every dialect splits in its own way. -/
def sharedSample : Text := sampleOf [
  "SELECT `a;b`, [c;d] FROM t # note; here",
  "; SELECT 'it\\'s; ok'; SELECT 2"]

/-- Four editor buffers, as what they are called and what they hold. -/
def editorBuffers (complete openString openComment openDollarQuote : Text) : List (Text × Text) :=
  [("complete".toList, complete),
   ("open string".toList, openString),
   ("open comment".toList, openComment),
   ("open dollar quote".toList, openDollarQuote)]

/-- Editor buffers of which all but the first are half typed. -/
def buffersSample : List (Text × Text) :=
  editorBuffers
    "UPDATE accounts SET note = 'paid; thanks' WHERE id = 1; SELECT 1;".toList
    "UPDATE accounts SET note = 'paid; thanks WHERE id = 1; SELECT 1;".toList
    "SELECT 1; /* fix later; SELECT 2;".toList
    "DO $fn$ BEGIN PERFORM 1; END; SELECT 2;".toList

/-- Generated table definitions with semicolons in names. -/
def definitionsSample : Text := sampleOf [
  "CREATE TABLE [dbo].[customers] (",
  "  [id] int IDENTITY PRIMARY KEY,",
  "  [display;name] nvarchar(200) NOT NULL",
  ");",
  "",
  "CREATE INDEX [ix_customers_name] ON [dbo].[customers] ([display;name]);",
  ""]

/-! ### Splitting a migration -/

/-- The last line of a statement, trimmed. -/
def lastLine (statement : Text) : Text := (statement.lines.getLast?.getD []).trim

/-- The beginning of a line, with three points if it goes on. -/
def preview (line : Text) : Text := line.take 60 ++ if line.length > 60 then "...".toList else []

/-- The row of the statement with the given index: its number, its semicolons and its end. -/
def migrationRow (index : Nat) (statement : Text) : Text :=
  row [Text.ofNat (index + 1), Text.ofNat (statement.count ';'),
    codeSpan (preview (lastLine statement))]

/-- The text above the rows, which says how many statements were found. -/
def migrationHeading (count : Nat) : List Text := [
  "## Recipe 1: Split a PostgreSQL Migration".toList,
  [],
  "`split` breaks the script at top-level semicolons only.  The".toList,
  "semicolons inside the `$body$` function body and inside the nested".toList,
  "block comment stay part of their statement.".toList,
  [],
  "**".toList ++ Text.ofNat count ++ " statements found:**".toList,
  [],
  "| # | Inner `;` | Last line |".toList,
  "|---|-----------|-----------|".toList]

def migrationReport (script : Text) (choice : Designator) : Except Failure Report :=
  (split script choice).outcome.map fun found =>
    { heading := migrationHeading found.length
      rows := found.mapIdx migrationRow }

/-! ### One script in all dialects -/

/-- The row of a dialect: how many statements it finds, and which. They are shown on one
line. -/
def dialectRow (d : Dialect) (found : List Text) : Text :=
  let shown := Text.join " / ".toList (found.map codeSpan)
  row [codeSpan d.name, Text.ofNat found.length, shown.map fun c => if c = '\n' then ' ' else c]

def dialectsHeading : List Text := [
  "## Recipe 2: One Script, Four Dialects".toList,
  [],
  "Backticks, brackets, `#` comments and backslash escapes only protect".toList,
  "semicolons in the dialects that actually use them.  `bind_dialect`".toList,
  "returns a splitter with the dialect fixed.".toList,
  [],
  "| Dialect | Statements | Result |".toList,
  "|---------|------------|--------|".toList]

def dialectsReport (script : Text) : Except Failure Report := do
  let rows ← Dialect.all.mapM fun d => do
    let splitter ← Splitter.bind (.member d)
    return dialectRow d (← (splitter.run script).outcome)
  return { heading := dialectsHeading, rows }

/-! ### Half-typed editor content -/

/-- What is said of a region left open, if any. -/
def status (d : Diagnosis) : Text :=
  match d.unclosed with
  | [] => "ok".toList
  | u :: _ =>
    u.kind.title ++ " opened with ".toList ++ codeSpan u.opener ++ " at offset ".toList ++
      Text.ofNat u.start

/-- The row of an editor buffer: its label, how many statements it holds, and whether
something is left open. -/
def bufferRow (label : Text) (d : Diagnosis) : Text :=
  row [label, Text.ofNat d.statements.length, status d]

def buffersHeading : List Text := [
  "## Recipe 3: Warn About Half-Typed Editor Content".toList,
  [],
  "`split` never fails, so an unterminated quote silently swallows the".toList,
  "statements after it.  `split_with_diagnostics` returns the same".toList,
  "statements plus the region that was left open, so an editor can".toList,
  "warn before running the buffer.".toList,
  [],
  "| Buffer | Statements | Diagnostic |".toList,
  "|--------|------------|------------|".toList]

def buffersReport (buffers : List (Text × Text)) (choice : Designator) :
    Except Failure Report := do
  let rows ← buffers.mapM fun (label, content) => do
    return bufferRow label (← (diagnose content choice).outcome)
  return { heading := buffersHeading, rows }

/-! ### A transaction batch -/

/-- The row of the query with the given index: its number, the beginning of its text with
every run of blanks made one space, and its parameters, of which there are none. -/
def queryRow (index : Nat) (q : Query Empty) : Text :=
  row [Text.ofNat (index + 1), codeSpan ((Text.join [' '] q.sql.words).take 70),
    codeSpan "()".toList]

def batchHeading : List Text := [
  "## Recipe 4: Transaction Batch From Generated DDL".toList,
  [],
  "`to_queries` pairs each statement with an empty parameter tuple,".toList,
  "ready for a runner that executes `(sql, params)` pairs in one".toList,
  "transaction.  Bracketed identifiers containing `;` survive intact.".toList,
  [],
  "| # | SQL | Params |".toList,
  "|---|-----|--------|".toList]

def batchReport (script : Text) (choice : Designator) (terminate : Bool) :
    Except Failure Report :=
  (queries script choice terminate).outcome.map fun found =>
    { heading := batchHeading
      rows := found.mapIdx queryRow }

/-! ### The cells of the cookbook -/

/-- The text the cookbook opens with. -/
def introduction : Text := Text.join ['\n'] <| List.map String.toList [
  "",
  "# Migration Splitting Recipebook",
  "",
  "Interactive recipes demonstrating how to split multi-statement SQL",
  "scripts for PostgreSQL, MySQL, SQL Server and SQLite using **stmtsplit**.",
  "",
  "Each recipe is self-contained: it defines a SQL input, runs processing",
  "code, and displays the results.",
  "",
  "**How to use this notebook:**",
  "",
  "- `marimo run recipes/migration_splitting.py`: read-only app mode",
  "- `marimo edit recipes/migration_splitting.py`: interactive editing mode",
  ""]

/-- What the cookbook brings in, by name. -/
def importedNames : List Text :=
  ["Dialect", "bind_dialect", "mo", "split", "split_with_diagnostics", "to_queries"].map
    String.toList

/-- What the library offers, by name. -/
def publicNames : List Text :=
  ["DIALECT_CONFIGS", "Dialect", "LexicalConfig", "Query", "RegionKind", "SplitResult",
   "StatementSplitError", "UnknownDialectError", "UnterminatedRegion", "UnterminatedRegionError",
   "bind_dialect", "check_balanced", "iter_statements", "resolve_config", "split",
   "split_with_diagnostics", "to_queries"].map String.toList

/-- The texts that the cells show, each recipe on a script of its own. The second cell brings
names in and shows nothing. -/
def cells : List (Except Failure (Option Text)) :=
  let shown (report : Except Failure Report) : Except Failure (Option Text) :=
    report.map fun r => some r.text
  [.ok (some introduction),
   .ok none,
   shown (migrationReport migrationSample (.member .postgres)),
   shown (dialectsReport sharedSample),
   shown (buffersReport buffersSample (.member .postgres)),
   shown (batchReport definitionsSample (.member .mssql) true)]

end SqlScript.Cookbook
