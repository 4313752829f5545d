import SqlScript.Reader
import SqlScript.Dialect

/-! Working on whole scripts: splitting them, finding out what they leave open, insisting that
they leave nothing open, and making batches of queries of them. Each of these takes the caller's
choice of a dialect and resolves it before it looks at the script; then it takes the statements
from a reader. A session has several readers side by side. -/
namespace SqlScript

open Dialect (Designator)

/-- An outcome, with the open regions noted on the way to it. A note is a message at the level
of debugging; it becomes a record of the log only where that level is enabled. -/
structure Logged (α : Type) where
  outcome : Except Failure α
  notices : List Unclosed

/-- The failure of a script that must not leave this region open. -/
def Unclosed.failure (u : Unclosed) : Failure :=
  .unterminated
    ("unterminated ".toList ++ u.kind.title ++ " starting at offset ".toList ++ Text.ofNat u.start)
    u.kind u.start u.opener

/-! ### By a chosen dialect -/

/-- The lexical rules of the chosen dialect. -/
def rulesOf (choice : Designator) : Except Failure Rules := choice.resolve.map Dialect.rules

/-- A reader of the statements of a script. It has read nothing yet. -/
def iterate (script : Text) (choice : Designator) : Except Failure Reader :=
  (rulesOf choice).map (Reader.start · script)

/-- The statements of a script. -/
def split (script : Text) (choice : Designator) : Logged (List Text) :=
  match iterate script choice with
  | .error failure => ⟨.error failure, []⟩
  | .ok reader =>
    let all := reader.drain
    ⟨.ok all.values, all.notices⟩

/-- The statements of a script, and a report of the regions that were come upon open. -/
def diagnose (script : Text) (choice : Designator) : Logged Diagnosis :=
  match iterate script choice with
  | .error failure => ⟨.error failure, []⟩
  | .ok reader =>
    let all := reader.drain
    ⟨.ok ⟨all.values, all.notices⟩, all.notices⟩

/-- Fails for a script that leaves a region open. -/
def check (script : Text) (choice : Designator) : Logged Unit :=
  let d := diagnose script choice
  ⟨d.outcome.bind fun diagnosis =>
    match diagnosis.unclosed with
    | [] => .ok ()
    | u :: _ => .error u.failure, d.notices⟩

/-! ### Splitters -/

/-- Splitting with the dialect fixed. -/
structure Splitter where
  dialect : Dialect

namespace Splitter

/-- A splitter for the chosen dialect. -/
def bind (choice : Designator) : Except Failure Splitter := choice.resolve.map Splitter.mk

/-- The name a splitter goes by. -/
def name (s : Splitter) : Text := "split_".toList ++ s.dialect.name

def run (s : Splitter) (script : Text) : Logged (List Text) := split script (.member s.dialect)

end Splitter

/-! ### Queries

Scripts as batches of queries, for a runner that takes each statement together with its
parameters. -/

/-- A statement and its parameters. -/
structure Query (α : Type) where
  sql : Text
  params : List α := []

/-- One query without parameters for each statement of a script. If `terminate` is set,
each statement is given its separator back. -/
def queries {α : Type} (script : Text) (choice : Designator) (terminate : Bool) :
    Logged (List (Query α)) :=
  let s := split script choice
  ⟨s.outcome.map fun found =>
    found.map fun sql => { sql := if terminate then sql ++ [';'] else sql }, s.notices⟩

/-! ### Sessions -/

/-- The readers of a session, in the order in which they were started. -/
structure Session where
  readers : List Reader := []

namespace Session

/-- What can be asked of a session. Readers are named by their index. -/
inductive Command
  | start (script : Text) (choice : Designator)
  | next (index : Nat)
  | drain (index : Nat)
  | close (index : Nat)

/-- What a session answers. -/
inductive Reply
  | started (index : Nat)
  | failed (failure : Failure)
  | value (statement : Text)
  | stopped
  | values (statements : List Text)
  | closed (index : Nat)

/-- The reader with an index. One that was never started has nothing to read. -/
def reader (s : Session) (index : Nat) : Reader :=
  s.readers.getD index (Reader.start Dialect.postgres.rules [])

/-- Puts a reader back in its place. -/
def put (s : Session) (index : Nat) (r : Reader) : Session := ⟨s.readers.set index r⟩

/-- Carries out one command: the session after it, the answer, and the open regions
noted on the way. A dialect that cannot be resolved starts no reader and uses up no
index. -/
def step (s : Session) : Command → Session × Reply × List Unclosed
  | .start script choice =>
    match iterate script choice with
    | .ok r => (⟨s.readers ++ [r]⟩, .started s.readers.length, [])
    | .error failure => (s, .failed failure, [])
  | .next index =>
    let turn := (s.reader index).next
    (s.put index turn.behind, (turn.value.map .value).getD .stopped, turn.notices)
  | .drain index =>
    let others := (s.reader index).drain
    (s.put index others.behind, .values others.values, others.notices)
  | .close index => (s.put index (s.reader index).close, .closed index, [])

/-- The answers to a list of commands, each with the open regions noted on the way. -/
def run (s : Session) : List Command → List (Reply × List Unclosed)
  | [] => []
  | command :: rest =>
    let (after, answer) := s.step command
    answer :: after.run rest

end Session

end SqlScript
