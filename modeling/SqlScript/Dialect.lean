import SqlScript.Rules
import SqlScript.Text.Quoted

/-! The dialects: their names, the rules each of them follows, and how a caller's choice
of a dialect is resolved.

A caller may pass anything where a dialect is asked for. What is no text is told to people by
its written form, and writing it can fail (`Datum.written`). -/
namespace SqlScript

/-! ### Data -/

/-- A piece of data, as a caller may pass where a name is asked for. -/
inductive Datum
  | text (t : Text)
  /-- Anything else, of which no more counts than its written form, or the words in which
  writing it fails. -/
  | other (form : Except Text Text)
  deriving Inhabited

namespace Datum

/-- The written form of a datum, or the words in which writing it fails. -/
def written : Datum → Except Text Text
  | text t => .ok t.quoted
  | other form => form

def none : Datum := other (.ok "None".toList)

def bool (b : Bool) : Datum := other (.ok (if b then "True".toList else "False".toList))

/-- A whole number. One of more than 4300 digits is not written. -/
def int (n : Int) : Datum :=
  other <|
    if (Text.ofNat n.natAbs).length ≤ 4300 then .ok (Text.ofInt n)
    else .error ("Exceeds the limit (4300 digits) for integer string conversion; ".toList ++
      "use sys.set_int_max_str_digits() to increase the limit".toList)

def octets (bytes : List UInt8) : Datum := other (.ok (quotedOctets bytes))

/-- A list. If an item cannot be written, neither can the list. -/
def list (items : List Datum) : Datum :=
  other <| (items.mapM written).map fun forms => '[' :: Text.join ", ".toList forms ++ [']']

/-- Values with the texts they are filed under. -/
def dict (entries : List (Text × Datum)) : Datum :=
  let entry : Text × Datum → Except Text Text := fun (key, value) =>
    value.written.map fun form => key.quoted ++ ": ".toList ++ form
  other <| (entries.mapM entry).map fun forms => '{' :: Text.join ", ".toList forms ++ ['}']

end Datum

/-! ### Failures -/

/-- The causes of failure. -/
inductive Failure
  /-- A failure told by its message alone. -/
  | general (message : Text)
  /-- A dialect was asked for that is none of the choices. -/
  | unknownDialect (name : Text) (choices : List Text)
  /-- A datum was passed for a dialect that is none and cannot be written either. This failure
  is the writer's own, and reaches the caller as it is. -/
  | unwritten (message : Text)
  /-- A script ends inside a region. -/
  | unterminated (message : Text) (kind : Kind) (position : Int) (opener : Text)
  deriving DecidableEq

namespace Failure

def message : Failure → Text
  | general message => message
  | unknownDialect name choices =>
    "Unknown dialect ".toList ++ name.quoted ++ "; expected one of ".toList ++
      Text.join ", ".toList (choices.map Text.quoted)
  | unwritten message => message
  | unterminated message .. => message

/-- Whether the failure is the library's own about a value that the caller passed. -/
def isBadValue : Failure → Bool
  | unknownDialect .. => true
  | _ => false

end Failure

/-! ### Dialects -/

inductive Dialect
  | postgres
  | mysql
  | mssql
  | sqlite
  deriving DecidableEq

namespace Dialect

def all : List Dialect := [postgres, mysql, mssql, sqlite]

theorem mem_all (d : Dialect) : d ∈ all := by cases d <;> decide

/-- The name a dialect is shown by. -/
def name : Dialect → Text
  | postgres => "postgres".toList
  | mysql => "mysql".toList
  | mssql => "mssql".toList
  | sqlite => "sqlite".toList

/-- Further names of a dialect. -/
def aliases : Dialect → List Text
  | postgres => ["postgresql".toList, "pg".toList]
  | mysql => ["mariadb".toList]
  | mssql => ["sqlserver".toList, "tsql".toList]
  | sqlite => ["sqlite3".toList]

def rules : Dialect → Rules
  | postgres =>
    { dollarQuotes := true
      nestedComments := true
      backtickNames := false
      backslashEscapes := false
      hashComments := false
      bracketNames := false }
  | mysql =>
    { dollarQuotes := false
      nestedComments := false
      backtickNames := true
      backslashEscapes := true
      hashComments := true
      bracketNames := false }
  | mssql =>
    { dollarQuotes := false
      nestedComments := false
      backtickNames := false
      backslashEscapes := false
      hashComments := false
      bracketNames := true }
  | sqlite =>
    { dollarQuotes := false
      nestedComments := false
      backtickNames := true
      backslashEscapes := false
      hashComments := false
      bracketNames := true }

/-! ### Finding a dialect -/

/-- The dialect a text names. Blanks around the name do not count, nor does the case of
its ASCII letters. -/
def ofName? (t : Text) : Option Dialect :=
  let key := t.trim.map Char.toLower
  all.find? fun d => (d.name :: d.aliases).contains key

/-- What a caller passes to choose a dialect: the dialect itself, or some datum. -/
inductive Designator
  | member (d : Dialect)
  | datum (v : Datum)

/-- The failure for a designator that stands for no dialect. -/
def unknown (name : Text) : Failure := .unknownDialect name (all.map Dialect.name)

/-- The dialect a designator stands for. A text that names none is reported as it was
given, and any other datum by its written form, if it has one. -/
def Designator.resolve : Designator → Except Failure Dialect
  | member d => .ok d
  | datum (.text t) =>
    match ofName? t with
    | some d => .ok d
    | none => .error (unknown t)
  | datum v =>
    match v.written with
    | .ok form => .error (unknown form)
    | .error words => .error (.unwritten words)

end Dialect

end SqlScript
