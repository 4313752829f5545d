import SqlScript.Rules
import SqlScript.Text.Quoted

/-! Tokens: a script read piece by piece, by given rules, and what is computed from the pieces:
the statements, the regions left open, and the attempts at a region.

`tokens_text` says that the tokens of a script make up the script, and
`length_rest_lt` that each of them takes some of it. A region left open takes the rest of the
script, so there is at most one (`length_unclosed_le_one`). -/
namespace SqlScript

/-- What stands at one place of a script: a semicolon that separates statements, a
region, or any other character. -/
inductive Token
  | separator
  | plain (c : Char)
  | region (r : Region)
  deriving DecidableEq

namespace Token

def text : Token → Text
  | separator => [';']
  | plain c => [c]
  | region r => r.text

/-- Reads the token at the start of the text and leaves what follows it. -/
def read? (rules : Rules) : Text → Option (Token × Text)
  | [] => none
  | c :: cs =>
    if c = ';' then some (separator, cs)
    else match rules.readRegion? (c :: cs) with
      | some (r, rest) => some (region r, rest)
      | none => some (plain c, cs)

theorem read?_text {rules : Rules} {t rest : Text} {token : Token}
    (h : read? rules t = some (token, rest)) : token.text ++ rest = t := by
  cases t with
  | nil => cases h
  | cons c cs =>
    rw [read?] at h
    split at h
    · next hc => cases h; rw [hc]; rfl
    · split at h
      · next r rest hr =>
        cases h
        obtain ⟨f, -, hf⟩ := Rules.exists_form_of_readRegion? hr
        exact Form.read?_text hf
      · cases h; rfl

theorem length_rest_lt {rules : Rules} {t rest : Text} {token : Token}
    (h : read? rules t = some (token, rest)) : rest.length < t.length := by
  cases t with
  | nil => cases h
  | cons c cs =>
    rw [read?] at h
    split at h
    · cases h; simp
    · split at h
      · next r rest hr =>
        cases h
        obtain ⟨f, -, hf⟩ := Rules.exists_form_of_readRegion? hr
        exact Form.length_rest_lt hf
      · cases h; simp

theorem read?_eq_none_iff {rules : Rules} {t : Text} : read? rules t = none ↔ t = [] := by
  cases t with
  | nil => simp [read?]
  | cons c cs =>
    rw [read?]
    split
    · simp
    · split <;> simp

end Token

/-- The tokens of a script, in order. -/
def tokens (rules : Rules) (script : Text) : List Token :=
  match _h : Token.read? rules script with
  | none => []
  | some (token, rest) => token :: tokens rules rest
termination_by script.length
decreasing_by exact Token.length_rest_lt _h

theorem tokens_nil (rules : Rules) : tokens rules [] = [] := by
  rw [tokens]
  rfl

theorem tokens_of_read? {rules : Rules} {t rest : Text} {token : Token}
    (h : Token.read? rules t = some (token, rest)) :
    tokens rules t = token :: tokens rules rest := by
  rw [tokens]
  split
  · next hn => rw [h] at hn; cases hn
  · next hs => rw [h] at hs; cases hs; rfl

/-- The tokens make up the script. -/
theorem tokens_text (rules : Rules) (script : Text) :
    (tokens rules script).flatMap Token.text = script := by
  induction script using tokens.induct rules with
  | case1 t h =>
    rw [Token.read?_eq_none_iff.mp h, tokens_nil]
    rfl
  | case2 t token rest h ih =>
    rw [tokens_of_read? h, List.flatMap_cons, ih, Token.read?_text h]

/-! ### Places -/

/-- Each token with the offset it stands at, the first of them at `offset`. -/
def locate (offset : Nat) : List Token → List (Nat × Token)
  | [] => []
  | token :: rest => (offset, token) :: locate (offset + token.text.length) rest

theorem locate_append (offset : Nat) (a b : List Token) :
    locate offset (a ++ b) = locate offset a ++ locate (offset + (a.flatMap Token.text).length) b := by
  induction a generalizing offset with
  | nil => rfl
  | cons token rest ih =>
    simp only [List.cons_append, locate, ih, List.flatMap_cons, List.length_append, Nat.add_assoc]

/-! ### Statements

What stands between the separators, trimmed, and left out where nothing remains. -/

/-- What stands between the separators among some tokens, in order. There is one segment
more than there are separators. -/
def segments : List Token → List Text
  | [] => [[]]
  | .separator :: rest => [] :: segments rest
  | token :: rest => (segments rest).modifyHead (token.text ++ ·)

/-- The statement that a segment holds. Blanks alone are none. -/
def statement? (segment : Text) : Option Text :=
  if segment.trim = [] then none else some segment.trim

/-- The statements of a script, in order. -/
def statements (rules : Rules) (script : Text) : List Text :=
  (segments (tokens rules script)).filterMap statement?

theorem statements_nil (rules : Rules) : statements rules [] = [] := by
  rw [statements, tokens_nil]
  rfl

theorem length_segments (ts : List Token) :
    (segments ts).length = ts.count .separator + 1 := by
  induction ts with
  | nil => rfl
  | cons token rest ih => cases token <;> simp [segments, ih]

/-! ### Regions left open -/

/-- A region without its closer, and where it starts. -/
structure Unclosed where
  kind : Kind
  start : Nat
  opener : Text
  deriving DecidableEq

/-- The words in which a reader of scripts takes note of an open region. -/
def Unclosed.notice (u : Unclosed) : Text :=
  "Unterminated ".toList ++ u.kind.title ++ " opened with ".toList ++ u.opener.quoted ++
    " at offset ".toList ++ Text.ofNat u.start

namespace Token

/-- The open region that a token at the given offset is, if it is one. -/
def unclosed? (offset : Nat) : Token → Option Unclosed
  | region r => if r.closed then none else some ⟨r.kind, offset, r.opener⟩
  | _ => none

/-- Behind an open region there is nothing left to read. -/
theorem rest_of_unclosed? {rules : Rules} {t rest : Text} {token : Token} {offset : Nat}
    {u : Unclosed} (h : read? rules t = some (token, rest)) (hu : token.unclosed? offset = some u) :
    rest = [] := by
  cases t with
  | nil => cases h
  | cons c cs =>
    rw [read?] at h
    split at h
    · cases h; cases hu
    · split at h
      · next r rest' hr =>
        cases h
        obtain ⟨f, -, hf⟩ := Rules.exists_form_of_readRegion? hr
        cases hc : r.closed with
        | true => simp [unclosed?, hc] at hu
        | false => exact Form.rest_of_open hf hc
      · cases h; cases hu

end Token

/-- The open regions among tokens of which the first stands at `offset`. -/
def unclosedFrom (offset : Nat) (ts : List Token) : List Unclosed :=
  (locate offset ts).filterMap fun (start, token) => token.unclosed? start

/-- The regions that a script leaves open. -/
def unclosed (rules : Rules) (script : Text) : List Unclosed := unclosedFrom 0 (tokens rules script)

theorem length_unclosedFrom_le_one (rules : Rules) (offset : Nat) (script : Text) :
    (unclosedFrom offset (tokens rules script)).length ≤ 1 := by
  induction script using tokens.induct rules generalizing offset with
  | case1 t h =>
    rw [Token.read?_eq_none_iff.mp h, tokens_nil]
    exact Nat.zero_le 1
  | case2 t token rest h ih =>
    rw [tokens_of_read? h, unclosedFrom, locate]
    cases hu : token.unclosed? offset with
    | none => simpa [hu, unclosedFrom] using ih _
    | some u =>
      rw [Token.rest_of_unclosed? h hu, tokens_nil]
      simp [hu, locate]

/-- A script leaves at most one region open. -/
theorem length_unclosed_le_one (rules : Rules) (script : Text) :
    (unclosed rules script).length ≤ 1 :=
  length_unclosedFrom_le_one rules 0 script

/-- What is found in a script: its statements, and the regions left open after them. -/
structure Diagnosis where
  statements : List Text
  unclosed : List Unclosed
  deriving DecidableEq

/-- Whether every region of the script was closed. -/
def Diagnosis.balanced (d : Diagnosis) : Bool := d.unclosed.isEmpty

/-! ### Attempts

The places of a script, outside every region, where a character stands that can open one. A
lone minus sign is such a place, and no region opens there. -/

/-- What came of one attempt: the place, how far reading got, and the region read. -/
structure Attempt where
  start : Nat
  stop : Nat
  region : Option Region
  deriving DecidableEq

namespace Attempt

/-- The attempt made for a token at the given offset. -/
def ofToken? (rules : Rules) (offset : Nat) : Token → Option Attempt
  | .separator => none
  | .plain c => if (rules.form? c).isSome then some ⟨offset, offset, none⟩ else none
  | .region r => some ⟨offset, offset + r.text.length, some r⟩

/-- The attempt at the start of a text that stands at the given offset. There is none
if no form opens with its first character. -/
def here? (rules : Rules) (offset : Nat) : Text → Option Attempt
  | [] => none
  | c :: cs =>
    (rules.form? c).map fun f =>
      match f.read? (c :: cs) with
      | some (r, _) => ⟨offset, offset + r.text.length, some r⟩
      | none => ⟨offset, offset, none⟩

/-- The region that the attempt found open, if it did. -/
def unclosed? (a : Attempt) : Option Unclosed :=
  a.region.bind fun r => if r.closed then none else some ⟨r.kind, a.start, r.opener⟩

end Attempt

/-- The attempts made for tokens of which the first stands at `offset`. -/
def attemptsFrom (rules : Rules) (offset : Nat) (ts : List Token) : List Attempt :=
  (locate offset ts).filterMap fun (start, token) => Attempt.ofToken? rules start token

/-- The attempts made while a script is read, in order. -/
def attempts (rules : Rules) (script : Text) : List Attempt :=
  attemptsFrom rules 0 (tokens rules script)

end SqlScript
