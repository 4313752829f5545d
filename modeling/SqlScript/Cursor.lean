import SqlScript.Token

/-! Cursors: positions in a text that moves never take past its end
(`pos_advance_le`, `pos_advanceTo_le`).

Only a negative count moves a cursor backwards, and it may take it in front of the
text. A negative index counts from the end of the text, as does a negative position
where reading or searching starts.

A script is read by moves alone: `readRegion` takes the cursor over one region, `round` over
whatever comes next, and `scan` goes round by round to the end, with a second offset for where
the statement being read began. -/
namespace SqlScript

/-- A position in a text. -/
structure Cursor where
  text : Text
  pos : Int
  deriving DecidableEq

namespace Cursor

/-- A cursor at the start of a text. -/
def start (text : Text) : Cursor := ⟨text, 0⟩

/-- The number of characters in the text. -/
def length (c : Cursor) : Nat := c.text.length

def atEnd (c : Cursor) : Bool := (c.length : Int) ≤ c.pos

/-! ### Reading -/

/-- What a look at one index of the text shows. -/
inductive Glimpse
  | char (c : Char)
  | pastEnd
  | outOfRange
  deriving DecidableEq

/-- The character `offset` places ahead. There is none past the end, and an index further
in front of the text than the text is long is out of range. -/
def peek (c : Cursor) (offset : Int) : Glimpse :=
  let index := c.pos + offset
  if (c.length : Int) ≤ index then .pastEnd
  else
    let fromStart := if index < 0 then index + c.length else index
    if fromStart < 0 then .outOfRange
    else
      match c.text[fromStart.toNat]? with
      | some found => .char found
      | none => .pastEnd

/-- The place in the text at which searching starts. -/
def origin (c : Cursor) : Nat :=
  if c.pos < 0 then (c.pos + c.length).toNat else c.pos.toNat

/-- Whether a text stands at the cursor. -/
def startsWith (c : Cursor) (sub : Text) : Bool := sub.isPrefixOf (c.text.drop c.origin)

/-- The index of the first occurrence of a text at the cursor or behind it. -/
def find? (c : Cursor) (sub : Text) : Option Nat :=
  (Text.find? sub (c.text.drop c.origin)).map (c.origin + ·)

/-! ### Moving -/

/-- Moves by a count of characters, at most to the end. -/
def advance (c : Cursor) (count : Int) : Cursor := {c with pos := min (c.pos + count) c.length}

/-- Moves forward to an index, at most to the end. An index behind the cursor is
ignored. -/
def advanceTo (c : Cursor) (index : Int) : Cursor :=
  {c with pos := max c.pos (min index c.length)}

def advanceToEnd (c : Cursor) : Cursor := {c with pos := c.length}

theorem pos_advance_le (c : Cursor) (count : Int) : (c.advance count).pos ≤ c.length :=
  Int.min_le_right _ _

theorem pos_advanceTo_le {c : Cursor} (h : c.pos ≤ c.length) (index : Int) :
    (c.advanceTo index).pos ≤ c.length :=
  Int.max_le.mpr ⟨h, Int.min_le_right _ _⟩

/-- How a cursor is shown: its position and the length of its text. -/
def shown (c : Cursor) : Text :=
  "Cursor(pos=".toList ++ Text.ofInt c.pos ++ ", len=".toList ++ Text.ofNat c.length ++ [')']

/-! ### Runs -/

/-- What can be asked of a cursor. -/
inductive Request
  | peek (offset : Int)
  | startsWith (sub : Text)
  | find (sub : Text)
  | advance (count : Int)
  | advanceTo (index : Int)
  | advanceToEnd
  | atEnd
  | shown

/-- What a cursor answers. Moves answer nothing. -/
inductive Answer
  | glimpse (g : Glimpse)
  | truth (b : Bool)
  | index (found : Option Nat)
  | text (t : Text)
  | moved

/-- Carries out one request: the cursor after it, and the answer. -/
def step (c : Cursor) : Request → Cursor × Answer
  | .peek offset => (c, .glimpse (c.peek offset))
  | .startsWith sub => (c, .truth (c.startsWith sub))
  | .find sub => (c, .index (c.find? sub))
  | .advance count => (c.advance count, .moved)
  | .advanceTo index => (c.advanceTo index, .moved)
  | .advanceToEnd => (c.advanceToEnd, .moved)
  | .atEnd => (c, .truth c.atEnd)
  | .shown => (c, .text c.shown)

/-- The answers to a list of requests, each with the cursor after it. -/
def run (c : Cursor) : List Request → List (Cursor × Answer)
  | [] => []
  | request :: rest => c.step request :: (c.step request).1.run rest

theorem pos_step_le {c : Cursor} (h : c.pos ≤ c.length) (request : Request) :
    (c.step request).1.pos ≤ (c.step request).1.length := by
  cases request with
  | advance count => exact pos_advance_le c count
  | advanceTo index => exact pos_advanceTo_le h index
  | advanceToEnd => exact Int.le_refl _
  | peek | startsWith | find | atEnd | shown => exact h

/-! ### Reading a region

A region is read by moves alone: over its opening sequence, and then on to its end. Each
loop takes the cursor nearer to the end of the text (`remaining_advance_lt`), and at the end
there is nothing to look at that could keep a loop going. -/

/-- How many characters there are from the cursor on. -/
def remaining (c : Cursor) : Nat := ((c.length : Int) - c.pos).toNat

theorem remaining_advance_lt {c : Cursor} (h : ¬ c.atEnd = true) {count : Int} (hc : 0 < count) :
    (c.advance count).remaining < c.remaining := by
  have hlt : c.pos < c.length := by simpa [atEnd] using h
  have hlength : (c.advance count).length = c.length := rfl
  have hpos : (c.advance count).pos = min (c.pos + count) c.length := rfl
  unfold remaining
  omega

/-- Whether a character stands `offset` places ahead. -/
def sees (c : Cursor) (offset : Nat) (ch : Char) : Bool := c.peek offset = .char ch

/-- The next `count` characters, or as many as there are. -/
def ahead (c : Cursor) (count : Nat) : Text := (c.text.drop c.origin).take count

/-- The first offset, from `offset` on, at which no character of a tag stands. -/
def tagStop (c : Cursor) (offset : Nat) : Nat :=
  match _h : c.peek offset with
  | .char ch => if Dollar.isTagChar ch then c.tagStop (offset + 1) else offset
  | _ => offset
termination_by ((c.length : Int) - (c.pos + offset)).toNat
decreasing_by
  have hlt : ¬ (c.length : Int) ≤ c.pos + offset := fun hle => by simp [peek, hle] at _h
  omega

/-- The opening sequence of a form, if the one at the cursor is complete. The cursor stands
on the character that it starts with. -/
def opener? (c : Cursor) : Form → Option Text
  | .quoted .. => some (c.ahead 1)
  | .dollar =>
    let stop := c.tagStop 1
    if c.sees stop '$' then some (c.ahead (stop + 1)) else none
  | .line first others => if c.startsWith (first :: others) then some (first :: others) else none
  | .block _ => if c.startsWith Comment.blockOpener then some Comment.blockOpener else none

/-- Moves behind what is quoted. Says whether it was closed. -/
def passQuoted (close : Char) (escapes : Bool) (c : Cursor) : Bool × Cursor :=
  if _h : c.atEnd then (false, c)
  else if c.sees 0 close then
    if c.sees 1 close then passQuoted close escapes (c.advance 2) else (true, c.advance 1)
  else if escapes && c.sees 0 '\\' then passQuoted close escapes (c.advance 2)
  else passQuoted close escapes (c.advance 1)
termination_by c.remaining
decreasing_by all_goals exact remaining_advance_lt _h (by decide)

/-- Moves behind a block comment in which `depth + 1` comments are open. Says whether all of
them were closed. -/
def passNested (depth : Nat) (c : Cursor) : Bool × Cursor :=
  if _h : c.atEnd then (false, c)
  else if c.startsWith Comment.blockOpener then passNested (depth + 1) (c.advance 2)
  else if c.startsWith Comment.blockCloser then
    if depth = 0 then (true, c.advance 2) else passNested (depth - 1) (c.advance 2)
  else passNested depth (c.advance 1)
termination_by c.remaining
decreasing_by all_goals exact remaining_advance_lt _h (by decide)

/-- Moves behind the next occurrence of a closer, or to the end if there is none. -/
def passTo (closer : Text) (c : Cursor) : Bool × Cursor :=
  match c.find? closer with
  | some found => (true, c.advanceTo (found + closer.length))
  | none => (false, c.advanceToEnd)

/-- Moves to the end of the line. -/
def passLine (c : Cursor) : Bool × Cursor :=
  match c.find? ['\n'] with
  | some found => (true, c.advanceTo found)
  | none => (true, c.advanceToEnd)

/-- Moves behind a region of the form, from behind its opening sequence. -/
def pass (c : Cursor) (opener : Text) : Form → Bool × Cursor
  | .quoted _ _ close escapes => c.passQuoted close escapes
  | .dollar => c.passTo opener
  | .line .. => c.passLine
  | .block nests => if nests then c.passNested 0 else c.passTo Comment.blockCloser

/-- Reads a region of the form at the cursor. If none opens there, the cursor stays. -/
def read (c : Cursor) (f : Form) : Option Region × Cursor :=
  match c.opener? f with
  | none => (none, c)
  | some opener =>
    let inside := c.advance opener.length
    let (closed, behind) := inside.pass opener f
    (some ⟨f.kind, opener, inside.ahead (behind.pos - inside.pos).toNat, closed⟩, behind)

/-- Attempts to read a region of the form at the cursor, which moves to where reading got. -/
def attempt (c : Cursor) (f : Form) : Attempt × Cursor :=
  let (r, behind) := c.read f
  (⟨c.pos.toNat, behind.pos.toNat, r⟩, behind)

/-- Attempts to read a region of the form that opens with the next character. If there is no
such form, nothing is attempted. -/
def readRegion (c : Cursor) (rules : Rules) : Option Attempt × Cursor :=
  match c.peek 0 with
  | .char ch =>
    match rules.form? ch with
    | some f =>
      let (a, behind) := c.attempt f
      (some a, behind)
    | none => (none, c)
  | _ => (none, c)

/-! ### Reading a script

What makes reading end is that no loop takes the cursor back, and that an opening sequence is
never empty. -/

theorem remaining_advance_le (c : Cursor) (count : Nat) :
    (c.advance count).remaining ≤ c.remaining := by
  have hlength : (c.advance count).length = c.length := rfl
  have hpos : (c.advance count).pos = min (c.pos + count) c.length := rfl
  unfold remaining
  omega

theorem remaining_passQuoted_le (close : Char) (escapes : Bool) (c : Cursor) :
    (c.passQuoted close escapes).2.remaining ≤ c.remaining := by
  have htwo (c : Cursor) : (c.advance 2).remaining ≤ c.remaining := c.remaining_advance_le 2
  have hone (c : Cursor) : (c.advance 1).remaining ≤ c.remaining := c.remaining_advance_le 1
  induction c using passQuoted.induct close escapes with
  | case1 c h =>
    have hstays : c.passQuoted close escapes = (false, c) := by rw [passQuoted, dif_pos h]
    exact Nat.le_of_eq (congrArg (·.2.remaining) hstays)
  | case2 c h hclose hagain ih =>
    rw [passQuoted, dif_neg h, if_pos hclose, if_pos hagain]
    exact Nat.le_trans ih (htwo c)
  | case3 c h hclose hagain =>
    rw [passQuoted, dif_neg h, if_pos hclose, if_neg hagain]
    exact hone c
  | case4 c h hclose hescape ih =>
    rw [passQuoted, dif_neg h, if_neg hclose, if_pos hescape]
    exact Nat.le_trans ih (htwo c)
  | case5 c h hclose hescape ih =>
    rw [passQuoted, dif_neg h, if_neg hclose, if_neg hescape]
    exact Nat.le_trans ih (hone c)

theorem remaining_passNested_le (depth : Nat) (c : Cursor) :
    (c.passNested depth).2.remaining ≤ c.remaining := by
  have htwo (c : Cursor) : (c.advance 2).remaining ≤ c.remaining := c.remaining_advance_le 2
  have hone (c : Cursor) : (c.advance 1).remaining ≤ c.remaining := c.remaining_advance_le 1
  induction depth, c using passNested.induct with
  | case1 depth c h =>
    have hstays : c.passNested depth = (false, c) := by rw [passNested, dif_pos h]
    exact Nat.le_of_eq (congrArg (·.2.remaining) hstays)
  | case2 depth c h hopens ih =>
    rw [passNested, dif_neg h, if_pos hopens]
    exact Nat.le_trans ih (htwo c)
  | case3 c h hopens hcloses =>
    rw [passNested, dif_neg h, if_neg hopens, if_pos hcloses, if_pos rfl]
    exact htwo c
  | case4 depth c h hopens hcloses hdepth ih =>
    rw [passNested, dif_neg h, if_neg hopens, if_pos hcloses, if_neg hdepth]
    exact Nat.le_trans ih (htwo c)
  | case5 depth c h hopens hcloses ih =>
    rw [passNested, dif_neg h, if_neg hopens, if_neg hcloses]
    exact Nat.le_trans ih (hone c)

theorem remaining_pass_le (c : Cursor) (opener : Text) (f : Form) :
    (c.pass opener f).2.remaining ≤ c.remaining := by
  have hto (index : Int) : (c.advanceTo index).remaining ≤ c.remaining := by
    have hlength : (c.advanceTo index).length = c.length := rfl
    have hpos : (c.advanceTo index).pos = max c.pos (min index c.length) := rfl
    unfold remaining
    omega
  have hend : c.advanceToEnd.remaining ≤ c.remaining := by
    have hlength : c.advanceToEnd.length = c.length := rfl
    have hpos : c.advanceToEnd.pos = c.length := rfl
    unfold remaining
    omega
  have hpassTo (closer : Text) : (c.passTo closer).2.remaining ≤ c.remaining := by
    unfold passTo
    split
    · exact hto _
    · exact hend
  cases f with
  | quoted kind opening close escapes => exact remaining_passQuoted_le close escapes c
  | dollar => exact hpassTo opener
  | line first others =>
    show c.passLine.2.remaining ≤ c.remaining
    unfold passLine
    split
    · exact hto _
    · exact hend
  | block nests =>
    cases nests
    · exact hpassTo Comment.blockCloser
    · exact remaining_passNested_le 0 c

/-- Where there is a character to look at there are characters ahead. -/
theorem ahead_ne_nil {c : Cursor} {ch : Char} (h : c.peek 0 = .char ch) (count : Nat) :
    c.ahead (count + 1) ≠ [] := by
  have hlength : c.length = c.text.length := rfl
  have hbefore : ¬ (c.length : Int) ≤ c.pos := fun hle => by simp [peek, hle] at h
  have hinside : ¬ c.pos + c.length < 0 := fun hout => by
    have hfront : c.pos < 0 := by omega
    simp [peek, hbefore, hfront, hout] at h
  have horigin : c.origin < c.text.length := by
    unfold origin
    split <;> omega
  intro hnil
  rw [ahead, List.take_eq_nil_iff, List.drop_eq_nil_iff] at hnil
  omega

theorem opener_ne_nil {c : Cursor} {ch : Char} (h : c.peek 0 = .char ch) {f : Form} {opener : Text}
    (ho : c.opener? f = some opener) : opener ≠ [] := by
  cases f with
  | quoted kind opening close escapes =>
    cases ho
    exact ahead_ne_nil h 0
  | dollar =>
    simp only [opener?, Option.ite_none_right_eq_some, Option.some.injEq] at ho
    exact ho.2 ▸ ahead_ne_nil h _
  | line first others =>
    simp only [opener?, Option.ite_none_right_eq_some, Option.some.injEq] at ho
    exact ho.2 ▸ List.cons_ne_nil first others
  | block nests =>
    simp only [opener?, Option.ite_none_right_eq_some, Option.some.injEq] at ho
    exact ho.2 ▸ List.cons_ne_nil _ _

/-- A region that is read is left behind. -/
theorem remaining_readRegion_lt {c : Cursor} (hend : ¬ c.atEnd = true) {rules : Rules} {r : Region}
    (h : (c.readRegion rules).1.bind Attempt.region = some r) :
    (c.readRegion rules).2.remaining < c.remaining := by
  rw [readRegion] at h ⊢
  cases hpeek : c.peek 0 with
  | pastEnd => simp [hpeek] at h
  | outOfRange => simp [hpeek] at h
  | char ch =>
    simp only [hpeek] at h ⊢
    cases hform : rules.form? ch with
    | none => simp [hform] at h
    | some f =>
      simp only [hform] at h ⊢
      cases hopener : c.opener? f with
      | none => simp [attempt, read, hopener] at h
      | some opener =>
        have hpos : 0 < (opener.length : Int) :=
          Int.natCast_pos.mpr (List.length_pos_iff.mpr (opener_ne_nil hpeek hopener))
        have hinside := remaining_advance_lt hend hpos
        simp only [attempt, read, hopener]
        exact Nat.lt_of_le_of_lt (remaining_pass_le _ opener f) hinside

/-- Passes over what stands at the cursor: a separator, a region, or a character where no region
opens. Gives the attempt at a region along, if there was one. -/
def turn (c : Cursor) (rules : Rules) : Option Attempt × Cursor :=
  if c.sees 0 ';' then (none, c.advance 1)
  else
    let (attempt, behind) := c.readRegion rules
    (attempt, if (attempt.bind Attempt.region).isSome then behind else c.advance 1)

/-- One round of reading a script. -/
def round (rules : Rules) (c : Cursor) : Cursor := (c.turn rules).2

theorem remaining_turn_lt {c : Cursor} (h : ¬ c.atEnd = true) (rules : Rules) :
    (c.turn rules).2.remaining < c.remaining := by
  rw [turn]
  split
  · exact remaining_advance_lt h (by decide)
  · simp only
    split
    · next hsome =>
      obtain ⟨r, hr⟩ := Option.isSome_iff_exists.mp hsome
      exact remaining_readRegion_lt h hr
    · exact remaining_advance_lt h (by decide)

/-- Reads a script to its end, from the cursor on. The statement that the cursor stands in began
at the offset `begun`. A separator ends it, as the end of the script does. -/
def scan (rules : Rules) (begun : Nat) (c : Cursor) : Diagnosis :=
  if _h : c.atEnd then { statements := (statement? (c.text.drop begun)).toList, unclosed := [] }
  else
    let behind := c.round rules
    if c.sees 0 ';' then
      let others := scan rules behind.pos.toNat behind
      let ended := statement? ((c.text.take c.pos.toNat).drop begun)
      { others with statements := ended.toList ++ others.statements }
    else
      let others := scan rules begun behind
      let left := (c.turn rules).1.bind Attempt.unclosed?
      { others with unclosed := left.toList ++ others.unclosed }
termination_by c.remaining
decreasing_by all_goals exact remaining_turn_lt _h rules

end Cursor

end SqlScript
