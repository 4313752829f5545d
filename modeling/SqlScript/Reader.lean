import SqlScript.Token

/-! Readers take the statements of a script one at a time. A reader looks at no more of
the script than the statement it is asked for, up to the separator behind it; open
regions are noted when they are reached. -/
namespace SqlScript

/-- What is left to read of a script, the offset at which it starts, and the rules. -/
structure Reader where
  rules : Rules
  offset : Nat
  rest : Text

namespace Reader

/-- A reader at the start of a script. -/
def start (rules : Rules) (script : Text) : Reader := ⟨rules, 0, script⟩

/-- A reader that has been closed reads nothing more. -/
def close (r : Reader) : Reader := {r with rest := []}

/-- The reader behind a token. -/
def past (r : Reader) (token : Token) (rest : Text) : Reader :=
  {r with offset := r.offset + token.text.length, rest := rest}

/-! ### Up to the next separator -/

/-- What reading up to a separator gives: the segment, the open regions in it, and the
reader behind the separator. -/
structure Stretch where
  segment : Text
  notices : List Unclosed
  behind : Reader

/-- Reads up to the next separator, or to the end if there is none. -/
def stretch (r : Reader) : Stretch :=
  match _h : Token.read? r.rules r.rest with
  | none => ⟨[], [], r⟩
  | some (.separator, rest) => ⟨[], [], r.past .separator rest⟩
  | some (token, rest) =>
    let s := (r.past token rest).stretch
    { segment := token.text ++ s.segment
      notices := (token.unclosed? r.offset).toList ++ s.notices
      behind := s.behind }
termination_by r.rest.length
decreasing_by exact Token.length_rest_lt _h

theorem length_stretch_le (r : Reader) : r.stretch.behind.rest.length ≤ r.rest.length := by
  induction r using stretch.induct with
  | case1 r h => rw [stretch]; split <;> simp_all
  | case2 r rest h =>
    have := Token.length_rest_lt h
    rw [stretch]
    split <;> simp_all [past]
    omega
  | case3 r token rest hn h ih =>
    have := Token.length_rest_lt h
    rw [stretch]
    split <;> simp_all [past]
    omega

theorem length_stretch_lt {r : Reader} (hr : r.rest ≠ []) :
    r.stretch.behind.rest.length < r.rest.length := by
  rw [stretch]
  split
  · next h => exact absurd (Token.read?_eq_none_iff.mp h) hr
  · next h => exact Token.length_rest_lt h
  · next h => exact Nat.lt_of_le_of_lt (length_stretch_le _) (Token.length_rest_lt h)

/-! ### Taking statements -/

/-- What taking one statement gives: the statement, unless none is left, the open
regions noted on the way, and the reader behind it. -/
structure Turn where
  value : Option Text
  notices : List Unclosed
  behind : Reader

/-- Takes the next statement. Segments that hold none are passed over. -/
def next (r : Reader) : Turn :=
  if _h : r.rest = [] then ⟨none, [], r⟩
  else
    let s := r.stretch
    match statement? s.segment with
    | some value => ⟨some value, s.notices, s.behind⟩
    | none =>
      let turn := s.behind.next
      {turn with notices := s.notices ++ turn.notices}
termination_by r.rest.length
decreasing_by exact length_stretch_lt _h

theorem length_next_lt {r : Reader} {value : Text} (h : r.next.value = some value) :
    r.next.behind.rest.length < r.rest.length := by
  induction r using next.induct with
  | case1 r hr =>
    rw [next, dif_pos hr] at h
    cases h
  | case2 r hr s value' hs =>
    have : r.next = ⟨some value', s.notices, s.behind⟩ := by
      rw [next, dif_neg hr]
      simp only [s] at hs ⊢
      rw [hs]
    rw [this]
    exact length_stretch_lt hr
  | case3 r hr s hs ih =>
    have hn : r.next = {s.behind.next with notices := s.notices ++ s.behind.next.notices} := by
      rw [next, dif_neg hr]
      simp only [s] at hs ⊢
      rw [hs]
    rw [hn] at h ⊢
    exact Nat.lt_trans (ih h) (length_stretch_lt hr)

/-- What taking all statements gives. -/
structure Remainder where
  values : List Text
  notices : List Unclosed
  behind : Reader

/-- Takes the statements that are left. -/
def drain (r : Reader) : Remainder :=
  let turn := r.next
  match _h : turn.value with
  | none => ⟨[], turn.notices, turn.behind⟩
  | some value =>
    let others := turn.behind.drain
    { values := value :: others.values
      notices := turn.notices ++ others.notices
      behind := others.behind }
termination_by r.rest.length
decreasing_by exact length_next_lt _h

end Reader

end SqlScript
