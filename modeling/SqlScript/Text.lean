/-! Texts as lists of characters, and what is done with them: putting parts together, finding
one text in another, trimming, and cutting into words and lines.

Positions, lengths and offsets count characters. `Text.cut?` splits a text at the
first occurrence of another one: nothing is lost (`append_of_cut?`), and there is a
cut exactly where the other text occurs (`cut?_isSome_iff`). -/
namespace SqlScript

/-- A text, character by character. -/
abbrev Text := List Char

/-- White space, the four information separators U+001C to U+001F included. Zero-width
characters and the byte order mark are not blank. -/
def isBlank (c : Char) : Bool :=
  let n := c.toNat
  (0x09 ≤ n && n ≤ 0x0D) || (0x1C ≤ n && n ≤ 0x20) || n == 0x85 || n == 0xA0 || n == 0x1680 ||
    (0x2000 ≤ n && n ≤ 0x200A) || n == 0x2028 || n == 0x2029 || n == 0x202F || n == 0x205F ||
    n == 0x3000

/-- The characters that end a line. The unit separator U+001F is blank but ends none. -/
def isLineBreak (c : Char) : Bool :=
  let n := c.toNat
  (0x0A ≤ n && n ≤ 0x0D) || (0x1C ≤ n && n ≤ 0x1E) || n == 0x85 || n == 0x2028 || n == 0x2029

namespace Text

/-- The decimal digits of a number. -/
def ofNat (n : Nat) : Text := Nat.toDigits 10 n

/-- A number with a minus sign in front when it is negative. -/
def ofInt : Int → Text
  | .ofNat n => ofNat n
  | .negSucc n => '-' :: ofNat (n + 1)

/-- The parts, one after the other, with `sep` between neighbours. -/
def join (sep : Text) (parts : List Text) : Text := sep.intercalate parts

@[simp] theorem join_nil (sep : Text) : join sep [] = [] := List.intercalate_nil

@[simp] theorem join_singleton (sep part : Text) : join sep [part] = part :=
  List.intercalate_singleton

@[simp] theorem join_cons_cons (sep first second : Text) (rest : List Text) :
    join sep (first :: second :: rest) = first ++ (sep ++ join sep (second :: rest)) := by
  rw [join, List.intercalate_cons_cons, List.append_assoc]
  rfl

/-! ### The first occurrence of a text in another -/

/-- What stands before and after the first occurrence of `sub`. -/
def cut? (sub : Text) : Text → Option (Text × Text)
  | [] => if sub = [] then some ([], []) else none
  | c :: cs =>
    if sub.isPrefixOf (c :: cs) then some ([], (c :: cs).drop sub.length)
    else (cut? sub cs).map fun (before, after) => (c :: before, after)

/-- The offset of the first occurrence of `sub`. -/
def find? (sub t : Text) : Option Nat := (cut? sub t).map (·.1.length)

theorem exists_of_isPrefixOf {sub t : Text} (h : sub.isPrefixOf t = true) :
    ∃ rest, sub ++ rest = t :=
  List.isPrefixOf_iff_prefix.mp h

/-- The two halves and the searched text make up the whole. -/
theorem append_of_cut? {sub t before after : Text} (h : cut? sub t = some (before, after)) :
    before ++ (sub ++ after) = t := by
  induction t generalizing before with
  | nil =>
    rw [cut?] at h
    split at h
    · next hs => cases h; simp [hs]
    · cases h
  | cons c cs ih =>
    rw [cut?] at h
    split at h
    · next hp =>
      cases h
      obtain ⟨rest, hr⟩ := exists_of_isPrefixOf hp
      simp [← hr]
    · obtain ⟨⟨b, a⟩, hb, heq⟩ := Option.map_eq_some_iff.mp h
      cases heq
      rw [List.cons_append, ih hb]

/-- A text is cut wherever the searched text occurs. -/
theorem cut?_isSome_iff {sub t : Text} : (cut? sub t).isSome ↔ sub <:+: t := by
  induction t with
  | nil => by_cases h : sub = [] <;> simp [cut?, h]
  | cons c cs ih =>
    rw [cut?, List.infix_cons_iff, ← ih]
    by_cases hp : sub <+: c :: cs <;> simp [hp]

/-! ### Trimming -/

/-- The text without the blanks in front. -/
def trimStart (t : Text) : Text := t.dropWhile isBlank

/-- The text without the blanks at the end. -/
def trimEnd (t : Text) : Text := (t.reverse.dropWhile isBlank).reverse

/-- The text without the blanks at either end. -/
def trim (t : Text) : Text := t.trimStart.trimEnd

/-! ### Words -/

/-- The maximal runs of characters that are not blank, in order. -/
def words : Text → List Text
  | [] => []
  | [c] => if isBlank c then [] else [[c]]
  | c :: d :: cs =>
    if isBlank c then words (d :: cs)
    else if isBlank d then [c] :: words (d :: cs)
    else (words (d :: cs)).modifyHead (c :: ·)

theorem not_isBlank_of_mem_words {t w : Text} (hw : w ∈ t.words) : ∀ c ∈ w, isBlank c = false := by
  induction t using words.induct generalizing w with
  | case1 => simp [words] at hw
  | case2 c h => simp [words, h] at hw
  | case3 c h => simp_all [words]
  | case4 c d cs h ih => rw [words, if_pos h] at hw; exact ih hw
  | case5 c d cs hc hd ih =>
    rw [words, if_neg hc, if_pos hd] at hw
    rcases List.mem_cons.mp hw with rfl | hw
    · simpa using hc
    · exact ih hw
  | case6 c d cs hc hd ih =>
    rw [words, if_neg hc, if_neg hd] at hw
    cases hws : words (d :: cs) with
    | nil => simp [hws] at hw
    | cons v vs =>
      rw [hws] at hw ih
      rcases List.mem_cons.mp hw with rfl | hw
      · intro x hx
        rcases List.mem_cons.mp hx with rfl | hx
        · simpa using hc
        · exact ih List.mem_cons_self x hx
      · exact ih (List.mem_cons_of_mem v hw)

/-! ### Lines

A carriage return and the line feed behind it are one break. A text that ends in a break has
no empty line after it, and the empty text has no line at all. -/

/-- Puts a character in front of the first line, which is begun if there is none. -/
def consLine (c : Char) : List Text → List Text
  | [] => [[c]]
  | line :: rest => (c :: line) :: rest

/-- The lines of the text, without their breaks. -/
def lines : Text → List Text
  | [] => []
  | '\r' :: '\n' :: cs => [] :: lines cs
  | c :: cs => if isLineBreak c then [] :: lines cs else consLine c (lines cs)

end Text

end SqlScript
