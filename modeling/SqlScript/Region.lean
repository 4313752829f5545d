import SqlScript.Text

/-! Regions: the stretches of a script in which a semicolon separates nothing. A region starts
with an opening sequence, and its extent is how far it reaches into the text behind that. The
text is cut there in two, and what is not closed takes the whole of it (`Extent.Cuts`). -/
namespace SqlScript

/-- What a region is to the reader of a script. -/
inductive Kind
  | singleQuoted
  | doubleQuoted
  | backtickName
  | bracketName
  | dollarQuoted
  | lineComment
  | blockComment
  deriving DecidableEq

/-- The kind in words, as notices and failures call it. -/
def Kind.title : Kind → Text
  | .singleQuoted => "single-quoted string".toList
  | .doubleQuoted => "double-quoted identifier".toList
  | .backtickName => "backtick identifier".toList
  | .bracketName => "bracket identifier".toList
  | .dollarQuoted => "dollar-quoted string".toList
  | .lineComment => "line comment".toList
  | .blockComment => "block comment".toList

/-- A region as it stands in a script: the opening sequence, all that follows up to
and including the closer, and whether there is a closer at all. A line comment needs
none and counts as closed. -/
structure Region where
  kind : Kind
  opener : Text
  body : Text
  closed : Bool
  deriving DecidableEq

/-- The whole text of the region. -/
def Region.text (r : Region) : Text := r.opener ++ r.body

/-! ### Extents -/

/-- The text behind an opening sequence, cut where the region ends. -/
structure Extent where
  taken : Text
  closed : Bool
  rest : Text
  deriving DecidableEq

namespace Extent

/-- An extent cuts the text it was read from in two, and what is not closed takes
the whole of it. -/
structure Cuts (e : Extent) (t : Text) : Prop where
  whole : e.taken ++ e.rest = t
  rest_of_open : e.closed = false → e.rest = []

/-- The extent of a longer text, whose beginning belongs to the region as well. -/
def after (start : Text) (e : Extent) : Extent := {e with taken := start ++ e.taken}

/-- Ends behind the first occurrence of `closer`, and nowhere if there is none. -/
def upTo (closer t : Text) : Extent :=
  match Text.cut? closer t with
  | some (before, rest) => ⟨before ++ closer, true, rest⟩
  | none => ⟨t, false, []⟩

theorem Cuts.after {e : Extent} {t : Text} (h : e.Cuts t) (start : Text) :
    (e.after start).Cuts (start ++ t) where
  whole := by rw [← h.whole, Extent.after, List.append_assoc]
  rest_of_open := h.rest_of_open

theorem upTo_cuts (closer t : Text) : (upTo closer t).Cuts t := by
  rw [upTo]
  split
  · next before rest h => exact ⟨by simpa using Text.append_of_cut? h, by simp⟩
  · exact ⟨by simp, by simp⟩

end Extent

/-! ### Quotes

Quoted strings and names end at their closing character. A closing character written twice
stands for itself and ends nothing. -/

namespace Quote

/-- The extent of what is quoted, read behind the opening character. Where a backslash
`escapes`, it takes the character behind it along, whatever that is. -/
def extent (close : Char) (escapes : Bool) : Text → Extent
  | [] => ⟨[], false, []⟩
  | [c] => ⟨[c], c == close, []⟩
  | c :: d :: cs =>
    if c = close then
      if d = close then (extent close escapes cs).after [c, d] else ⟨[c], true, d :: cs⟩
    else if escapes && c == '\\' then (extent close escapes cs).after [c, d]
    else (extent close escapes (d :: cs)).after [c]

theorem extent_cuts (close : Char) (escapes : Bool) (t : Text) :
    (extent close escapes t).Cuts t := by
  induction t using extent.induct close escapes with
  | case1 => exact ⟨rfl, fun _ => rfl⟩
  | case2 c => exact ⟨rfl, fun _ => rfl⟩
  | case3 cs ih => simpa [extent] using ih.after [close, close]
  | case4 d cs hd => exact ⟨by simp [extent, hd], by simp [extent, hd]⟩
  | case5 c d cs hc he ih => simpa [extent, hc, he] using ih.after [c, d]
  | case6 c d cs hc he ih => simpa [extent, hc, he] using ih.after [c]

end Quote

/-! ### Dollar quotes

A tag opens a dollar-quoted string, and the same tag closes it. -/

namespace Dollar

/-- The characters a tag may hold between its dollar signs. -/
def isTagChar (c : Char) : Bool := c.isAlphanum || c == '_'

/-- The tag at the start of a text: two dollar signs with tag characters between them,
or with nothing. -/
def tag? : Text → Option Text
  | '$' :: cs =>
    if (cs.dropWhile isTagChar).head? = some '$' then some ('$' :: cs.takeWhile isTagChar ++ ['$'])
    else none
  | _ => none

/-- A tag is what the text starts with. -/
theorem exists_rest_of_tag? {t tag : Text} (h : tag? t = some tag) :
    ∃ rest, tag ++ rest = t := by
  unfold tag? at h
  split at h
  · next cs =>
    split at h
    · next hd =>
      cases h
      obtain ⟨rest, hr⟩ := List.head?_eq_some_iff.mp hd
      refine ⟨rest, ?_⟩
      conv => rhs; rw [← List.takeWhile_append_dropWhile (p := isTagChar) (l := cs), hr]
      simp
    · cases h
  · cases h

theorem exists_name_of_tag? {t tag : Text} (h : tag? t = some tag) :
    ∃ name, tag = '$' :: (name ++ ['$']) := by
  unfold tag? at h
  split at h
  · split at h
    · cases h
      exact ⟨_, rfl⟩
    · cases h
  · cases h

end Dollar

/-! ### Comments

A comment reaches to the end of the line, or stands between a pair of marks that may nest. -/

namespace Comment

/-- The mark that opens a block comment. -/
def blockOpener : Text := ['/', '*']

/-- The mark that closes a block comment. -/
def blockCloser : Text := ['*', '/']

/-- A line comment ends in front of the line feed, which is not part of it. -/
def lineExtent (t : Text) : Extent := ⟨t.takeWhile (· != '\n'), true, t.dropWhile (· != '\n')⟩

/-- The extent of a block comment that may hold others, read behind a mark that opened
it, with `depth` comments open around the one being read. Marks are read from the left
and share no character. -/
def nestedExtent : Nat → Text → Extent
  | _, [] => ⟨[], false, []⟩
  | _, [c] => ⟨[c], false, []⟩
  | depth, c :: d :: cs =>
    if c = '/' ∧ d = '*' then (nestedExtent (depth + 1) cs).after [c, d]
    else if c = '*' ∧ d = '/' then
      match depth with
      | 0 => ⟨[c, d], true, cs⟩
      | outer + 1 => (nestedExtent outer cs).after [c, d]
    else (nestedExtent depth (d :: cs)).after [c]

/-- The extent of a block comment behind its opening mark. One that does not nest ends
at the first closing mark. -/
def blockExtent (nests : Bool) (t : Text) : Extent :=
  if nests then nestedExtent 0 t else .upTo blockCloser t

theorem lineExtent_cuts (t : Text) : (lineExtent t).Cuts t :=
  ⟨List.takeWhile_append_dropWhile, by simp [lineExtent]⟩

theorem nestedExtent_cuts (depth : Nat) (t : Text) : (nestedExtent depth t).Cuts t := by
  induction depth, t using nestedExtent.induct with
  | case1 => exact ⟨rfl, fun _ => rfl⟩
  | case2 => exact ⟨rfl, fun _ => rfl⟩
  | case3 depth c d cs h ih => simpa [nestedExtent, h] using ih.after ['/', '*']
  | case4 c d cs h h' => exact ⟨by simp [nestedExtent, h'], by simp [nestedExtent, h']⟩
  | case5 c d cs h h' outer ih => simpa [nestedExtent, h'] using ih.after ['*', '/']
  | case6 depth c d cs h h' ih =>
    rw [nestedExtent.eq_def]
    simpa [h, h'] using ih.after [c]

theorem blockExtent_cuts (nests : Bool) (t : Text) : (blockExtent nests t).Cuts t := by
  rw [blockExtent]
  split
  · exact nestedExtent_cuts 0 t
  · exact Extent.upTo_cuts blockCloser t

end Comment

end SqlScript
