import SqlScript.Region

/-! The forms a region can take, and the lexical rules that say which of them are in use.

A form says how a region opens and how far it then reaches. `Form.read?_text` and
`Form.length_rest_lt` say what reading relies on: the region and what is left behind it make
up the text, and something has been read. No two forms in use open with the same character
(`Rules.openers_ascending`). -/
namespace SqlScript

/-- A way of writing a region. -/
inductive Form
  | quoted (kind : Kind) (opening closing : Char) (escapes : Bool)
  | dollar
  | line (first : Char) (others : Text)
  | block (nests : Bool)

namespace Form

def kind : Form → Kind
  | quoted kind _ _ _ => kind
  | dollar => .dollarQuoted
  | line _ _ => .lineComment
  | block _ => .blockComment

/-- The character that every opening sequence of the form starts with. -/
def initial : Form → Char
  | quoted _ opening _ _ => opening
  | dollar => '$'
  | line first _ => first
  | block _ => '/'

/-- The opening sequence of the form that stands at the start of the text. -/
def opener? : Form → Text → Option Text
  | quoted _ opening _ _, t => if t.head? = some opening then some [opening] else none
  | dollar, t => Dollar.tag? t
  | line first others, t => if (first :: others).isPrefixOf t then some (first :: others) else none
  | block _, t => if Comment.blockOpener.isPrefixOf t then some Comment.blockOpener else none

/-- How far the region reaches into the text behind its opening sequence. -/
def extent : Form → Text → Text → Extent
  | quoted _ _ closing escapes, _, t => Quote.extent closing escapes t
  | dollar, opener, t => .upTo opener t
  | line _ _, _, t => Comment.lineExtent t
  | block nests, _, t => Comment.blockExtent nests t

/-- Reads the region of this form at the start of the text, if one opens there, and
leaves what follows it. -/
def read? (f : Form) (t : Text) : Option (Region × Text) :=
  (f.opener? t).map fun opener =>
    let e := f.extent opener (t.drop opener.length)
    (⟨f.kind, opener, e.taken, e.closed⟩, e.rest)

/-! ### What reading leaves -/

theorem exists_rest_of_opener? {f : Form} {t opener : Text} (h : f.opener? t = some opener) :
    ∃ rest, opener ++ rest = t := by
  cases f with
  | quoted kind opening closing escapes =>
    simp only [opener?, Option.ite_none_right_eq_some, Option.some.injEq] at h
    obtain ⟨hh, rfl⟩ := h
    obtain ⟨rest, rfl⟩ := List.head?_eq_some_iff.mp hh
    exact ⟨rest, rfl⟩
  | dollar => exact Dollar.exists_rest_of_tag? h
  | line first others =>
    simp only [opener?, Option.ite_none_right_eq_some, Option.some.injEq] at h
    exact h.2 ▸ Text.exists_of_isPrefixOf h.1
  | block nests =>
    simp only [opener?, Option.ite_none_right_eq_some, Option.some.injEq] at h
    exact h.2 ▸ Text.exists_of_isPrefixOf h.1

theorem head?_opener? {f : Form} {t opener : Text} (h : f.opener? t = some opener) :
    opener.head? = some f.initial := by
  cases f with
  | quoted kind opening closing escapes =>
    simp only [opener?, Option.ite_none_right_eq_some, Option.some.injEq] at h
    exact h.2 ▸ rfl
  | dollar =>
    obtain ⟨name, rfl⟩ := Dollar.exists_name_of_tag? h
    rfl
  | line first others =>
    simp only [opener?, Option.ite_none_right_eq_some, Option.some.injEq] at h
    exact h.2 ▸ rfl
  | block nests =>
    simp only [opener?, Option.ite_none_right_eq_some, Option.some.injEq] at h
    exact h.2 ▸ rfl

theorem extent_cuts (f : Form) (opener t : Text) : (f.extent opener t).Cuts t := by
  cases f with
  | quoted kind opening closing escapes => exact Quote.extent_cuts closing escapes t
  | dollar => exact Extent.upTo_cuts opener t
  | line first others => exact Comment.lineExtent_cuts t
  | block nests => exact Comment.blockExtent_cuts nests t

/-- A region and what follows it make up the text. -/
theorem read?_text {f : Form} {t rest : Text} {r : Region} (h : f.read? t = some (r, rest)) :
    r.text ++ rest = t := by
  obtain ⟨opener, ho, heq⟩ := Option.map_eq_some_iff.mp h
  cases heq
  obtain ⟨tail, rfl⟩ := exists_rest_of_opener? ho
  have := (f.extent_cuts opener tail).whole
  simp [Region.text, this]

theorem text_ne_nil {f : Form} {t rest : Text} {r : Region} (h : f.read? t = some (r, rest)) :
    r.text ≠ [] := by
  obtain ⟨opener, ho, heq⟩ := Option.map_eq_some_iff.mp h
  cases heq
  obtain ⟨others, rfl⟩ := List.head?_eq_some_iff.mp (head?_opener? ho)
  simp [Region.text]

theorem length_rest_lt {f : Form} {t rest : Text} {r : Region}
    (h : f.read? t = some (r, rest)) : rest.length < t.length := by
  rw [← read?_text h, List.length_append]
  exact Nat.lt_add_of_pos_left (List.length_pos_iff.mpr (text_ne_nil h))

/-- A region left open takes all the text there is. -/
theorem rest_of_open {f : Form} {t rest : Text} {r : Region} (h : f.read? t = some (r, rest))
    (hr : r.closed = false) : rest = [] := by
  obtain ⟨opener, -, heq⟩ := Option.map_eq_some_iff.mp h
  cases heq
  exact (f.extent_cuts _ _).rest_of_open hr

end Form

/-! ### Rules -/

/-- The forms that not every dialect knows. Single and double quotes, comments behind
`--` and comments between `/*` and `*/` are always in use. -/
structure Rules where
  /-- Strings between two equal tags such as `$$` or `$body$`. -/
  dollarQuotes : Bool
  /-- Block comments hold block comments. -/
  nestedComments : Bool
  /-- Names between backticks. -/
  backtickNames : Bool
  /-- A backslash in a single-quoted string takes the next character along. -/
  backslashEscapes : Bool
  /-- Comments behind `#`. -/
  hashComments : Bool
  /-- Names between square brackets. -/
  bracketNames : Bool
  deriving DecidableEq

namespace Rules

/-- The forms in use, in the order of the characters they open with. -/
def forms (rules : Rules) : List Form :=
  let known : List (Bool × Form) :=
    [(true, .quoted .doubleQuoted '"' '"' false),
     (rules.hashComments, .line '#' []),
     (rules.dollarQuotes, .dollar),
     (true, .quoted .singleQuoted '\'' '\'' rules.backslashEscapes),
     (true, .line '-' ['-']),
     (true, .block rules.nestedComments),
     (rules.bracketNames, .quoted .bracketName '[' ']' false),
     (rules.backtickNames, .quoted .backtickName '\x60' '\x60' false)]
  (known.filter (·.1)).map (·.2)

/-- The characters that can open a region. -/
def openers (rules : Rules) : Text := rules.forms.map Form.initial

/-- No two forms open with the same character. Which of them are in use, the characters they
open with are among eight in ascending order. -/
theorem openers_ascending (rules : Rules) : rules.openers.Pairwise (· < ·) := by
  have hamong : rules.openers.Sublist ['"', '#', '$', '\'', '-', '/', '[', '\x60'] :=
    (List.filter_sublist.map _).map _
  exact List.Pairwise.sublist hamong (by decide)

/-- The form that opens with a character. -/
def form? (rules : Rules) (c : Char) : Option Form := rules.forms.find? (·.initial == c)

theorem form?_eq_some_iff {rules : Rules} {c : Char} {f : Form} :
    rules.form? c = some f ↔ f ∈ rules.forms ∧ f.initial = c := by
  refine ⟨fun h => ⟨List.mem_of_find?_eq_some h, by simpa using List.find?_some h⟩, ?_⟩
  rintro ⟨hf, rfl⟩
  have hp : rules.forms.Pairwise fun a b => a.initial < b.initial :=
    List.pairwise_map.mp rules.openers_ascending
  rw [form?]
  generalize rules.forms = forms at hf hp
  induction forms with
  | nil => cases hf
  | cons g rest ih =>
    obtain ⟨hg, hp⟩ := List.pairwise_cons.mp hp
    rcases List.mem_cons.mp hf with rfl | hf
    · simp
    · rw [List.find?_cons_of_neg, ih hf hp]
      simpa using Char.ne_of_lt (hg f hf)

/-- Reads the region at the start of the text, if one opens there, and leaves what
follows it. -/
def readRegion? (rules : Rules) : Text → Option (Region × Text)
  | [] => none
  | c :: cs => (rules.form? c).bind (·.read? (c :: cs))

theorem exists_form_of_readRegion? {rules : Rules} {t rest : Text} {r : Region}
    (h : rules.readRegion? t = some (r, rest)) :
    ∃ f ∈ rules.forms, f.read? t = some (r, rest) := by
  cases t with
  | nil => cases h
  | cons c cs =>
    obtain ⟨f, hf, hr⟩ := Option.bind_eq_some_iff.mp h
    exact ⟨f, List.mem_of_find?_eq_some hf, hr⟩

end Rules

end SqlScript
