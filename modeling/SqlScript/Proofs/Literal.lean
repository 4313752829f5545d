import SqlScript.Dialect
import SqlScript.Proofs.OpenRegion
import SqlScript.Proofs.Segments

/-! Values written as literals. Between quotes each closing character of the value is
doubled, and each backslash where it escapes; between two equal tags the value stands as
it is.

`statements_around_literal` says that no value reaches beyond its literal: the script
around it is read and split in the same way whatever the value is. -/
namespace SqlScript

namespace Quote

/-- What stands between quotes for one character of a value. -/
def double (close : Char) (escapes : Bool) (c : Char) : Text :=
  if c = close ∨ escapes = true ∧ c = '\\' then [c, c] else [c]

theorem content_double (close : Char) (escapes : Bool) (v : Text) :
    Content close escapes (v.flatMap (double close escapes)) := by
  induction v with
  | nil => exact .nil
  | cons c v ih =>
    rw [List.flatMap_cons, double]
    by_cases hc : c = close
    · rw [if_pos (.inl hc), hc]
      exact .doubled ih
    by_cases he : escapes = true ∧ c = '\\'
    · rw [if_pos (.inr he), he.2]
      exact .escaped he.1 ih
    · rw [if_neg (not_or.mpr ⟨hc, he⟩)]
      exact .plain hc he ih

end Quote

/-- The ways to write a value down. -/
inductive Literal
  | single
  | double
  | backtick
  | bracket
  | dollar (name : Text)

namespace Literal

/-- Whether the rules know literals of this kind. -/
def Enabled (rules : Rules) : Literal → Prop
  | single => True
  | double => True
  | backtick => rules.backtickNames = true
  | bracket => rules.bracketNames = true
  | dollar name => rules.dollarQuotes = true ∧ ∀ c ∈ name, TagChar c

def kind : Literal → Kind
  | single => .singleQuoted
  | double => .doubleQuoted
  | backtick => .backtickName
  | bracket => .bracketName
  | dollar _ => .dollarQuoted

def opener : Literal → Text
  | single => ['\'']
  | double => ['"']
  | backtick => ['\x60']
  | bracket => ['[']
  | dollar name => '$' :: (name ++ ['$'])

/-- What stands between the delimiters for a value. -/
def content (rules : Rules) : Literal → Text → Text
  | single => List.flatMap (Quote.double '\'' rules.backslashEscapes)
  | double => List.flatMap (Quote.double '"' false)
  | backtick => List.flatMap (Quote.double '\x60' false)
  | bracket => List.flatMap (Quote.double ']' false)
  | dollar _ => id

/-- The literal as it is read: one closed region. -/
def region (rules : Rules) (l : Literal) (v : Text) : Region :=
  ⟨l.kind, l.opener, l.content rules v ++ closer l.kind l.opener, true⟩

/-- A value as a literal. -/
def write (rules : Rules) (l : Literal) (v : Text) : Text :=
  l.opener ++ (l.content rules v ++ closer l.kind l.opener)

/-- Whether a value can be written in front of a text. Behind a quoted one another closing
character must not follow, and between tags the tag must not occur before its time. -/
def Admits : Literal → Text → Text → Prop
  | dollar name, v, _ =>
    let tag := '$' :: (name ++ ['$'])
    Text.find? tag (v ++ tag) = some v.length
  | l, _, post => ¬ closer l.kind l.opener <+: post

variable {rules : Rules} {l : Literal}

@[simp]
theorem text_region (rules : Rules) (l : Literal) (v : Text) :
    (l.region rules v).text = l.write rules v := rfl

theorem opens (hl : l.Enabled rules) : Opens rules l.kind l.opener := by
  cases l with
  | single => exact .single
  | double => exact .double
  | backtick => exact .backtick hl
  | bracket => exact .bracket hl
  | dollar name => exact .dollar hl.1 hl.2

theorem ends {v post : Text} (hv : l.Admits v post) :
    Ends rules l.kind l.opener (l.content rules v ++ closer l.kind l.opener) post := by
  have quote {close : Char} (escapes : Bool) (hc : ¬ [close] <+: post) :
      Quote.Ends close escapes (v.flatMap (Quote.double close escapes) ++ [close]) post := by
    refine ⟨_, rfl, Quote.content_double close escapes v, fun hhead => hc ?_⟩
    obtain ⟨rest, rfl⟩ := List.head?_eq_some_iff.mp hhead
    exact ⟨rest, rfl⟩
  cases l with
  | single => exact quote rules.backslashEscapes hv
  | double => exact quote false hv
  | backtick => exact quote false hv
  | bracket => exact quote false hv
  | dollar name => exact Text.endsAtFirst_append_iff.mpr hv

/-- A literal is read as one closed region, whatever its value. -/
theorem stands (hl : l.Enabled rules) {v post : Text} (hv : l.Admits v post) :
    Token.Stands rules (.region (l.region rules v)) post :=
  .closed (opens hl) (ends hv)

/-- What stands in front of a literal stands in front of it with any value. -/
theorem reads (hl : l.Enabled rules) {ts : List Token} {v v' post : Text} (hv : l.Admits v' post)
    (h : Reads rules ts (l.write rules v ++ post)) :
    Reads rules (ts ++ [.region (l.region rules v')]) post := by
  refine reads_append.mpr ⟨?_, stands hl hv, trivial⟩
  rw [write, List.append_assoc] at h
  have hreads := h.replace_region (opens hl) (y := l.content rules v' ++ closer l.kind l.opener ++ post)
  simpa [Token.text, Region.text, region] using hreads

/-- The delimiters of a literal keep what is around it from being trimmed with it. -/
theorem trim_around (hl : l.Enabled rules) (last v first : Text) :
    Text.trim (last ++ (l.write rules v ++ first)) =
      last.trimStart ++ l.write rules v ++ first.trimEnd := by
  have hk : l.kind ≠ .lineComment := by cases l <;> exact nofun
  obtain ⟨c, cs, hc, hblank, -⟩ := (opens hl).exists_cons
  obtain ⟨front, d, hd, hclosing⟩ := exists_last_of_closer (opens hl) hk
  have hblank' := not_isBlank_of_mem_closingChars d hclosing
  rw [write, hd, hc]
  have hleft := Text.trim_append hblank last (cs ++ (l.content rules v ++ front) ++ d :: first)
  rw [Text.trimEnd_append hblank'] at hleft
  simpa using hleft

end Literal

/-- **Around a literal a script is split in the same way whatever the value**. Where a
literal is reached outside every region, it is read as one closed region with any value in
its place; the statement that holds it stands between the same statements and differs in
the literal alone; and what is left open is what the text behind leaves open. -/
theorem statements_around_literal {rules : Rules} {l : Literal} (hl : l.Enabled rules)
    {pre v post : Text} (hpre : Reaches rules (pre ++ (l.write rules v ++ post)) pre.length) :
    ∃ (before after : List Text) (x y : Text), ∀ v', l.Admits v' post →
      Reaches rules (pre ++ (l.write rules v' ++ post)) pre.length ∧
      (∃ r, rules.readRegion? (l.write rules v' ++ post) = some (r, post) ∧
        r.text = l.write rules v' ∧ r.kind = l.kind ∧ r.opener = l.opener ∧ r.closed = true) ∧
      statements rules (pre ++ (l.write rules v' ++ post)) =
        before ++ (x ++ l.write rules v' ++ y) :: after ∧
      unclosed rules (pre ++ (l.write rules v' ++ post)) =
        (unclosed rules post).map (Unclosed.shift (pre ++ l.write rules v').length) := by
  obtain ⟨ts, rfl, hreads⟩ := reaches_append_iff.mp hpre
  obtain ⟨before, last, hts⟩ := exists_last_segment ts
  obtain ⟨first, after, hpost⟩ := exists_first_segment (tokens rules post)
  refine ⟨before.filterMap statement?, after.filterMap statement?, last.trimStart, first.trimEnd,
    fun v' hv' => ?_⟩
  have hall := Literal.reads hl hv' hreads
  have htext : (ts ++ [Token.region (l.region rules v')]).flatMap Token.text =
      ts.flatMap Token.text ++ l.write rules v' := by simp [Token.text]
  refine ⟨?_, ⟨l.region rules v', ?_, rfl, rfl, rfl, rfl⟩, ?_, ?_⟩
  · have hfront := (reads_append.mp hall).1
    exact reaches_append_iff.mpr ⟨ts, rfl, by simpa [Token.text] using hfront⟩
  · exact readRegion?_eq_some_iff.mpr ⟨rfl, Literal.stands hl hv'⟩
  · have htokens := tokens_of_reads hall
    rw [htext, List.append_assoc, List.append_assoc] at htokens
    rw [statements, htokens, List.singleton_append,
      statements_around_region (Literal.opens hl) hts hpost, Literal.text_region,
      Literal.trim_around hl]
  · have hopen : ∀ token ∈ ts ++ [Token.region (l.region rules v')], ¬ token.IsOpen := by
      apply hall.not_isOpen
      simp [Token.IsOpen, Literal.region]
    have hunclosed := unclosed_append hall hopen
    rwa [htext, List.append_assoc] at hunclosed

/-- A value full of delimiters in the place of a harmless one. -/
theorem statements_around_hostile_literal :
    let rules := Dialect.mysql.rules
    let pre := "a=".toList
    let post := ";b".toList
    let hostile := Literal.single.write rules "';--\\".toList
    Literal.single.Enabled rules ∧
      Reaches rules (pre ++ (Literal.single.write rules "x".toList ++ post)) pre.length ∧
      Literal.single.Admits "';--\\".toList post ∧
      ∃ before after x y,
        statements rules (pre ++ (hostile ++ post)) = before ++ (x ++ hostile ++ y) :: after := by
  have hpre : Reaches Dialect.mysql.rules ("a=".toList ++
      (Literal.single.write Dialect.mysql.rules "x".toList ++ ";b".toList)) 2 :=
    ⟨[.plain 'a', .plain '='],
      [.region ⟨.singleQuoted, ['\''], ['x', '\''], true⟩, .separator, .plain 'b'],
      by decide +kernel, rfl⟩
  have hadmits : Literal.single.Admits "';--\\".toList ";b".toList := by
    show ¬ ['\''] <+: [';', 'b']
    decide
  have hl : Literal.single.Enabled Dialect.mysql.rules := trivial
  obtain ⟨before, after, x, y, h⟩ := statements_around_literal hl hpre
  exact ⟨hl, hpre, hadmits, before, after, x, y, (h _ hadmits).2.2.1⟩

end SqlScript
