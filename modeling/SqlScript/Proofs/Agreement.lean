import Mathlib.Data.List.Infix
import SqlScript.Token
import SqlScript.Proofs.Diagnosis
import SqlScript.Proofs.Outlook
import SqlScript.Proofs.Region.BlockComment

/-! When two sets of rules read a script alike.

A form that is in use under the one and not under the other counts only where the script
holds what it opens with; a backslash rule, where there is a backslash; nesting, where an
opening mark stands in a comment. `Indifferent` says that the script holds nothing of the
sort, and `reading_agrees` that it is then read token by token in the same way. -/
namespace SqlScript

open Comment (blockOpener blockCloser)

/-- A dollar sign, tag characters or nothing, and a dollar sign again. -/
def HoldsTag (t : Text) : Prop :=
  ∃ name : Text, (∀ c ∈ name, TagChar c) ∧ '$' :: (name ++ ['$']) <:+: t

/-- An opening mark between another one and the closing mark next to that, which it may
share a character with. -/
def HoldsNested (t : Text) : Prop :=
  ∃ before body after, before ++ (blockOpener ++ (body ++ after)) = t ∧
    Text.EndsAtFirst blockCloser body ∧ blockOpener <:+: body

/-- Two sets of rules differ in nothing that the script holds. -/
structure Indifferent (rules rules' : Rules) (script : Text) : Prop where
  backticks : rules.backtickNames ≠ rules'.backtickNames → '\x60' ∉ script
  hashes : rules.hashComments ≠ rules'.hashComments → '#' ∉ script
  brackets : rules.bracketNames ≠ rules'.bracketNames → '[' ∉ script
  backslashes : rules.backslashEscapes ≠ rules'.backslashEscapes → '\\' ∉ script
  tags : rules.dollarQuotes ≠ rules'.dollarQuotes → ¬ HoldsTag script
  nesting : rules.nestedComments ≠ rules'.nestedComments → ¬ HoldsNested script

variable {rules rules' : Rules} {script t : Text}

/-! ### What a script holds -/

theorem HoldsTag.of_suffix (h : HoldsTag t) (ht : t <:+ script) : HoldsTag script := by
  obtain ⟨name, hname, hstands⟩ := h
  exact ⟨name, hname, hstands.trans ht.isInfix⟩

theorem HoldsNested.of_suffix (h : HoldsNested t) (ht : t <:+ script) : HoldsNested script := by
  obtain ⟨before, body, after, rfl, hends, hmark⟩ := h
  obtain ⟨front, rfl⟩ := ht
  exact ⟨front ++ before, body, after, List.append_assoc .., hends, hmark⟩

theorem holdsTag_of_tag? {tag : Text} (h : Dollar.tag? t = some tag) : HoldsTag t := by
  obtain ⟨name, hname, rfl⟩ := exists_tagChars_of_tag? h
  obtain ⟨rest, hrest⟩ := Dollar.exists_rest_of_tag? h
  exact ⟨name, hname, [], rest, hrest⟩

theorem holdsTag_iff : HoldsTag t ↔ ∃ s ∈ t.tails, (Dollar.tag? s).isSome = true := by
  constructor
  · intro hholds
    obtain ⟨name, hname, before, after, rfl⟩ := hholds
    refine ⟨'$' :: (name ++ ['$']) ++ after, (List.mem_tails _ _).mpr ⟨before, ?_⟩, ?_⟩
    · rw [List.append_assoc]
    · rw [tag?_append hname]
      rfl
  · intro htag
    obtain ⟨s, hs, htag⟩ := htag
    obtain ⟨tag, htag⟩ := Option.isSome_iff_exists.mp htag
    exact (holdsTag_of_tag? htag).of_suffix ((List.mem_tails _ _).mp hs)

theorem holdsNested_iff :
    HoldsNested t ↔ ∃ s ∈ t.tails, blockOpener <+: s ∧
      ∃ found ∈ Text.cut? blockCloser (s.drop 2), blockOpener <:+: found.1 ++ blockCloser := by
  constructor
  · intro hholds
    obtain ⟨before, body, after, rfl, hends, hmark⟩ := hholds
    obtain ⟨front, rfl⟩ := hends.ends
    refine ⟨_, (List.mem_tails _ _).mpr ⟨before, rfl⟩, List.prefix_append .., (front, after), ?_, hmark⟩
    rw [List.append_assoc]
    exact hends.cut? after
  · intro hsearch
    obtain ⟨s, hs, ⟨u, rfl⟩, found, hfound, hmark⟩ := hsearch
    have hwhole := Text.append_of_cut? hfound
    have hnested : HoldsNested (blockOpener ++ u) := by
      refine ⟨[], found.1 ++ blockCloser, found.2, ?_, Text.endsAtFirst_of_cut? hfound, hmark⟩
      rw [List.append_assoc, hwhole]
      rfl
    exact hnested.of_suffix ((List.mem_tails _ _).mp hs)

instance : Decidable (HoldsTag t) := decidable_of_iff _ holdsTag_iff.symm

instance : Decidable (HoldsNested t) := decidable_of_iff _ holdsNested_iff.symm

example : HoldsNested "/* a /*/".toList := by decide

example : ¬ HoldsNested "/*/ b **/ /*".toList := by decide

namespace Indifferent

theorem symm (h : Indifferent rules rules' script) : Indifferent rules' rules script where
  backticks hne := h.backticks hne.symm
  hashes hne := h.hashes hne.symm
  brackets hne := h.brackets hne.symm
  backslashes hne := h.backslashes hne.symm
  tags hne := h.tags hne.symm
  nesting hne := h.nesting hne.symm

/-- What stands behind the beginning of a script holds nothing that the script does not. -/
theorem of_suffix (h : Indifferent rules rules' script) (ht : t <:+ script) :
    Indifferent rules rules' t where
  backticks hne hmem := h.backticks hne (ht.mem hmem)
  hashes hne hmem := h.hashes hne (ht.mem hmem)
  brackets hne hmem := h.brackets hne (ht.mem hmem)
  backslashes hne hmem := h.backslashes hne (ht.mem hmem)
  tags hne htag := h.tags hne (htag.of_suffix ht)
  nesting hne hnested := h.nesting hne (hnested.of_suffix ht)

end Indifferent

/-! ### One region -/

namespace Form

theorem initial_mem_of_read? {f : Form} {found : Region × Text} (h : f.read? t = some found) :
    f.initial ∈ t := by
  obtain ⟨opener, ho, -⟩ := Option.map_eq_some_iff.mp h
  obtain ⟨rest, rfl⟩ := exists_rest_of_opener? ho
  exact List.mem_append_left rest (List.mem_of_head? (head?_opener? ho))

theorem holdsTag_of_read? {found : Region × Text} (h : Form.dollar.read? t = some found) :
    HoldsTag t := by
  obtain ⟨tag, ho, -⟩ := Option.map_eq_some_iff.mp h
  exact holdsTag_of_tag? ho

/-- Without a backslash it does not matter whether backslashes escape. -/
theorem read?_quoted_eq (kind : Kind) (opening close : Char) (escapes escapes' : Bool)
    (h : '\\' ∉ t) :
    (quoted kind opening close escapes).read? t = (quoted kind opening close escapes').read? t := by
  have hextent (n : Nat) :
      Quote.extent close escapes (t.drop n) = Quote.extent close escapes' (t.drop n) := by
    have hdrop : '\\' ∉ t.drop n := fun hmem => h (List.mem_of_mem_drop hmem)
    exact (Quote.extent_eq_of_not_mem hdrop).trans (Quote.extent_eq_of_not_mem hdrop).symm
  simp only [read?, opener?, extent, Form.kind, hextent]

/-- Where no comment holds an opening mark it does not matter whether comments nest. -/
theorem read?_block_eq (nests nests' : Bool) (h : ¬ HoldsNested t) :
    (block nests).read? t = (block nests').read? t := by
  by_cases hopener : blockOpener <+: t
  · obtain ⟨u, rfl⟩ := hopener
    have hflat : Comment.nestedExtent 0 u = .upTo blockCloser u := by
      apply Comment.nestedExtent_eq_upTo
      intro body after hwhole hends hmark
      exact h ⟨[], body, after, by rw [hwhole]; rfl, hends, hmark⟩
    have hextent (nests : Bool) : Comment.blockExtent nests u = .upTo blockCloser u := by
      cases nests
      · rfl
      · exact hflat
    rw [Comment.read?_block, Comment.read?_block, hextent, hextent]
  · have hnone (nests : Bool) : (block nests).read? t = none := by
      rw [read?, opener?, if_neg (mt List.isPrefixOf_iff_prefix.mp hopener)]
      rfl
    rw [hnone, hnone]

end Form

namespace Indifferent

/-- What a form reads under the one set of rules, a form reads under the other. -/
theorem exists_form (h : Indifferent rules rules' t) {f : Form} (hf : f ∈ rules.forms)
    {found : Region × Text} (hread : f.read? t = some found) :
    ∃ g ∈ rules'.forms, g.read? t = some found := by
  -- A form that opens something in the text is in use under both sets of rules or neither.
  have inUse {flag flag' : Bool} (hu : flag = true) (hheld : ¬ (flag ≠ flag')) : flag' = true :=
    hu ▸ (not_not.mp hheld).symm
  have hinitial := Form.initial_mem_of_read? hread
  rcases mem_forms_iff.mp hf with
    rfl | ⟨hu, rfl⟩ | ⟨hu, rfl⟩ | rfl | rfl | rfl | ⟨hu, rfl⟩ | ⟨hu, rfl⟩
  · exact ⟨_, mem_forms_iff.mpr (by simp), hread⟩
  · have hu' := inUse hu fun hne => h.hashes hne hinitial
    exact ⟨_, mem_forms_iff.mpr (by simp [hu']), hread⟩
  · have hu' := inUse hu fun hne => h.tags hne (Form.holdsTag_of_read? hread)
    exact ⟨_, mem_forms_iff.mpr (by simp [hu']), hread⟩
  · refine ⟨.quoted .singleQuoted '\'' '\'' rules'.backslashEscapes, mem_forms_iff.mpr (by simp), ?_⟩
    by_cases he : rules.backslashEscapes = rules'.backslashEscapes
    · rwa [← he]
    · rwa [← Form.read?_quoted_eq _ _ _ rules.backslashEscapes _ (h.backslashes he)]
  · exact ⟨_, mem_forms_iff.mpr (by simp), hread⟩
  · refine ⟨.block rules'.nestedComments, mem_forms_iff.mpr (by simp), ?_⟩
    by_cases hn : rules.nestedComments = rules'.nestedComments
    · rwa [← hn]
    · rwa [← Form.read?_block_eq rules.nestedComments _ (h.nesting hn)]
  · have hu' := inUse hu fun hne => h.brackets hne hinitial
    exact ⟨_, mem_forms_iff.mpr (by simp [hu']), hread⟩
  · have hu' := inUse hu fun hne => h.backticks hne hinitial
    exact ⟨_, mem_forms_iff.mpr (by simp [hu']), hread⟩

theorem readRegion?_eq (h : Indifferent rules rules' t) :
    rules.readRegion? t = rules'.readRegion? t := by
  have other {r s : Rules} (h : Indifferent r s t) {found : Region × Text}
      (hread : r.readRegion? t = some found) : s.readRegion? t = some found := by
    obtain ⟨f, hf, hfound⟩ := Rules.exists_form_of_readRegion? hread
    obtain ⟨g, hg, hfound'⟩ := h.exists_form hf hfound
    exact readRegion?_of_read? hg hfound'
  exact Option.ext fun found => ⟨other h, other h.symm⟩

theorem read?_eq (h : Indifferent rules rules' t) : Token.read? rules t = Token.read? rules' t := by
  cases t with
  | nil => rfl
  | cons c cs => rw [Token.read?, Token.read?, h.readRegion?_eq]

/-- **A script is read token by token in the same way.** -/
theorem tokens_eq (h : Indifferent rules rules' script) : tokens rules script = tokens rules' script := by
  induction script using tokens.induct rules with
  | case1 t ht => rw [Token.read?_eq_none_iff.mp ht, tokens_nil, tokens_nil]
  | case2 t token rest ht ih =>
    have hrest : rest <:+ t := ⟨token.text, Token.read?_text ht⟩
    have ht' : Token.read? rules' t = some (token, rest) := h.read?_eq ▸ ht
    rw [tokens_of_read? ht, tokens_of_read? ht', ih (h.of_suffix hrest)]

/-- The regions read are the same, at the same places. An attempt that comes to nothing may be
made under the one set of rules only. -/
theorem attempts_eq (h : Indifferent rules rules' script) :
    (attempts rules script).filter (·.region.isSome) =
      (attempts rules' script).filter (·.region.isSome) := by
  have hplain (rules : Rules) (offset : Nat) (c : Char) :
      (Attempt.ofToken? rules offset (.plain c)).filter (·.region.isSome) = none := by
    rw [Attempt.ofToken?]
    split <;> rfl
  have hattempt (offset : Nat) (token : Token) :
      (Attempt.ofToken? rules offset token).filter (·.region.isSome) =
        (Attempt.ofToken? rules' offset token).filter (·.region.isSome) := by
    cases token with
    | separator => rfl
    | plain c => rw [hplain, hplain]
    | region r => rfl
  rw [attempts, attempts, h.tokens_eq, attemptsFrom, attemptsFrom, List.filter_filterMap,
    List.filter_filterMap]
  exact List.filterMap_congr fun place _ => hattempt place.1 place.2

end Indifferent

/-! ### Whole scripts -/

/-- A script that is read in the same way by two sets of rules. -/
structure Agrees (rules rules' : Rules) (script : Text) : Prop where
  regions : (attempts rules script).filter (·.region.isSome) =
    (attempts rules' script).filter (·.region.isSome)
  statements : statements rules script = statements rules' script
  unclosed : unclosed rules script = unclosed rules' script
  /-- Readers take note of the same open regions. -/
  notices : (Reader.start rules script).drain.notices = (Reader.start rules' script).drain.notices

/-- **A rule counts only where the script holds its form.** Sets of rules that differ in
nothing that a script holds find the same regions and statements, and report the same open
regions. So do dialects with such rules, however they are chosen. -/
theorem reading_agrees (h : Indifferent rules rules' script) :
    Agrees rules rules' script ∧
      ∀ (d d' : Dialect) (choice choice' : Dialect.Designator), d.rules = rules → d'.rules = rules' →
        choice.resolve = .ok d → choice'.resolve = .ok d' →
        split script choice = split script choice' ∧
          diagnose script choice = diagnose script choice' ∧
          check script choice = check script choice' := by
  have hstatements : statements rules script = statements rules' script := by
    rw [statements, statements, h.tokens_eq]
  have hunclosed : unclosed rules script = unclosed rules' script := by
    rw [unclosed, unclosed, h.tokens_eq]
  refine ⟨⟨h.attempts_eq, hstatements, hunclosed, ?_⟩, ?_⟩
  · rw [(Reader.drain_start rules script).2, (Reader.drain_start rules' script).2, hunclosed]
  · intro d d' choice choice' hd hd' hchoice hchoice'
    subst hd hd'
    have hsplit : split script choice = split script choice' := by
      rw [split_of_resolve hchoice, split_of_resolve hchoice', hstatements, hunclosed]
    have hdiagnose : diagnose script choice = diagnose script choice' := by
      rw [diagnose_of_resolve hchoice, diagnose_of_resolve hchoice', hstatements, hunclosed]
    exact ⟨hsplit, hdiagnose, by rw [check, check, hdiagnose]⟩

/-- A parameter and a comment full of slashes and stars are nothing that the two dialects
read in different ways. -/
theorem reading_agrees_postgres_mysql :
    let script := "$1;/*x;/y;**/ - ';' --/*\n;$".toList
    Indifferent Dialect.postgres.rules Dialect.mysql.rules script ∧
      Agrees Dialect.postgres.rules Dialect.mysql.rules script ∧
      split script (.datum (.text " PG".toList)) = split script (.datum (.text "MariaDB".toList)) := by
  intro script
  have hindifferent : Indifferent Dialect.postgres.rules Dialect.mysql.rules script :=
    { backticks := fun _ => by decide
      hashes := fun _ => by decide
      brackets := fun _ => by decide
      backslashes := fun _ => by decide
      tags := fun _ => by decide
      nesting := fun _ => by decide }
  obtain ⟨hagrees, hdialects⟩ := reading_agrees hindifferent
  exact ⟨hindifferent, hagrees, (hdialects .postgres .mysql _ _ rfl rfl rfl rfl).1⟩

end SqlScript
