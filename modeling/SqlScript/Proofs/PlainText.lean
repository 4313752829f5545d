import SqlScript.Proofs.Accounting
import SqlScript.Proofs.Agreement

/-! Scripts in which no region opens.

`OpensNothing` says that none of the opening sequences in use stands anywhere in the script.
What merely looks like the beginning of one may: a lone minus sign or slash, a dollar sign
without a tag. Such a script is read character by character (`tokens_of_opensNothing`), so that
splitting it is splitting it at every semicolon (`statements_eq_splitOn`). -/
namespace SqlScript

open Comment (blockOpener)

/-- A script that holds none of the opening sequences in use. -/
structure OpensNothing (rules : Rules) (script : Text) : Prop where
  singleQuotes : '\'' ∉ script
  doubleQuotes : '"' ∉ script
  dashes : ¬ ['-', '-'] <:+: script
  blocks : ¬ blockOpener <:+: script
  backticks : rules.backtickNames = true → '\x60' ∉ script
  brackets : rules.bracketNames = true → '[' ∉ script
  hashes : rules.hashComments = true → '#' ∉ script
  tags : rules.dollarQuotes = true → ¬ HoldsTag script

/-- A character as the token that it is where no region opens. -/
def Token.ofChar (c : Char) : Token := if c = ';' then .separator else .plain c

variable {rules : Rules} {script t : Text}

/-! ### Opening sequences -/

/-- The opening sequences of the grammar are the ones spoken of. -/
theorem opensNothing_iff :
    OpensNothing rules script ↔
      ∀ kind opener, Opens rules kind opener → ¬ opener <:+: script := by
  have one (c : Char) : [c] <:+: script ↔ c ∈ script := List.singleton_infix_iff c script
  constructor
  · intro h kind opener hopens hstands
    cases hopens with
    | single => exact h.singleQuotes ((one _).mp hstands)
    | double => exact h.doubleQuotes ((one _).mp hstands)
    | backtick hu => exact h.backticks hu ((one _).mp hstands)
    | bracket hu => exact h.brackets hu ((one _).mp hstands)
    | @dollar name hu hname => exact h.tags hu ⟨name, hname, hstands⟩
    | hash hu => exact h.hashes hu ((one _).mp hstands)
    | dashes => exact h.dashes hstands
    | block => exact h.blocks hstands
  · intro h
    exact
      { singleQuotes := fun hmem => h _ _ .single ((one _).mpr hmem)
        doubleQuotes := fun hmem => h _ _ .double ((one _).mpr hmem)
        dashes := h _ _ .dashes
        blocks := h _ _ .block
        backticks := fun hu hmem => h _ _ (.backtick hu) ((one _).mpr hmem)
        brackets := fun hu hmem => h _ _ (.bracket hu) ((one _).mpr hmem)
        hashes := fun hu hmem => h _ _ (.hash hu) ((one _).mpr hmem)
        tags := fun hu ⟨_, hname, hstands⟩ => h _ _ (.dollar hu hname) hstands }

namespace OpensNothing

theorem not_opening (h : OpensNothing rules script) : ¬ Opening rules script := by
  rintro ⟨kind, opener, hopens, hprefix⟩
  exact opensNothing_iff.mp h kind opener hopens hprefix.isInfix

theorem of_suffix (h : OpensNothing rules script) (ht : t <:+ script) : OpensNothing rules t :=
  opensNothing_iff.mpr fun kind opener hopens hstands =>
    opensNothing_iff.mp h kind opener hopens (hstands.trans ht.isInfix)

end OpensNothing

/-! ### Character by character -/

/-- Where no region opens, the next character is the next token. -/
theorem read?_of_not_opening {c : Char} {cs : Text} (h : ¬ Opening rules (c :: cs)) :
    Token.read? rules (c :: cs) = some (.ofChar c, cs) := by
  by_cases hc : c = ';'
  · rw [Token.read?, if_pos hc, Token.ofChar, if_pos hc]
  · rw [Token.read?, if_neg hc, readRegion?_eq_none_iff.mpr h, Token.ofChar, if_neg hc]

/-- **A script in which nothing opens is read character by character.** -/
theorem tokens_of_opensNothing (h : OpensNothing rules script) :
    tokens rules script = script.map .ofChar := by
  induction script with
  | nil => exact tokens_nil rules
  | cons c cs ih =>
    rw [tokens_of_read? (read?_of_not_opening h.not_opening), ih (h.of_suffix (List.suffix_cons c cs)),
      List.map_cons]

theorem ofChar_ne_region (c : Char) (r : Region) : Token.ofChar c ≠ .region r := by
  rw [Token.ofChar]
  split <;> exact Token.noConfusion

/-- The segments of characters are what stands between the semicolons. -/
theorem segments_ofChar (t : Text) : segments (t.map .ofChar) = t.splitOn ';' := by
  induction t with
  | nil => rfl
  | cons c t ih =>
    rw [List.map_cons, List.splitOn_cons_eq_if_modifyHead, ← ih, Token.ofChar]
    by_cases hc : c = ';'
    · rw [if_pos hc, if_pos (beq_iff_eq.mpr hc), segments]
    · rw [if_neg hc, if_neg (mt beq_iff_eq.mp hc)]
      rfl

/-- An attempt at a character that is a token by itself comes to nothing. -/
theorem attempt_of_ofChar {offset : Nat} {c : Char} {a : Attempt}
    (h : Attempt.ofToken? rules offset (.ofChar c) = some a) : a = ⟨offset, offset, none⟩ := by
  rw [Token.ofChar] at h
  by_cases hc : c = ';'
  · rw [if_pos hc] at h
    cases h
  · rw [if_neg hc, Attempt.ofToken?, Option.ite_none_right_eq_some] at h
    exact (Option.some.inj h.2).symm

/-! ### Whole scripts -/

theorem unclosed_of_opensNothing (h : OpensNothing rules script) : unclosed rules script = [] := by
  rw [unclosed, unclosedFrom_eq_nil_iff, tokens_of_opensNothing h]
  intro token htoken hopen
  obtain ⟨c, -, rfl⟩ := List.mem_map.mp htoken
  cases hregion : Token.ofChar c with
  | separator => rw [hregion] at hopen; exact hopen
  | plain d => rw [hregion] at hopen; exact hopen
  | region r => exact ofChar_ne_region c r hregion

theorem statements_of_opensNothing (h : OpensNothing rules script) :
    statements rules script =
      ((script.splitOn ';').filter fun piece => Text.trim piece ≠ []).map Text.trim := by
  rw [statements, tokens_of_opensNothing h, segments_ofChar, filterMap_statement?, List.filter_map]
  rfl

theorem attempts_of_opensNothing (h : OpensNothing rules script) :
    ∀ a ∈ attempts rules script, a.region = none ∧ a.stop = a.start := by
  intro a ha
  obtain ⟨⟨offset, token⟩, hplace, ha⟩ := List.mem_filterMap.mp ha
  obtain ⟨before, after, htokens, -⟩ := mem_locate_iff.mp hplace
  rw [tokens_of_opensNothing h] at htokens
  have htoken : token ∈ script.map Token.ofChar := by
    rw [htokens]
    exact List.mem_append_right before List.mem_cons_self
  obtain ⟨c, -, rfl⟩ := List.mem_map.mp htoken
  rw [attempt_of_ofChar ha]
  exact ⟨rfl, rfl⟩

/-- **Without opening sequences a script is split at its semicolons.** The statements are what
stands between them, trimmed, where anything remains. Every attempt to read a region comes to
nothing and moves nowhere, and nothing is left open, reported or taken note of, whichever way
one asks. -/
theorem statements_eq_splitOn (h : OpensNothing rules script) :
    let found := ((script.splitOn ';').filter fun piece => Text.trim piece ≠ []).map Text.trim
    statements rules script = found ∧ unclosed rules script = [] ∧
      (∀ a ∈ attempts rules script, a.region = none ∧ a.stop = a.start) ∧
      (Reader.start rules script).drain.values = found ∧
      (Reader.start rules script).drain.notices = [] ∧
      ∀ (d : Dialect) (choice : Dialect.Designator), choice.resolve = .ok d → d.rules = rules →
        split script choice = ⟨.ok found, []⟩ ∧
          diagnose script choice = ⟨.ok ⟨found, []⟩, []⟩ ∧
          check script choice = ⟨.ok (), []⟩ := by
  intro found
  have hstatements : statements rules script = found := statements_of_opensNothing h
  have hunclosed := unclosed_of_opensNothing h
  obtain ⟨hvalues, hnotices⟩ := Reader.drain_start rules script
  refine ⟨hstatements, hunclosed, attempts_of_opensNothing h, hvalues.trans hstatements,
    hnotices.trans hunclosed, ?_⟩
  intro d choice hchoice hd
  subst hd
  refine ⟨?_, ?_, check_of_balanced hchoice hunclosed⟩
  · rw [split_of_resolve hchoice, hstatements, hunclosed]
  · rw [diagnose_of_resolve hchoice, hstatements, hunclosed]

/-- Lone signs, a parameter, and quotes and comments that only other dialects know. -/
theorem statements_eq_splitOn_lone_signs :
    let script := "$1 -/ `a;b` #-\n; ;[c;$d -$".toList
    OpensNothing Dialect.postgres.rules script ∧
      split script (.member .postgres) =
        ⟨.ok ["$1 -/ `a".toList, "b` #-".toList, "[c".toList, "$d -$".toList], []⟩ ∧
      check script (.member .postgres) = ⟨.ok (), []⟩ := by
  intro script
  have hplain : OpensNothing Dialect.postgres.rules script :=
    { singleQuotes := by decide
      doubleQuotes := by decide
      dashes := by decide
      blocks := by decide
      backticks := nofun
      brackets := nofun
      hashes := nofun
      tags := fun _ => by decide }
  obtain ⟨-, -, -, -, -, hdialects⟩ := statements_eq_splitOn hplain
  obtain ⟨hsplit, -, hcheck⟩ := hdialects .postgres (.member .postgres) rfl rfl
  exact ⟨hplain, hsplit, hcheck⟩

end SqlScript
