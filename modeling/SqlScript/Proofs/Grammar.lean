import SqlScript.Text
import SqlScript.Token
import SqlScript.Proofs.Region.Quote
import SqlScript.Proofs.Region.Nesting

/-! The lexical grammar: which opening sequences are in use, where the region behind each
of them ends, and what token stands in front of a text by these rules.

The grammar knows of no search. Reading and grammar agree on one token
(`Token.read?_eq_some_iff`), and so `tokenization_iff` says that the tokens of a script
are the one sequence that makes it up and obeys the grammar at every place. -/
namespace SqlScript

/-- The characters of a tag: ASCII letters, digits and the low line. -/
def TagChar (c : Char) : Prop :=
  ('a' ≤ c ∧ c ≤ 'z') ∨ ('A' ≤ c ∧ c ≤ 'Z') ∨ ('0' ≤ c ∧ c ≤ '9') ∨ c = '_'

/-- The opening sequences in use, each with the kind of the region behind it. -/
inductive Opens (rules : Rules) : Kind → Text → Prop
  | single : Opens rules .singleQuoted ['\'']
  | double : Opens rules .doubleQuoted ['"']
  | backtick : rules.backtickNames = true → Opens rules .backtickName ['\x60']
  | bracket : rules.bracketNames = true → Opens rules .bracketName ['[']
  | dollar {name : Text} : rules.dollarQuotes = true → (∀ c ∈ name, TagChar c) →
      Opens rules .dollarQuoted ('$' :: (name ++ ['$']))
  | hash : rules.hashComments = true → Opens rules .lineComment ['#']
  | dashes : Opens rules .lineComment ['-', '-']
  | block : Opens rules .blockComment ['/', '*']

/-- Whether a region opens at the start of a text. -/
def Opening (rules : Rules) (t : Text) : Prop :=
  ∃ kind opener, Opens rules kind opener ∧ opener <+: t

/-- Where a region ends: behind its opening sequence it takes `body`, and `rest` follows. -/
def Ends (rules : Rules) : Kind → Text → Text → Text → Prop
  | .singleQuoted, _, body, rest => Quote.Ends '\'' rules.backslashEscapes body rest
  | .doubleQuoted, _, body, rest => Quote.Ends '"' false body rest
  | .backtickName, _, body, rest => Quote.Ends '\x60' false body rest
  | .bracketName, _, body, rest => Quote.Ends ']' false body rest
  | .dollarQuoted, tag, body, _ => Text.EndsAtFirst tag body
  | .lineComment, _, body, rest => Comment.LineEnds body rest
  | .blockComment, _, body, _ =>
    if rules.nestedComments then Comment.NestedEnds body
    else Text.EndsAtFirst Comment.blockCloser body

/-- The token that stands in front of a text. A region that ends nowhere takes all there
is. -/
inductive Token.Stands (rules : Rules) : Token → Text → Prop
  | separator {rest : Text} : ¬ Opening rules (';' :: rest) → Stands rules .separator rest
  | plain {c : Char} {rest : Text} : c ≠ ';' → ¬ Opening rules (c :: rest) →
      Stands rules (.plain c) rest
  | closed {kind : Kind} {opener body rest : Text} : Opens rules kind opener →
      Ends rules kind opener body rest → Stands rules (.region ⟨kind, opener, body, true⟩) rest
  | unclosed {kind : Kind} {opener body : Text} : Opens rules kind opener →
      (∀ before after, before ++ after = body → ¬ Ends rules kind opener before after) →
      Stands rules (.region ⟨kind, opener, body, false⟩) []

/-- Tokens that stand one behind the other in front of a text. -/
def Reads (rules : Rules) : List Token → Text → Prop
  | [], _ => True
  | token :: ts, rest => token.Stands rules (ts.flatMap Token.text ++ rest) ∧ Reads rules ts rest

/-- Tokens that make up a script and obey the grammar at every place. -/
structure Tokenization (rules : Rules) (script : Text) (ts : List Token) : Prop where
  whole : ts.flatMap Token.text = script
  reads : Reads rules ts []

/-! ### Tags -/

theorem isTagChar_iff {c : Char} : Dollar.isTagChar c = true ↔ TagChar c := by
  unfold Dollar.isTagChar TagChar
  delta Char.isAlphanum Char.isAlpha Char.isUpper Char.isLower Char.isDigit
  simp only [Char.le_def, Bool.or_eq_true, Bool.and_eq_true, decide_eq_true_eq, beq_iff_eq, ge_iff_le]
  show (((65 ≤ c.val ∧ c.val ≤ 90) ∨ (97 ≤ c.val ∧ c.val ≤ 122)) ∨
      (48 ≤ c.val ∧ c.val ≤ 57)) ∨ c = '_' ↔
    (97 ≤ c.val ∧ c.val ≤ 122) ∨ (65 ≤ c.val ∧ c.val ≤ 90) ∨
      (48 ≤ c.val ∧ c.val ≤ 57) ∨ c = '_'
  tauto

theorem tag?_append {name : Text} (h : ∀ c ∈ name, TagChar c) (rest : Text) :
    Dollar.tag? ('$' :: (name ++ ['$']) ++ rest) = some ('$' :: (name ++ ['$'])) := by
  have hname : ∀ c ∈ name, Dollar.isTagChar c = true := fun c hc => isTagChar_iff.mpr (h c hc)
  have hsplit : '$' :: (name ++ ['$']) ++ rest = '$' :: (name ++ '$' :: rest) := by simp
  have hdollar : Dollar.isTagChar '$' = false := by decide
  rw [hsplit, Dollar.tag?, List.dropWhile_append_of_pos hname, List.takeWhile_append_of_pos hname]
  simp [hdollar]

theorem exists_tagChars_of_tag? {t tag : Text} (h : Dollar.tag? t = some tag) :
    ∃ name, (∀ c ∈ name, TagChar c) ∧ tag = '$' :: (name ++ ['$']) := by
  unfold Dollar.tag? at h
  split at h
  · next cs =>
    split at h
    · cases h
      refine ⟨cs.takeWhile Dollar.isTagChar, fun c hc => ?_, rfl⟩
      exact isTagChar_iff.mp (List.all_eq_true.mp List.all_takeWhile c hc)
    · cases h
  · cases h

/-! ### The forms in use -/

theorem mem_forms_iff {rules : Rules} {f : Form} :
    f ∈ rules.forms ↔
      f = .quoted .doubleQuoted '"' '"' false ∨
      rules.hashComments = true ∧ f = .line '#' [] ∨
      rules.dollarQuotes = true ∧ f = .dollar ∨
      f = .quoted .singleQuoted '\'' '\'' rules.backslashEscapes ∨
      f = .line '-' ['-'] ∨
      f = .block rules.nestedComments ∨
      rules.bracketNames = true ∧ f = .quoted .bracketName '[' ']' false ∨
      rules.backtickNames = true ∧ f = .quoted .backtickName '\x60' '\x60' false := by
  have key : ∀ known : List (Bool × Form),
      f ∈ (known.filter (·.1)).map (·.2) ↔ (true, f) ∈ known := by
    intro known
    simp
  rw [Rules.forms, key]
  simp only [List.mem_cons, List.not_mem_nil, or_false, Prod.mk.injEq, true_and, eq_comm (a := true)]

/-- Every opening sequence that a form reads is one of the grammar. -/
theorem opens_of_opener? {rules : Rules} {f : Form} (hf : f ∈ rules.forms) {t opener : Text}
    (h : f.opener? t = some opener) : Opens rules f.kind opener := by
  rcases mem_forms_iff.mp hf with
    rfl | ⟨hu, rfl⟩ | ⟨hu, rfl⟩ | rfl | rfl | rfl | ⟨hu, rfl⟩ | ⟨hu, rfl⟩ <;>
    simp only [Form.opener?, Option.ite_none_right_eq_some, Option.some.injEq] at h
  · exact h.2 ▸ .double
  · exact h.2 ▸ .hash hu
  · obtain ⟨name, hname, rfl⟩ := exists_tagChars_of_tag? h
    exact .dollar hu hname
  · exact h.2 ▸ .single
  · exact h.2 ▸ .dashes
  · exact h.2 ▸ .block
  · exact h.2 ▸ .bracket hu
  · exact h.2 ▸ .backtick hu

/-- Every opening sequence of the grammar is read by a form, whatever follows. -/
theorem exists_form_of_opens {rules : Rules} {kind : Kind} {opener : Text}
    (h : Opens rules kind opener) :
    ∃ f ∈ rules.forms, f.kind = kind ∧ ∀ rest, f.opener? (opener ++ rest) = some opener := by
  cases h with
  | single =>
    exact ⟨.quoted .singleQuoted '\'' '\'' rules.backslashEscapes, mem_forms_iff.mpr (by simp), rfl,
      fun _ => rfl⟩
  | double =>
    exact ⟨.quoted .doubleQuoted '"' '"' false, mem_forms_iff.mpr (by simp), rfl, fun _ => rfl⟩
  | backtick hu =>
    exact ⟨.quoted .backtickName '\x60' '\x60' false, mem_forms_iff.mpr (by simp [hu]), rfl,
      fun _ => rfl⟩
  | bracket hu =>
    exact ⟨.quoted .bracketName '[' ']' false, mem_forms_iff.mpr (by simp [hu]), rfl, fun _ => rfl⟩
  | dollar hu hname => exact ⟨.dollar, mem_forms_iff.mpr (by simp [hu]), rfl, tag?_append hname⟩
  | hash hu => exact ⟨.line '#' [], mem_forms_iff.mpr (by simp [hu]), rfl, fun _ => rfl⟩
  | dashes => exact ⟨.line '-' ['-'], mem_forms_iff.mpr (by simp), rfl, fun _ => rfl⟩
  | block => exact ⟨.block rules.nestedComments, mem_forms_iff.mpr (by simp), rfl, fun _ => rfl⟩

/-- Each form reads on to where the grammar lets its region end. -/
theorem extent_finds {rules : Rules} {f : Form} (hf : f ∈ rules.forms) (opener : Text) :
    Extent.Finds (f.extent opener) (Ends rules f.kind opener) := by
  rcases mem_forms_iff.mp hf with
    rfl | ⟨-, rfl⟩ | ⟨-, rfl⟩ | rfl | rfl | rfl | ⟨-, rfl⟩ | ⟨-, rfl⟩
  · exact Quote.extent_finds nofun
  · exact Comment.lineExtent_finds
  · exact Extent.upTo_finds opener
  · exact Quote.extent_finds (fun _ => by decide)
  · exact Comment.lineExtent_finds
  · obtain ⟨d, nests, t, e, h, b⟩ := rules
    cases nests
    · exact Extent.upTo_finds Comment.blockCloser
    · exact Comment.nestedExtent_finds
  · exact Quote.extent_finds nofun
  · exact Quote.extent_finds nofun

/-! ### One region -/

/-- Opening sequences start with a character that is neither blank nor part of a tag. -/
theorem Opens.exists_cons {rules : Rules} {kind : Kind} {opener : Text} (h : Opens rules kind opener) :
    ∃ c cs, opener = c :: cs ∧ isBlank c = false ∧ ¬ TagChar c := by
  cases h <;> exact ⟨_, _, rfl, by decide, by unfold TagChar; decide⟩

theorem Opens.ne_nil {rules : Rules} {kind : Kind} {opener : Text} (h : Opens rules kind opener) :
    opener ≠ [] := by
  obtain ⟨c, cs, rfl, -⟩ := h.exists_cons
  exact List.cons_ne_nil c cs

/-- No region opens with the separator. -/
theorem not_opening_separator (rules : Rules) (rest : Text) : ¬ Opening rules (';' :: rest) := by
  intro hopening
  obtain ⟨kind, opener, ho, tail, htail⟩ := hopening
  cases ho <;> cases htail

theorem Form.read?_append {f : Form} {opener tail : Text} {e : Extent}
    (ho : f.opener? (opener ++ tail) = some opener) (he : f.extent opener tail = e) :
    f.read? (opener ++ tail) = some (⟨f.kind, opener, e.taken, e.closed⟩, e.rest) := by
  rw [Form.read?, ho, Option.map_some, List.drop_left, he]

/-- The form that reads at the start of a text is found by its first character. -/
theorem readRegion?_of_read? {rules : Rules} {f : Form} (hf : f ∈ rules.forms) {t rest : Text}
    {r : Region} (h : f.read? t = some (r, rest)) : rules.readRegion? t = some (r, rest) := by
  obtain ⟨opener, ho, -⟩ := Option.map_eq_some_iff.mp h
  obtain ⟨others, hothers⟩ := List.head?_eq_some_iff.mp (Form.head?_opener? ho)
  obtain ⟨tail, rfl⟩ := Form.exists_rest_of_opener? ho
  subst hothers
  rw [List.cons_append, Rules.readRegion?, Rules.form?_eq_some_iff.mpr ⟨hf, rfl⟩]
  exact h

theorem Token.Stands.opens {rules : Rules} {r : Region} {rest : Text}
    (h : Token.Stands rules (.region r) rest) : Opens rules r.kind r.opener := by
  cases h with
  | closed hopens => exact hopens
  | unclosed hopens => exact hopens

/-- What a form reads stands there by the grammar. -/
theorem stands_of_read? {rules : Rules} {f : Form} (hf : f ∈ rules.forms) {t rest : Text}
    {r : Region} (h : f.read? t = some (r, rest)) : Token.Stands rules (.region r) rest := by
  obtain ⟨opener, ho, heq⟩ := Option.map_eq_some_iff.mp h
  have hopens := opens_of_opener? hf ho
  have hfinds := extent_finds hf opener
  generalize t.drop opener.length = tail at heq
  dsimp only at heq
  cases hc : (f.extent opener tail).closed with
  | true =>
    have hends := hfinds.sound tail hc
    rw [hc] at heq
    cases heq
    exact .closed hopens hends
  | false =>
    have hrest := (hfinds.cuts tail).rest_of_open hc
    have hwhole := (hfinds.cuts tail).whole
    rw [hrest, List.append_nil] at hwhole
    have he : f.extent opener tail = ⟨tail, false, []⟩ := by
      cases he : f.extent opener tail
      simp_all
    rw [he] at heq
    cases heq
    exact .unclosed hopens (hfinds.open_iff.mp he)

/-- Reading a region is finding one that stands there by the grammar. -/
theorem readRegion?_eq_some_iff {rules : Rules} {t rest : Text} {r : Region} :
    rules.readRegion? t = some (r, rest) ↔
      r.text ++ rest = t ∧ Token.Stands rules (.region r) rest := by
  refine ⟨?_, ?_⟩
  · intro h
    obtain ⟨f, hf, hread⟩ := Rules.exists_form_of_readRegion? h
    exact ⟨Form.read?_text hread, stands_of_read? hf hread⟩
  · intro hfound
    obtain ⟨rfl, hstands⟩ := hfound
    cases hstands with
    | @closed kind opener body rest hopens hends =>
      obtain ⟨f, hf, rfl, ho⟩ := exists_form_of_opens hopens
      apply readRegion?_of_read? hf
      rw [Region.text, List.append_assoc]
      exact Form.read?_append (ho _) ((extent_finds hf opener).closed_iff.mpr ⟨rfl, hends⟩)
    | @unclosed kind opener body hopens hends =>
      obtain ⟨f, hf, rfl, ho⟩ := exists_form_of_opens hopens
      apply readRegion?_of_read? hf
      rw [Region.text, List.append_nil]
      exact Form.read?_append (ho _) ((extent_finds hf opener).open_iff.mpr hends)

/-- A region is read wherever one opens, and nowhere else. -/
theorem readRegion?_eq_none_iff {rules : Rules} {t : Text} :
    rules.readRegion? t = none ↔ ¬ Opening rules t := by
  refine ⟨?_, ?_⟩
  · intro h hopening
    obtain ⟨kind, opener, hopens, tail, rfl⟩ := hopening
    obtain ⟨f, hf, -, ho⟩ := exists_form_of_opens hopens
    rw [readRegion?_of_read? hf (Form.read?_append (ho tail) rfl)] at h
    cases h
  · intro hn
    cases h : rules.readRegion? t with
    | none => rfl
    | some found =>
      obtain ⟨r, rest⟩ := found
      obtain ⟨rfl, hstands⟩ := readRegion?_eq_some_iff.mp h
      refine absurd ⟨r.kind, r.opener, hstands.opens, r.body ++ rest, ?_⟩ hn
      rw [Region.text, List.append_assoc]

/-! ### One token -/

theorem Token.Stands.text_ne_nil {rules : Rules} {token : Token} {rest : Text}
    (h : token.Stands rules rest) : token.text ≠ [] := by
  cases token with
  | separator => exact List.cons_ne_nil _ _
  | plain c => exact List.cons_ne_nil _ _
  | region r => exact List.append_ne_nil_of_left_ne_nil h.opens.ne_nil r.body

/-- Reading a token is finding the one that stands there by the grammar. -/
theorem Token.read?_eq_some_iff {rules : Rules} {t rest : Text} {token : Token} :
    Token.read? rules t = some (token, rest) ↔ token.text ++ rest = t ∧ token.Stands rules rest := by
  refine ⟨?_, ?_⟩
  · intro h
    refine ⟨Token.read?_text h, ?_⟩
    cases t with
    | nil => cases h
    | cons c cs =>
      rw [Token.read?] at h
      split at h
      · cases h
        exact .separator (not_opening_separator rules rest)
      · next hc =>
        split at h
        · next r rest hr =>
          cases h
          exact (readRegion?_eq_some_iff.mp hr).2
        · next hr =>
          cases h
          exact .plain hc (readRegion?_eq_none_iff.mp hr)
  · intro hfound
    obtain ⟨rfl, h⟩ := hfound
    cases token with
    | separator => rfl
    | plain c =>
      cases h with
      | plain hc hn =>
        show Token.read? rules (c :: rest) = _
        rw [Token.read?, if_neg hc, readRegion?_eq_none_iff.mpr hn]
    | region r =>
      obtain ⟨c, cs, hcs⟩ := List.exists_cons_of_ne_nil h.text_ne_nil
      have hr := readRegion?_eq_some_iff.mpr ⟨rfl, h⟩
      rw [Token.text] at hcs ⊢
      rw [hcs, List.cons_append] at hr ⊢
      have hc : c ≠ ';' := by
        intro heq
        subst heq
        exact not_opening_separator rules _
          ⟨r.kind, r.opener, h.opens, r.body ++ rest, by
            rw [← List.append_assoc, ← List.cons_append, ← hcs, Region.text]⟩
      rw [Token.read?, if_neg hc, hr]

/-! ### All tokens -/

theorem reads_append {rules : Rules} {a b : List Token} {rest : Text} :
    Reads rules (a ++ b) rest ↔
      Reads rules a (b.flatMap Token.text ++ rest) ∧ Reads rules b rest := by
  induction a with
  | nil => simp [Reads]
  | cons token a ih =>
    rw [List.cons_append, Reads, Reads, ih, List.flatMap_append, List.append_assoc, and_assoc]

theorem tokens_of_reads {rules : Rules} {ts : List Token} {rest : Text} (h : Reads rules ts rest) :
    tokens rules (ts.flatMap Token.text ++ rest) = ts ++ tokens rules rest := by
  induction ts with
  | nil => rfl
  | cons token ts ih =>
    have hread := Token.read?_eq_some_iff.mpr ⟨rfl, h.1⟩
    rw [List.flatMap_cons, List.append_assoc, tokens_of_read? hread, ih h.2, List.cons_append]

/-- What stands at the end of a script are all its tokens. -/
theorem tokens_of_reads_nil {rules : Rules} {ts : List Token} (h : Reads rules ts []) :
    tokens rules (ts.flatMap Token.text) = ts := by
  have htokens := tokens_of_reads h
  rwa [tokens_nil, List.append_nil, List.append_nil] at htokens

theorem reads_tokens (rules : Rules) (script : Text) : Reads rules (tokens rules script) [] := by
  induction script using tokens.induct rules with
  | case1 t h =>
    rw [Token.read?_eq_none_iff.mp h, tokens_nil]
    trivial
  | case2 t token rest h ih =>
    rw [tokens_of_read? h]
    refine ⟨?_, ih⟩
    rw [tokens_text, List.append_nil]
    exact (Token.read?_eq_some_iff.mp h).2

/-- Reading the script comes to this offset outside every region. -/
def Reaches (rules : Rules) (script : Text) (offset : Nat) : Prop :=
  ∃ a b, tokens rules script = a ++ b ∧ (a.flatMap Token.text).length = offset

/-- Reading comes to the end of a first part exactly if tokens that make it up stand in
front of the rest. -/
theorem reaches_append_iff {rules : Rules} {pre rest : Text} :
    Reaches rules (pre ++ rest) pre.length ↔
      ∃ ts, ts.flatMap Token.text = pre ∧ Reads rules ts rest := by
  refine ⟨?_, ?_⟩
  · intro hreaches
    obtain ⟨a, b, htokens, hlength⟩ := hreaches
    have hwhole := tokens_text rules (pre ++ rest)
    have hreads := reads_tokens rules (pre ++ rest)
    rw [htokens, List.flatMap_append] at hwhole
    obtain ⟨hpre, hrest⟩ := List.append_inj hwhole hlength
    rw [htokens, reads_append, hrest, List.append_nil] at hreads
    exact ⟨a, hpre, hreads.1⟩
  · intro hreaches
    obtain ⟨ts, rfl, hreads⟩ := hreaches
    exact ⟨ts, tokens rules rest, tokens_of_reads hreads, rfl⟩

/-- **The tokens of a script are the one sequence that makes it up and obeys the grammar**
at every place. -/
theorem tokenization_iff (rules : Rules) (script : Text) (ts : List Token) :
    Tokenization rules script ts ↔ ts = tokens rules script := by
  refine ⟨?_, ?_⟩
  · intro htokenization
    obtain ⟨rfl, hreads⟩ := htokenization
    exact (tokens_of_reads_nil hreads).symm
  · intro heq
    subst heq
    exact ⟨tokens_text rules script, reads_tokens rules script⟩

end SqlScript
