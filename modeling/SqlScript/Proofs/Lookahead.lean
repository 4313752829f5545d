import SqlScript.Proofs.Grammar

/-! How far a token looks past its end.

A closed token that is no line comment looks at one more character, and an ordinary
dollar sign at the tag characters behind it; nothing else of the text that follows counts.
`Replaces` says of two texts that no token tells them apart, and `Reads.replace` that
the tokens in front of the one stand in front of the other. -/
namespace SqlScript

namespace Token

/-- A region that is not closed. -/
def IsOpen : Token → Prop
  | region r => r.closed = false
  | _ => False

def IsLineComment : Token → Prop
  | region r => r.kind = .lineComment
  | _ => False

end Token

/-- The characters that can go on with what stands in front of them: they complete an
opening sequence, write a closing character twice or belong to a tag. -/
def Continues (c : Char) : Prop := c ∈ ['-', '*', '\'', '"', '\x60', ']', '$'] ∨ TagChar c

/-- A text that goes on with nothing in front of it. -/
def Inert (t : Text) : Prop := ∀ c ∈ t.head?, ¬ Continues c

/-- A text that completes a tag begun in front of it. -/
def CompletesTag (t : Text) : Prop := ∃ name, (∀ c ∈ name, TagChar c) ∧ name ++ ['$'] <+: t

/-- The first text may stand where the second one stood. -/
structure Replaces (t s : Text) : Prop where
  head : t.head? = s.head? ∨ Inert t
  tag : CompletesTag t → CompletesTag s

theorem inert_nil : Inert [] := nofun

theorem inert_separator (rest : Text) : Inert (';' :: rest) := by
  intro c hc
  cases hc
  unfold Continues TagChar
  decide

/-! ### Tags across the end of a token -/

theorem not_completesTag_nil : ¬ CompletesTag [] := by
  intro htag
  obtain ⟨name, -, h⟩ := htag
  exact List.append_ne_nil_of_right_ne_nil name (List.cons_ne_nil _ _) (List.prefix_nil.mp h)

theorem completesTag_cons {c : Char} {t : Text} :
    CompletesTag (c :: t) ↔ c = '$' ∨ TagChar c ∧ CompletesTag t := by
  refine ⟨?_, ?_⟩
  · intro htag
    obtain ⟨name, hname, h⟩ := htag
    cases name with
    | nil =>
      obtain ⟨rest, hrest⟩ := h
      exact .inl (List.cons.inj hrest).1.symm
    | cons d name =>
      obtain ⟨rfl, htail⟩ := List.cons_prefix_cons.mp h
      exact .inr ⟨hname d List.mem_cons_self,
        name, fun c hc => hname c (List.mem_cons_of_mem d hc), htail⟩
  · intro hcases
    rcases hcases with rfl | ⟨hc, name, hname, h⟩
    · exact ⟨[], nofun, t, rfl⟩
    · refine ⟨c :: name, fun d hd => ?_, List.cons_prefix_cons.mpr ⟨rfl, h⟩⟩
      rcases List.mem_cons.mp hd with rfl | hd
      · exact hc
      · exact hname d hd

theorem Inert.not_completesTag {t : Text} (h : Inert t) : ¬ CompletesTag t := by
  cases t with
  | nil => exact not_completesTag_nil
  | cons c t =>
    have hc := h c rfl
    rw [completesTag_cons]
    intro hcases
    rcases hcases with rfl | ⟨htag, -⟩
    · exact hc (.inl (by decide))
    · exact hc (.inr htag)

/-! ### Replacing what follows -/

namespace Replaces

variable {t s : Text}

theorem of_inert (h : Inert t) (s : Text) : Replaces t s :=
  ⟨.inr h, fun ht => absurd ht h.not_completesTag⟩

theorem of_append (s u : Text) : Replaces s (s ++ u) where
  head := by
    cases s with
    | nil => exact .inr inert_nil
    | cons c s => exact .inl rfl
  tag h := by
    obtain ⟨name, hname, hp⟩ := h
    exact ⟨name, hname, hp.trans (List.prefix_append s u)⟩

/-- A first character that belongs to no tag is all that counts. -/
theorem of_head? {c : Char} (hc : ¬ TagChar c) (ht : t.head? = some c)
    (hs : s.head? = some c) : Replaces t s := by
  obtain ⟨t, rfl⟩ := List.head?_eq_some_iff.mp ht
  obtain ⟨s, rfl⟩ := List.head?_eq_some_iff.mp hs
  refine ⟨.inl rfl, ?_⟩
  rw [completesTag_cons, completesTag_cons]
  intro hcases
  rcases hcases with rfl | ⟨htag, -⟩
  · exact .inl rfl
  · exact absurd htag hc

theorem append_left (h : Replaces t s) (a : Text) : Replaces (a ++ t) (a ++ s) := by
  induction a with
  | nil => exact h
  | cons c a ih =>
    refine ⟨.inl rfl, ?_⟩
    rw [List.cons_append, List.cons_append, completesTag_cons, completesTag_cons]
    exact Or.imp_right (And.imp_right ih.tag)

theorem head_ne (h : Replaces t s) {c : Char} (hc : Continues c) (hs : s.head? ≠ some c) :
    t.head? ≠ some c := by
  intro ht
  rcases h.head with heq | hinert
  · exact hs (heq ▸ ht)
  · exact hinert c ht hc

/-- Where a region opens across the end of a character, it did so before. -/
theorem opening {rules : Rules} {c : Char} (h : Replaces t s) (ho : Opening rules (c :: t)) :
    Opening rules (c :: s) := by
  have pair {x y : Char} (hy : Continues y) (hp : [x, y] <+: c :: t) : [x, y] <+: c :: s := by
    obtain ⟨rfl, rest, rfl⟩ := List.cons_prefix_cons.mp hp
    by_cases hs : s.head? = some y
    · obtain ⟨others, rfl⟩ := List.head?_eq_some_iff.mp hs
      exact ⟨others, rfl⟩
    · exact absurd rfl (h.head_ne hy hs)
  have first {x : Char} (hp : [x] <+: c :: t) : [x] <+: c :: s := by
    obtain ⟨rfl, -⟩ := List.cons_prefix_cons.mp hp
    exact ⟨s, rfl⟩
  obtain ⟨kind, opener, hopens, hp⟩ := ho
  cases hopens with
  | single => exact ⟨_, _, .single, first hp⟩
  | double => exact ⟨_, _, .double, first hp⟩
  | backtick hu => exact ⟨_, _, .backtick hu, first hp⟩
  | bracket hu => exact ⟨_, _, .bracket hu, first hp⟩
  | hash hu => exact ⟨_, _, .hash hu, first hp⟩
  | dashes => exact ⟨_, _, .dashes, pair (.inl (by decide)) hp⟩
  | block => exact ⟨_, _, .block, pair (.inl (by decide)) hp⟩
  | dollar hu hname =>
    obtain ⟨rfl, htail⟩ := List.cons_prefix_cons.mp hp
    obtain ⟨name, hname', hp'⟩ := h.tag ⟨_, hname, htail⟩
    exact ⟨_, _, .dollar hu hname', List.cons_prefix_cons.mpr ⟨rfl, hp'⟩⟩

/-- A region ends where it ended before. -/
theorem ends {rules : Rules} {kind : Kind} {opener body : Text} (h : Replaces t s)
    (hends : Ends rules kind opener body s)
    (hline : kind = .lineComment → t = [] ∨ t.head? = s.head?) :
    Ends rules kind opener body t := by
  have quote {close : Char} {escapes : Bool} (hc : Continues close)
      (hq : Quote.Ends close escapes body s) : Quote.Ends close escapes body t := by
    obtain ⟨content, hbody, hcontent, hs⟩ := hq
    exact ⟨content, hbody, hcontent, h.head_ne hc hs⟩
  cases kind with
  | singleQuoted => exact quote (.inl (by decide)) hends
  | doubleQuoted => exact quote (.inl (by decide)) hends
  | backtickName => exact quote (.inl (by decide)) hends
  | bracketName => exact quote (.inl (by decide)) hends
  | dollarQuoted => exact hends
  | blockComment => exact hends
  | lineComment =>
    refine ⟨hends.inLine, ?_⟩
    rcases hline rfl with rfl | hhead
    · exact .inl rfl
    · rcases hends.atBreak with rfl | hbreak
      · exact .inl (List.head?_eq_none_iff.mp hhead)
      · exact .inr (hhead.trans hbreak)

end Replaces

/-- A token stands where it stood before. -/
theorem Token.Stands.replace {rules : Rules} {token : Token} {t s : Text}
    (h : token.Stands rules s) (hr : Replaces t s) (hopen : ¬ token.IsOpen)
    (hline : token.IsLineComment → t = [] ∨ t.head? = s.head?) : token.Stands rules t := by
  cases h with
  | separator => exact .separator (not_opening_separator rules t)
  | plain hc hn => exact .plain hc fun ho => hn (hr.opening ho)
  | closed hopens hends => exact .closed hopens (hr.ends hends hline)
  | unclosed => exact absurd rfl hopen

theorem Token.Stands.rest_of_isOpen {rules : Rules} {token : Token} {rest : Text}
    (h : token.Stands rules rest) (hopen : token.IsOpen) : rest = [] := by
  cases h with
  | separator => exact absurd hopen id
  | plain => exact absurd hopen id
  | closed => exact absurd hopen (by simp [Token.IsOpen])
  | unclosed => rfl

namespace Reads

variable {rules : Rules} {ts : List Token} {t s : Text}

theorem text_ne_nil (h : Reads rules ts s) (hts : ts ≠ []) : ts.flatMap Token.text ≠ [] := by
  cases ts with
  | nil => exact absurd rfl hts
  | cons token ts => exact List.append_ne_nil_of_left_ne_nil h.1.text_ne_nil _

/-- **Tokens that stand in front of a text stand in front of one that replaces it**, if the
last of them is closed, and no line comment that would go on. -/
theorem replace (h : Reads rules ts s) (hr : Replaces t s)
    (hlast : ∀ token ∈ ts.getLast?, ¬ token.IsOpen ∧
      (token.IsLineComment → t = [] ∨ t.head? = s.head?)) : Reads rules ts t := by
  induction ts with
  | nil => trivial
  | cons token ts ih =>
    obtain ⟨hstands, hreads⟩ := h
    cases ts with
    | nil =>
      obtain ⟨hopen, hline⟩ := hlast token rfl
      exact ⟨hstands.replace hr hopen hline, trivial⟩
    | cons next ts =>
      -- Behind a token that is not the last, the text starts as before.
      obtain ⟨c, cs, hcs⟩ := List.exists_cons_of_ne_nil (hreads.text_ne_nil (List.cons_ne_nil _ _))
      refine ⟨hstands.replace (hr.append_left _) (fun hopen => ?_) (fun _ => .inr ?_), ?_⟩
      · have hnil := hstands.rest_of_isOpen hopen
        rw [hcs] at hnil
        cases hnil
      · rw [hcs]
        rfl
      · exact ih hreads (by rwa [List.getLast?_cons_cons] at hlast)

end Reads

end SqlScript
