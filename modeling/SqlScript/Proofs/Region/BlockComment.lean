import SqlScript.Proofs.OpenRegion

/-! Block comments at a place of a script.

`NestedAt` says between which offsets a comment that may hold others stands, by its items
alone. `nested_comment_iff` says that reading ends there, and nowhere else, however deep the
comment is and whatever follows it. A comment without an opening mark inside reads the same
whether comments nest or not (`nestedExtent_eq_upTo`). -/
namespace SqlScript.Comment

/-- From `p` up to `e` the script is written with items that are one comment. -/
def NestedAt (script : Text) (p e : Nat) : Prop :=
  e ≤ script.length ∧
    ∃ items, Balanced (.opening :: items) ∧ written (.opening :: items) = (script.take e).drop p

variable {script t : Text} {p e : Nat}

theorem written_opening (items : List Item) : written (.opening :: items) = blockOpener ++ written items :=
  rfl

/-- Behind its opening mark a comment stands in the script with its body. -/
theorem nestedAt_iff (h : script.drop p = blockOpener ++ t) :
    NestedAt script p e ↔
      ∃ body rest, body ++ rest = t ∧ NestedEnds body ∧ p + (blockOpener ++ body).length = e := by
  have hlength := congrArg List.length h
  simp only [List.length_drop, List.length_append] at hlength
  have hopener : blockOpener.length = 2 := rfl
  constructor
  · intro hat
    obtain ⟨hle, items, hbalanced, hwritten⟩ := hat
    have hspan := congrArg List.length hwritten
    rw [List.drop_take, h, written_opening] at hwritten
    simp only [written_opening, List.length_append, List.length_drop, List.length_take] at hspan
    have hwhole := List.take_append_drop (e - p) (blockOpener ++ t)
    rw [← hwritten, List.append_assoc] at hwhole
    refine ⟨written items, _, List.append_cancel_left hwhole, ⟨items, hbalanced, rfl⟩, ?_⟩
    rw [List.length_append]
    omega
  · intro hends
    obtain ⟨body, rest, rfl, ⟨items, hbalanced, rfl⟩, rfl⟩ := hends
    simp only [List.length_append] at hlength
    refine ⟨by rw [List.length_append]; omega, items, hbalanced, ?_⟩
    rw [List.drop_take, h, Nat.add_sub_cancel_left, ← List.append_assoc, List.take_left]
    rfl

/-- What stands behind a comment can be put in the place of what stood there before. -/
theorem drop_take_append {body rest : Text} (h : script.drop p = blockOpener ++ (body ++ rest))
    (after : Text) :
    (script.take (p + (blockOpener ++ body).length) ++ after).drop p =
      blockOpener ++ (body ++ after) := by
  have hlength := congrArg List.length h
  have hopener : blockOpener.length = 2 := rfl
  simp only [List.length_drop, List.length_append] at hlength
  have hfront : (script.take p).length = p := by
    rw [List.length_take]
    omega
  rw [List.take_add, h, ← List.append_assoc blockOpener, List.take_left, List.append_assoc,
    List.drop_left' hfront, List.append_assoc]

/-- Where a mark opens a comment, the comment is read behind the mark. -/
theorem read?_block (nests : Bool) (t : Text) :
    (Form.block nests).read? (blockOpener ++ t) =
      some (⟨.blockComment, blockOpener, (blockExtent nests t).taken, (blockExtent nests t).closed⟩,
        (blockExtent nests t).rest) :=
  Form.read?_append rfl rfl

theorem read?_nested {items : List Item} (h : Balanced (.opening :: items)) (rest : Text) :
    (Form.block true).read? (blockOpener ++ (written items ++ rest)) =
      some (⟨.blockComment, blockOpener, written items, true⟩, rest) := by
  have hextent : blockExtent true (written items ++ rest) = ⟨written items, true, rest⟩ :=
    nestedExtent_finds.complete ⟨items, h, rfl⟩
  rw [read?_block, hextent]

/-- Reading ends a comment just where one stands in the script. -/
theorem nestedExtent_closed_iff (h : script.drop p = blockOpener ++ t) :
    (nestedExtent 0 t).closed = true ∧ p + (blockOpener ++ (nestedExtent 0 t).taken).length = e ↔
      NestedAt script p e := by
  rw [nestedAt_iff h]
  constructor
  · intro hclosed
    obtain ⟨hc, he⟩ := hclosed
    exact ⟨_, _, (nestedExtent_cuts 0 t).whole, nestedExtent_finds.sound t hc, he⟩
  · intro hends
    obtain ⟨body, rest, rfl, hbody, he⟩ := hends
    rw [nestedExtent_finds.complete hbody]
    exact ⟨rfl, he⟩

/-- A comment is left open just where none stands in the script. -/
theorem nestedExtent_open_iff (h : script.drop p = blockOpener ++ t) :
    (nestedExtent 0 t).closed = false ∧
        p + (blockOpener ++ (nestedExtent 0 t).taken).length = script.length ↔
      ∀ e, ¬ NestedAt script p e := by
  constructor
  · intro hopen e hat
    have hclosed := (nestedExtent_closed_iff h).mpr hat
    rw [hopen.1] at hclosed
    exact Bool.false_ne_true hclosed.1
  · intro hnone
    have hc : (nestedExtent 0 t).closed = false := by
      by_contra hc
      exact hnone _ ((nestedExtent_closed_iff h).mp ⟨by simpa using hc, rfl⟩)
    have hcuts := nestedExtent_cuts 0 t
    have hwhole := hcuts.whole
    rw [hcuts.rest_of_open hc, List.append_nil] at hwhole
    have hlength := congrArg List.length h
    have hopener : blockOpener.length = 2 := rfl
    simp only [List.length_drop, List.length_append] at hlength
    rw [hwhole, List.length_append]
    exact ⟨hc, by omega⟩

/-- **Nested comments are recognised exactly.** Reading ends a comment at `e` if and only if
the script is one comment from its opening mark up to `e`; there is one such `e` at most, and
what follows it does not count. The comment is left open just if there is none. Whatever
items are one comment, they are read as one. -/
theorem nested_comment_iff (h : blockOpener <+: script.drop p) :
    ∃ r rest, (Form.block true).read? (script.drop p) = some (r, rest) ∧
      r.kind = .blockComment ∧ r.opener = blockOpener ∧
      (∀ e, r.closed = true ∧ p + r.text.length = e ↔ NestedAt script p e) ∧
      (∀ e e', NestedAt script p e → NestedAt script p e' → e = e') ∧
      (∀ e, NestedAt script p e → ∀ after,
        (Form.block true).read? ((script.take e ++ after).drop p) = some (r, after)) ∧
      (r.closed = false ∧ p + r.text.length = script.length ↔ ∀ e, ¬ NestedAt script p e) ∧
      ∀ items, Balanced (.opening :: items) → ∀ before after,
        (Form.block true).read? ((before ++ (written (.opening :: items) ++ after)).drop before.length) =
          some (⟨.blockComment, blockOpener, written items, true⟩, after) := by
  obtain ⟨t, ht⟩ := h
  have hdrop : script.drop p = blockOpener ++ t := ht.symm
  have hread := read?_block true t
  rw [← hdrop] at hread
  have hclosed (e : Nat) := nestedExtent_closed_iff (e := e) hdrop
  refine ⟨_, _, hread, rfl, rfl, hclosed, ?_, ?_, nestedExtent_open_iff hdrop, ?_⟩
  · intro e e' hat hat'
    rw [← ((hclosed e).mpr hat).2, ← ((hclosed e').mpr hat').2]
  · intro e hat after
    obtain ⟨body, rest, rfl, hbody, rfl⟩ := (nestedAt_iff hdrop).mp hat
    obtain ⟨items, hbalanced, rfl⟩ := hbody
    rw [drop_take_append hdrop, read?_nested hbalanced]
    simp only [blockExtent, if_true, nestedExtent_finds.complete ⟨items, hbalanced, rfl⟩]
  · intro items hbalanced before after
    rw [List.drop_left, written_opening, List.append_assoc]
    exact read?_nested hbalanced after

/-- A comment in a comment, with marks that share a character. -/
theorem nested_comment_overlapping :
    let script := "-/*/*/ */**/;".toList
    blockOpener <+: script.drop 1 ∧ NestedAt script 1 12 ∧ ∀ e, NestedAt script 1 e → e = 12 := by
  intro script
  have hopener : blockOpener <+: script.drop 1 := by decide
  obtain ⟨r, rest, hread, -, -, hclosed, hone, -⟩ := nested_comment_iff hopener
  have hregion : (Form.block true).read? (script.drop 1) =
      some (⟨.blockComment, blockOpener, "/*/ */**/".toList, true⟩, [';']) := by
    decide +kernel
  rw [hregion] at hread
  cases hread
  have hat : NestedAt script 1 12 := (hclosed 12).mp ⟨rfl, rfl⟩
  exact ⟨hopener, hat, fun e he => hone e 12 he hat⟩

/-! ### Comments without comments inside -/

/-- The items of a comment whose only mark is the one that closes it. -/
def flatItems (body : Text) : List Item := body.map Item.other ++ [Item.closing]

theorem written_flatItems (body : Text) : written (flatItems body) = body ++ blockCloser := by
  induction body with
  | nil => rfl
  | cons c cs ih => exact congrArg (c :: ·) ih

theorem closes_flatItems (body : Text) : Closes 0 (flatItems body) := by
  induction body with
  | nil => rfl
  | cons c cs ih => exact ih

/-- No mark arises between the characters if none stands in the text. -/
theorem apart_flatItems {body : Text} (h : Text.EndsAtFirst blockCloser (body ++ blockCloser))
    (hno : ¬ blockOpener <:+: body ++ blockCloser) : (flatItems body).IsChain Item.Apart := by
  induction body with
  | nil => exact .singleton _
  | cons c cs ih =>
    have hsuffix : cs ++ blockCloser <:+ c :: (cs ++ blockCloser) := List.suffix_cons c _
    have htail := ih (h.tail (List.suffix_append cs blockCloser))
      fun hstands => hno (hstands.trans hsuffix.isInfix)
    obtain ⟨d, ds, hd⟩ := List.exists_cons_of_ne_nil
      (List.append_ne_nil_of_right_ne_nil cs (List.cons_ne_nil '*' ['/']))
    have hhead : (written (flatItems cs)).head? = some d := by
      rw [written_flatItems]
      exact congrArg List.head? hd
    refine List.isChain_cons.mpr ⟨apart_other hhead ?_ ?_, htail⟩
    · intro hmark
      obtain ⟨rfl, rfl⟩ := hmark
      exact hno ⟨[], ds, congrArg ('/' :: ·) hd.symm⟩
    · intro hmark
      obtain ⟨rfl, rfl⟩ := hmark
      -- A closing mark in front of the last would be the first.
      have hnil := h.first [] ds (congrArg ('*' :: ·) hd.symm)
      rw [hnil] at hd
      have hlength := congrArg List.length hd
      rw [List.length_append] at hlength
      exact absurd hlength (by simp)

/-- A body without an opening mark that ends at its first closing mark is the body of a
comment that may hold others, too. -/
theorem nestedEnds_of_endsAtFirst {body : Text} (h : Text.EndsAtFirst blockCloser body)
    (hno : ¬ blockOpener <:+: body) : NestedEnds body := by
  obtain ⟨front, rfl⟩ := h.ends
  exact ⟨flatItems front, balanced_iff.mpr ⟨apart_flatItems h hno, closes_flatItems front⟩,
    written_flatItems front⟩

/-- The body of a comment that may hold others reaches as far as its first closing mark at
least. -/
theorem exists_endsAtFirst_of_nestedEnds {body : Text} (h : NestedEnds body) :
    ∃ first rest, first ++ rest = body ∧ Text.EndsAtFirst blockCloser first := by
  obtain ⟨items, hbalanced, rfl⟩ := h
  have hsuffix := closer_suffix_of_closes (balanced_iff.mp hbalanced).2
  obtain ⟨⟨before, after⟩, hcut⟩ :=
    Option.isSome_iff_exists.mp (Text.cut?_isSome_iff.mpr hsuffix.isInfix)
  refine ⟨before ++ blockCloser, after, ?_, Text.endsAtFirst_of_cut? hcut⟩
  rw [List.append_assoc]
  exact Text.append_of_cut? hcut

/-- **Without an opening mark in front of the first closing mark it does not matter whether
comments nest.** -/
theorem nestedExtent_eq_upTo (h : ∀ body rest, body ++ rest = t →
    Text.EndsAtFirst blockCloser body → ¬ blockOpener <:+: body) :
    nestedExtent 0 t = .upTo blockCloser t := by
  have hflat := Extent.upTo_finds blockCloser
  by_cases hends : ∃ body rest, body ++ rest = t ∧ Text.EndsAtFirst blockCloser body
  · obtain ⟨body, rest, rfl, hbody⟩ := hends
    have hnested := nestedEnds_of_endsAtFirst hbody (h body rest rfl hbody)
    rw [nestedExtent_finds.complete hnested, hflat.complete hbody]
  · have hnone : ∀ body rest, body ++ rest = t → ¬ Text.EndsAtFirst blockCloser body :=
      fun body rest hwhole hbody => hends ⟨body, rest, hwhole, hbody⟩
    rw [hflat.open_iff.mpr hnone, nestedExtent_finds.open_iff]
    intro body rest hwhole hnested
    obtain ⟨first, others, rfl, hfirst⟩ := exists_endsAtFirst_of_nestedEnds hnested
    exact hnone first (others ++ rest) (by rw [← List.append_assoc, hwhole]) hfirst

end SqlScript.Comment
