import SqlScript.Proofs.Region.BlockComment

/-! The two readings of a block comment side by side: as one that may hold others, and as
one that ends with its first closing mark.

A comment that may hold others never ends earlier (`upTo_taken_prefix`), and it ends in the
same place exactly if no mark opens another one on the way (`nested_flat_comment_iff`). The
marks in question may share a character with the closing mark or with one another, as in
`/*/*/`. -/
namespace SqlScript.Comment

variable {script t body rest : Text} {p : Nat}

/-! ### Items that close with their first closing mark -/

/-- Items that close with the first closing mark they write have no other mark. -/
theorem exists_flatItems {depth : Nat} {items : List Item} (hcloses : Closes depth items)
    (hfirst : Text.EndsAtFirst blockCloser (written items)) :
    depth = 0 ∧ ∃ front, items = flatItems front := by
  induction items generalizing depth with
  | nil => exact absurd hcloses id
  | cons item items ih =>
    cases item with
    | opening =>
      have hrest : Closes (depth + 1) items := hcloses
      have hsuffix := closer_suffix_of_closes hrest
      have hslash : Text.EndsAtFirst blockCloser ('*' :: written items) :=
        hfirst.tail (hsuffix.trans (List.suffix_cons '*' _))
      obtain ⟨hdepth, -⟩ := ih hrest (hslash.tail hsuffix)
      cases hdepth
    | closing =>
      cases depth with
      | zero =>
        cases hcloses
        exact ⟨rfl, [], rfl⟩
      | succ outer =>
        -- The mark that closes the outer comments would stand behind the first.
        have hsuffix := closer_suffix_of_closes (show Closes outer items from hcloses)
        have hnil : written items = [] := hfirst.first [] (written items) rfl
        rw [hnil] at hsuffix
        exact absurd (List.suffix_nil.mp hsuffix) (List.cons_ne_nil _ _)
    | other c =>
      have hrest : Closes depth items := hcloses
      have htail : Text.EndsAtFirst blockCloser (written items) :=
        hfirst.tail (closer_suffix_of_closes hrest)
      obtain ⟨rfl, front, rfl⟩ := ih hrest htail
      exact ⟨rfl, c :: front, rfl⟩

/-- Where no mark arises between the characters, no opening mark stands among them. -/
theorem not_infix_of_apart {front : Text} (h : (flatItems front).IsChain Item.Apart) :
    ¬ blockOpener <:+: front ++ blockCloser := by
  induction front with
  | nil => decide
  | cons c cs ih =>
    obtain ⟨hhead, htail⟩ := List.isChain_cons.mp h
    rw [List.cons_append, List.infix_cons_iff]
    rintro (hfirst | hinfix)
    · obtain ⟨rfl, hnext⟩ := List.cons_prefix_cons.mp hfirst
      obtain ⟨others, hothers⟩ := hnext
      obtain ⟨item, items, hitems⟩ : ∃ item items, flatItems cs = item :: items :=
        List.exists_cons_of_ne_nil (List.append_ne_nil_of_right_ne_nil _ (List.cons_ne_nil _ _))
      have hstar : item.text.head? = some '*' := by
        rw [← head?_written (congrArg List.head? hitems), written_flatItems, ← hothers]
        rfl
      exact (hhead item (congrArg List.head? hitems)).1 rfl hstar
    · exact ih htail hinfix

/-- Of the bodies that end with their first closing mark, those of comments that may hold
others are the ones without an opening mark. -/
theorem nestedEnds_iff_of_endsAtFirst (h : Text.EndsAtFirst blockCloser body) :
    NestedEnds body ↔ ¬ blockOpener <:+: body := by
  constructor
  · intro hnested
    obtain ⟨items, hbalanced, rfl⟩ := hnested
    obtain ⟨hapart, hcloses⟩ := balanced_iff.mp hbalanced
    obtain ⟨-, front, rfl⟩ := exists_flatItems hcloses h
    rw [written_flatItems]
    exact not_infix_of_apart hapart
  · exact nestedEnds_of_endsAtFirst h

/-! ### The two extents -/

/-- A comment that may hold others takes all that the other one takes. -/
theorem upTo_taken_prefix (t : Text) :
    (Extent.upTo blockCloser t).taken <+: (nestedExtent 0 t).taken := by
  have hwhole := (nestedExtent_cuts 0 t).whole
  cases hc : (nestedExtent 0 t).closed with
  | true =>
    obtain ⟨first, others, hbody, hfirst⟩ :=
      exists_endsAtFirst_of_nestedEnds (nestedExtent_finds.sound t hc)
    have hflat : Extent.upTo blockCloser t = ⟨first, true, others ++ (nestedExtent 0 t).rest⟩ := by
      apply (Extent.upTo_finds blockCloser).closed_iff.mpr
      exact ⟨by rw [← List.append_assoc, hbody, hwhole], hfirst⟩
    rw [hflat]
    exact ⟨others, hbody⟩
  | false =>
    rw [(nestedExtent_cuts 0 t).rest_of_open hc, List.append_nil] at hwhole
    rw [hwhole]
    exact ⟨_, (Extent.upTo_cuts blockCloser t).whole⟩

/-- What ends nowhere as a flat comment ends nowhere as one that may hold others. -/
theorem nestedExtent_of_open (h : (Extent.upTo blockCloser t).closed = false) :
    nestedExtent 0 t = .upTo blockCloser t := by
  apply nestedExtent_eq_upTo
  rintro body rest rfl hends
  rw [(Extent.upTo_finds blockCloser).complete hends] at h
  cases h

/-- A comment that may hold others ends with the first closing mark exactly if no opening
mark stands in front of it. -/
theorem nestedExtent_eq_upTo_iff (h : Extent.upTo blockCloser t = ⟨body, true, rest⟩) :
    nestedExtent 0 t = ⟨body, true, rest⟩ ↔ ¬ blockOpener <:+: body := by
  obtain ⟨hwhole, hends⟩ := (Extent.upTo_finds blockCloser).closed_iff.mp h
  rw [nestedExtent_finds.closed_iff, and_iff_right hwhole]
  exact nestedEnds_iff_of_endsAtFirst hends

/-- To have ended in the same place is to be the same. -/
theorem nestedExtent_eq_iff_length (hwhole : body ++ rest = t) :
    nestedExtent 0 t = ⟨body, true, rest⟩ ↔
      (nestedExtent 0 t).closed = true ∧ (nestedExtent 0 t).taken.length = body.length := by
  constructor
  · intro heq
    rw [heq]
    exact ⟨rfl, rfl⟩
  · rintro ⟨hclosed, hlength⟩
    obtain ⟨rfl, rfl⟩ := List.append_inj (hwhole.trans (nestedExtent_cuts 0 t).whole.symm) hlength.symm
    rw [← hclosed]

/-! ### At a place of a script -/

/-- Between the mark behind which a comment begins and its end stands its body. -/
theorem drop_take_body (h : script.drop p = blockOpener ++ (body ++ rest)) :
    (script.take (p + (blockOpener ++ body).length)).drop (p + 2) = body := by
  have hcut := drop_take_append h []
  rw [List.append_nil, List.append_nil] at hcut
  rw [← List.drop_drop, hcut]
  rfl

/-- **Whether comments nest counts only where one holds another.** Read as one that may hold
others, a comment never ends earlier than read as one that does not, and it ends nowhere if
that one ends nowhere. If that one ends, they are the same comment exactly if no opening mark
stands between the mark behind which they begin and the end; having ended in the same place
is enough to be the same. -/
theorem nested_flat_comment_iff (h : blockOpener <+: script.drop p) :
    ∃ nested flat behind behind',
      (Form.block true).read? (script.drop p) = some (nested, behind) ∧
      (Form.block false).read? (script.drop p) = some (flat, behind') ∧
      (nested.kind = flat.kind ∧ nested.opener = flat.opener) ∧
      p + flat.text.length ≤ p + nested.text.length ∧
      (flat.closed = false → nested.closed = false ∧ nested = flat ∧ behind = behind') ∧
      (flat.closed = true →
        (nested.closed = flat.closed ∧ p + nested.text.length = p + flat.text.length ↔
          ¬ blockOpener <:+: (script.take (p + flat.text.length)).drop (p + 2)) ∧
        (nested = flat ∧ behind = behind' ↔
          ¬ blockOpener <:+: (script.take (p + flat.text.length)).drop (p + 2))) := by
  obtain ⟨t, ht⟩ := h
  have hdrop : script.drop p = blockOpener ++ t := ht.symm
  have hnested := read?_block true t
  have hflat := read?_block false t
  rw [← hdrop] at hnested hflat
  have hprefix : (blockExtent false t).taken <+: (blockExtent true t).taken := upTo_taken_prefix t
  refine ⟨_, _, _, _, hnested, hflat, ⟨rfl, rfl⟩, ?_, ?_, ?_⟩
  · have hle := hprefix.length_le
    simp only [Region.text, List.length_append]
    omega
  · intro hopen
    have hsame : blockExtent true t = blockExtent false t := nestedExtent_of_open hopen
    rw [hsame]
    exact ⟨hopen, rfl, rfl⟩
  · intro hclosed
    cases hends : blockExtent false t with
    | mk body closed rest =>
      rw [hends] at hclosed
      obtain rfl : closed = true := hclosed
      have hwhole : body ++ rest = t := ((Extent.upTo_finds blockCloser).closed_iff.mp hends).1
      have hsame : blockExtent true t = ⟨body, true, rest⟩ ↔ ¬ blockOpener <:+: body :=
        nestedExtent_eq_upTo_iff hends
      have hplace : blockExtent true t = ⟨body, true, rest⟩ ↔
          (blockExtent true t).closed = true ∧ (blockExtent true t).taken.length = body.length :=
        nestedExtent_eq_iff_length hwhole
      have hbetween := drop_take_body (hwhole ▸ hdrop)
      simp only [Region.text]
      rw [hbetween, ← hsame]
      refine ⟨?_, ?_, ?_⟩
      · simp only [hplace, List.length_append, Nat.add_left_cancel_iff]
      · rintro ⟨hregion, -⟩
        obtain ⟨-, -, htaken, hc⟩ := Region.mk.inj hregion
        exact hplace.mpr ⟨hc, congrArg List.length htaken⟩
      · intro heq
        rw [heq]
        exact ⟨rfl, rfl⟩

/-- A closing mark that shares its star with a mark that opens a comment: the comment ends
there or goes on, and which of the two counts. Without that mark it would not. -/
theorem nested_flat_comment_overlapping :
    let script := "a/*/*/ */;".toList
    blockOpener <+: script.drop 1 ∧
      ∃ nested flat behind behind',
        (Form.block true).read? (script.drop 1) = some (nested, behind) ∧
        (Form.block false).read? (script.drop 1) = some (flat, behind') ∧
        flat.closed = true ∧ nested.closed = false ∧
        blockOpener <:+: (script.take (1 + flat.text.length)).drop 3 ∧
        ¬ (nested = flat ∧ behind = behind') := by
  intro script
  have hopener : blockOpener <+: script.drop 1 := by decide
  obtain ⟨nested, flat, behind, behind', hnested, hflat, -, -, -, hsame⟩ :=
    nested_flat_comment_iff hopener
  have hread : (Form.block false).read? (script.drop 1) =
      some (⟨.blockComment, blockOpener, "/*/".toList, true⟩, " */;".toList) := by
    decide +kernel
  have hread' : (Form.block true).read? (script.drop 1) =
      some (⟨.blockComment, blockOpener, "/*/ */;".toList, false⟩, []) := by
    decide +kernel
  rw [hflat] at hread
  rw [hnested] at hread'
  cases hread
  cases hread'
  have hmark : blockOpener <:+: (script.take 6).drop 3 := by decide
  exact ⟨hopener, _, _, _, _, hnested, hflat, rfl, rfl, hmark,
    fun heq => (hsame rfl).2.mp heq hmark⟩

end SqlScript.Comment
