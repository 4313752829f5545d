import SqlScript.Region

/-! Where regions end, said without a search.

`Extent.Finds` is what a search for an end owes to the rule it follows. From it comes
that the search stops at the one end there is (`Finds.closed_iff`) and leaves a region
open only where there is none (`Finds.open_iff`). Two of the rules stand here: ending
with the first occurrence of a text, and in front of a line feed. -/
namespace SqlScript

namespace Extent

/-- `Ends body rest` says of the text `body ++ rest` that a region in it takes `body`. The
function finds such an end wherever there is one, and finds nothing else. -/
structure Finds (f : Text → Extent) (Ends : Text → Text → Prop) : Prop where
  cuts : ∀ t, (f t).Cuts t
  sound : ∀ t, (f t).closed = true → Ends (f t).taken (f t).rest
  complete : ∀ {body rest}, Ends body rest → f (body ++ rest) = ⟨body, true, rest⟩

variable {f : Text → Extent} {Ends : Text → Text → Prop}

theorem Finds.closed_iff (h : Finds f Ends) {t body rest : Text} :
    f t = ⟨body, true, rest⟩ ↔ body ++ rest = t ∧ Ends body rest := by
  refine ⟨?_, ?_⟩
  · intro heq
    have hcuts := h.cuts t
    have hends := h.sound t
    rw [heq] at hcuts hends
    exact ⟨hcuts.whole, hends rfl⟩
  · intro hcut
    obtain ⟨rfl, hends⟩ := hcut
    exact h.complete hends

theorem Finds.open_iff (h : Finds f Ends) {t : Text} :
    f t = ⟨t, false, []⟩ ↔ ∀ body rest, body ++ rest = t → ¬ Ends body rest := by
  refine ⟨?_, ?_⟩
  · intro heq body rest hwhole hends
    subst hwhole
    rw [h.complete hends] at heq
    simp at heq
  · intro hn
    have hw := (h.cuts t).whole
    cases hc : (f t).closed with
    | true => exact absurd (h.sound t hc) (hn _ _ hw)
    | false =>
      have hr := (h.cuts t).rest_of_open hc
      rw [hr, List.append_nil] at hw
      cases he : f t
      simp_all

end Extent

/-! ### The first occurrence of a text -/

/-- The text `sub` stands at the end of `t` and nowhere before. -/
structure Text.EndsAtFirst (sub t : Text) : Prop where
  ends : sub <:+ t
  first : ∀ a b, a ++ (sub ++ b) = t → b = []

namespace Text

theorem EndsAtFirst.tail {sub t : Text} {c : Char} (h : EndsAtFirst sub (c :: t))
    (hs : sub <:+ t) : EndsAtFirst sub t :=
  ⟨hs, fun a b hab => h.first (c :: a) b (by rw [List.cons_append, hab])⟩

theorem cut?_append (sub rest : Text) : cut? sub (sub ++ rest) = some ([], rest) := by
  cases hs : sub ++ rest with
  | nil =>
    obtain ⟨rfl, rfl⟩ := List.append_eq_nil_iff.mp hs
    rfl
  | cons c cs =>
    have hp : sub.isPrefixOf (c :: cs) = true :=
      List.isPrefixOf_iff_prefix.mpr ⟨rest, hs⟩
    rw [cut?, if_pos hp, ← hs, List.drop_left]

/-- Cutting finds the first occurrence. -/
theorem EndsAtFirst.cut? {sub before : Text} (h : EndsAtFirst sub (before ++ sub)) (rest : Text) :
    cut? sub (before ++ (sub ++ rest)) = some (before, rest) := by
  induction before with
  | nil => exact cut?_append sub rest
  | cons c cs ih =>
    have hp : ¬ sub.isPrefixOf (c :: (cs ++ (sub ++ rest))) = true := by
      intro hp
      obtain ⟨b, hb⟩ : sub <+: c :: (cs ++ sub) := by
        apply List.prefix_of_prefix_length_le (List.isPrefixOf_iff_prefix.mp hp)
        · exact ⟨rest, by simp⟩
        · simp only [List.length_cons, List.length_append]
          omega
      have hnil := h.first [] b hb
      rw [hnil, List.append_nil] at hb
      have := congrArg List.length hb
      simp only [List.length_cons, List.length_append] at this
      omega
    rw [List.cons_append, Text.cut?, if_neg hp, ih (h.tail (List.suffix_append cs sub))]
    rfl

/-- What cutting finds is the first occurrence. -/
theorem endsAtFirst_of_cut? {sub t before after : Text} (h : cut? sub t = some (before, after)) :
    EndsAtFirst sub (before ++ sub) := by
  refine ⟨List.suffix_append before sub, ?_⟩
  induction t generalizing before with
  | nil =>
    rw [Text.cut?] at h
    split at h
    · next hs =>
      cases h
      intro a b hab
      rw [hs] at hab
      simp_all
    · cases h
  | cons c cs ih =>
    rw [Text.cut?] at h
    split at h
    · cases h
      intro a b hab
      have := congrArg List.length hab
      simp only [List.nil_append, List.length_append] at this
      exact List.length_eq_zero_iff.mp (by omega)
    · next hp =>
      obtain ⟨⟨before', after'⟩, hcut, heq⟩ := Option.map_eq_some_iff.mp h
      cases heq
      intro a b hab
      cases a with
      | nil =>
        refine absurd (List.isPrefixOf_iff_prefix.mpr ⟨b ++ after, ?_⟩) hp
        rw [← append_of_cut? hcut, ← List.append_assoc, ← List.nil_append (sub ++ b), hab]
        simp
      | cons x a => exact ih hcut a b (List.cons.inj hab).2

theorem endsAtFirst_append_iff {sub t : Text} :
    EndsAtFirst sub (t ++ sub) ↔ find? sub (t ++ sub) = some t.length := by
  refine ⟨?_, ?_⟩
  · intro h
    have hcut := h.cut? []
    rw [List.append_nil] at hcut
    rw [find?, hcut]
    rfl
  · intro h
    obtain ⟨⟨before, after⟩, hcut, hlength⟩ := Option.map_eq_some_iff.mp h
    obtain ⟨rfl, -⟩ := List.append_inj (append_of_cut? hcut) hlength
    exact endsAtFirst_of_cut? hcut

end Text

namespace Extent

theorem upTo_finds (closer : Text) :
    Finds (upTo closer) (fun body _ => Text.EndsAtFirst closer body) where
  cuts := upTo_cuts closer
  sound t ht := by
    rw [upTo] at ht ⊢
    split at ht
    · next h => exact Text.endsAtFirst_of_cut? h
    · cases ht
  complete {body rest} h := by
    obtain ⟨before, rfl⟩ := h.ends
    rw [upTo, List.append_assoc, h.cut? rest]

end Extent

/-! ### Line comments -/

namespace Comment

/-- A line comment reaches to the next line feed, or to the end of the text. -/
structure LineEnds (body rest : Text) : Prop where
  inLine : '\n' ∉ body
  atBreak : rest = [] ∨ rest.head? = some '\n'

theorem lineExtent_finds : Extent.Finds lineExtent LineEnds where
  cuts := lineExtent_cuts
  sound t _ := by
    refine ⟨fun h => ?_, ?_⟩
    · simpa using List.all_eq_true.mp List.all_takeWhile _ h
    · cases hd : t.dropWhile (· != '\n') with
      | nil => exact .inl hd
      | cons c cs =>
        have := List.head?_dropWhile_not (· != '\n') t
        rw [hd] at this
        refine .inr ?_
        rw [lineExtent, hd]
        simpa using this
  complete {body rest} h := by
    have hb : ∀ c ∈ body, (c != '\n') = true := by
      intro c hc
      simpa using fun heq : c = '\n' => h.inLine (heq ▸ hc)
    have hr : rest.takeWhile (· != '\n') = [] ∧ rest.dropWhile (· != '\n') = rest := by
      rcases h.atBreak with rfl | hhead
      · exact ⟨rfl, rfl⟩
      · obtain ⟨cs, rfl⟩ := List.head?_eq_some_iff.mp hhead
        exact ⟨rfl, rfl⟩
    rw [lineExtent, List.takeWhile_append_of_pos hb, List.dropWhile_append_of_pos hb, hr.1, hr.2,
      List.append_nil]

end Comment

end SqlScript
