import SqlScript.Token
import SqlScript.Proofs.Text.Trim
import SqlScript.Proofs.Grammar

/-! The segments of tokens put one behind the other. The last segment of the first tokens
and the first one of the others become one (`segments_append`), except across a
separator (`segments_separator`). A region keeps the segment it stands in from being
blank (`statements_around_region`). -/
namespace SqlScript

theorem segments_ne_nil (ts : List Token) : segments ts ≠ [] := by
  intro h
  have := length_segments ts
  rw [h] at this
  cases this

theorem exists_last_segment (ts : List Token) : ∃ front last, segments ts = front ++ [last] :=
  ⟨_, _, (List.dropLast_concat_getLast (segments_ne_nil ts)).symm⟩

theorem exists_first_segment (ts : List Token) : ∃ first back, segments ts = first :: back :=
  List.exists_cons_of_ne_nil (segments_ne_nil ts)

theorem segments_cons {token : Token} (h : token ≠ .separator) {ts : List Token} {first : Text}
    {back : List Text} (hts : segments ts = first :: back) :
    segments (token :: ts) = (token.text ++ first) :: back := by
  cases token with
  | separator => exact absurd rfl h
  | plain c => simp [segments, hts]
  | region r => simp [segments, hts]

theorem segments_append {a b : List Token} {front back : List Text} {last first : Text}
    (ha : segments a = front ++ [last]) (hb : segments b = first :: back) :
    segments (a ++ b) = front ++ (last ++ first) :: back := by
  induction a generalizing front last with
  | nil =>
    rw [segments, ← List.nil_append [[]]] at ha
    obtain ⟨rfl, hlast⟩ := List.append_inj' ha rfl
    cases hlast
    exact hb
  | cons token a ih =>
    by_cases ht : token = .separator
    · subst ht
      rw [segments] at ha
      cases front with
      | nil => exact absurd (List.cons.inj ha).2 (segments_ne_nil a)
      | cons first' front =>
        obtain ⟨rfl, ha'⟩ := List.cons.inj ha
        rw [List.cons_append, segments, ih ha']
        rfl
    · obtain ⟨first', back', ha'⟩ := exists_first_segment a
      rw [segments_cons ht ha'] at ha
      cases front with
      | nil =>
        -- The token stands in the last segment of `a`.
        obtain ⟨rfl, rfl⟩ := List.cons.inj ha
        have hsegments : segments (a ++ b) = (first' ++ first) :: back := @ih [] first' ha'
        rw [List.cons_append, segments_cons ht hsegments, List.append_assoc]
        rfl
      | cons segment front =>
        obtain ⟨rfl, rfl⟩ := List.cons.inj ha
        have hsegments : segments (a ++ b) = first' :: (front ++ (last ++ first) :: back) :=
          @ih (first' :: front) last ha'
        rw [List.cons_append, segments_cons ht hsegments]
        rfl

/-- A separator keeps segments apart. -/
theorem segments_separator (a b : List Token) :
    segments (a ++ .separator :: b) = segments a ++ segments b := by
  obtain ⟨front, last, ha⟩ := exists_last_segment a
  rw [segments_append ha (b := .separator :: b) rfl, ha, List.append_nil, List.append_assoc]
  rfl

/-- Without a separator there is one segment. -/
theorem segments_of_not_mem {ts : List Token} (h : .separator ∉ ts) :
    segments ts = [ts.flatMap Token.text] := by
  induction ts with
  | nil => rfl
  | cons token ts ih =>
    obtain ⟨hne, hts⟩ := not_or.mp (mt List.mem_cons.mpr h)
    exact segments_cons (Ne.symm hne) (ih hts)

/-! ### Statements -/

theorem filterMap_statement?_cons (g : Text) (gs : List Text) :
    (g :: gs).filterMap statement? = (statement? g).toList ++ gs.filterMap statement? := by
  rw [List.filterMap_cons]
  cases statement? g <;> rfl

theorem statement?_of_nonblank {l m : Text} {c : Char} (hc : isBlank c = false) :
    statement? (l ++ c :: m) = some (Text.trim (l ++ c :: m)) := by
  rw [statement?, if_neg]
  rw [Text.trim_append hc]
  exact List.append_ne_nil_of_right_ne_nil _ (List.cons_ne_nil _ _)

/-- Around a region stands one statement, which is the region with what is left of the
segments that end and begin there. -/
theorem statements_around_region {rules : Rules} {r : Region} (h : Opens rules r.kind r.opener)
    {a b : List Token} {front back : List Text} {last first : Text}
    (ha : segments a = front ++ [last]) (hb : segments b = first :: back) :
    (segments (a ++ .region r :: b)).filterMap statement? =
      front.filterMap statement? ++ Text.trim (last ++ (r.text ++ first)) ::
        back.filterMap statement? := by
  obtain ⟨c, cs, hc, hblank, -⟩ := h.exists_cons
  have hr : r.text ++ first = c :: (cs ++ r.body ++ first) := by
    rw [Region.text, hc]
    rfl
  have hne : Token.region r ≠ .separator := Token.noConfusion
  rw [segments_append ha (segments_cons hne hb), List.filterMap_append, List.filterMap_cons,
    Token.text, hr, statement?_of_nonblank hblank]

end SqlScript
