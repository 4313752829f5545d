import Mathlib.Algebra.GroupWithZero.Nat
import SqlScript.Proofs.Separators

/-! What becomes of the characters of a script when it is split. `statements_account` says
that the statements are the pieces between the separators, trimmed, and that nothing else
is lost, said twice or put in another order. -/
namespace SqlScript

/-- What a script and the statements found in it owe to each other, given the offsets at
which it was cut. -/
structure Account (rules : Rules) (script : Text) (offsets : List Nat) (found : List Text) :
    Prop where
  /-- The script was cut at every semicolon outside the regions, and nowhere else. -/
  mem_iff : ∀ p, p ∈ offsets ↔ script[p]? = some ';' ∧ Outside rules script p
  ascending : offsets.Pairwise (· < ·)
  /-- The pieces make up the script, with a semicolon between neighbours. -/
  whole : Text.join [';'] (pieces 0 offsets script) = script
  /-- The statements are the pieces, trimmed, except those of which nothing remains. -/
  found_eq : found = ((pieces 0 offsets script).map Text.trim).filter (· ≠ [])
  trimmed : ∀ s ∈ found, s ≠ [] ∧ s.trim = s
  /-- What trimming takes off a piece are white-space characters at its ends, all of them. -/
  taken_off : ∀ g ∈ pieces 0 offsets script, ∃ front back, front ++ (Text.trim g ++ back) = g ∧
    (∀ c ∈ front ++ back, c ∈ blankCharacters) ∧
    ∀ c, c ∈ (Text.trim g).head? ∨ c ∈ (Text.trim g).getLast? → c ∉ blankCharacters
  /-- Each statement stands behind those in front of it. -/
  places : ∃ places : List (Nat × Text), places.map (·.2) = found ∧
    (∀ q ∈ places, q.2 <+: script.drop q.1) ∧ places.Pairwise fun a b => a.1 + a.2.length < b.1
  /-- What is neither blank nor a semicolon is kept, in order. -/
  kept : script.filter (fun c => !isBlank c && c != ';') =
    found.flatten.filter fun c => !isBlank c && c != ';'
  /-- Every semicolon either separates statements or belongs to one. -/
  semicolons : script.count ';' = offsets.length + (found.map (List.count ';')).sum

/-! ### One segment -/

theorem exists_trim_ends (g : Text) :
    ∃ front back, front ++ (g.trim ++ back) = g ∧ (∀ c ∈ front ++ back, c ∈ blankCharacters) ∧
      ∀ c, c ∈ g.trim.head? ∨ c ∈ g.trim.getLast? → c ∉ blankCharacters := by
  obtain ⟨front, back, hfront, hback, hwhole⟩ := Text.exists_trim g
  refine ⟨front, back, hwhole, fun c hc => ?_, fun c hc hblank => ?_⟩
  · rcases List.mem_append.mp hc with hc | hc
    · exact isBlank_iff.mp (hfront c hc)
    · exact isBlank_iff.mp (hback c hc)
  · have hnot : isBlank c = false := by
      rcases hc with hc | hc
      · exact Text.not_isBlank_of_head?_trim hc
      · exact Text.not_isBlank_of_getLast?_trim hc
    rw [isBlank_iff.mpr hblank] at hnot
    cases hnot

theorem trim_of_statement? {g s : Text} (h : statement? g = some s) : g.trim = s ∧ s ≠ [] := by
  rw [statement?] at h
  split at h
  · cases h
  · next hne =>
    cases h
    exact ⟨rfl, hne⟩

theorem trim_of_statement?_eq_none {g : Text} (h : statement? g = none) : g.trim = [] := by
  by_contra hne
  rw [statement?, if_neg hne] at h
  cases h

/-- The offset in a segment at which its statement stands. -/
def lead (g : Text) : Nat := (g.takeWhile isBlank).length

/-- The statement stands behind the first blanks of its segment, whatever follows the
segment. -/
theorem statement?_at_lead {g s : Text} (h : statement? g = some s) :
    lead g + s.length ≤ g.length ∧ ∀ t, s <+: (g ++ t).drop (lead g) := by
  obtain ⟨rfl, -⟩ := trim_of_statement? h
  have hstart : g.takeWhile isBlank ++ g.trimStart = g := List.takeWhile_append_dropWhile
  have htrim : g.trim <+: g.trimStart := Text.trimEnd_prefix g.trimStart
  refine ⟨?_, fun t => ?_⟩
  · have hlength := congrArg List.length hstart
    have hle := htrim.length_le
    rw [List.length_append] at hlength
    unfold lead
    omega
  · have happend : g ++ t = g.takeWhile isBlank ++ (g.trimStart ++ t) := by
      rw [← List.append_assoc, hstart]
    have hdrop : (g ++ t).drop (lead g) = g.trimStart ++ t := by
      rw [happend]
      exact List.drop_left
    rw [hdrop]
    exact htrim.trans (List.prefix_append _ t)

/-- What is kept of a segment is kept in its statement. -/
theorem filter_statement? {p : Char → Bool} (hp : ∀ c, isBlank c = true → p c = false)
    (g : Text) : (statement? g).toList.flatten.filter p = g.filter p := by
  rw [← Text.filter_trim hp g]
  cases hs : statement? g with
  | none => rw [trim_of_statement?_eq_none hs]; rfl
  | some s => rw [(trim_of_statement? hs).1]; simp

theorem count_statement? (g : Text) :
    ((statement? g).toList.map (List.count ';')).sum = g.count ';' := by
  have hblank : ∀ c, isBlank c = true → (c == ';') = false := by
    intro c hc
    rw [beq_eq_false_iff_ne]
    rintro rfl
    exact absurd hc (by decide)
  have hfilter := congrArg List.length (filter_statement? hblank g)
  rw [← List.count_eq_length_filter, ← List.count_eq_length_filter] at hfilter
  rw [← hfilter]
  cases statement? g <;> simp

/-! ### All segments -/

theorem filterMap_statement? (gs : List Text) :
    gs.filterMap statement? = (gs.map Text.trim).filter (· ≠ []) := by
  induction gs with
  | nil => rfl
  | cons g gs ih =>
    rw [filterMap_statement?_cons, ih, List.map_cons, List.filter_cons, statement?]
    by_cases h : g.trim = [] <;> simp [h]

theorem filter_join {p : Char → Bool} (hp : ∀ c, isBlank c = true → p c = false)
    (hsep : p ';' = false) (gs : List Text) :
    (Text.join [';'] gs).filter p = (gs.filterMap statement?).flatten.filter p := by
  induction gs with
  | nil => rfl
  | cons g gs ih =>
    rw [filterMap_statement?_cons, List.flatten_append, List.filter_append, filter_statement? hp,
      ← ih]
    cases gs <;> simp [hsep]

theorem count_join (gs : List Text) :
    (Text.join [';'] gs).count ';' =
      (gs.length - 1) + ((gs.filterMap statement?).map (List.count ';')).sum := by
  induction gs with
  | nil => rfl
  | cons g gs ih =>
    rw [filterMap_statement?_cons, List.map_append, List.sum_append, count_statement?]
    cases gs with
    | nil => simp
    | cons h gs =>
      rw [Text.join_cons_cons, List.count_append, List.count_append, ih, List.count_singleton_self]
      simp only [List.length_cons]
      omega

/-! ### Places -/

/-- The statements of segments, each with the offset it stands at. The first segment stands
at `offset`. -/
def placesFrom (offset : Nat) : List Text → List (Nat × Text)
  | [] => []
  | g :: gs =>
    ((statement? g).map (offset + lead g, ·)).toList ++ placesFrom (offset + g.length + 1) gs

theorem map_placesFrom (offset : Nat) (gs : List Text) :
    (placesFrom offset gs).map (·.2) = gs.filterMap statement? := by
  induction gs generalizing offset with
  | nil => rfl
  | cons g gs ih =>
    rw [placesFrom, List.map_append, ih, filterMap_statement?_cons]
    cases statement? g <;> rfl

theorem mem_placesFrom_cons {offset : Nat} {g : Text} {gs : List Text} {q : Nat × Text} :
    q ∈ placesFrom offset (g :: gs) ↔
      (q.1 = offset + lead g ∧ statement? g = some q.2) ∨
        q ∈ placesFrom (offset + g.length + 1) gs := by
  obtain ⟨p, s⟩ := q
  rw [placesFrom, List.mem_append, Option.mem_toList, Option.map_eq_some_iff]
  refine or_congr_left ⟨?_, ?_⟩
  · intro h
    obtain ⟨s, hs, heq⟩ := h
    cases heq
    exact ⟨rfl, hs⟩
  · intro h
    obtain ⟨rfl, hs⟩ := h
    exact ⟨s, hs, rfl⟩

theorem le_of_mem_placesFrom {offset : Nat} {gs : List Text} {q : Nat × Text}
    (h : q ∈ placesFrom offset gs) : offset ≤ q.1 := by
  induction gs generalizing offset with
  | nil => cases h
  | cons g gs ih =>
    rcases mem_placesFrom_cons.mp h with ⟨hq, -⟩ | hmem
    · omega
    · have hle := ih hmem
      omega

/-- Each statement has ended when the next one begins. -/
theorem placesFrom_apart (offset : Nat) (gs : List Text) :
    (placesFrom offset gs).Pairwise fun a b => a.1 + a.2.length < b.1 := by
  induction gs generalizing offset with
  | nil => exact .nil
  | cons g gs ih =>
    rw [placesFrom]
    cases hs : statement? g with
    | none => exact ih _
    | some s =>
      refine .cons (fun q hq => ?_) (ih _)
      have hend := (statement?_at_lead hs).1
      have hbegin := le_of_mem_placesFrom hq
      show offset + lead g + s.length < q.1
      omega

/-- The statements of segments stand in the text of the segments. -/
theorem prefix_of_mem_placesFrom {before : Text} {gs : List Text} {q : Nat × Text}
    (h : q ∈ placesFrom before.length gs) :
    q.2 <+: (before ++ Text.join [';'] gs).drop q.1 := by
  induction gs generalizing before with
  | nil => cases h
  | cons g gs ih =>
    rcases mem_placesFrom_cons.mp h with ⟨hq, hs⟩ | hmem
    · obtain ⟨tail, htail⟩ : ∃ tail, Text.join [';'] (g :: gs) = g ++ tail := by
        cases gs <;> simp
      rw [hq, htail, List.drop_length_add_append]
      exact (statement?_at_lead hs).2 tail
    · cases gs with
      | nil => cases hmem
      | cons g' gs =>
        have hlength : (before ++ g ++ [';']).length = before.length + g.length + 1 := by
          rw [List.length_append, List.length_append, List.length_singleton]
        have hprefix := @ih (before ++ g ++ [';']) (by rwa [hlength])
        simpa using hprefix

/-! ### The whole script -/

variable (rules : Rules) (script : Text)

theorem segments_tokens :
    segments (tokens rules script) = pieces 0 (separators rules script) script := by
  rw [segments_eq_pieces 0, tokens_text]
  rfl

theorem join_pieces : Text.join [';'] (pieces 0 (separators rules script) script) = script := by
  rw [← segments_tokens, join_segments, tokens_text]

theorem statements_eq_pieces :
    statements rules script = (pieces 0 (separators rules script) script).filterMap statement? := by
  rw [← segments_tokens]
  rfl

theorem count_semicolons :
    script.count ';' =
      (separators rules script).length + ((statements rules script).map (List.count ';')).sum := by
  have hlength : (pieces 0 (separators rules script) script).length - 1 =
      (separators rules script).length := by
    rw [← segments_tokens, length_segments, separators, length_separatorsFrom]
    rfl
  conv => lhs; rw [← join_pieces rules script]
  rw [count_join, hlength, ← statements_eq_pieces]

theorem trim_of_mem_statements {s : Text} (hs : s ∈ statements rules script) :
    s ≠ [] ∧ s.trim = s := by
  obtain ⟨g, -, hg⟩ := List.mem_filterMap.mp hs
  obtain ⟨rfl, hne⟩ := trim_of_statement? hg
  exact ⟨hne, Text.trim_trim g⟩

/-- **Splitting loses, doubles and moves nothing**: the statements of a script are its
pieces between the semicolons outside every region, trimmed, in order, and what they leave
out of the script are blanks and those semicolons. -/
theorem statements_account :
    Account rules script (separators rules script) (statements rules script) where
  mem_iff _ := mem_separators_iff
  ascending := separatorsFrom_ascending 0 (tokens rules script)
  whole := join_pieces rules script
  found_eq := by rw [statements_eq_pieces, filterMap_statement?]
  trimmed _ := trim_of_mem_statements rules script
  taken_off g _ := exists_trim_ends g
  places := by
    refine ⟨placesFrom 0 (pieces 0 (separators rules script) script), ?_, fun q hq => ?_,
      placesFrom_apart 0 _⟩
    · rw [map_placesFrom, statements_eq_pieces]
    · have hstands := @prefix_of_mem_placesFrom [] _ q hq
      rwa [join_pieces] at hstands
  kept := by
    rw [statements_eq_pieces, ← filter_join (by simp +contextual) (by decide), join_pieces]
  semicolons := count_semicolons rules script

end SqlScript
