import SqlScript.Token
import SqlScript.Proofs.Segments

/-! The separators of a script by the offsets they stand at. They are the semicolons
outside the regions that were read (`mem_separators_iff`), and the segments are the pieces
of the script between them (`segments_eq_pieces`). -/
namespace SqlScript

/-- The offsets of the separators among tokens of which the first stands at `offset`. -/
def separatorsFrom (offset : Nat) (ts : List Token) : List Nat :=
  (locate offset ts).filterMap fun (start, token) =>
    if token = .separator then some start else none

/-- The offsets at which a script is cut. -/
def separators (rules : Rules) (script : Text) : List Nat :=
  separatorsFrom 0 (tokens rules script)

/-- The pieces of a text between the characters at some offsets. The text itself stands at
`offset`, and the characters belong to no piece. -/
def pieces (offset : Nat) : List Nat → Text → List Text
  | [], t => [t]
  | p :: ps, t => t.take (p - offset) :: pieces (p + 1) ps (t.drop (p + 1 - offset))

/-- Whether an offset is in none of the regions that were read. -/
def Outside (rules : Rules) (script : Text) (p : Nat) : Prop :=
  ∀ a ∈ attempts rules script, p < a.start ∨ a.stop ≤ p

instance (rules : Rules) (script : Text) (p : Nat) : Decidable (Outside rules script p) :=
  inferInstanceAs (Decidable (∀ a ∈ attempts rules script, p < a.start ∨ a.stop ≤ p))

variable {rules : Rules} {script : Text} {p : Nat}

/-! ### Places of tokens -/

theorem mem_locate_iff {offset start : Nat} {token : Token} {ts : List Token} :
    (start, token) ∈ locate offset ts ↔
      ∃ a b, ts = a ++ token :: b ∧ start = offset + (a.flatMap Token.text).length := by
  refine ⟨?_, ?_⟩
  · intro h
    induction ts generalizing offset with
    | nil => cases h
    | cons first ts ih =>
      rcases List.mem_cons.mp h with heq | hmem
      · cases heq
        exact ⟨[], ts, rfl, rfl⟩
      · obtain ⟨a, b, rfl, rfl⟩ := ih hmem
        refine ⟨first :: a, b, rfl, ?_⟩
        rw [List.flatMap_cons, List.length_append, Nat.add_assoc]
  · intro hsplit
    obtain ⟨a, b, rfl, rfl⟩ := hsplit
    rw [locate_append]
    exact List.mem_append_right _ List.mem_cons_self

/-- Every character of a script belongs to a token. -/
theorem exists_token_at {ts : List Token} (h : p < (ts.flatMap Token.text).length) :
    ∃ a token b, ts = a ++ token :: b ∧ (a.flatMap Token.text).length ≤ p ∧
      p < (a.flatMap Token.text).length + token.text.length := by
  induction ts generalizing p with
  | nil => exact absurd h (Nat.not_lt_zero p)
  | cons first ts ih =>
    by_cases hp : p < first.text.length
    · exact ⟨[], first, ts, rfl, Nat.zero_le p, by simpa using hp⟩
    · rw [List.flatMap_cons, List.length_append] at h
      obtain ⟨a, token, b, rfl, hle, hlt⟩ := @ih (p - first.text.length) (by omega)
      refine ⟨first :: a, token, b, rfl, ?_, ?_⟩ <;>
        rw [List.flatMap_cons, List.length_append] <;> omega

theorem mem_separatorsFrom {offset : Nat} {ts : List Token} :
    p ∈ separatorsFrom offset ts ↔ ∃ a b, ts = a ++ .separator :: b ∧
      p = offset + (a.flatMap Token.text).length := by
  rw [separatorsFrom, List.mem_filterMap]
  refine ⟨?_, ?_⟩
  · intro hmem
    obtain ⟨⟨start, token⟩, hlocate, hp⟩ := hmem
    obtain ⟨rfl, rfl⟩ : token = .separator ∧ start = p := by simpa using hp
    exact mem_locate_iff.mp hlocate
  · intro hsplit
    exact ⟨(p, .separator), mem_locate_iff.mpr hsplit, rfl⟩

theorem mem_separators :
    p ∈ separators rules script ↔ ∃ a b, tokens rules script = a ++ .separator :: b ∧
      p = (a.flatMap Token.text).length := by
  rw [separators, mem_separatorsFrom]
  simp only [Nat.zero_add]

/-- Only the regions read take up offsets. -/
theorem outside_iff :
    Outside rules script p ↔ ∀ a r b, tokens rules script = a ++ .region r :: b →
      p < (a.flatMap Token.text).length ∨ (a.flatMap Token.text).length + r.text.length ≤ p := by
  refine ⟨?_, ?_⟩
  · intro h a r b htokens
    refine h ⟨_, _, some r⟩ (List.mem_filterMap.mpr ⟨((a.flatMap Token.text).length, .region r), ?_, rfl⟩)
    exact mem_locate_iff.mpr ⟨a, b, htokens, (Nat.zero_add _).symm⟩
  · intro h attempt hattempt
    obtain ⟨⟨start, token⟩, hlocate, hof⟩ := List.mem_filterMap.mp hattempt
    obtain ⟨a, b, htokens, rfl⟩ := mem_locate_iff.mp hlocate
    cases token with
    | separator => cases hof
    | plain c =>
      -- An attempt that comes to no region takes up nothing.
      obtain ⟨-, rfl⟩ : _ ∧ (⟨_, _, none⟩ : Attempt) = attempt := by
        simpa [Attempt.ofToken?] using hof
      exact Nat.lt_or_ge _ _
    | region r =>
      cases hof
      simpa using h a r b htokens

/-- Of two tokens of one script, one stands behind the other. -/
theorem apart_of_split {a b a' b' : List Token} {x y : Token} (h : a ++ x :: b = a' ++ y :: b')
    (hne : x ≠ y) :
    (a.flatMap Token.text).length + x.text.length ≤ (a'.flatMap Token.text).length ∨
      (a'.flatMap Token.text).length + y.text.length ≤ (a.flatMap Token.text).length := by
  rcases List.append_eq_append_iff.mp h with ⟨c, rfl, hc⟩ | ⟨c, rfl, hc⟩
  · left
    cases c with
    | nil => exact absurd (List.cons.inj hc).1 hne
    | cons first c =>
      obtain ⟨rfl, -⟩ := List.cons.inj hc
      simp only [List.flatMap_append, List.flatMap_cons, List.length_append]
      omega
  · right
    cases c with
    | nil => exact absurd (List.cons.inj hc).1.symm hne
    | cons first c =>
      obtain ⟨rfl, -⟩ := List.cons.inj hc
      simp only [List.flatMap_append, List.flatMap_cons, List.length_append]
      omega

theorem getElem?_of_mem_separators (h : p ∈ separators rules script) : script[p]? = some ';' := by
  obtain ⟨a, b, htokens, rfl⟩ := mem_separators.mp h
  rw [← tokens_text rules script, htokens, List.flatMap_append, List.flatMap_cons]
  simp [Token.text]

theorem outside_of_mem_separators (h : p ∈ separators rules script) : Outside rules script p := by
  obtain ⟨a, b, htokens, rfl⟩ := mem_separators.mp h
  rw [outside_iff]
  intro a' r b' htokens'
  rw [htokens] at htokens'
  have hne : Token.separator ≠ .region r := Token.noConfusion
  exact apart_of_split htokens' hne

/-- Outside the regions a semicolon can only have been read as a separator. -/
theorem mem_separators_of_outside (hchar : script[p]? = some ';')
    (houtside : Outside rules script p) : p ∈ separators rules script := by
  have hscript := tokens_text rules script
  have hreads := reads_tokens rules script
  have hlt : p < script.length := (List.getElem?_eq_some_iff.mp hchar).1
  rw [← hscript] at hlt
  obtain ⟨a, token, b, htokens, hle, hend⟩ := exists_token_at hlt
  rw [← hscript, htokens, List.flatMap_append, List.flatMap_cons, List.getElem?_append_right hle,
    List.getElem?_append_left (by omega)] at hchar
  rw [mem_separators]
  cases token with
  | separator =>
    refine ⟨a, b, htokens, ?_⟩
    have hone : Token.separator.text.length = 1 := rfl
    omega
  | plain c =>
    rw [htokens, reads_append] at hreads
    obtain ⟨-, hstands, -⟩ := hreads
    cases hstands with
    | plain hc => exact absurd (List.mem_singleton.mp (List.mem_of_getElem? hchar)).symm hc
  | region r =>
    have hregion := outside_iff.mp houtside a r b htokens
    rw [Token.text] at hend
    omega

/-- **The separators of a script are the semicolons outside every region read.** -/
theorem mem_separators_iff :
    p ∈ separators rules script ↔ script[p]? = some ';' ∧ Outside rules script p := by
  refine ⟨fun h => ?_, fun h => mem_separators_of_outside h.1 h.2⟩
  exact ⟨getElem?_of_mem_separators h, outside_of_mem_separators h⟩

/-! ### Pieces -/

theorem separatorsFrom_append (offset : Nat) (a b : List Token) :
    separatorsFrom offset (a ++ b) =
      separatorsFrom offset a ++ separatorsFrom (offset + (a.flatMap Token.text).length) b := by
  rw [separatorsFrom, locate_append, List.filterMap_append]
  rfl

theorem separatorsFrom_separator (offset : Nat) (ts : List Token) :
    separatorsFrom offset (.separator :: ts) = offset :: separatorsFrom (offset + 1) ts := rfl

theorem separatorsFrom_cons {token : Token} (h : token ≠ .separator) (offset : Nat)
    (ts : List Token) :
    separatorsFrom offset (token :: ts) = separatorsFrom (offset + token.text.length) ts := by
  simp [separatorsFrom, locate, h]

theorem length_separatorsFrom (offset : Nat) (ts : List Token) :
    (separatorsFrom offset ts).length = ts.count .separator := by
  induction ts generalizing offset with
  | nil => rfl
  | cons token ts ih =>
    by_cases h : token = .separator
    · rw [h, separatorsFrom_separator, List.length_cons, ih, List.count_cons_self]
    · rw [separatorsFrom_cons h, ih, List.count_cons_of_ne h]

theorem separators_eq_nil_iff :
    separators rules script = [] ↔ .separator ∉ tokens rules script := by
  rw [← List.length_eq_zero_iff, separators, length_separatorsFrom, List.count_eq_zero]

theorem le_of_mem_separatorsFrom {offset : Nat} {ts : List Token} :
    ∀ p ∈ separatorsFrom offset ts, offset ≤ p := by
  intro p hp
  obtain ⟨a, b, -, rfl⟩ := mem_separatorsFrom.mp hp
  exact Nat.le_add_right _ _

theorem separatorsFrom_ascending (offset : Nat) (ts : List Token) :
    (separatorsFrom offset ts).Pairwise (· < ·) := by
  induction ts generalizing offset with
  | nil => exact .nil
  | cons token ts ih =>
    by_cases h : token = .separator
    · rw [h, separatorsFrom_separator]
      exact .cons (fun p hp => le_of_mem_separatorsFrom p hp) (ih (offset + 1))
    · rw [separatorsFrom_cons h]
      exact ih _

/-- What stands in front of the first offset belongs to the first piece. -/
theorem pieces_append {offset : Nat} {front t : Text} {ps : List Nat}
    (h : ∀ p ∈ ps, offset + front.length ≤ p) :
    pieces offset ps (front ++ t) =
      (pieces (offset + front.length) ps t).modifyHead (front ++ ·) := by
  cases ps with
  | nil => rfl
  | cons p ps =>
    have hp := h p List.mem_cons_self
    have htake : p - offset = front.length + (p - (offset + front.length)) := by omega
    have hdrop : p + 1 - offset = front.length + (p + 1 - (offset + front.length)) := by omega
    rw [pieces, pieces, htake, hdrop, List.take_length_add_append, List.drop_length_add_append]
    rfl

/-- **The segments are the pieces between the separators.** -/
theorem segments_eq_pieces (offset : Nat) (ts : List Token) :
    segments ts = pieces offset (separatorsFrom offset ts) (ts.flatMap Token.text) := by
  induction ts generalizing offset with
  | nil => rfl
  | cons token ts ih =>
    by_cases h : token = .separator
    · subst h
      rw [separatorsFrom_separator, List.flatMap_cons, pieces, segments, ih (offset + 1)]
      simp [Token.text]
    · obtain ⟨first, back, hts⟩ := exists_first_segment ts
      rw [separatorsFrom_cons h, List.flatMap_cons, pieces_append le_of_mem_separatorsFrom, ← ih,
        hts, segments_cons h hts]
      rfl

/-- Nothing is lost between the pieces but the separators. -/
theorem join_segments (ts : List Token) :
    Text.join [';'] (segments ts) = ts.flatMap Token.text := by
  induction ts with
  | nil => rfl
  | cons token ts ih =>
    obtain ⟨first, back, hts⟩ := exists_first_segment ts
    rw [List.flatMap_cons, ← ih]
    by_cases h : token = .separator
    · subst h
      rw [segments, hts, Text.join_cons_cons]
      rfl
    · rw [segments_cons h hts, hts]
      cases back <;> simp

end SqlScript
