import SqlScript.Token
import SqlScript.Proofs.Separators

/-! The attempts made while a script is read. There is one at each place that reading comes to
outside the regions, if a form opens with the character there (`mem_attempts_iff`), and the
regions left open are among those found (`unclosed_eq_attempts`). -/
namespace SqlScript

variable {rules : Rules}

namespace Attempt

/-- The attempt as it is made some characters later. -/
def shift (n : Nat) (a : Attempt) : Attempt := ⟨a.start + n, a.stop + n, a.region⟩

/-- Where a token stands does not count for what is attempted there. -/
theorem ofToken?_add (rules : Rules) (offset n : Nat) (token : Token) :
    ofToken? rules (offset + n) token = (ofToken? rules offset token).map (shift n) := by
  cases token with
  | separator => rfl
  | plain c =>
    rw [ofToken?, ofToken?]
    split <;> rfl
  | region r => simp [ofToken?, shift, Nat.add_right_comm]

end Attempt

/-- No form opens with the separator. -/
theorem Rules.form?_separator (rules : Rules) : rules.form? ';' = none := by
  rw [Option.eq_none_iff_forall_ne_some]
  intro f hf
  obtain ⟨hmem, hinitial⟩ := Rules.form?_eq_some_iff.mp hf
  rcases mem_forms_iff.mp hmem with
    rfl | ⟨-, rfl⟩ | ⟨-, rfl⟩ | rfl | rfl | rfl | ⟨-, rfl⟩ | ⟨-, rfl⟩ <;> cases hinitial

/-- The attempt made in front of a text is the one of the token that stands there. -/
theorem here?_of_read? {t rest : Text} {token : Token}
    (h : Token.read? rules t = some (token, rest)) (offset : Nat) :
    Attempt.here? rules offset t = Attempt.ofToken? rules offset token := by
  cases t with
  | nil => cases h
  | cons c cs =>
    rw [Token.read?] at h
    split at h
    · next hc =>
      cases h
      rw [Attempt.here?, hc, Rules.form?_separator]
      rfl
    · rw [Rules.readRegion?] at h
      cases hform : rules.form? c with
      | none =>
        rw [hform] at h
        cases h
        simp [Attempt.here?, Attempt.ofToken?, hform]
      | some f =>
        rw [hform, Option.bind_some] at h
        cases hread : f.read? (c :: cs) with
        | none =>
          rw [hread] at h
          cases h
          simp [Attempt.here?, Attempt.ofToken?, hform, hread]
        | some found =>
          rw [hread] at h
          cases h
          simp [Attempt.here?, Attempt.ofToken?, hform, hread]

/-- A token of a script is read where it stands, and the others behind it. -/
theorem read?_of_tokens {script : Text} {x y : List Token} {token : Token}
    (h : tokens rules script = x ++ token :: y) :
    Token.read? rules (script.drop (x.flatMap Token.text).length) =
        some (token, y.flatMap Token.text) ∧
      tokens rules (y.flatMap Token.text) = y := by
  have hscript := tokens_text rules script
  have hreads := reads_tokens rules script
  rw [h] at hscript hreads
  obtain ⟨-, hstands, hrest⟩ := reads_append.mp hreads
  rw [List.append_nil] at hstands
  rw [← hscript, List.flatMap_append, List.drop_left]
  exact ⟨Token.read?_eq_some_iff.mpr ⟨rfl, hstands⟩, tokens_of_reads_nil hrest⟩

/-! ### All attempts -/

theorem attemptsFrom_append (offset : Nat) (a b : List Token) :
    attemptsFrom rules offset (a ++ b) =
      attemptsFrom rules offset a ++
        attemptsFrom rules (offset + (a.flatMap Token.text).length) b := by
  rw [attemptsFrom, locate_append, List.filterMap_append]
  rfl

theorem attemptsFrom_cons (offset : Nat) (token : Token) (ts : List Token) :
    attemptsFrom rules offset (token :: ts) =
      (Attempt.ofToken? rules offset token).toList ++
        attemptsFrom rules (offset + token.text.length) ts := by
  cases h : Attempt.ofToken? rules offset token <;> simp [attemptsFrom, locate, h]

theorem attemptsFrom_add (offset n : Nat) (ts : List Token) :
    attemptsFrom rules (offset + n) ts = (attemptsFrom rules offset ts).map (Attempt.shift n) := by
  induction ts generalizing offset with
  | nil => rfl
  | cons token ts ih =>
    rw [attemptsFrom_cons, attemptsFrom_cons, Attempt.ofToken?_add, Nat.add_right_comm, ih,
      List.map_append]
    cases Attempt.ofToken? rules offset token <;> rfl

/-- **An attempt is made at each place that reading comes to**, and nowhere else. -/
theorem mem_attempts_iff {script : Text} {a : Attempt} :
    a ∈ attempts rules script ↔
      ∃ p, Reaches rules script p ∧ Attempt.here? rules p (script.drop p) = some a := by
  constructor
  · intro ha
    obtain ⟨⟨start, token⟩, hplace, hof⟩ := List.mem_filterMap.mp ha
    obtain ⟨x, y, htokens, rfl⟩ := mem_locate_iff.mp hplace
    refine ⟨_, ⟨x, token :: y, htokens, rfl⟩, ?_⟩
    rw [here?_of_read? (read?_of_tokens htokens).1]
    simpa using hof
  · rintro ⟨p, ⟨x, y, htokens, rfl⟩, hhere⟩
    cases y with
    | nil =>
      have hscript := tokens_text rules script
      rw [htokens, List.append_nil] at hscript
      rw [hscript, List.drop_length] at hhere
      cases hhere
    | cons token y =>
      rw [here?_of_read? (read?_of_tokens htokens).1] at hhere
      refine List.mem_filterMap.mpr ⟨((x.flatMap Token.text).length, token), ?_, hhere⟩
      exact mem_locate_iff.mpr ⟨x, y, htokens, (Nat.zero_add _).symm⟩

/-- What is left open at a token is what the attempt there found open. -/
theorem ofToken?_bind_unclosed? (rules : Rules) (offset : Nat) (token : Token) :
    (Attempt.ofToken? rules offset token).bind Attempt.unclosed? = token.unclosed? offset := by
  cases token with
  | separator => rfl
  | plain c =>
    simp only [Token.unclosed?, Attempt.ofToken?]
    split <;> rfl
  | region r => rfl

theorem unclosedFrom_eq_attempts (rules : Rules) (offset : Nat) (ts : List Token) :
    unclosedFrom offset ts = (attemptsFrom rules offset ts).filterMap Attempt.unclosed? := by
  rw [unclosedFrom, attemptsFrom, List.filterMap_filterMap]
  exact List.filterMap_congr fun place _ => (ofToken?_bind_unclosed? rules place.1 place.2).symm

/-- **What a script leaves open are the regions that an attempt found open.** -/
theorem unclosed_eq_attempts (rules : Rules) (script : Text) :
    unclosed rules script = (attempts rules script).filterMap Attempt.unclosed? :=
  unclosedFrom_eq_attempts rules 0 (tokens rules script)

end SqlScript
