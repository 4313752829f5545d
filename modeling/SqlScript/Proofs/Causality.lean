import SqlScript.Dialect
import SqlScript.Proofs.Accounting
import SqlScript.Proofs.Concatenation

/-! What is known of a script before all of it has arrived. A statement that a separator
has ended is a statement of every script that begins in the same way, in the same place
(`ended_append`). Only what stands behind the last separator may still change. -/
namespace SqlScript

/-- The statements among tokens that a separator ends, each with the offset of that
separator. The first token stands at `offset`. -/
def endedFrom (offset : Nat) (ts : List Token) : List (Nat × Text) :=
  ((separatorsFrom offset ts).zip (segments ts)).filterMap fun (p, segment) =>
    (statement? segment).map (p, ·)

/-- The statements of a script that a separator ends, each with the offset of it. A
statement at the end of the script is none of them. -/
def ended (rules : Rules) (script : Text) : List (Nat × Text) :=
  endedFrom 0 (tokens rules script)

variable {rules : Rules}

/-! ### Cutting behind a separator -/

theorem endedFrom_of_not_mem {ts : List Token} (h : .separator ∉ ts) (offset : Nat) :
    endedFrom offset ts = [] := by
  have hnil : separatorsFrom offset ts = [] := by
    rw [← List.length_eq_zero_iff, length_separatorsFrom, List.count_eq_zero.mpr h]
  rw [endedFrom, hnil]
  rfl

theorem endedFrom_separator (offset : Nat) (a b : List Token) :
    endedFrom offset (a ++ .separator :: b) = endedFrom offset (a ++ [.separator]) ++
      endedFrom (offset + (a.flatMap Token.text).length + 1) b := by
  have hseparators (b : List Token) : separatorsFrom offset (a ++ .separator :: b) =
      separatorsFrom offset a ++ [offset + (a.flatMap Token.text).length] ++
        separatorsFrom (offset + (a.flatMap Token.text).length + 1) b := by
    rw [separatorsFrom_append, separatorsFrom_separator, List.append_assoc]
    rfl
  have hlength : (separatorsFrom offset a ++ [offset + (a.flatMap Token.text).length]).length =
      (segments a).length := by
    rw [List.length_append, length_separatorsFrom, length_segments, List.length_singleton]
  rw [endedFrom, endedFrom, endedFrom, hseparators, hseparators, segments_separator,
    segments_separator, List.zip_append hlength, List.zip_append hlength, List.filterMap_append,
    List.filterMap_append]
  simp [separatorsFrom, locate]

theorem mem_separatorsFrom_of_mem_endedFrom {offset : Nat} {ts : List Token} {e : Nat × Text}
    (h : e ∈ endedFrom offset ts) : e.1 ∈ separatorsFrom offset ts := by
  obtain ⟨⟨p, segment⟩, hzip, hs⟩ := List.mem_filterMap.mp h
  obtain ⟨s, -, rfl⟩ := Option.map_eq_some_iff.mp hs
  exact (List.of_mem_zip hzip).1

theorem exists_last_separator {ts : List Token} (h : .separator ∈ ts) :
    ∃ a b, ts = a ++ .separator :: b ∧ .separator ∉ b := by
  obtain ⟨b, a, hts, hb⟩ := List.eq_append_cons_of_mem (List.mem_reverse.mpr h)
  refine ⟨a.reverse, b.reverse, ?_, by simpa using hb⟩
  simpa using congrArg List.reverse hts

/-! ### Statements that have been ended -/

/-- All statements but the one of the last segment have been ended. -/
theorem statements_eq_ended {script : Text} {front : List Text} {last : Text}
    (h : segments (tokens rules script) = front ++ [last]) :
    statements rules script = (ended rules script).map (·.2) ++ (statement? last).toList := by
  have hlength : (separatorsFrom 0 (tokens rules script)).length = front.length := by
    have hsegments := length_segments (tokens rules script)
    rw [h, List.length_append, List.length_singleton] at hsegments
    rw [length_separatorsFrom]
    omega
  have hended : (ended rules script).map (·.2) = front.filterMap statement? := by
    have hzip : (separatorsFrom 0 (tokens rules script)).zip (front ++ [last]) =
        (separatorsFrom 0 (tokens rules script)).zip front := by
      conv => lhs; rw [← List.append_nil (separatorsFrom 0 (tokens rules script))]
      rw [List.zip_append hlength, List.zip_nil_left, List.append_nil]
    conv => rhs; rw [← List.map_snd_zip (Nat.le_of_eq hlength.symm), List.filterMap_map]
    rw [ended, endedFrom, h, hzip, List.map_filterMap]
    refine List.filterMap_congr fun e _ => ?_
    show ((statement? e.2).map (e.1, ·)).map (·.2) = statement? e.2
    cases statement? e.2 <;> rfl
  rw [statements, h, List.filterMap_append, hended]
  rfl

theorem ended_prefix_statements (rules : Rules) (script : Text) :
    (ended rules script).map (·.2) <+: statements rules script := by
  obtain ⟨front, last, h⟩ := exists_last_segment (tokens rules script)
  rw [statements_eq_ended h]
  exact List.prefix_append _ _

/-- What has been ended stays so when more text arrives. -/
theorem ended_append (rules : Rules) (a t : Text) : ended rules a <+: ended rules (a ++ t) := by
  by_cases h : .separator ∈ tokens rules a
  · obtain ⟨x, y, htokens, hy⟩ := exists_last_separator h
    obtain ⟨hcut, -⟩ := reads_front htokens
    have ha : a ++ t = x.flatMap Token.text ++ ';' :: (y.flatMap Token.text ++ t) := by
      conv => lhs; rw [hcut]
      rw [List.append_assoc, List.cons_append]
    rw [ended, ended, ha, tokens_cut htokens, htokens, endedFrom_separator 0 x y,
      endedFrom_separator 0 x (tokens rules _), endedFrom_of_not_mem hy, List.append_nil]
    exact List.prefix_append _ _
  · rw [ended, endedFrom_of_not_mem h]
    exact List.nil_prefix

/-- A statement has been ended as soon as the separator behind it is there. -/
theorem lt_length_ended_take {a : Text} {k : Nat} {e : Nat × Text}
    (h : (ended rules a)[k]? = some e) : k < (ended rules (a.take (e.1 + 1))).length := by
  obtain ⟨x, y, htokens, hp⟩ :=
    mem_separators.mp (mem_separatorsFrom_of_mem_endedFrom (List.mem_of_getElem? h))
  have htake : a.take (e.1 + 1) = x.flatMap Token.text ++ [';'] := by
    obtain ⟨hcut, -⟩ := reads_front htokens
    conv => lhs; rw [hcut, List.append_cons]
    exact List.take_left' (by rw [hp, List.length_append, List.length_singleton])
  rw [ended, htake, tokens_cut htokens, tokens_nil]
  by_contra hlt
  -- What is ended later has its separator further on.
  rw [ended, htokens, endedFrom_separator, List.getElem?_append_right (Nat.not_lt.mp hlt)] at h
  have hmem := mem_separatorsFrom_of_mem_endedFrom (List.mem_of_getElem? h)
  have hle := le_of_mem_separatorsFrom e.1 hmem
  omega

/-- **A statement that a separator has ended never changes**. All statements have been ended
but the one of the last piece; those that have come first in every script that begins in
the same way, and two scripts that agree up to the separator behind a statement agree in
all statements up to that one. -/
theorem statements_causal (rules : Rules) (a : Text) :
    (∃ tail ∈ (pieces 0 (separators rules a) a).getLast?,
      statements rules a = (ended rules a).map (·.2) ++ (statement? tail).toList) ∧
    (∀ t, (ended rules a).map (·.2) <+: statements rules (a ++ t)) ∧
    ∀ k p s, (ended rules a)[k]? = some (p, s) → ∀ b : Text, b.take (p + 1) = a.take (p + 1) →
      (statements rules b).take (k + 1) = (statements rules a).take (k + 1) := by
  have hstable (a t : Text) : (ended rules a).map (·.2) <+: statements rules (a ++ t) :=
    ((ended_append rules a t).map _).trans (ended_prefix_statements rules (a ++ t))
  obtain ⟨front, last, hlast⟩ := exists_last_segment (tokens rules a)
  refine ⟨⟨last, ?_, statements_eq_ended hlast⟩, hstable a, fun k p s hk b hb => ?_⟩
  · rw [← segments_tokens, hlast, List.getLast?_concat]
    rfl
  have hlength := lt_length_ended_take hk
  have htake (c : Text) (hc : c.take (p + 1) = a.take (p + 1)) :
      (statements rules c).take (k + 1) =
        ((ended rules (a.take (p + 1))).map (·.2)).take (k + 1) := by
    obtain ⟨others, hothers⟩ := hstable (a.take (p + 1)) (c.drop (p + 1))
    rw [← hc, List.take_append_drop] at hothers
    rw [← hothers, hc, List.take_append_of_le_length]
    rw [List.length_map]
    exact hlength
  rw [htake b hb, htake a rfl]

/-- A dollar sign that turns out to open a string behind the separator. -/
theorem statements_causal_half_typed :
    let rules := Dialect.postgres.rules
    let a := "x;$a".toList
    let b := "x;$a$;$a$;".toList
    (ended rules a)[0]? = some (1, ['x']) ∧ b.take 2 = a.take 2 ∧
      (statements rules b).take 1 = (statements rules a).take 1 := by
  intro rules a b
  have hended : (ended rules a)[0]? = some (1, ['x']) := by decide +kernel
  have hagree : b.take 2 = a.take 2 := by decide
  exact ⟨hended, hagree, (statements_causal rules a).2.2 0 1 ['x'] hended b hagree⟩

end SqlScript
