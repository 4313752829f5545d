import SqlScript.Proofs.Outlook
import SqlScript.Proofs.Cursor.Progress

/-! Reading goes on from a place as it starts there.

What stands in front of a cursor does not count for it: an attempt (`exists_attempt`), a round
(`exists_round`), and from it any number of rounds (`exists_iterate_round`), comes to the same
whatever that is. At a place that reading comes to outside the regions the tokens of a script
are those of the two parts (`Reaches.tokens_eq`), and so what is still to be found is what the
rest of the script holds. -/
namespace SqlScript

variable {rules : Rules} {script : Text} {p : Nat}

namespace Cursor

theorem between_take_append (hp : p ≤ script.length) {moved left : Text}
    (h : moved ++ left = script.drop p) :
    between (script.take p ++ moved) left = ⟨script, (between moved left).pos + p⟩ := by
  have htext : script.take p ++ moved ++ left = script := by
    rw [List.append_assoc, h, List.take_append_drop]
  rw [between, htext, List.length_append, List.length_take_of_le hp, Nat.add_comm]
  rfl

/-! ### One attempt -/

/-- What a form reads does not depend on what stands in front of the cursor. -/
theorem exists_read (f : Form) (rest : Text) :
    ∃ found moved left, moved ++ left = rest ∧
      ∀ front, (between front rest).read f = (found, between (front ++ moved) left) := by
  cases ho : (between [] rest).opener? f with
  | none =>
    refine ⟨none, [], rest, rfl, fun front => ?_⟩
    rw [read, opener?_between_nil, ho, List.append_nil]
  | some opener =>
    obtain ⟨tail, rfl⟩ := exists_rest_of_opener?_between ho
    refine ⟨_, _, _, ?_, fun front => read_of_opener? ((opener?_between_nil f).trans ho)⟩
    rw [List.append_assoc, (f.extent_cuts opener tail).whole]

/-- **An attempt comes to the same wherever it is made**, only that much later. -/
theorem exists_attempt (f : Form) (rest : Text) :
    ∃ (a : Attempt) (moved left : Text), moved ++ left = rest ∧
      ∀ front, (between front rest).attempt f =
        (a.shift front.length, between (front ++ moved) left) := by
  obtain ⟨found, moved, left, hwhole, hread⟩ := exists_read f rest
  refine ⟨⟨0, moved.length, found⟩, moved, left, hwhole, fun front => ?_⟩
  have hstop : moved.length + front.length = (front ++ moved).length := by
    rw [List.length_append, Nat.add_comm]
  rw [attempt, hread, Attempt.shift, Nat.zero_add, hstop]
  rfl

theorem attempt_eq_shift (hp : p ≤ script.length) (f : Form) :
    (⟨script, p⟩ : Cursor).attempt f =
      (((start (script.drop p)).attempt f).1.shift p,
        ⟨script, ((start (script.drop p)).attempt f).2.pos + p⟩) := by
  obtain ⟨a, moved, left, hwhole, hattempt⟩ := exists_attempt f (script.drop p)
  have hhere : (start (script.drop p)).attempt f = (a, between moved left) := hattempt []
  rw [hhere, ← between_take_drop hp, hattempt, between_take_append hp hwhole,
    List.length_take_of_le hp]

/-! ### Rounds -/

/-- So does a round. -/
theorem exists_round (rules : Rules) (rest : Text) :
    ∃ moved left, moved ++ left = rest ∧
      ∀ front, (between front rest).round rules = between (front ++ moved) left := by
  cases hread : Token.read? rules rest with
  | none =>
    obtain rfl := Token.read?_eq_none_iff.mp hread
    exact ⟨[], [], rfl, fun front => by rw [round_end, List.append_nil]⟩
  | some found => exact ⟨_, _, Token.read?_text hread, fun front => round_between hread⟩

/-- **Any number of rounds comes to the same wherever they start.** -/
theorem exists_iterate_round (rules : Rules) (n : Nat) (rest : Text) :
    ∃ moved left, moved ++ left = rest ∧
      ∀ front, (round rules)^[n] (between front rest) = between (front ++ moved) left := by
  induction n generalizing rest with
  | zero => exact ⟨[], rest, rfl, fun front => by rw [List.append_nil]; rfl⟩
  | succ n ih =>
    obtain ⟨moved, left, rfl, hround⟩ := exists_round rules rest
    obtain ⟨further, others, rfl, hrounds⟩ := ih left
    refine ⟨moved ++ further, others, List.append_assoc _ _ _, fun front => ?_⟩
    rw [Function.iterate_succ_apply, hround, hrounds, List.append_assoc]

theorem iterate_round_eq_shift (hp : p ≤ script.length) (n : Nat) :
    (round rules)^[n] ⟨script, p⟩ =
      ⟨script, ((round rules)^[n] (start (script.drop p))).pos + p⟩ := by
  obtain ⟨moved, left, hwhole, hrounds⟩ := exists_iterate_round rules n (script.drop p)
  have hhere : (round rules)^[n] (start (script.drop p)) = between moved left := hrounds []
  rw [hhere, ← between_take_drop hp, hrounds, between_take_append hp hwhole]

end Cursor

/-! ### What is left to find -/

theorem Reaches.le_length (h : Reaches rules script p) : p ≤ script.length := by
  obtain ⟨a, b, htokens, rfl⟩ := h
  rw [← tokens_text rules script, htokens, List.flatMap_append, List.length_append]
  exact Nat.le_add_right _ _

/-- **At a place that reading comes to a script falls into two** that are read apart. -/
theorem Reaches.tokens_eq (h : Reaches rules script p) :
    tokens rules script = tokens rules (script.take p) ++ tokens rules (script.drop p) := by
  obtain ⟨a, b, htokens, rfl⟩ := h
  have hscript := tokens_text rules script
  have hreads := reads_tokens rules script
  rw [htokens] at hscript hreads ⊢
  obtain ⟨hfront, hback⟩ := reads_append.mp hreads
  rw [← hscript, List.flatMap_append, List.take_left, List.drop_left,
    tokens_of_reads_nil hfront.cut, tokens_of_reads_nil hback]

namespace Attempt

theorem start_lt_of_mem {a : Attempt} (h : a ∈ attempts rules script) :
    a.start < script.length := by
  obtain ⟨q, -, hhere⟩ := mem_attempts_iff.mp h
  obtain ⟨f, -, hfirst, hkeeps⟩ := keeps_of_here? hhere
  rw [hkeeps.start_eq]
  exact (List.getElem?_eq_some_iff.mp hfirst).1

theorem start_of_unclosed? {a : Attempt} {u : Unclosed} (h : a.unclosed? = some u) :
    u.start = a.start := by
  obtain ⟨r, -, hr⟩ := Option.bind_eq_some_iff.mp h
  cases hclosed : r.closed with
  | true => simp [hclosed] at hr
  | false =>
    rw [hclosed] at hr
    cases hr
    rfl

theorem unclosed?_shift (n : Nat) (a : Attempt) :
    (a.shift n).unclosed? = a.unclosed?.map (Unclosed.shift n) := by
  rw [unclosed?, unclosed?, Option.map_bind]
  congr 1
  funext r
  simp only [Function.comp_apply, shift]
  split <;> rfl

end Attempt

/-- The attempts from there on are those made in the rest of the script. -/
theorem Reaches.attempts_filter (h : Reaches rules script p) :
    (attempts rules script).filter (p ≤ ·.start) =
      (attempts rules (script.drop p)).map (Attempt.shift p) := by
  have hparts : attempts rules script =
      attempts rules (script.take p) ++ (attempts rules (script.drop p)).map (Attempt.shift p) := by
    show attemptsFrom rules 0 (tokens rules script) = _
    rw [h.tokens_eq, attemptsFrom_append, attemptsFrom_add, tokens_text,
      List.length_take_of_le h.le_length]
    rfl
  have hfront : (attempts rules (script.take p)).filter (p ≤ ·.start) = [] := by
    rw [List.filter_eq_nil_iff]
    intro a ha
    have hlt := Attempt.start_lt_of_mem ha
    rw [List.length_take_of_le h.le_length] at hlt
    simpa using hlt
  have hback : ((attempts rules (script.drop p)).map (Attempt.shift p)).filter (p ≤ ·.start) =
      (attempts rules (script.drop p)).map (Attempt.shift p) := by
    rw [List.filter_eq_self]
    intro a ha
    obtain ⟨a', -, rfl⟩ := List.mem_map.mp ha
    exact decide_eq_true (Nat.le_add_left p a'.start)
  rw [hparts, List.filter_append, hfront, hback, List.nil_append]

/-- So are the regions that are left open. -/
theorem Reaches.unclosed_filter (h : Reaches rules script p) :
    (unclosed rules script).filter (p ≤ ·.start) =
      (unclosed rules (script.drop p)).map (Unclosed.shift p) := by
  have hstart : (unclosed rules script).filter (p ≤ ·.start) =
      ((attempts rules script).filter (p ≤ ·.start)).filterMap Attempt.unclosed? := by
    rw [unclosed_eq_attempts, List.filter_filterMap, List.filterMap_filter]
    refine List.filterMap_congr fun a _ => ?_
    cases hu : a.unclosed? with
    | none => simp
    | some u => simp [Option.filter, Attempt.start_of_unclosed? hu]
  rw [hstart, h.attempts_filter, unclosed_eq_attempts, List.filterMap_map, List.map_filterMap]
  exact List.filterMap_congr fun a _ => Attempt.unclosed?_shift p a

/-! ### Readers behind separators -/

namespace Reader

/-- The reader behind the next separator. -/
def onward (r : Reader) : Reader := r.stretch.behind

/-- A reader comes behind each separator in front of it. -/
theorem exists_iterate_onward {x y : List Token} (r : Reader)
    (h : tokens r.rules r.rest = x ++ .separator :: y) :
    ∃ k, onward^[k + 1] r =
      ⟨r.rules, r.offset + (x.flatMap Token.text).length + 1, y.flatMap Token.text⟩ := by
  induction x generalizing r with
  | nil =>
    have honward : r.onward = r.past .separator (y.flatMap Token.text) :=
      congrArg Stretch.behind (stretch_of_separator (read?_of_tokens h (x := [])).1)
    exact ⟨0, honward⟩
  | cons token x ih =>
    obtain ⟨hread, htokens⟩ := read?_of_tokens h (x := [])
    obtain ⟨k, hk⟩ := ih (r.past token ((x ++ .separator :: y).flatMap Token.text)) htokens
    have hoffset : (r.past token ((x ++ .separator :: y).flatMap Token.text)).offset +
        (x.flatMap Token.text).length = r.offset + ((token :: x).flatMap Token.text).length := by
      rw [List.flatMap_cons, List.length_append, ← Nat.add_assoc]
      rfl
    rw [hoffset] at hk
    by_cases hseparator : token = .separator
    · subst hseparator
      have honward : r.onward = r.past .separator ((x ++ .separator :: y).flatMap Token.text) :=
        congrArg Stretch.behind (stretch_of_separator hread)
      refine ⟨k + 1, ?_⟩
      rw [Function.iterate_succ_apply, honward]
      exact hk
    · -- A token that is no separator belongs to the stretch of what follows it.
      have honward : r.onward =
          (r.past token ((x ++ .separator :: y).flatMap Token.text)).onward := by
        rw [onward, stretch_of_token hread hseparator]
        rfl
      refine ⟨k, ?_⟩
      rw [Function.iterate_succ_apply, honward, ← Function.iterate_succ_apply]
      exact hk

/-- What is left to take and to note, of a reader that stands at an offset. -/
theorem drain_at (rules : Rules) (offset : Nat) (rest : Text) :
    (⟨rules, offset, rest⟩ : Reader).drain.values = statements rules rest ∧
      (⟨rules, offset, rest⟩ : Reader).drain.notices =
        (unclosed rules rest).map (Unclosed.shift offset) := by
  obtain ⟨hvalues, hnotices, -⟩ := drain_outlook ⟨rules, offset, rest⟩
  refine ⟨hvalues, hnotices.trans ?_⟩
  show unclosedFrom offset (tokens rules rest) = _
  rw [← Nat.zero_add offset, unclosedFrom_shift, Nat.zero_add]
  rfl

end Reader

/-- A separator stands between the statements in front of it and those behind it, which
reading finds when it has come there. -/
theorem statements_behind_separator {q : Nat} (hq : q ∈ separators rules script) :
    statements rules script =
        statements rules (script.take q) ++ statements rules (script.drop (q + 1)) ∧
      ∃ k, Reader.onward^[k] (Reader.start rules script) =
        ⟨rules, q + 1, script.drop (q + 1)⟩ := by
  obtain ⟨x, y, htokens, rfl⟩ := mem_separators.mp hq
  obtain ⟨hscript, hfront⟩ := reads_front htokens
  have htake : script.take (x.flatMap Token.text).length = x.flatMap Token.text := by
    conv_lhs => rw [hscript]
    exact List.take_left
  have hdrop : script.drop ((x.flatMap Token.text).length + 1) = y.flatMap Token.text := by
    conv_lhs => rw [hscript]
    rw [← List.drop_drop, List.drop_left]
    rfl
  obtain ⟨-, hback⟩ := read?_of_tokens htokens
  rw [htake, hdrop]
  refine ⟨?_, ?_⟩
  · rw [statements, htokens, segments_separator, List.filterMap_append, statements, statements,
      tokens_of_reads_nil hfront.cut, hback]
  · obtain ⟨k, hk⟩ := Reader.exists_iterate_onward (Reader.start rules script) htokens
    have hoffset : (Reader.start rules script).offset + (x.flatMap Token.text).length =
        (x.flatMap Token.text).length := Nat.zero_add _
    rw [hoffset] at hk
    exact ⟨k + 1, hk⟩

/-- **Reading goes on from a place as it starts there.** An attempt at `p` is the attempt at the
start of what stands there, only that much later. Where reading comes to outside the regions,
its further rounds are those of reading the rest from its start, and so are the attempts, the
regions left open and the notes taken of them. Behind a separator the statements still to be
taken are those of the rest. -/
theorem reading_translates (rules : Rules) (script : Text) :
    (∀ (f : Form) (p : Nat), p ≤ script.length →
      let found := (Cursor.start (script.drop p)).attempt f
      (⟨script, p⟩ : Cursor).attempt f = (found.1.shift p, ⟨script, found.2.pos + p⟩)) ∧
    (∀ p : Nat, Reaches rules script p →
      (∀ n, (Cursor.round rules)^[n] ⟨script, p⟩ =
        ⟨script, ((Cursor.round rules)^[n] (Cursor.start (script.drop p))).pos + p⟩) ∧
      (attempts rules script).filter (p ≤ ·.start) =
        (attempts rules (script.drop p)).map (Attempt.shift p) ∧
      (unclosed rules script).filter (p ≤ ·.start) =
        (unclosed rules (script.drop p)).map (Unclosed.shift p) ∧
      ((unclosed rules script).filter (p ≤ ·.start)).map Unclosed.notice =
        (unclosed rules (script.drop p)).map fun u => (u.shift p).notice) ∧
    ∀ q ∈ separators rules script,
      statements rules script =
        statements rules (script.take q) ++ statements rules (script.drop (q + 1)) ∧
      ∃ k, Reader.onward^[k] (Reader.start rules script) = ⟨rules, q + 1, script.drop (q + 1)⟩ ∧
        (Reader.onward^[k] (Reader.start rules script)).drain.values =
          statements rules (script.drop (q + 1)) ∧
        (Reader.onward^[k] (Reader.start rules script)).drain.notices =
          (unclosed rules (script.drop (q + 1))).map (Unclosed.shift (q + 1)) := by
  refine ⟨fun f p hp => Cursor.attempt_eq_shift hp f, fun p hp => ?_, fun q hq => ?_⟩
  · refine ⟨Cursor.iterate_round_eq_shift hp.le_length, hp.attempts_filter, hp.unclosed_filter, ?_⟩
    rw [hp.unclosed_filter, List.map_map]
    rfl
  · obtain ⟨hstatements, k, hk⟩ := statements_behind_separator hq
    refine ⟨hstatements, k, hk, ?_⟩
    rw [hk]
    exact Reader.drain_at rules (q + 1) (script.drop (q + 1))

/-- What is left open behind a comment that holds a separator. -/
theorem reading_translates_behind_comment :
    let rules := Dialect.postgres.rules
    let script := "a;/*;*/'b".toList
    7 ≤ script.length ∧ Reaches rules script 7 ∧ 1 ∈ separators rules script ∧
      (⟨script, 7⟩ : Cursor).attempt (.quoted .singleQuoted '\'' '\'' false) =
        (⟨7, 9, some ⟨.singleQuoted, ['\''], ['b'], false⟩⟩, ⟨script, 9⟩) ∧
      (unclosed rules script).filter (7 ≤ ·.start) = [⟨.singleQuoted, 7, ['\'']⟩] ∧
      statements rules script = statements rules ['a'] ++ statements rules "/*;*/'b".toList := by
  intro rules script
  have hlength : 7 ≤ script.length := by decide
  have hreaches : Reaches rules script 7 :=
    ⟨(tokens rules script).take 3, (tokens rules script).drop 3, (List.take_append_drop 3 _).symm,
      by decide +kernel⟩
  have hseparator : 1 ∈ separators rules script := by decide +kernel
  obtain ⟨hattempt, hplace, hbehind⟩ := reading_translates rules script
  obtain ⟨-, -, hunclosed, -⟩ := hplace 7 hreaches
  have hhere := hattempt (.quoted .singleQuoted '\'' '\'' false) 7 hlength
  refine ⟨hlength, hreaches, hseparator, hhere.trans ?_, hunclosed.trans ?_,
    (hbehind 1 hseparator).1⟩
  · decide +kernel
  · decide +kernel

end SqlScript
