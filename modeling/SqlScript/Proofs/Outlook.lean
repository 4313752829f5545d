import SqlScript.Reader
import SqlScript.Proofs.Segments
import SqlScript.Proofs.Balance

/-! What a reader still has to give. Its outlook is computed from the rest of the script
alone, as if that were split at once; taking one statement (`next_gives`), taking all
(`drain_outlook`) and closing (`close_outlook`) are then told in terms of it. The open
region is noted with the last statement, and with no other. -/
namespace SqlScript

/-- The statements that are left, and the open regions to be noted with the last of them. -/
@[ext]
structure Outlook where
  pending : List Text
  due : List Unclosed
  settled : pending = [] → due = []

namespace Outlook

/-- Nothing is left. -/
def done : Outlook := ⟨[], [], fun _ => rfl⟩

/-- What taking one statement gives, and what is left then. -/
inductive Gives : Outlook → Option Text → List Unclosed → Outlook → Prop
  | stop : Gives done none [] done
  | last {x : Text} {due : List Unclosed} : Gives ⟨[x], due, nofun⟩ (some x) due done
  | more {x y : Text} {xs : List Text} {due : List Unclosed} :
      Gives ⟨x :: y :: xs, due, nofun⟩ (some x) [] ⟨y :: xs, due, nofun⟩

theorem eq_done {o : Outlook} (h : o.pending = []) : o = done := Outlook.ext h (o.settled h)

/-- A statement comes off the outlook, and what is noted with it is all there was to be
noted. -/
theorem Gives.of_cons {o after : Outlook} {x : Text} {notices : List Unclosed}
    (hpending : o.pending = x :: after.pending) (hdue : o.due = notices ++ after.due)
    (hlast : notices ≠ [] → after.pending = []) : o.Gives (some x) notices after := by
  obtain ⟨pending, due, settled⟩ := after
  cases pending with
  | nil =>
    obtain rfl := settled rfl
    obtain rfl : o = ⟨[x], notices, nofun⟩ := Outlook.ext hpending (by rw [hdue, List.append_nil])
    exact .last
  | cons y ys =>
    obtain rfl : notices = [] := by
      by_contra hne
      cases hlast hne
    obtain rfl : o = ⟨x :: y :: ys, due, nofun⟩ := Outlook.ext hpending hdue
    exact .more

end Outlook

/-- A script that holds no statement leaves nothing open. -/
theorem unclosedFrom_of_statements_eq_nil {rules : Rules} {t : Text} (h : statements rules t = [])
    (offset : Nat) : unclosedFrom offset (tokens rules t) = [] := by
  rw [unclosedFrom_eq_nil_iff]
  refine (reads_tokens rules t).not_isOpen fun token htoken hopen => ?_
  obtain ⟨ts, htokens, -, -, hstands⟩ := exists_reads_last htoken
  cases token with
  | separator => exact hopen
  | plain c => exact hopen
  | region r =>
    obtain ⟨front, last, hts⟩ := exists_last_segment ts
    rw [statements, htokens, statements_around_region hstands.opens hts rfl] at h
    exact List.append_ne_nil_of_right_ne_nil _ (List.cons_ne_nil _ _) h

namespace Reader

/-- What the rest of the script holds. -/
def outlook (r : Reader) : Outlook where
  pending := statements r.rules r.rest
  due := unclosedFrom r.offset (tokens r.rules r.rest)
  settled h := unclosedFrom_of_statements_eq_nil h r.offset

theorem outlook_of_rest {r : Reader} (h : r.rest = []) : r.outlook = .done := by
  apply Outlook.eq_done
  show statements r.rules r.rest = []
  rw [h, statements_nil]

variable {r : Reader} {token : Token} {rest : Text}

theorem stretch_of_none (h : Token.read? r.rules r.rest = none) : r.stretch = ⟨[], [], r⟩ := by
  rw [stretch]
  split <;> simp_all

theorem stretch_of_separator (h : Token.read? r.rules r.rest = some (.separator, rest)) :
    r.stretch = ⟨[], [], r.past .separator rest⟩ := by
  rw [stretch]
  split <;> simp_all

theorem stretch_of_token (h : Token.read? r.rules r.rest = some (token, rest))
    (hne : token ≠ .separator) :
    r.stretch = ⟨token.text ++ (r.past token rest).stretch.segment,
      (token.unclosed? r.offset).toList ++ (r.past token rest).stretch.notices,
      (r.past token rest).stretch.behind⟩ := by
  rw [stretch]
  split <;> simp_all

/-- A stretch is made of the tokens up to the next separator, or of all there are. -/
theorem stretch_tokens (r : Reader) : ∃ ts, .separator ∉ ts ∧
    r.stretch.segment = ts.flatMap Token.text ∧ r.stretch.notices = unclosedFrom r.offset ts ∧
    r.stretch.behind.rules = r.rules ∧
    ((tokens r.rules r.rest = ts ∧ r.stretch.behind.rest = []) ∨
      tokens r.rules r.rest = ts ++ .separator :: tokens r.rules r.stretch.behind.rest ∧
        r.stretch.behind.offset = r.offset + (ts.flatMap Token.text).length + 1) := by
  induction r using stretch.induct with
  | case1 r h =>
    have hrest := Token.read?_eq_none_iff.mp h
    rw [stretch_of_none h]
    exact ⟨[], List.not_mem_nil, rfl, rfl, rfl, .inl ⟨by rw [hrest, tokens_nil], hrest⟩⟩
  | case2 r rest h =>
    rw [stretch_of_separator h]
    exact ⟨[], List.not_mem_nil, rfl, rfl, rfl, .inr ⟨tokens_of_read? h, rfl⟩⟩
  | case3 r token rest hne h ih =>
    obtain ⟨ts, hts, hsegment, hnotices, hrules, hrest⟩ := ih
    have hne' : token ≠ .separator := hne
    rw [stretch_of_token h hne']
    refine ⟨token :: ts, by simp [hts, hne'.symm], ?_, ?_, hrules, ?_⟩
    · rw [hsegment, List.flatMap_cons]
    · rw [hnotices, unclosedFrom_cons]
      rfl
    · rw [tokens_of_read? h]
      rcases hrest with ⟨htokens, hnil⟩ | ⟨htokens, hoffset⟩
      · exact .inl ⟨congrArg _ htokens, hnil⟩
      · refine .inr ⟨congrArg _ htokens, ?_⟩
        have hpast : (r.past token rest).offset = r.offset + token.text.length := rfl
        rw [hoffset, hpast, List.flatMap_cons, List.length_append]
        omega

/-- A stretch takes what it holds off the outlook. What is open in it is the last thing in
the script. -/
theorem stretch_outlook (r : Reader) :
    r.outlook.pending = (statement? r.stretch.segment).toList ++ r.stretch.behind.outlook.pending ∧
    r.outlook.due = r.stretch.notices ++ r.stretch.behind.outlook.due ∧
    (r.stretch.notices ≠ [] → r.stretch.behind.outlook.pending = []) := by
  obtain ⟨ts, hts, hsegment, hnotices, hrules, ⟨htokens, hrest⟩ | ⟨htokens, hoffset⟩⟩ :=
    stretch_tokens r
  · rw [outlook_of_rest hrest, hsegment, hnotices]
    refine ⟨?_, ?_, fun _ => rfl⟩
    · show statements r.rules r.rest = _
      rw [statements, htokens, segments_of_not_mem hts, filterMap_statement?_cons]
      rfl
    · show unclosedFrom r.offset (tokens r.rules r.rest) = _
      rw [htokens]
      exact (List.append_nil _).symm
  · have hclosed : unclosedFrom r.offset ts = [] := by
      obtain ⟨-, hfront⟩ := reads_front htokens
      exact unclosedFrom_eq_nil_iff.mpr (hfront.not_isOpen_of_ne_nil (List.cons_ne_nil _ _))
    rw [hsegment, hnotices, hclosed]
    refine ⟨?_, ?_, fun hne => absurd rfl hne⟩
    · show statements r.rules r.rest = _ ++ statements r.stretch.behind.rules r.stretch.behind.rest
      rw [statements, htokens, segments_separator, segments_of_not_mem hts, hrules, statements,
        List.singleton_append, filterMap_statement?_cons]
    · show unclosedFrom r.offset (tokens r.rules r.rest) =
        unclosedFrom r.stretch.behind.offset (tokens r.stretch.behind.rules r.stretch.behind.rest)
      rw [htokens, unclosedFrom_append, hclosed, unclosedFrom_cons, hoffset, hrules]
      rfl

/-! ### Taking statements -/

theorem next_of_nil (h : r.rest = []) : r.next = ⟨none, [], r⟩ := by
  rw [next, dif_pos h]

theorem next_of_some {value : Text} (h : r.rest ≠ [])
    (hs : statement? r.stretch.segment = some value) :
    r.next = ⟨some value, r.stretch.notices, r.stretch.behind⟩ := by
  rw [next, dif_neg h]
  simp only [hs]

theorem next_of_none (h : r.rest ≠ []) (hs : statement? r.stretch.segment = none) :
    r.next = {r.stretch.behind.next with
      notices := r.stretch.notices ++ r.stretch.behind.next.notices} := by
  rw [next, dif_neg h]
  simp only [hs]

/-- **Taking a statement gives the first that is left, and notes what is open with the
last.** -/
theorem next_gives (r : Reader) :
    r.outlook.Gives r.next.value r.next.notices r.next.behind.outlook := by
  induction r using next.induct with
  | case1 r h =>
    rw [next_of_nil h, outlook_of_rest h]
    exact .stop
  | case2 r h s value hs =>
    obtain ⟨hpending, hdue, hlast⟩ := stretch_outlook r
    rw [next_of_some h hs]
    rw [show statement? r.stretch.segment = some value from hs] at hpending
    exact .of_cons hpending hdue hlast
  | case3 r h s hs ih =>
    obtain ⟨hpending, hdue, hlast⟩ := stretch_outlook r
    have hs' : statement? r.stretch.segment = none := hs
    rw [hs'] at hpending
    -- A stretch without a statement has nothing open, for that would be a statement.
    have hnone : r.stretch.notices = [] := by
      by_contra hne
      have hdone := Outlook.eq_done (hpending.trans (hlast hne))
      rw [hdone] at hdue
      exact hne (List.append_eq_nil_iff.mp hdue.symm).1
    have hsame : r.outlook = r.stretch.behind.outlook := by
      rw [hnone] at hdue
      exact Outlook.ext hpending hdue
    rw [next_of_none h hs', hnone, hsame]
    exact ih

theorem drain_of_none (h : r.next.value = none) :
    r.drain = ⟨[], r.next.notices, r.next.behind⟩ := by
  rw [drain]
  split <;> simp_all

theorem drain_of_some {value : Text} (h : r.next.value = some value) :
    r.drain = ⟨value :: r.next.behind.drain.values, r.next.notices ++ r.next.behind.drain.notices,
      r.next.behind.drain.behind⟩ := by
  rw [drain]
  split <;> simp_all

/-- **Draining gives all that is left.** -/
theorem drain_outlook (r : Reader) :
    r.drain.values = r.outlook.pending ∧ r.drain.notices = r.outlook.due ∧
      r.drain.behind.outlook = .done := by
  induction r using drain.induct with
  | case1 r turn h =>
    have hvalue : r.next.value = none := h
    have hgives := next_gives r
    rw [hvalue] at hgives
    rw [drain_of_none hvalue]
    generalize r.outlook = o at hgives ⊢
    generalize r.next.notices = notices at hgives ⊢
    generalize r.next.behind.outlook = after at hgives ⊢
    cases hgives with
    | stop => exact ⟨rfl, rfl, rfl⟩
  | case2 r turn value h ih =>
    have hvalue : r.next.value = some value := h
    obtain ⟨hvalues, hnotices, hbehind⟩ := ih
    have hgives := next_gives r
    rw [hvalue] at hgives
    rw [drain_of_some hvalue, hvalues, hnotices, hbehind]
    generalize r.outlook = o at hgives ⊢
    generalize r.next.notices = notices at hgives ⊢
    generalize r.next.behind.outlook = after at hgives ⊢
    cases hgives with
    | last => exact ⟨rfl, List.append_nil _, rfl⟩
    | more => exact ⟨rfl, rfl, rfl⟩

/-- A reader of a whole script gives its statements, and notes what it leaves open. -/
theorem drain_start (rules : Rules) (script : Text) :
    (start rules script).drain.values = statements rules script ∧
      (start rules script).drain.notices = unclosed rules script := by
  obtain ⟨hvalues, hnotices, -⟩ := drain_outlook (start rules script)
  exact ⟨hvalues, hnotices⟩

end Reader

end SqlScript
