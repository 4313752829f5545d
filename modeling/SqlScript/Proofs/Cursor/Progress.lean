import Mathlib.Logic.Function.Iterate
import SqlScript.Dialect
import SqlScript.Proofs.OpenRegion
import SqlScript.Proofs.Trace
import SqlScript.Proofs.Cursor.Reading

/-! A script read round by round.

An attempt at a region either leaves the cursor where it is or takes it over a region that
stands there (`Attempt.Keeps`), and a round takes it forward in any case (`round_between`). So
the rounds come to the end of the script, by way of the places between its tokens and no
others (`reaches_iff_rounds`), and at most one region is left open. Along the way the run cuts
out what stands between the separators; what it yields are the statements (`scan_start`). -/
namespace SqlScript

/-- A region of a script, from `p` up to `e`. Its opening sequence starts with `first`. -/
structure Region.Spans (rules : Rules) (script : Text) (first : Char) (p e : Nat) (r : Region) :
    Prop where
  opens : Opens rules r.kind r.opener
  first_eq : r.opener.head? = some first
  opener_eq : (script.drop p).take r.opener.length = r.opener
  behind_opener : p + r.opener.length ≤ e
  le_length : e ≤ script.length
  whole : (script.take e).drop p = r.text
  /-- What is left open takes the rest of the script. -/
  of_open : r.closed = false → e = script.length
  /-- What is closed ends with its closer, which shares nothing with the opening sequence. -/
  of_closed : r.closed = true → r.kind ≠ .lineComment →
    ∃ content, (script.take e).drop p = r.opener ++ (content ++ closer r.kind r.opener)

/-- What an attempt at `p` may come to: nothing, and then it gets nowhere, or a region of the
script. -/
structure Attempt.Keeps (rules : Rules) (script : Text) (first : Char) (p : Nat) (a : Attempt) :
    Prop where
  start_eq : a.start = p
  of_none : a.region = none → a.stop = p
  of_some : ∀ r, a.region = some r → r.Spans rules script first p a.stop

variable {rules : Rules} {script : Text} {p : Nat}

/-! ### One region -/

theorem spans_of_read? {f : Form} (hf : f ∈ rules.forms) {r : Region} {rest : Text}
    (hp : p ≤ script.length) (h : f.read? (script.drop p) = some (r, rest)) :
    r.Spans rules script f.initial p (p + r.text.length) := by
  have hwhole := Form.read?_text h
  have hlength := congrArg List.length hwhole
  have hstands := stands_of_read? hf h
  obtain ⟨opener, ho, heq⟩ := Option.map_eq_some_iff.mp h
  have hfirst := Form.head?_opener? ho
  obtain rfl : opener = r.opener := by cases heq; rfl
  have hspan : (script.take (p + r.text.length)).drop p = r.text := by
    rw [List.drop_take, Nat.add_sub_cancel_left, ← hwhole, List.take_left]
  have htext : r.text = r.opener ++ r.body := rfl
  rw [List.length_append, List.length_drop] at hlength
  exact
    { opens := hstands.opens
      first_eq := hfirst
      opener_eq := by rw [← hwhole, htext, List.append_assoc, List.take_left]
      behind_opener := by rw [htext, List.length_append]; omega
      le_length := by omega
      whole := hspan
      of_open := by
        intro hopen
        rw [Form.rest_of_open h hopen, List.length_nil] at hlength
        omega
      of_closed := by
        intro hclosed hkind
        rw [hspan, htext]
        cases hstands with
        | unclosed => cases hclosed
        | closed hopens hends =>
          obtain ⟨content, hcontent⟩ := hends.closer_suffix
          exact ⟨content, congrArg _ hcontent.symm⟩ }

/-- An attempt is made for a form that opens with the character there, and **keeps to the
script**. -/
theorem keeps_of_here? {a : Attempt} (h : Attempt.here? rules p (script.drop p) = some a) :
    ∃ f ∈ rules.forms, script[p]? = some f.initial ∧ a.Keeps rules script f.initial p := by
  cases hcs : script.drop p with
  | nil =>
    rw [hcs] at h
    cases h
  | cons c cs =>
    have hfirst : script[p]? = some c := by rw [← List.head?_drop, hcs, List.head?_cons]
    have hp : p ≤ script.length := Nat.le_of_lt (List.getElem?_eq_some_iff.mp hfirst).1
    rw [hcs, Attempt.here?] at h
    obtain ⟨f, hform, rfl⟩ := Option.map_eq_some_iff.mp h
    obtain ⟨hf, rfl⟩ := Rules.form?_eq_some_iff.mp hform
    refine ⟨f, hf, hfirst, ?_⟩
    cases hread : f.read? (f.initial :: cs) with
    | none => exact ⟨rfl, fun _ => rfl, fun r hr => by cases hr⟩
    | some found =>
      obtain ⟨r, rest⟩ := found
      rw [← hcs] at hread
      refine ⟨rfl, fun hnone => ?_, fun r' hr' => ?_⟩
      · cases hnone
      · cases hr'
        exact spans_of_read? hf hp hread

/-- Wherever a form opens with the next character there is an attempt. -/
theorem exists_here? {f : Form} (hf : f ∈ rules.forms) (hfirst : script[p]? = some f.initial) :
    ∃ a, Attempt.here? rules p (script.drop p) = some a := by
  obtain ⟨cs, hcs⟩ := List.head?_eq_some_iff.mp (List.head?_drop.trans hfirst)
  rw [hcs, Attempt.here?, Rules.form?_eq_some_iff.mpr ⟨hf, rfl⟩]
  exact ⟨_, rfl⟩

/-- A separator is read where one stands, and only there. -/
theorem Token.head?_eq_separator_iff {t rest : Text} {token : Token}
    (h : Token.read? rules t = some (token, rest)) : t.head? = some ';' ↔ token = .separator := by
  cases t with
  | nil => cases h
  | cons c cs =>
    rw [List.head?_cons, Option.some.injEq]
    rw [Token.read?] at h
    split at h
    · next hc =>
      cases h
      exact iff_of_true hc rfl
    · next hc =>
      split at h <;> cases h <;> exact iff_of_false hc Token.noConfusion

namespace Cursor

/-! ### One round -/

theorem sees_separator_iff {front rest after : Text} {token : Token}
    (h : Token.read? rules rest = some (token, after)) :
    (between front rest).sees 0 ';' = true ↔ token = .separator := by
  rw [sees_between, ← List.head?_eq_getElem?, Token.head?_eq_separator_iff h]

/-- A turn takes the cursor over the token that stands in front of it. The attempt made is the
one for that token. -/
theorem turn_between {front rest after : Text} {token : Token}
    (h : Token.read? rules rest = some (token, after)) :
    (between front rest).turn rules =
      (Attempt.ofToken? rules front.length token, between (front ++ token.text) after) := by
  have hregion := readRegion_eq rules (front ++ rest) front.length
  rw [List.drop_left, here?_of_read? h] at hregion
  have hsees : (between front rest).sees 0 ';' = true ↔ token = .separator := sees_separator_iff h
  have hone (c : Char) (cs : Text) :
      (between front (c :: cs)).advance 1 = between (front ++ [c]) cs := advance_between [c]
  rw [← Token.read?_text h] at hregion hsees ⊢
  rw [turn, show (between front (token.text ++ after)).readRegion rules = _ from hregion]
  cases token with
  | separator =>
    rw [if_pos (hsees.mpr rfl)]
    exact congrArg (none, ·) (hone ';' after)
  | plain c =>
    rw [if_neg (mt hsees.mp Token.noConfusion)]
    simp only [Attempt.ofToken?]
    split
    · exact congrArg (some _, ·) (hone c after)
    · exact congrArg (none, ·) (hone c after)
  | region r =>
    rw [if_neg (mt hsees.mp Token.noConfusion)]
    simp only [Attempt.ofToken?, between, Token.text, List.append_assoc, List.length_append]
    rfl

theorem round_between {front rest after : Text} {token : Token}
    (h : Token.read? rules rest = some (token, after)) :
    (between front rest).round rules = between (front ++ token.text) after := by
  rw [round, turn_between h]

/-- At the end of the script the cursor stays. -/
theorem round_end (rules : Rules) (front : Text) :
    (between front []).round rules = between front [] := by
  have hend : (between front []).advance 1 = between (front ++ []) [] :=
    advance_past (Nat.zero_le 1)
  have hsees : ¬ (between front []).sees 0 ';' = true := by simp [sees_between]
  have hpeek : (between front []).peek 0 = .pastEnd := peek_between 0
  rw [List.append_nil] at hend
  rw [round, turn, if_neg hsees, readRegion, hpeek]
  exact hend

/-- **Each round takes the cursor nearer to the end.** -/
theorem round_lt (hp : p < script.length) :
    ∃ e, (⟨script, p⟩ : Cursor).round rules = ⟨script, e⟩ ∧ p < e ∧ e ≤ script.length := by
  have hne : script.drop p ≠ [] := mt List.drop_eq_nil_iff.mp (Nat.not_le.mpr hp)
  obtain ⟨⟨token, after⟩, hread⟩ :=
    Option.ne_none_iff_exists'.mp (mt Token.read?_eq_none_iff.mp hne)
  have hwhole : script.take p ++ token.text ++ after = script := by
    rw [List.append_assoc, Token.read?_text hread, List.take_append_drop]
  have hlength := congrArg List.length hwhole
  have hlt := Token.length_rest_lt hread
  rw [List.length_drop] at hlt
  rw [← between_take_drop (Nat.le_of_lt hp), round_between hread, between, hwhole]
  simp only [List.length_append, List.length_take_of_le (Nat.le_of_lt hp)] at hlength ⊢
  exact ⟨_, rfl, by omega, by omega⟩

/-! ### All rounds -/

/-- Round by round the cursor comes to the places between tokens. -/
theorem iterate_round_of_reads (front : Text) {rest : Text} {ts : List Token}
    (h : Reads rules ts rest) :
    (round rules)^[ts.length] (between front (ts.flatMap Token.text ++ rest)) =
      between (front ++ ts.flatMap Token.text) rest := by
  induction ts generalizing front with
  | nil => simp
  | cons token ts ih =>
    have hread := Token.read?_eq_some_iff.mpr ⟨rfl, h.1⟩
    rw [List.length_cons, Function.iterate_succ_apply, List.flatMap_cons, List.append_assoc,
      round_between hread, ih _ h.2, List.append_assoc]

/-- It comes to no others. -/
theorem exists_reads_of_iterate_round (n : Nat) (front rest : Text) :
    ∃ a b, tokens rules rest = a ++ b ∧ (round rules)^[n] (between front rest) =
      between (front ++ a.flatMap Token.text) (b.flatMap Token.text) := by
  induction n generalizing front rest with
  | zero => exact ⟨[], tokens rules rest, rfl, by simp [tokens_text]⟩
  | succ n ih =>
    rw [Function.iterate_succ_apply]
    cases hread : Token.read? rules rest with
    | none =>
      obtain rfl := Token.read?_eq_none_iff.mp hread
      rw [round_end]
      exact ih front []
    | some found =>
      obtain ⟨token, after⟩ := found
      obtain ⟨a, b, htokens, hn⟩ := ih (front ++ token.text) after
      refine ⟨token :: a, b, ?_, ?_⟩
      · rw [tokens_of_read? hread, htokens]
        rfl
      · rw [round_between hread, hn, List.flatMap_cons, List.append_assoc]

/-- **The rounds come to the places between the tokens of a script**, and to no others. -/
theorem reaches_iff_rounds :
    Reaches rules script p ↔ ∃ n, (round rules)^[n] (start script) = ⟨script, p⟩ := by
  have hstart : start script = between [] script := rfl
  constructor
  · rintro ⟨a, b, htokens, rfl⟩
    have hscript := tokens_text rules script
    have hreads := reads_tokens rules script
    rw [htokens] at hscript hreads
    rw [List.flatMap_append] at hscript
    obtain ⟨hfront, -⟩ := reads_append.mp hreads
    rw [List.append_nil] at hfront
    have hrun := iterate_round_of_reads [] hfront
    refine ⟨a.length, ?_⟩
    rw [hstart, ← hscript, hrun]
    rfl
  · rintro ⟨n, hn⟩
    obtain ⟨a, b, htokens, hrun⟩ := exists_reads_of_iterate_round n [] script
    rw [hstart, hrun] at hn
    refine ⟨a, b, htokens, ?_⟩
    have hpos := congrArg pos hn
    exact Int.ofNat.inj hpos

/-! ### What the rounds yield -/

theorem not_atEnd_of_read? {rest after : Text} {token : Token}
    (h : Token.read? rules rest = some (token, after)) (front : Text) :
    ¬ (between front rest).atEnd = true := by
  rw [atEnd_between]
  rintro rfl
  cases h

theorem scan_end (rules : Rules) (begun : Nat) (front : Text) :
    (between front []).scan rules begun = ⟨(statement? (front.drop begun)).toList, []⟩ := by
  have htext : (between front []).text = front := List.append_nil front
  rw [scan, dif_pos (atEnd_between.mpr rfl), htext]

/-- Behind a separator the next statement begins. -/
theorem scan_separator (begun : Nat) {front rest after : Text}
    (h : Token.read? rules rest = some (.separator, after)) :
    (between front rest).scan rules begun =
      ⟨(statement? (front.drop begun)).toList ++
          ((between (front ++ [';']) after).scan rules (front.length + 1)).statements,
        ((between (front ++ [';']) after).scan rules (front.length + 1)).unclosed⟩ := by
  have hend := not_atEnd_of_read? h front
  have hpos : (between (front ++ [';']) after).pos.toNat = front.length + 1 := by simp [between]
  have hslice : (between front rest).text.take (between front rest).pos.toNat = front := by
    simp [between]
  rw [scan, dif_neg hend, round_between h, if_pos ((sees_separator_iff h).mpr rfl), hslice]
  simp only [Token.text, hpos]

/-- Any other token goes on with the statement. -/
theorem scan_token (begun : Nat) {front rest after : Text} {token : Token}
    (h : Token.read? rules rest = some (token, after)) (hne : token ≠ .separator) :
    (between front rest).scan rules begun =
      ⟨((between (front ++ token.text) after).scan rules begun).statements,
        (token.unclosed? front.length).toList ++
          ((between (front ++ token.text) after).scan rules begun).unclosed⟩ := by
  have hend := not_atEnd_of_read? h front
  rw [scan, dif_neg hend, round_between h, turn_between h,
    if_neg (mt (sees_separator_iff h).mp hne)]
  simp only [ofToken?_bind_unclosed?]

/-- From any place on, the statement begun there is ended by the first separator, and the others
follow. -/
theorem scan_between {begun : Nat} {front rest first : Text} {back : List Text}
    (hbegun : begun ≤ front.length) (h : segments (tokens rules rest) = first :: back) :
    (between front rest).scan rules begun =
      ⟨((front.drop begun ++ first) :: back).filterMap statement?,
        unclosedFrom front.length (tokens rules rest)⟩ := by
  induction rest using tokens.induct rules generalizing front begun first back with
  | case1 rest hnone =>
    obtain rfl := Token.read?_eq_none_iff.mp hnone
    rw [tokens_nil] at h ⊢
    cases h
    rw [scan_end, List.append_nil, filterMap_statement?_cons]
    exact congrArg (Diagnosis.mk · []) (List.append_nil _).symm
  | case2 rest token after hread ih =>
    obtain ⟨first', back', hafter⟩ := exists_first_segment (tokens rules after)
    rw [tokens_of_read? hread] at h ⊢
    rw [unclosedFrom_cons]
    by_cases hsep : token = .separator
    · subst hsep
      rw [segments] at h
      cases h
      have hlength : (front ++ [';']).length = front.length + 1 := List.length_append
      rw [scan_separator begun hread, ih (Nat.le_of_eq hlength.symm) hafter, hafter,
        List.append_nil, filterMap_statement?_cons (front.drop begun), ← hlength, List.drop_length,
        hlength]
      rfl
    · rw [segments_cons hsep hafter] at h
      cases h
      have hbegun' : begun ≤ (front ++ token.text).length := by
        rw [List.length_append]
        omega
      rw [scan_token begun hread hsep, ih hbegun' hafter, List.drop_append_of_le_length hbegun,
        List.append_assoc, List.length_append]

/-- **Reading a script to its end yields its statements**, and the regions it leaves open. -/
theorem scan_start (rules : Rules) (script : Text) :
    (start script).scan rules 0 = ⟨statements rules script, unclosed rules script⟩ := by
  obtain ⟨first, back, h⟩ := exists_first_segment (tokens rules script)
  have hstart : start script = between [] script := rfl
  rw [hstart, scan_between (Nat.le_refl 0) h, statements, h]
  rfl

/-- There are no more tokens than characters. -/
theorem length_tokens_le (rules : Rules) (script : Text) :
    (tokens rules script).length ≤ script.length := by
  induction script using tokens.induct rules with
  | case1 t h =>
    rw [Token.read?_eq_none_iff.mp h, tokens_nil]
    exact Nat.le_refl 0
  | case2 t token rest h ih =>
    have hlt := Token.length_rest_lt h
    rw [tokens_of_read? h, List.length_cons]
    omega

/-- **Reading makes progress.** Where a form opens with the next character, the attempt to read
it keeps to the script. Every round takes the cursor nearer to the end, and there are no more
rounds than characters until it is reached. The attempts of the whole run are those at the
places the rounds come to, and at most one of them finds a region that is left open. What the run
yields are the statements of the script, and that region. -/
theorem reading_progresses (rules : Rules) (script : Text) :
    (∀ f ∈ rules.forms, ∀ p : Nat, script[p]? = some f.initial →
      ∃ a, (⟨script, p⟩ : Cursor).attempt f = (a, ⟨script, a.stop⟩) ∧
        (⟨script, p⟩ : Cursor).readRegion rules = (some a, ⟨script, a.stop⟩) ∧
        a.Keeps rules script f.initial p) ∧
    (∀ p : Nat, p < script.length →
      ∃ e, (⟨script, p⟩ : Cursor).round rules = ⟨script, e⟩ ∧ p < e ∧ e ≤ script.length) ∧
    (∃ n ≤ script.length, (round rules)^[n] (start script) = ⟨script, script.length⟩) ∧
    (∀ a, a ∈ attempts rules script ↔ ∃ (n : Nat) (p : Nat),
      (round rules)^[n] (start script) = ⟨script, p⟩ ∧
        ((⟨script, p⟩ : Cursor).readRegion rules).1 = some a) ∧
    unclosed rules script = (attempts rules script).filterMap Attempt.unclosed? ∧
    (unclosed rules script).length ≤ 1 ∧
    (start script).scan rules 0 = ⟨statements rules script, unclosed rules script⟩ := by
  refine ⟨?_, fun p => round_lt, ?_, ?_, unclosed_eq_attempts rules script,
    length_unclosed_le_one rules script, scan_start rules script⟩
  · intro f hf p hfirst
    obtain ⟨a, ha⟩ := exists_here? hf hfirst
    obtain ⟨f', -, hfirst', hkeeps⟩ := keeps_of_here? ha
    rw [hfirst] at hfirst'
    have hread := readRegion_eq rules script p
    have hmade := hread
    rw [ha] at hread
    rw [ha, readRegion_of_mem_forms hf hfirst, Prod.mk.injEq, Option.some.injEq] at hmade
    rw [Option.some.inj hfirst']
    exact ⟨a, Prod.ext hmade.1 hmade.2, hread, hkeeps⟩
  · have hrun := iterate_round_of_reads [] (reads_tokens rules script)
    rw [tokens_text, List.append_nil] at hrun
    refine ⟨_, length_tokens_le rules script, hrun.trans ?_⟩
    rw [between, List.nil_append, List.append_nil]
  · intro a
    simp only [mem_attempts_iff, reaches_iff_rounds, readRegion_eq]
    constructor
    · rintro ⟨p, ⟨n, hn⟩, ha⟩
      exact ⟨n, p, hn, ha⟩
    · rintro ⟨n, p, hn, ha⟩
      exact ⟨p, ⟨n, hn⟩, ha⟩

/-- A tag that is never repeated, behind half of one. -/
theorem reading_progresses_half_typed :
    let rules := Dialect.postgres.rules
    let script := "$a;$b$;$b".toList
    Form.dollar ∈ rules.forms ∧ script[3]? = some Form.dollar.initial ∧ 3 < script.length ∧
      ∃ a, (⟨script, 3⟩ : Cursor).attempt .dollar = (a, ⟨script, a.stop⟩) ∧
        a.Keeps rules script '$' 3 ∧
        a.region = some ⟨.dollarQuoted, "$b$".toList, ";$b".toList, false⟩ ∧
        a.stop = script.length ∧
        (∃ e, (⟨script, 3⟩ : Cursor).round rules = ⟨script, e⟩ ∧ 3 < e ∧ e ≤ script.length) ∧
        (start script).scan rules 0 =
          ⟨["$a".toList, "$b$;$b".toList], [⟨.dollarQuoted, 3, "$b$".toList⟩]⟩ := by
  intro rules script
  have hform : Form.dollar ∈ rules.forms := mem_forms_iff.mpr (by simp [rules, Dialect.rules])
  have hfirst : script[3]? = some Form.dollar.initial := rfl
  have hlt : 3 < script.length := by decide
  obtain ⟨hattempt, hround, -, -, -, -, hscan⟩ := reading_progresses rules script
  obtain ⟨a, hmade, hread, hkeeps⟩ := hattempt Form.dollar hform 3 hfirst
  have hhere : Attempt.here? rules 3 (script.drop 3) =
      some ⟨3, 9, some ⟨.dollarQuoted, "$b$".toList, ";$b".toList, false⟩⟩ := by
    decide +kernel
  have ha : some a = Attempt.here? rules 3 (script.drop 3) := by
    rw [readRegion_eq] at hread
    exact (congrArg Prod.fst hread).symm
  rw [hhere] at ha
  cases ha
  refine ⟨hform, hfirst, hlt, _, hmade, hkeeps, rfl, rfl, hround 3 hlt, hscan.trans ?_⟩
  decide +kernel

end Cursor

end SqlScript
