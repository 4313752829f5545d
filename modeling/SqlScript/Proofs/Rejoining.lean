import SqlScript.Proofs.Concatenation
import SqlScript.Proofs.Diagnosis
import SqlScript.Proofs.Padding

/-! Splitting what has been split, and putting it together again. Each statement of a
script is the one statement of itself (`statements_of_mem`), so that statements joined by
separators, with a line feed in front for the sake of line comments, are found again
(`statements_rejoin`). `split_image` says that these are the only lists of statements
there are. -/
namespace SqlScript

variable {rules : Rules}

/-! ### Statements of statements -/

/-- A script that is not cut is one statement at most. -/
theorem statements_of_not_mem {script : Text} (h : .separator ∉ tokens rules script) :
    statements rules script = (statement? script).toList := by
  rw [statements, segments_of_not_mem h, tokens_text, filterMap_statement?_cons]
  exact List.append_nil _

/-- Induction on the separators of a script: what holds of a script that is not cut, and
goes over from what stands behind the first separator to the whole, holds of every
script. -/
theorem cut_induction (rules : Rules) {P : Text → Prop}
    (whole : ∀ script, .separator ∉ tokens rules script → P script)
    (cut : ∀ a b, EndsAtTopLevel rules a → .separator ∉ tokens rules a → P b → P (a ++ ';' :: b))
    (script : Text) : P script := by
  induction hn : script.length using Nat.strong_induction_on generalizing script with
  | _ n ih =>
    by_cases h : .separator ∈ tokens rules script
    · obtain ⟨a, b, htokens, ha⟩ := List.eq_append_cons_of_mem h
      obtain ⟨hscript, hfront⟩ := reads_front htokens
      obtain ⟨hfirst, hends⟩ := hfront.endsAtTopLevel (List.cons_ne_nil _ _) (by simp)
      have hlt : (b.flatMap Token.text).length < n := by
        rw [← hn, hscript, List.length_append, List.length_cons]
        omega
      rw [hscript]
      exact cut _ _ hends (by rwa [hfirst]) (ih _ hlt _ rfl)
    · exact whole script h

/-- What a script holds that is not cut is its own only statement, and it leaves open what
the script does. -/
theorem statements_of_mem_of_not_mem {t s : Text} (h : .separator ∉ tokens rules t)
    (hs : s ∈ statements rules t) :
    statements rules s = [s] ∧ (unclosed rules s = [] ↔ unclosed rules t = []) := by
  have hone := statements_of_not_mem h
  rw [hone] at hs
  have hst : statement? t = some s := Option.mem_toList.mp hs
  obtain ⟨rfl, -⟩ := trim_of_statement? hst
  refine ⟨?_, unclosed_trim_eq_nil_iff⟩
  rw [statements_trim, hone, hst]
  rfl

/-- **Each statement of a script is the one statement of itself**, and all but the last
leave nothing open. -/
theorem statements_of_mem (rules : Rules) (script : Text) :
    (∀ s ∈ statements rules script, statements rules s = [s]) ∧
      ∀ s ∈ (statements rules script).dropLast, unclosed rules s = [] := by
  induction script using cut_induction rules with
  | whole script h =>
    refine ⟨fun s hs => (statements_of_mem_of_not_mem h hs).1, fun s hs => ?_⟩
    rw [statements_of_not_mem h] at hs
    cases hst : statement? script <;> simp [hst] at hs
  | cut a b hends h ih =>
    obtain ⟨hothers, hclosed⟩ := ih
    have hfirst : ∀ s ∈ statements rules a, statements rules s = [s] ∧ unclosed rules s = [] := by
      intro s hs
      obtain ⟨hself, hbalanced⟩ := statements_of_mem_of_not_mem h hs
      exact ⟨hself, hbalanced.mpr (endsAtTopLevel_iff.mp hends).1⟩
    rw [statements_concat hends]
    refine ⟨fun s hs => ?_, fun s hs => ?_⟩
    · rcases List.mem_append.mp hs with hs | hs
      · exact (hfirst s hs).1
      · exact hothers s hs
    · rw [List.dropLast_append] at hs
      split at hs
      · exact (hfirst s (List.dropLast_subset _ hs)).2
      · rcases List.mem_append.mp hs with hs | hs
        · exact (hfirst s hs).2
        · exact hclosed s hs

/-- Nothing is open in the statements of a script that leaves nothing open. -/
theorem unclosed_of_mem_statements {script : Text} (h : unclosed rules script = []) :
    ∀ s ∈ statements rules script, unclosed rules s = [] := by
  induction script using cut_induction rules with
  | whole script hcut => exact fun s hs => (statements_of_mem_of_not_mem hcut hs).2.mpr h
  | cut a b hends hcut ih =>
    rw [unclosed_concat hends, List.map_eq_nil_iff] at h
    rw [statements_concat hends, List.forall_mem_append]
    refine ⟨fun s hs => ?_, ih h⟩
    exact (statements_of_mem_of_not_mem hcut hs).2.mpr (endsAtTopLevel_iff.mp hends).1

/-- A text that is the one statement of itself is not cut. -/
theorem separators_of_statements {s : Text} (h : statements rules s = [s]) :
    separators rules s = [] := by
  have hcount := count_semicolons rules s
  rw [h] at hcount
  simp only [List.map_cons, List.map_nil, List.sum_cons, List.sum_nil] at hcount
  exact List.length_eq_zero_iff.mp (by omega)

/-- A statement that is not cut holds its semicolons in its regions. -/
theorem not_outside_of_statements {s : Text} (h : statements rules s = [s]) {p : Nat}
    (hp : s[p]? = some ';') : ¬ Outside rules s p := by
  intro houtside
  have hmem : p ∈ separators rules s := mem_separators_iff.mpr ⟨hp, houtside⟩
  rw [separators_of_statements h] at hmem
  cases hmem

/-! ### Joining -/

/-- Behind a line feed a balanced script ends at top level. -/
theorem endsAtTopLevel_append_newline {t : Text} (h : unclosed rules t = []) :
    EndsAtTopLevel rules (t ++ ['\n']) := by
  have hblank : isBlank '\n' = true := by decide
  rw [endsAtTopLevel_iff, unclosed_append_blank hblank]
  refine ⟨h, fun hends => ?_⟩
  obtain ⟨last, hlast, hline⟩ := hends
  rcases tokens_append_blank rules hblank t with htokens | ⟨ts, r, -, htokens⟩
  · rw [htokens, List.getLast?_concat] at hlast
    cases hlast
    exact hline
  · -- A line comment would have ended in front of the line feed.
    obtain ⟨front, hfront, -, -, hstands⟩ := exists_reads_last hlast
    rw [htokens] at hfront
    obtain ⟨-, hregion⟩ := List.append_inj' hfront rfl
    cases hregion
    have hopen := hstands.not_isOpen_of_isLineComment hline
    obtain ⟨kind, opener, body, closed⟩ := r
    cases hline
    cases hstands with
    | unclosed => exact hopen rfl
    | closed hopens hends =>
      exact hends.inLine (List.mem_append_right _ List.mem_cons_self)

/-- Statements that are put together are found again. -/
theorem statements_rejoin {found : List Text} (hself : ∀ s ∈ found, statements rules s = [s])
    (hclosed : ∀ s ∈ found.dropLast, unclosed rules s = []) :
    statements rules (Text.join ['\n', ';'] found) = found := by
  induction found with
  | nil => exact statements_nil rules
  | cons s found ih =>
    obtain ⟨hs, hself⟩ := List.forall_mem_cons.mp hself
    cases found with
    | nil => rw [Text.join_singleton, hs]
    | cons s' found =>
      obtain ⟨hs', hclosed⟩ := List.forall_mem_cons.mp hclosed
      have hblank : isBlank '\n' = true := by decide
      have hjoin : Text.join ['\n', ';'] (s :: s' :: found) =
          s ++ ['\n'] ++ ';' :: Text.join ['\n', ';'] (s' :: found) := by simp
      rw [hjoin, statements_concat (endsAtTopLevel_append_newline hs'),
        statements_append_blank hblank, hs, ih hself hclosed]
      rfl

/-! ### The lists of statements there are -/

variable {choice : Dialect.Designator} {d : Dialect}

/-- **Lists of statements are exactly those of which each is the one statement of itself
and all but the last are balanced**, and just those that are found again when they are
joined by separators behind line feeds. The semicolons left in a statement stand in its
regions. -/
theorem split_image (h : choice.resolve = .ok d) (found : List Text) :
    ((∃ script, (split script choice).outcome = .ok found) ↔
      (∀ s ∈ found, (split s choice).outcome = .ok [s]) ∧
        ∀ s ∈ found.dropLast, (check s choice).outcome = .ok ()) ∧
    ((∃ script, (split script choice).outcome = .ok found) ↔
      (split (Text.join ['\n', ';'] found) choice).outcome = .ok found) ∧
    ∀ script, (split script choice).outcome = .ok found →
      ∀ s ∈ found, ∀ p, s[p]? = some ';' → ¬ Outside d.rules s p := by
  have hsplit {script : Text} {found : List Text} :
      (split script choice).outcome = .ok found ↔ statements d.rules script = found := by
    rw [split_of_resolve h]
    exact ⟨Except.ok.inj, congrArg _⟩
  have hfound {script : Text} (hscript : (split script choice).outcome = .ok found) :
      (∀ s ∈ found, statements d.rules s = [s]) ∧
        ∀ s ∈ found.dropLast, unclosed d.rules s = [] :=
    hsplit.mp hscript ▸ statements_of_mem d.rules script
  simp only [check_eq_ok_iff h]
  refine ⟨⟨?_, ?_⟩, ⟨?_, fun hjoined => ⟨_, hjoined⟩⟩, ?_⟩
  · intro hscript
    obtain ⟨script, hscript⟩ := hscript
    obtain ⟨hself, hclosed⟩ := hfound hscript
    exact ⟨fun s hs => hsplit.mpr (hself s hs), hclosed⟩
  · intro hlist
    obtain ⟨hself, hclosed⟩ := hlist
    exact ⟨_, hsplit.mpr (statements_rejoin (fun s hs => hsplit.mp (hself s hs)) hclosed)⟩
  · intro hscript
    obtain ⟨script, hscript⟩ := hscript
    obtain ⟨hself, hclosed⟩ := hfound hscript
    exact hsplit.mpr (statements_rejoin hself hclosed)
  · intro script hscript s hs p hp
    exact not_outside_of_statements ((hfound hscript).1 s hs) hp

/-- A statement that ends in a line comment, and behind it one that is left open. -/
theorem split_image_half_typed :
    let choice := Dialect.Designator.datum (.text "tsql".toList)
    let found := ["[a;b] -- c;".toList, "'d;".toList]
    choice.resolve = .ok .mssql ∧ (split " [a;b] -- c;\t\n;; 'd; ".toList choice).outcome = .ok found ∧
      (split (Text.join ['\n', ';'] found) choice).outcome = .ok found ∧
      ∀ s ∈ found, (split s choice).outcome = .ok [s] := by
  intro choice found
  have hchoice : choice.resolve = .ok .mssql := by rfl
  have hscript : (split " [a;b] -- c;\t\n;; 'd; ".toList choice).outcome = .ok found := by
    rw [split_of_resolve hchoice]
    decide +kernel
  obtain ⟨hlist, hjoin, -⟩ := split_image hchoice found
  exact ⟨hchoice, hscript, hjoin.mp ⟨_, hscript⟩, (hlist.mp ⟨_, hscript⟩).1⟩

end SqlScript
