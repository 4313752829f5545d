import SqlScript.Token
import SqlScript.Proofs.Lookahead

/-! How a script ends: at top level, in a line comment, or inside a region that it leaves
open. Only the last token decides (`unclosed_eq_nil_iff`), and places count from where
reading began (`unclosed_append`). -/
namespace SqlScript

/-- A script that ends in a line comment. -/
def EndsInLineComment (rules : Rules) (script : Text) : Prop :=
  ∃ token ∈ (tokens rules script).getLast?, token.IsLineComment

/-- A script that ends outside every region, line comments included. -/
def EndsAtTopLevel (rules : Rules) (script : Text) : Prop :=
  ∀ token ∈ (tokens rules script).getLast?, ¬ token.IsOpen ∧ ¬ token.IsLineComment

/-- The region as it is found some characters later. -/
def Unclosed.shift (n : Nat) (u : Unclosed) : Unclosed := {u with start := u.start + n}

theorem endsAtTopLevel_nil (rules : Rules) : EndsAtTopLevel rules [] := by
  rw [EndsAtTopLevel, tokens_nil]
  exact nofun

/-- The last token of a script, behind those in front of it. -/
theorem exists_reads_last {rules : Rules} {script : Text} {last : Token}
    (h : last ∈ (tokens rules script).getLast?) :
    ∃ ts, tokens rules script = ts ++ [last] ∧ script = ts.flatMap Token.text ++ last.text ∧
      Reads rules ts last.text ∧ last.Stands rules [] := by
  obtain ⟨ts, htokens⟩ := List.getLast?_eq_some_iff.mp h
  have hscript := tokens_text rules script
  have hreads := reads_tokens rules script
  rw [htokens] at hscript hreads
  obtain ⟨hfront, hstands, -⟩ := reads_append.mp hreads
  refine ⟨ts, htokens, ?_, ?_, hstands⟩
  · simpa using hscript.symm
  · simpa using hfront

/-- A separator of a script, between what was read in front of it and behind it. -/
theorem reads_front {rules : Rules} {script : Text} {a b : List Token}
    (h : tokens rules script = a ++ .separator :: b) :
    script = a.flatMap Token.text ++ ';' :: b.flatMap Token.text ∧
      Reads rules a (';' :: b.flatMap Token.text) := by
  have hscript := tokens_text rules script
  have hreads := reads_tokens rules script
  rw [h] at hscript hreads
  obtain ⟨hfront, -⟩ := reads_append.mp hreads
  refine ⟨?_, ?_⟩
  · simpa [Token.text] using hscript.symm
  · simpa [Token.text] using hfront

/-! ### Places -/

theorem unclosedFrom_append (offset : Nat) (a b : List Token) :
    unclosedFrom offset (a ++ b) =
      unclosedFrom offset a ++ unclosedFrom (offset + (a.flatMap Token.text).length) b := by
  rw [unclosedFrom, locate_append, List.filterMap_append]
  rfl

theorem unclosedFrom_cons (offset : Nat) (token : Token) (ts : List Token) :
    unclosedFrom offset (token :: ts) =
      (token.unclosed? offset).toList ++ unclosedFrom (offset + token.text.length) ts := by
  cases h : token.unclosed? offset <;> simp [unclosedFrom, locate, h]

theorem unclosed?_shift (offset n : Nat) (token : Token) :
    token.unclosed? (offset + n) = (token.unclosed? offset).map (Unclosed.shift n) := by
  cases token with
  | separator => rfl
  | plain c => rfl
  | region r => cases hc : r.closed <;> simp [Token.unclosed?, hc, Unclosed.shift]

theorem unclosedFrom_shift (offset n : Nat) (ts : List Token) :
    unclosedFrom (offset + n) ts = (unclosedFrom offset ts).map (Unclosed.shift n) := by
  induction ts generalizing offset with
  | nil => rfl
  | cons token ts ih =>
    rw [unclosedFrom_cons, unclosedFrom_cons, unclosed?_shift, Nat.add_right_comm, ih, List.map_append]
    cases token.unclosed? offset <;> rfl

theorem Unclosed.shift_shift (m n : Nat) (u : Unclosed) : (u.shift m).shift n = u.shift (m + n) := by
  simp [Unclosed.shift, Nat.add_assoc]

theorem map_shift_shift (m n : Nat) (us : List Unclosed) :
    (us.map (Unclosed.shift m)).map (Unclosed.shift n) = us.map (Unclosed.shift (m + n)) := by
  rw [List.map_map]
  exact List.map_congr_left fun u _ => Unclosed.shift_shift m n u

/-! ### Open tokens -/

theorem unclosedFrom_eq_nil_iff {offset : Nat} {ts : List Token} :
    unclosedFrom offset ts = [] ↔ ∀ token ∈ ts, ¬ token.IsOpen := by
  induction ts generalizing offset with
  | nil => simp [unclosedFrom, locate]
  | cons token ts ih =>
    rw [unclosedFrom_cons, List.append_eq_nil_iff, ih, List.forall_mem_cons]
    refine and_congr_left fun _ => ?_
    cases token with
    | separator => simp [Token.unclosed?, Token.IsOpen]
    | plain c => simp [Token.unclosed?, Token.IsOpen]
    | region r => cases hc : r.closed <;> simp [Token.unclosed?, Token.IsOpen, hc]

namespace Reads

variable {rules : Rules} {ts : List Token} {rest : Text}

/-- Behind an open token nothing is read. -/
theorem not_isOpen_of_ne_nil (h : Reads rules ts rest) (hrest : rest ≠ []) :
    ∀ token ∈ ts, ¬ token.IsOpen := by
  induction ts with
  | nil => exact nofun
  | cons token ts ih =>
    rw [List.forall_mem_cons]
    refine ⟨fun hopen => ?_, ih h.2⟩
    exact hrest (List.append_eq_nil_iff.mp (h.1.rest_of_isOpen hopen)).2

/-- Only the last token can be open. -/
theorem not_isOpen (h : Reads rules ts rest) (hlast : ∀ token ∈ ts.getLast?, ¬ token.IsOpen) :
    ∀ token ∈ ts, ¬ token.IsOpen := by
  cases hts : ts.getLast? with
  | none =>
    rw [List.getLast?_eq_none_iff.mp hts]
    exact nofun
  | some last =>
    obtain ⟨front, rfl⟩ := List.getLast?_eq_some_iff.mp hts
    obtain ⟨hfront, hstands, -⟩ := reads_append.mp h
    rw [List.forall_mem_append]
    refine ⟨hfront.not_isOpen_of_ne_nil ?_, by simpa using hlast last hts⟩
    simpa using List.append_ne_nil_of_left_ne_nil hstands.text_ne_nil rest

/-- What stands in front of a region stands in front of any that opens in the same way. -/
theorem replace_region {kind : Kind} {opener x y : Text}
    (hopens : Opens rules kind opener) (h : Reads rules ts (opener ++ x)) :
    Reads rules ts (opener ++ y) := by
  obtain ⟨c, cs, rfl, -, htag⟩ := hopens.exists_cons
  have hne : c :: cs ++ x ≠ [] := List.cons_ne_nil c (cs ++ x)
  refine h.replace (.of_head? htag rfl rfl) fun token htoken => ?_
  exact ⟨h.not_isOpen_of_ne_nil hne token (List.mem_of_getLast? htoken), fun _ => .inr rfl⟩

end Reads

/-- What was read in front of a region is read in front of any that opens in the same way
and can stand at the end of a script. -/
theorem Token.Stands.tokens_append {rules : Rules} {r : Region}
    (h : Token.Stands rules (.region r) []) {ts : List Token} {x : Text}
    (hfront : Reads rules ts (r.opener ++ x)) :
    tokens rules (ts.flatMap Token.text ++ r.text) = ts ++ [.region r] := by
  have hregion : Reads rules ts r.text := hfront.replace_region h.opens
  have hreads : Reads rules (ts ++ [.region r]) [] := by
    refine reads_append.mpr ⟨?_, h, trivial⟩
    simpa [Token.text] using hregion
  simpa [Token.text] using tokens_of_reads_nil hreads

/-- **A script leaves nothing open exactly if its last token is not open**. -/
theorem unclosed_eq_nil_iff {rules : Rules} {script : Text} :
    unclosed rules script = [] ↔ ∀ token ∈ (tokens rules script).getLast?, ¬ token.IsOpen := by
  rw [unclosed, unclosedFrom_eq_nil_iff]
  refine ⟨fun h token htoken => h token (List.mem_of_getLast? htoken), ?_⟩
  exact (reads_tokens rules script).not_isOpen

theorem endsAtTopLevel_iff {rules : Rules} {script : Text} :
    EndsAtTopLevel rules script ↔
      unclosed rules script = [] ∧ ¬ EndsInLineComment rules script := by
  rw [unclosed_eq_nil_iff, EndsAtTopLevel, EndsInLineComment]
  refine ⟨?_, ?_⟩
  · intro h
    exact ⟨fun token htoken => (h token htoken).1, fun ⟨token, htoken, hl⟩ => (h token htoken).2 hl⟩
  · intro hends token htoken
    obtain ⟨hopen, hline⟩ := hends
    exact ⟨hopen token htoken, fun hl => hline ⟨token, htoken, hl⟩⟩

/-- What is read in front of a text and closed adds nothing to what is left open. -/
theorem unclosed_append {rules : Rules} {ts : List Token} {rest : Text} (h : Reads rules ts rest)
    (hopen : ∀ token ∈ ts, ¬ token.IsOpen) :
    unclosed rules (ts.flatMap Token.text ++ rest) =
      (unclosed rules rest).map (Unclosed.shift (ts.flatMap Token.text).length) := by
  rw [unclosed, tokens_of_reads h, unclosedFrom_append, unclosedFrom_eq_nil_iff.mpr hopen,
    List.nil_append, unclosedFrom_shift]
  rfl

/-- A line comment is never open. -/
theorem Token.Stands.not_isOpen_of_isLineComment {rules : Rules} {token : Token} {rest : Text}
    (h : token.Stands rules rest) (hl : token.IsLineComment) : ¬ token.IsOpen := by
  cases h with
  | separator => exact id
  | plain => exact id
  | closed => exact nofun
  | @unclosed kind opener body hopens hends =>
    cases hl
    have hfinds := Comment.lineExtent_finds
    have hextent := hfinds.sound body rfl
    exact absurd hextent (hends _ _ (hfinds.cuts body).whole)

/-- A line comment ends where its line or the script does. -/
theorem Token.Stands.rest_of_isLineComment {rules : Rules} {token : Token} {rest : Text}
    (h : token.Stands rules rest) (hl : token.IsLineComment) :
    rest = [] ∨ rest.head? = some '\n' := by
  cases h with
  | separator => exact absurd hl id
  | plain => exact absurd hl id
  | closed hopens hends =>
    cases hl
    exact hends.atBreak
  | unclosed => exact .inl rfl

/-- A script can be cut between two tokens. -/
theorem Reads.cut {rules : Rules} {ts : List Token} {rest : Text} (h : Reads rules ts rest) :
    Reads rules ts [] := by
  by_cases hne : rest = []
  · rwa [hne] at h
  · refine h.replace (.of_inert inert_nil _) fun token htoken => ?_
    exact ⟨h.not_isOpen_of_ne_nil hne token (List.mem_of_getLast? htoken), fun _ => .inl rfl⟩

/-- The part in front of the cut ends at top level unless the end of a line follows. -/
theorem Reads.endsAtTopLevel {rules : Rules} {ts : List Token} {rest : Text}
    (h : Reads rules ts rest) (hne : rest ≠ []) (hbreak : rest.head? ≠ some '\n') :
    tokens rules (ts.flatMap Token.text) = ts ∧ EndsAtTopLevel rules (ts.flatMap Token.text) := by
  have hopen := h.not_isOpen_of_ne_nil hne
  have htokens := tokens_of_reads_nil h.cut
  refine ⟨htokens, fun token htoken => ?_⟩
  rw [htokens] at htoken
  refine ⟨hopen token (List.mem_of_getLast? htoken), fun hline => ?_⟩
  obtain ⟨front, rfl⟩ := List.getLast?_eq_some_iff.mp htoken
  obtain ⟨-, hstands, -⟩ := reads_append.mp h
  rcases hstands.rest_of_isLineComment hline with hnil | hhead
  · exact hne hnil
  · exact hbreak hhead

end SqlScript
