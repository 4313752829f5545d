import SqlScript.Region
import SqlScript.Proofs.Region.Ending

/-! What may stand between quotes, as a grammar: no closing character but in pairs, and no
backslash but with the character it takes along, where backslashes do that.

`extent_finds` says that reading stops exactly where such content and its closing
character end. Content never reads as an end: a closing character behind it either is
the end or begins a pair. -/
namespace SqlScript.Quote

/-- What may stand between an opening character and `close`. -/
inductive Content (close : Char) (escapes : Bool) : Text → Prop
  | nil : Content close escapes []
  | plain {c : Char} {cs : Text} : c ≠ close → ¬ (escapes = true ∧ c = '\\') →
      Content close escapes cs → Content close escapes (c :: cs)
  | doubled {cs : Text} : Content close escapes cs → Content close escapes (close :: close :: cs)
  | escaped {c : Char} {cs : Text} : escapes = true → Content close escapes cs →
      Content close escapes ('\\' :: c :: cs)

/-- A quoted region ends with the closing character behind its content, unless another
closing character follows. -/
def Ends (close : Char) (escapes : Bool) (body rest : Text) : Prop :=
  ∃ content, body = content ++ [close] ∧ Content close escapes content ∧ rest.head? ≠ some close

variable {close : Char} {escapes : Bool}

theorem ends_cons {c : Char} {body rest : Text} (hc : c ≠ close)
    (he : ¬ (escapes = true ∧ c = '\\')) (h : Ends close escapes body rest) :
    Ends close escapes (c :: body) rest := by
  obtain ⟨content, rfl, hcontent, hr⟩ := h
  exact ⟨c :: content, rfl, .plain hc he hcontent, hr⟩

theorem ends_doubled {body rest : Text} (h : Ends close escapes body rest) :
    Ends close escapes (close :: close :: body) rest := by
  obtain ⟨content, rfl, hcontent, hr⟩ := h
  exact ⟨close :: close :: content, rfl, .doubled hcontent, hr⟩

theorem ends_escaped {c : Char} {body rest : Text} (he : escapes = true)
    (h : Ends close escapes body rest) : Ends close escapes ('\\' :: c :: body) rest := by
  obtain ⟨content, rfl, hcontent, hr⟩ := h
  exact ⟨'\\' :: c :: content, rfl, .escaped he hcontent, hr⟩

/-- Reading stops where a quoted region ends. -/
theorem extent_sound (t : Text) (h : (extent close escapes t).closed = true) :
    Ends close escapes (extent close escapes t).taken (extent close escapes t).rest := by
  induction t using extent.induct close escapes with
  | case1 => simp [extent] at h
  | case2 c =>
    have hc : c = close := by simpa [extent] using h
    exact ⟨[], by simp [extent, hc], .nil, by simp [extent]⟩
  | case3 cs ih =>
    simp only [extent, if_true] at h ⊢
    exact ends_doubled (ih h)
  | case4 d cs hd =>
    simp only [extent, if_true, if_neg hd]
    exact ⟨[], rfl, .nil, by simpa using hd⟩
  | case5 c d cs hc he ih =>
    obtain ⟨he', rfl⟩ : escapes = true ∧ c = '\\' := by simpa using he
    simp only [extent, if_neg hc, if_pos he] at h ⊢
    exact ends_escaped he' (ih h)
  | case6 c d cs hc he ih =>
    simp only [extent, if_neg hc, if_neg he] at h ⊢
    exact ends_cons hc (by simpa using he) (ih h)

/-- Reading comes to the end of every quoted region. A closing backslash that escapes
would be ambiguous. -/
theorem extent_complete (hclose : escapes = true → close ≠ '\\') {content rest : Text}
    (h : Content close escapes content) (hr : rest.head? ≠ some close) :
    extent close escapes (content ++ close :: rest) = ⟨content ++ [close], true, rest⟩ := by
  induction h with
  | nil =>
    cases rest with
    | nil => simp [extent]
    | cons d rest =>
      have hd : d ≠ close := by simpa using hr
      simp [extent, hd]
  | @plain c cs hc he _ ih =>
    have he' : ¬ (escapes && c == '\\') = true := by simpa using he
    obtain ⟨d, ds, hds⟩ := List.exists_cons_of_ne_nil
      (List.append_ne_nil_of_right_ne_nil cs (List.cons_ne_nil close rest))
    rw [hds] at ih
    rw [List.cons_append, hds, extent, if_neg hc, if_neg he', ih]
    rfl
  | doubled _ ih =>
    rw [List.cons_append, List.cons_append, extent, if_pos rfl, if_pos rfl, ih]
    rfl
  | @escaped c cs he _ ih =>
    rw [List.cons_append, List.cons_append, extent, if_neg (hclose he).symm, if_pos (by simp [he]), ih]
    rfl

theorem extent_finds (hclose : escapes = true → close ≠ '\\') :
    Extent.Finds (extent close escapes) (Ends close escapes) where
  cuts := extent_cuts close escapes
  sound := extent_sound
  complete {body rest} h := by
    obtain ⟨content, rfl, hcontent, hr⟩ := h
    rw [List.append_assoc]
    exact extent_complete hclose hcontent hr

/-- Without a backslash it does not matter whether backslashes escape. -/
theorem extent_eq_of_not_mem {t : Text} (h : '\\' ∉ t) :
    extent close escapes t = extent close false t := by
  induction t using extent.induct close escapes with
  | case1 => rfl
  | case2 c => rfl
  | case3 cs ih =>
    have hcs : '\\' ∉ cs := fun hmem => h (by simp [hmem])
    simp [extent, ih hcs]
  | case4 d cs hd => simp [extent, hd]
  | case5 c d cs hc he ih =>
    obtain ⟨-, rfl⟩ : escapes = true ∧ c = '\\' := by simpa using he
    exact absurd List.mem_cons_self h
  | case6 c d cs hc he ih =>
    have hcs : '\\' ∉ d :: cs := fun hmem => h (List.mem_cons_of_mem c hmem)
    simp [extent, hc, he, ih hcs]

end SqlScript.Quote
