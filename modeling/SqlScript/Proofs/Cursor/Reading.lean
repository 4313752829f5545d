import SqlScript.Cursor
import SqlScript.Proofs.Region.Nesting

/-! Reading with a cursor.

A cursor that moves through a script reads what stands in front of what is left of it. Each
look and each move says something about the part behind the cursor alone, and so each loop
comes to the end that the extents of regions speak of (`pass_between`). `readRegion_eq` puts
this together: where an attempt is made, how far it gets and what it finds are decided by the
text behind the cursor, and the moves take the cursor just there. -/
namespace SqlScript.Cursor

open Comment (blockOpener blockCloser)

/-- The cursor between two parts of a text. -/
def between (front rest : Text) : Cursor := ⟨front ++ rest, front.length⟩

variable {front rest : Text}

theorem between_take_drop {script : Text} {p : Nat} (h : p ≤ script.length) :
    between (script.take p) (script.drop p) = ⟨script, p⟩ := by
  rw [between, List.take_append_drop, List.length_take, Nat.min_eq_left h]

/-! ### Looking -/

theorem length_between : (between front rest).length = front.length + rest.length :=
  List.length_append

theorem origin_between : (between front rest).origin = front.length := by
  have hpos : ¬ (between front rest).pos < 0 := Int.not_lt.mpr (Int.natCast_nonneg _)
  rw [origin, if_neg hpos]
  rfl

theorem drop_origin_between :
    (between front rest).text.drop (between front rest).origin = rest := by
  rw [origin_between]
  exact List.drop_left

theorem atEnd_between : (between front rest).atEnd = true ↔ rest = [] := by
  have hpos : (between front rest).pos = front.length := rfl
  rw [atEnd, length_between, hpos, decide_eq_true_iff, ← List.length_eq_zero_iff]
  omega

theorem peek_between (offset : Nat) :
    (between front rest).peek offset = rest[offset]?.elim .pastEnd .char := by
  have hpos : (between front rest).pos = front.length := rfl
  have htext : (between front rest).text = front ++ rest := rfl
  rw [peek, hpos, length_between]
  by_cases hlt : offset < rest.length
  · have hindex : ¬ ((front.length + rest.length : Nat) : Int) ≤ (front.length : Int) + offset := by
      omega
    have hstart : ¬ (front.length : Int) + offset < 0 := by omega
    have htoNat : ((front.length : Int) + offset).toNat = front.length + offset := by omega
    rw [if_neg hindex, if_neg hstart, if_neg hstart, htoNat, htext,
      List.getElem?_append_right (Nat.le_add_right _ _), Nat.add_sub_cancel_left,
      List.getElem?_eq_getElem hlt]
    rfl
  · have hindex : ((front.length + rest.length : Nat) : Int) ≤ (front.length : Int) + offset := by
      omega
    rw [if_pos hindex, List.getElem?_eq_none (Nat.not_lt.mp hlt)]
    rfl

theorem sees_between (offset : Nat) (ch : Char) :
    (between front rest).sees offset ch = true ↔ rest[offset]? = some ch := by
  rw [sees, peek_between, decide_eq_true_iff]
  cases rest[offset]? <;> simp

theorem ahead_between (count : Nat) : (between front rest).ahead count = rest.take count := by
  rw [ahead, drop_origin_between]

theorem startsWith_between (sub : Text) :
    (between front rest).startsWith sub = sub.isPrefixOf rest := by
  rw [startsWith, drop_origin_between]

theorem find?_between (sub : Text) :
    (between front rest).find? sub = (Text.find? sub rest).map (front.length + ·) := by
  rw [find?, drop_origin_between, origin_between]

/-! ### Moving -/

theorem advance_between (a : Text) :
    (between front (a ++ rest)).advance a.length = between (front ++ a) rest := by
  rw [advance, length_between]
  simp only [between, List.append_assoc, List.length_append, mk.injEq, true_and]
  omega

/-- A move that would lead past the end leads there. -/
theorem advance_past {count : Nat} (h : rest.length ≤ count) :
    (between front rest).advance count = between (front ++ rest) [] := by
  rw [advance, length_between]
  simp only [between, List.append_nil, List.length_append, mk.injEq, true_and]
  omega

theorem advanceTo_between (a : Text) :
    (between front (a ++ rest)).advanceTo ((front.length + a.length : Nat) : Int) =
      between (front ++ a) rest := by
  rw [advanceTo, length_between]
  simp only [between, List.append_assoc, List.length_append, mk.injEq, true_and]
  omega

theorem advanceToEnd_between : (between front rest).advanceToEnd = between (front ++ rest) [] := by
  rw [advanceToEnd, length_between]
  simp only [between, List.append_nil, List.length_append]

/-! ### Behind a region -/

/-- Where an extent ends that starts behind `front`. -/
def behind (front : Text) (e : Extent) : Bool × Cursor :=
  (e.closed, between (front ++ e.taken) e.rest)

theorem behind_after (front start : Text) (e : Extent) :
    behind front (e.after start) = behind (front ++ start) e := by
  rw [behind, behind, Extent.after, List.append_assoc]

/-- One round of the loop over what is quoted. -/
theorem passQuoted_cons (close : Char) (escapes : Bool) (front : Text) (c : Char) (cs : Text) :
    (between front (c :: cs)).passQuoted close escapes =
      if c = close then
        if cs.head? = some close then ((between front (c :: cs)).advance 2).passQuoted close escapes
        else (true, between (front ++ [c]) cs)
      else if escapes = true ∧ c = '\\' then
        ((between front (c :: cs)).advance 2).passQuoted close escapes
      else (between (front ++ [c]) cs).passQuoted close escapes := by
  have hend : ¬ (between front (c :: cs)).atEnd = true :=
    mt atEnd_between.mp (List.cons_ne_nil c cs)
  have hone : (between front (c :: cs)).advance 1 = between (front ++ [c]) cs := advance_between [c]
  rw [passQuoted, dif_neg hend, hone]
  simp [sees_between, List.head?_eq_getElem?]

/-- What is quoted is passed up to where it ends. The cases are those of the extent. -/
theorem passQuoted_between (close : Char) (escapes : Bool) (front rest : Text) :
    (between front rest).passQuoted close escapes =
      behind front (Quote.extent close escapes rest) := by
  have hnil (front : Text) :
      (between front []).passQuoted close escapes = (false, between front []) := by
    rw [passQuoted, dif_pos (atEnd_between.mpr rfl)]
  have htwo (front : Text) (c d : Char) (cs : Text) :
      (between front (c :: d :: cs)).advance 2 = between (front ++ [c, d]) cs :=
    advance_between [c, d]
  induction rest using Quote.extent.induct close escapes generalizing front with
  | case1 => rw [hnil, Quote.extent, behind, List.append_nil]
  | case2 c =>
    -- A backslash at the end has nothing to take along.
    have hpast : (between front [c]).advance 2 = between (front ++ [c]) [] := advance_past (by simp)
    rw [passQuoted_cons, hpast, hnil, ite_self, Quote.extent, behind]
    by_cases hc : c = close <;> simp [hc]
  | case3 cs ih =>
    rw [passQuoted_cons, if_pos rfl, if_pos List.head?_cons, htwo, ih, Quote.extent, if_pos rfl,
      if_pos rfl, behind_after]
  | case4 d cs hd =>
    rw [passQuoted_cons, if_pos rfl, if_neg (by simpa using hd), Quote.extent, if_pos rfl,
      if_neg hd]
    rfl
  | case5 c d cs hc he ih =>
    have hslash : escapes = true ∧ c = '\\' := by simpa using he
    rw [passQuoted_cons, if_neg hc, if_pos hslash, htwo, ih, Quote.extent, if_neg hc, if_pos he,
      behind_after]
  | case6 c d cs hc he ih =>
    have hslash : ¬ (escapes = true ∧ c = '\\') := by simpa using he
    rw [passQuoted_cons, if_neg hc, if_neg hslash, ih, Quote.extent, if_neg hc, if_neg he,
      behind_after]

theorem isPrefixOf_pair_cons {x y c d : Char} {cs : Text} :
    [x, y].isPrefixOf (c :: d :: cs) = true ↔ c = x ∧ d = y := by
  rw [List.isPrefixOf_iff_prefix, List.cons_prefix_cons, List.cons_prefix_cons]
  constructor
  · rintro ⟨rfl, rfl, -⟩
    exact ⟨rfl, rfl⟩
  · rintro ⟨rfl, rfl⟩
    exact ⟨rfl, rfl, List.nil_prefix⟩

/-- One round of the loop over comments in comments. -/
theorem passNested_cons (depth : Nat) (front : Text) (c : Char) (cs : Text) :
    (between front (c :: cs)).passNested depth =
      if blockOpener.isPrefixOf (c :: cs) then
        ((between front (c :: cs)).advance 2).passNested (depth + 1)
      else if blockCloser.isPrefixOf (c :: cs) then
        if depth = 0 then (true, (between front (c :: cs)).advance 2)
        else ((between front (c :: cs)).advance 2).passNested (depth - 1)
      else (between (front ++ [c]) cs).passNested depth := by
  have hend : ¬ (between front (c :: cs)).atEnd = true :=
    mt atEnd_between.mp (List.cons_ne_nil c cs)
  have hone : (between front (c :: cs)).advance 1 = between (front ++ [c]) cs := advance_between [c]
  rw [passNested, dif_neg hend, hone, startsWith_between, startsWith_between]

/-- A block comment is passed up to the mark that closes it. The cases are those of the
extent. -/
theorem passNested_between (depth : Nat) (front rest : Text) :
    (between front rest).passNested depth = behind front (Comment.nestedExtent depth rest) := by
  have hnil (depth : Nat) (front : Text) :
      (between front []).passNested depth = (false, between front []) := by
    rw [passNested, dif_pos (atEnd_between.mpr rfl)]
  have htwo (front : Text) (c d : Char) (cs : Text) :
      (between front (c :: d :: cs)).advance 2 = between (front ++ [c, d]) cs :=
    advance_between [c, d]
  have hopener {c d : Char} {cs : Text} :
      blockOpener.isPrefixOf (c :: d :: cs) = true ↔ c = '/' ∧ d = '*' := isPrefixOf_pair_cons
  have hcloser {c d : Char} {cs : Text} :
      blockCloser.isPrefixOf (c :: d :: cs) = true ↔ c = '*' ∧ d = '/' := isPrefixOf_pair_cons
  induction depth, rest using Comment.nestedExtent.induct generalizing front with
  | case1 depth => rw [hnil, Comment.nestedExtent, behind, List.append_nil]
  | case2 depth c =>
    have hopener : ¬ blockOpener.isPrefixOf [c] = true := by simp [blockOpener]
    have hcloser : ¬ blockCloser.isPrefixOf [c] = true := by simp [blockCloser]
    rw [passNested_cons, if_neg hopener, if_neg hcloser, hnil]
    rfl
  | case3 depth c d cs ho ih =>
    rw [passNested_cons, if_pos (hopener.mpr ho), htwo, ih]
    obtain ⟨rfl, rfl⟩ := ho
    rw [Comment.nestedExtent_opening, behind_after]
  | case4 c d cs ho hc =>
    rw [passNested_cons, if_neg (mt hopener.mp ho), if_pos (hcloser.mpr hc), if_pos rfl, htwo]
    obtain ⟨rfl, rfl⟩ := hc
    rw [Comment.nestedExtent_last]
    rfl
  | case5 c d cs ho hc outer ih =>
    rw [passNested_cons, if_neg (mt hopener.mp ho), if_pos (hcloser.mpr hc),
      if_neg (Nat.succ_ne_zero outer), htwo, Nat.succ_sub_one, ih]
    obtain ⟨rfl, rfl⟩ := hc
    rw [Comment.nestedExtent_closing, behind_after]
  | case6 depth c d cs ho hc ih =>
    rw [passNested_cons, if_neg (mt hopener.mp ho), if_neg (mt hcloser.mp hc), ih,
      Comment.nestedExtent_other depth cs ho hc, behind_after]

theorem passTo_between (closer front rest : Text) :
    (between front rest).passTo closer = behind front (.upTo closer rest) := by
  rw [passTo, find?_between, Text.find?, Extent.upTo]
  cases hcut : Text.cut? closer rest with
  | none =>
    rw [Option.map_none, Option.map_none, advanceToEnd_between]
    rfl
  | some found =>
    obtain ⟨before, after⟩ := found
    have hwhole : before ++ closer ++ after = rest := by
      rw [List.append_assoc, Text.append_of_cut? hcut]
    have hmove :
        (between front rest).advanceTo ((front.length + before.length : Nat) + closer.length) =
          between (front ++ (before ++ closer)) after := by
      rw [← hwhole, ← advanceTo_between, List.length_append]
      congr 1
      omega
    rw [Option.map_some, Option.map_some]
    exact congrArg (true, ·) hmove

/-- A line is passed up to the line feed that ends it. -/
theorem passLine_between (front rest : Text) :
    (between front rest).passLine = behind front (Comment.lineExtent rest) := by
  rw [passLine, find?_between, Text.find?]
  cases hcut : Text.cut? ['\n'] rest with
  | none =>
    have hline : '\n' ∉ rest := by
      intro hmem
      obtain ⟨x, y, rfl⟩ := List.append_of_mem hmem
      have hinfix : ['\n'] <:+: x ++ '\n' :: y := ⟨x, y, (List.append_cons x '\n' y).symm⟩
      have hsome := Text.cut?_isSome_iff.mpr hinfix
      rw [hcut] at hsome
      cases hsome
    have hextent := Comment.lineExtent_finds.complete ⟨hline, .inl rfl⟩
    rw [List.append_nil] at hextent
    rw [Option.map_none, Option.map_none, advanceToEnd_between, hextent]
    rfl
  | some found =>
    obtain ⟨before, after⟩ := found
    have hwhole : before ++ '\n' :: after = rest := Text.append_of_cut? hcut
    have hline : '\n' ∉ before := by
      intro hmem
      obtain ⟨x, y, rfl⟩ := List.append_of_mem hmem
      have hnil := (Text.endsAtFirst_of_cut? hcut).first x (y ++ ['\n']) (by simp)
      exact List.append_ne_nil_of_right_ne_nil y (List.cons_ne_nil _ _) hnil
    rw [Option.map_some, Option.map_some, ← hwhole,
      Comment.lineExtent_finds.complete ⟨hline, .inr rfl⟩]
    exact congrArg (true, ·) (advanceTo_between before)

/-- **Behind its opening sequence a region is passed up to where its form ends it.** -/
theorem pass_between (f : Form) (opener front rest : Text) :
    (between front rest).pass opener f = behind front (f.extent opener rest) := by
  cases f with
  | quoted kind opening close escapes => exact passQuoted_between close escapes front rest
  | dollar => exact passTo_between opener front rest
  | line first others => exact passLine_between front rest
  | block nests =>
    cases nests
    · exact passTo_between blockCloser front rest
    · exact passNested_between 0 front rest

/-! ### Opening sequences -/

/-- Tag characters are passed over, and the end of the text is none of them. -/
theorem tagStop_between (offset : Nat) :
    (between front rest).tagStop offset =
      offset + ((rest.drop offset).takeWhile Dollar.isTagChar).length := by
  induction hs : rest.drop offset generalizing offset with
  | nil =>
    have hnone : rest[offset]? = none := List.getElem?_eq_none (List.drop_eq_nil_iff.mp hs)
    have hpeek : (between front rest).peek offset = .pastEnd := by rw [peek_between, hnone]; rfl
    rw [tagStop]
    split
    · next ch h => rw [hpeek] at h; cases h
    · rfl
  | cons c cs ih =>
    have hpeek : (between front rest).peek offset = .char c := by
      rw [peek_between, ← List.head?_drop, hs]
      rfl
    have hnext : rest.drop (offset + 1) = cs := by rw [← List.tail_drop, hs]; rfl
    rw [tagStop]
    split
    · next ch h =>
      rw [hpeek] at h
      cases h
      rw [List.takeWhile_cons]
      split
      · rw [ih (offset + 1) hnext, List.length_cons]
        omega
      · rfl
    · next h => exact absurd hpeek (h c)

/-- A cursor finds the opening sequence of a form if it stands on its first character. -/
theorem opener?_between {f : Form} (h : rest.head? = some f.initial) :
    (between front rest).opener? f = f.opener? rest := by
  obtain ⟨cs, hcs⟩ := List.head?_eq_some_iff.mp h
  cases f with
  | quoted kind opening close escapes =>
    have hopening : rest.head? = some opening := h
    rw [opener?, ahead_between, Form.opener?, if_pos hopening, hcs]
    rfl
  | dollar =>
    obtain rfl : rest = '$' :: cs := hcs
    have hsplit : cs.takeWhile Dollar.isTagChar ++ cs.dropWhile Dollar.isTagChar = cs :=
      List.takeWhile_append_dropWhile
    have hstop : (between front ('$' :: cs)).tagStop 1 =
        1 + (cs.takeWhile Dollar.isTagChar).length := tagStop_between 1
    rw [opener?, hstop, Form.opener?, Dollar.tag?]
    generalize cs.takeWhile Dollar.isTagChar = name at hsplit
    generalize cs.dropWhile Dollar.isTagChar = tail at hsplit
    subst hsplit
    have hsees : (between front ('$' :: (name ++ tail))).sees (1 + name.length) '$' = true ↔
        tail.head? = some '$' := by
      rw [sees_between, Nat.add_comm, List.getElem?_cons_succ,
        List.getElem?_append_right (Nat.le_refl _), Nat.sub_self, List.head?_eq_getElem?]
    by_cases hd : tail.head? = some '$'
    · obtain ⟨ds, rfl⟩ := List.head?_eq_some_iff.mp hd
      have htake :
          ('$' :: (name ++ '$' :: ds)).take (1 + name.length + 1) = '$' :: name ++ ['$'] := by
        rw [List.append_cons, ← List.cons_append, List.take_left' (by simp; omega),
          List.cons_append]
      rw [if_pos (hsees.mpr hd), if_pos hd, ahead_between, htake]
    · rw [if_neg (mt hsees.mp hd), if_neg hd]
  | line first others => rw [opener?, startsWith_between, Form.opener?]
  | block nests => rw [opener?, startsWith_between, Form.opener?]

/-- Whatever stands at the cursor, what is taken for an opening sequence stands there. -/
theorem exists_rest_of_opener?_between {f : Form} {opener : Text}
    (h : (between front rest).opener? f = some opener) : ∃ tail, opener ++ tail = rest := by
  have htake (count : Nat) : ∃ tail, (between front rest).ahead count ++ tail = rest :=
    ⟨rest.drop count, by rw [ahead_between, List.take_append_drop]⟩
  cases f with
  | quoted kind opening close escapes =>
    cases h
    exact htake 1
  | dollar =>
    simp only [opener?, Option.ite_none_right_eq_some, Option.some.injEq] at h
    exact h.2 ▸ htake _
  | line first others =>
    simp only [opener?, Option.ite_none_right_eq_some, Option.some.injEq, startsWith_between] at h
    exact h.2 ▸ Text.exists_of_isPrefixOf h.1
  | block nests =>
    simp only [opener?, Option.ite_none_right_eq_some, Option.some.injEq, startsWith_between] at h
    exact h.2 ▸ Text.exists_of_isPrefixOf h.1

/-- What is taken for an opening sequence does not depend on what stands in front of the
cursor. -/
theorem opener?_between_nil (f : Form) :
    (between front rest).opener? f = (between [] rest).opener? f := by
  cases f with
  | quoted kind opening close escapes => rw [opener?, opener?, ahead_between, ahead_between]
  | dollar =>
    have hsees (offset : Nat) :
        (between front rest).sees offset '$' = (between [] rest).sees offset '$' := by
      rw [Bool.eq_iff_iff, sees_between, sees_between]
    rw [opener?, opener?, tagStop_between, tagStop_between, ahead_between, ahead_between, hsees]
  | line first others => rw [opener?, opener?, startsWith_between, startsWith_between]
  | block nests => rw [opener?, opener?, startsWith_between, startsWith_between]

/-! ### Regions -/

/-- Behind its opening sequence a region is read as far as its form lets it reach. -/
theorem read_of_opener? {f : Form} {opener tail : Text}
    (h : (between front (opener ++ tail)).opener? f = some opener) :
    (between front (opener ++ tail)).read f =
      (some ⟨f.kind, opener, (f.extent opener tail).taken, (f.extent opener tail).closed⟩,
        between (front ++ (opener ++ (f.extent opener tail).taken)) (f.extent opener tail).rest) := by
  have hcuts := (f.extent_cuts opener tail).whole
  rw [read, h]
  simp only [advance_between, pass_between, behind, ahead_between]
  generalize f.extent opener tail = e at hcuts
  have hcount : ((between (front ++ opener ++ e.taken) e.rest).pos -
      (between (front ++ opener) tail).pos).toNat = e.taken.length := by
    simp only [between, List.length_append]
    omega
  rw [hcount, ← hcuts, List.take_left, List.append_assoc]

/-- What a form reads in front of the rest of a text, a cursor there reads and stands behind. -/
theorem read_of_some {f : Form} {r : Region} {after : Text} (h : f.read? rest = some (r, after)) :
    (between front rest).read f = (some r, between (front ++ r.text) after) := by
  obtain ⟨opener, ho, heq⟩ := Option.map_eq_some_iff.mp h
  obtain ⟨tail, rfl⟩ := Form.exists_rest_of_opener? ho
  have hfirst : (opener ++ tail).head? = some f.initial := by
    obtain ⟨others, rfl⟩ := List.head?_eq_some_iff.mp (Form.head?_opener? ho)
    rfl
  rw [List.drop_left] at heq
  rw [read_of_opener? ((opener?_between hfirst).trans ho)]
  cases heq
  rfl

/-- Where a form reads nothing a cursor stays. -/
theorem read_of_none {f : Form} (hfirst : rest.head? = some f.initial) (h : f.read? rest = none) :
    (between front rest).read f = (none, between front rest) := by
  rw [read, opener?_between hfirst, Option.map_eq_none_iff.mp h]

/-- The form that opens with the next character is the one that is tried. -/
theorem readRegion_cons (rules : Rules) (front : Text) (c : Char) (cs : Text) :
    (between front (c :: cs)).readRegion rules =
      (rules.form? c).elim (none, between front (c :: cs)) fun f =>
        let found := (between front (c :: cs)).attempt f
        (some found.1, found.2) := by
  have hpeek : (between front (c :: cs)).peek 0 = .char c := peek_between 0
  rw [readRegion, hpeek]
  cases hform : rules.form? c with
  | none => simp only [hform, Option.elim_none]
  | some f => simp only [hform, Option.elim_some]

/-- In front of its first character a form is the one that is tried. -/
theorem readRegion_of_mem_forms {rules : Rules} {script : Text} {p : Nat} {f : Form}
    (hf : f ∈ rules.forms) (hfirst : script[p]? = some f.initial) :
    (⟨script, p⟩ : Cursor).readRegion rules =
      (some ((⟨script, p⟩ : Cursor).attempt f).1, ((⟨script, p⟩ : Cursor).attempt f).2) := by
  obtain ⟨cs, hcs⟩ := List.head?_eq_some_iff.mp (List.head?_drop.trans hfirst)
  have hp : p ≤ script.length := Nat.le_of_lt (List.getElem?_eq_some_iff.mp hfirst).1
  rw [← between_take_drop hp, hcs, readRegion_cons, Rules.form?_eq_some_iff.mpr ⟨hf, rfl⟩]
  rfl

/-- **A cursor makes the attempt that is made in front of the rest of the script**, and goes
where that gets. -/
theorem readRegion_eq (rules : Rules) (script : Text) (p : Nat) :
    (⟨script, p⟩ : Cursor).readRegion rules =
      (Attempt.here? rules p (script.drop p),
        ⟨script, ((Attempt.here? rules p (script.drop p)).elim p Attempt.stop : Nat)⟩) := by
  by_cases hp : p < script.length
  · have hscript := List.take_append_drop p script
    have hlength : (script.take p).length = p := List.length_take_of_le (Nat.le_of_lt hp)
    have hne : script.drop p ≠ [] := mt List.drop_eq_nil_iff.mp (Nat.not_le.mpr hp)
    obtain ⟨c, cs, hcs⟩ := List.exists_cons_of_ne_nil hne
    rw [← between_take_drop (Nat.le_of_lt hp), hcs, readRegion_cons, Attempt.here?]
    rw [hcs] at hscript
    generalize script.take p = front at hscript hlength
    subst hscript hlength
    cases hform : rules.form? c with
    | none => rfl
    | some f =>
      obtain ⟨-, rfl⟩ := Rules.form?_eq_some_iff.mp hform
      simp only [Option.elim_some, Option.map_some]
      cases hread : f.read? (f.initial :: cs) with
      | none =>
        rw [attempt, read_of_none rfl hread]
        rfl
      | some found =>
        obtain ⟨r, after⟩ := found
        have hwhole : front ++ r.text ++ after = front ++ f.initial :: cs := by
          rw [List.append_assoc, Form.read?_text hread]
        rw [attempt, read_of_some hread]
        simp only [between, hwhole, List.length_append]
        rfl
  · have hnil : script.drop p = [] := List.drop_eq_nil_of_le (Nat.not_lt.mp hp)
    have hpeek : (⟨script, p⟩ : Cursor).peek 0 = .pastEnd := by
      rw [peek, if_pos]
      show (script.length : Int) ≤ p + 0
      omega
    rw [readRegion, hpeek, hnil]
    rfl

end SqlScript.Cursor
