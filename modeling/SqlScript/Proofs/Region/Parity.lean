import Mathlib.Algebra.Ring.Parity
import Mathlib.Data.List.DropRight
import SqlScript.Rules
import SqlScript.Proofs.Region.Quote

/-! Where a quoted region ends, by the runs of its closing character alone.

Closing characters that stand together write one another in pairs, so that a run of them
ends the region exactly if one is left over. Where backslashes escape, one in front of the
run may take the first of them along. -/
namespace SqlScript.Quote

/-- A run of a character in a text, as long as it can be. -/
structure Run (c : Char) (t : Text) where
  front : Text
  length : Nat
  back : Text
  whole : front ++ (List.replicate length c ++ back) = t
  pos : 0 < length
  left : front.getLast? ≠ some c
  right : back.head? ≠ some c

/-- How many backslashes stand together at the end of a text. -/
def slashes (front : Text) : Nat := (front.rtakeWhile (· == '\\')).length

/-- How many characters count of a run of `n` behind `front`. Where backslashes escape, they
take one another along in pairs, and one that is left over takes the first of the run. -/
def live (escapes : Bool) (front : Text) (n : Nat) : Nat :=
  if escapes = true ∧ Odd (slashes front) then n - 1 else n

namespace Run

variable {c : Char} {t : Text}

/-- The offset behind a run. -/
def stop (r : Run c t) : Nat := r.front.length + r.length

/-- The first run of which an odd number of characters counts. -/
structure FirstOdd (escapes : Bool) (r : Run c t) : Prop where
  odd : Odd (live escapes r.front r.length)
  first : ∀ r' : Run c t, r'.front.length < r.front.length → Even (live escapes r'.front r'.length)

end Run

variable {close : Char} {escapes : Bool} {front back a b s t : Text} {n : Nat}

/-! ### Cutting content -/

/-- What stands on the two sides of a place in content. Within a pair, one character of it
is on either side. -/
inductive Cut (close : Char) (escapes : Bool) : Text → Text → Prop
  | between {a b : Text} : Content close escapes a → Content close escapes b → Cut close escapes a b
  | within {a b : Text} {c d : Char} : Content close escapes a → Content close escapes b →
      (c = close ∧ d = close) ∨ (escapes = true ∧ c = '\\') → Cut close escapes (a ++ [c]) (d :: b)

theorem Cut.prepend (start : Text)
    (hstart : ∀ u, Content close escapes u → Content close escapes (start ++ u))
    (h : Cut close escapes a b) : Cut close escapes (start ++ a) b := by
  cases h with
  | between ha hb => exact .between (hstart _ ha) hb
  | within ha hb hpair =>
    rw [← List.append_assoc]
    exact .within (hstart _ ha) hb hpair

/-- Content can be cut anywhere. -/
theorem Content.cut (h : Content close escapes s) (hs : a ++ b = s) : Cut close escapes a b := by
  induction h generalizing a with
  | nil =>
    obtain ⟨rfl, rfl⟩ := List.append_eq_nil_iff.mp hs
    exact .between .nil .nil
  | @plain c cs hc he hcs ih =>
    cases a with
    | nil =>
      subst hs
      exact .between .nil (.plain hc he hcs)
    | cons x a =>
      obtain ⟨rfl, htail⟩ := List.cons.inj hs
      exact (ih htail).prepend [x] fun _ hu => .plain hc he hu
  | @doubled cs hcs ih =>
    match a, hs with
    | [], hs =>
      subst hs
      exact .between .nil (.doubled hcs)
    | [x], hs =>
      cases hs
      exact @Cut.within _ _ [] cs close close .nil hcs (.inl ⟨rfl, rfl⟩)
    | x :: y :: a, hs =>
      cases hs
      exact (ih rfl).prepend [_, _] fun _ hu => .doubled hu
  | @escaped c cs he hcs ih =>
    match a, hs with
    | [], hs =>
      subst hs
      exact .between .nil (.escaped he hcs)
    | [x], hs =>
      cases hs
      exact @Cut.within _ _ [] cs '\\' c .nil hcs (.inr ⟨he, rfl⟩)
    | x :: y :: a, hs =>
      cases hs
      exact (ih rfl).prepend ['\\', _] fun _ hu => .escaped he hu

/-! ### Runs in content -/

/-- Closing characters at the start of content stand there in pairs. -/
theorem Content.even_of_replicate (hclose : escapes = true → close ≠ '\\')
    (h : Content close escapes (List.replicate n close ++ back)) (hback : back.head? ≠ some close) :
    Even n := by
  induction n using Nat.twoStepInduction with
  | zero => exact ⟨0, rfl⟩
  | one =>
    cases h with
    | plain hc => exact absurd rfl hc
    | doubled => exact absurd rfl hback
    | escaped he => exact absurd rfl (hclose he)
  | more n ih _ =>
    cases h with
    | plain hc => exact absurd rfl hc
    | doubled h => exact (ih h).add even_two
    | escaped he => exact absurd rfl (hclose he)

theorem slashes_append_ne {c : Char} (hc : c ≠ '\\') (front : Text) : slashes (front ++ [c]) = 0 := by
  rw [slashes, List.rtakeWhile_concat_neg _ _ _ (by simpa using hc)]
  rfl

theorem slashes_append_slash (front : Text) : slashes (front ++ ['\\']) = slashes front + 1 := by
  rw [slashes, List.rtakeWhile_concat_pos _ _ _ (by simp), List.length_append]
  rfl

/-- The backslashes at the end of content take one another along. -/
theorem Content.even_slashes (hclose : close ≠ '\\') (he : escapes = true)
    (h : Content close escapes s) : Even (slashes s) := by
  induction hn : s.length using Nat.strong_induction_on generalizing s with
  | _ n ih =>
    rcases List.eq_nil_or_concat s with rfl | ⟨init, d, rfl⟩
    · exact ⟨0, rfl⟩
    · rw [List.concat_eq_append] at h hn ⊢
      by_cases hd : d = '\\'
      · subst hd
        cases h.cut rfl with
        | between _ hb =>
          -- A backslash alone is no content.
          cases hb with
          | plain _ hplain => exact absurd ⟨he, rfl⟩ hplain
        | @within front _ c _ hfront _ hpair =>
          obtain ⟨-, hc⟩ | ⟨-, rfl⟩ := hpair
          · exact absurd hc.symm hclose
          · have heven := ih front.length (by simp [← hn]) hfront rfl
            rw [slashes_append_slash, slashes_append_slash, Nat.add_assoc]
            exact heven.add even_two
      · rw [slashes_append_ne hd]
        exact ⟨0, rfl⟩

theorem live_of_even (h : escapes = true → Even (slashes front)) (n : Nat) : live escapes front n = n := by
  rw [live, if_neg]
  intro hodd
  exact Nat.not_odd_iff_even.mpr (h hodd.1) hodd.2

theorem live_of_odd (he : escapes = true) (h : Odd (slashes front)) (n : Nat) :
    live escapes front n = n - 1 := by
  rw [live, if_pos ⟨he, h⟩]

/-- Content holds no run of closing characters that could end it. -/
theorem Content.even_live (hclose : escapes = true → close ≠ '\\') (h : Content close escapes s)
    (hs : front ++ (List.replicate n close ++ back) = s) (hleft : front.getLast? ≠ some close)
    (hright : back.head? ≠ some close) : Even (live escapes front n) := by
  have hcut := h.cut hs
  generalize hrest : List.replicate n close ++ back = rest at hcut
  cases hcut with
  | between hfront hcontent =>
    subst hrest
    rw [live_of_even (fun he => hfront.even_slashes (hclose he) he)]
    exact hcontent.even_of_replicate hclose hright
  | @within front rest c d hfront hcontent hpair =>
    obtain ⟨rfl, -⟩ | ⟨he, rfl⟩ := hpair
    · exact absurd List.getLast?_concat hleft
    · -- The backslash takes the first character of the run along.
      have hodd : Odd (slashes (front ++ ['\\'])) := by
        rw [slashes_append_slash]
        exact (hfront.even_slashes (hclose he) he).add_one
      rw [live_of_odd he hodd]
      cases n with
      | zero => exact ⟨0, rfl⟩
      | succ n =>
        obtain ⟨-, rfl⟩ := List.cons.inj hrest
        exact hcontent.even_of_replicate hclose hright

/-! ### Runs of a text -/

/-- Runs that start in one place are one run. -/
theorem length_eq_of_replicate_append {c : Char} {m : Nat} {x y : Text} (hx : x.head? ≠ some c)
    (hy : y.head? ≠ some c) (h : List.replicate m c ++ x = List.replicate n c ++ y) : m = n := by
  have htake {z : Text} (hz : z.head? ≠ some c) (k : Nat) :
      ((List.replicate k c ++ z).takeWhile (· == c)).length = k := by
    have hnil : z.takeWhile (· == c) = [] := by
      cases z with
      | nil => rfl
      | cons d z => exact List.takeWhile_cons_of_neg (by simpa using hz)
    rw [List.takeWhile_append_of_pos (by simp), hnil, List.append_nil, List.length_replicate]
  rw [← htake hx m, h, htake hy n]

/-- A run that starts in front of a text which does not end with its character stops there. -/
theorem exists_back_of_lt {c : Char} {x rest : Text} (ht : x ++ rest = t) (r : Run c t)
    (hx : x.getLast? ≠ some c) (hlt : r.front.length < x.length) :
    ∃ back, r.front ++ (List.replicate r.length c ++ back) = x ∧ back ≠ [] ∧
      back.head? ≠ some c := by
  have hlast (m : Text) (hm : m ≠ []) (hall : ∀ d ∈ m, d = c) (start : Text) :
      (start ++ m).getLast? = some c := by
    obtain ⟨init, d, rfl⟩ := (List.eq_nil_or_concat m).resolve_left hm
    rw [List.concat_eq_append] at hall ⊢
    rw [← List.append_assoc, List.getLast?_concat, hall d (by simp)]
  rcases List.append_eq_append_iff.mp (r.whole.trans ht.symm) with ⟨m, hm, hrest⟩ | ⟨m, hm, -⟩
  · rw [hm] at hx
    rcases List.append_eq_append_iff.mp hrest with ⟨back, rfl, hback⟩ | ⟨more, hmore, -⟩
    · refine ⟨back, hm.symm, ?_, fun hhead => r.right ?_⟩
      · rintro rfl
        refine hx ?_
        rw [List.append_nil]
        exact hlast _ (by simp [Nat.ne_of_gt r.pos]) (fun d hd => List.eq_of_mem_replicate hd) _
      · rw [hback, List.head?_append, hhead]
        rfl
    · -- The text would end within the run.
      refine absurd (hlast m ?_ (fun d hd => ?_) r.front) hx
      · rintro rfl
        rw [hm, List.append_nil] at hlt
        exact Nat.lt_irrefl _ hlt
      · have hmem : d ∈ List.replicate r.length c := hmore ▸ List.mem_append_left more hd
        exact List.eq_of_mem_replicate hmem
  · rw [hm, List.length_append] at hlt
    omega

namespace Run

variable {c : Char}

theorem FirstOdd.stop_eq {r r' : Run c t} (h : r.FirstOdd escapes) (h' : r'.FirstOdd escapes) :
    r.stop = r'.stop := by
  have hlength : r.front.length = r'.front.length := by
    rcases Nat.lt_trichotomy r.front.length r'.front.length with hlt | heq | hlt
    · exact absurd h.odd (Nat.not_odd_iff_even.mpr (h'.first r hlt))
    · exact heq
    · exact absurd h'.odd (Nat.not_odd_iff_even.mpr (h.first r' hlt))
  have hwhole := r.whole.trans r'.whole.symm
  obtain ⟨-, hruns⟩ := List.append_inj hwhole hlength
  rw [stop, stop, hlength, length_eq_of_replicate_append r.right r'.right hruns]

end Run

/-! ### Reading -/

/-- A region that is left open takes content, or content and one more backslash. -/
theorem content_of_open (h : (extent close escapes t).closed = false) :
    Content close escapes t ∨
      ∃ s, escapes = true ∧ t = s ++ ['\\'] ∧ Content close escapes s := by
  induction t using extent.induct close escapes with
  | case1 => exact .inl .nil
  | case2 c =>
    have hc : c ≠ close := by simpa [extent] using h
    by_cases he : escapes = true ∧ c = '\\'
    · exact .inr ⟨[], he.1, by rw [he.2]; rfl, .nil⟩
    · exact .inl (.plain hc he .nil)
  | case3 cs ih =>
    simp only [extent, if_true] at h
    rcases ih h with hcs | ⟨s, he, rfl, hs⟩
    · exact .inl (.doubled hcs)
    · exact .inr ⟨_, he, rfl, .doubled hs⟩
  | case4 d cs hd => simp [extent, hd] at h
  | case5 c d cs hc he ih =>
    obtain ⟨he', rfl⟩ : escapes = true ∧ c = '\\' := by simpa using he
    simp only [extent, if_neg hc, if_pos he] at h
    rcases ih h with hcs | ⟨s, -, rfl, hs⟩
    · exact .inl (.escaped he' hcs)
    · exact .inr ⟨_, he', rfl, .escaped he' hs⟩
  | case6 c d cs hc he ih =>
    simp only [extent, if_neg hc, if_neg he] at h
    have hplain : ¬ (escapes = true ∧ c = '\\') := by simpa using he
    rcases ih h with hcs | ⟨s, he', hs, hcontent⟩
    · exact .inl (.plain hc hplain hcs)
    · exact .inr ⟨c :: s, he', congrArg (c :: ·) hs, .plain hc hplain hcontent⟩

theorem even_of_open (hclose : escapes = true → close ≠ '\\')
    (h : (extent close escapes t).closed = false) (r : Run close t) :
    Even (live escapes r.front r.length) := by
  rcases content_of_open h with hcontent | ⟨s, he, rfl, hcontent⟩
  · exact hcontent.even_live hclose r.whole r.left r.right
  · -- The last backslash belongs to no run of closing characters.
    have hwhole := r.whole
    rcases List.eq_nil_or_concat r.back with hback | ⟨back, d, hback⟩
    · obtain ⟨n, hn⟩ := Nat.exists_eq_succ_of_ne_zero (Nat.ne_of_gt r.pos)
      rw [hback, hn, List.append_nil, List.replicate_succ', ← List.append_assoc] at hwhole
      obtain ⟨-, hlast⟩ := List.append_inj' hwhole rfl
      exact absurd (List.cons.inj hlast).1 (hclose he)
    · rw [hback, List.concat_eq_append, ← List.append_assoc, ← List.append_assoc] at hwhole
      obtain ⟨hs, -⟩ := List.append_inj' hwhole rfl
      rw [List.append_assoc] at hs
      refine hcontent.even_live hclose hs r.left fun hhead => r.right ?_
      rw [hback, List.concat_eq_append, List.head?_append, hhead]
      rfl

theorem exists_run_at_end (c : Char) (x : Text) :
    ∃ front k, front ++ List.replicate k c = x ∧ front.getLast? ≠ some c := by
  induction x using List.reverseRecOn with
  | nil => exact ⟨[], 0, rfl, by simp⟩
  | append_singleton init d ih =>
    by_cases hd : d = c
    · obtain ⟨front, k, rfl, hleft⟩ := ih
      refine ⟨front, k + 1, ?_, hleft⟩
      rw [List.replicate_succ', hd, List.append_assoc]
    · exact ⟨init ++ [d], 0, List.append_nil _, by simpa using hd⟩

/-- Behind content one more closing character makes the run odd. -/
theorem Content.odd_live_succ (hclose : escapes = true → close ≠ '\\')
    (h : Content close escapes (front ++ List.replicate n close)) (hleft : front.getLast? ≠ some close) :
    Odd (live escapes front (n + 1)) := by
  have heven : Even (live escapes front n) := by
    refine h.even_live hclose (congrArg (front ++ ·) (List.append_nil _)) hleft ?_
    simp
  by_cases hodd : escapes = true ∧ Odd (slashes front)
  · obtain ⟨he, hodd⟩ := hodd
    rw [live_of_odd he hodd] at heven ⊢
    cases n with
    | zero =>
      -- Content does not end with a backslash that waits for a character.
      rw [List.replicate_zero, List.append_nil] at h
      exact absurd hodd (Nat.not_odd_iff_even.mpr (h.even_slashes (hclose he) he))
    | succ n => exact heven.add_one
  · rw [live, if_neg hodd] at heven ⊢
    exact heven.add_one

/-- A quoted region ends with the first run of which an odd number of characters counts. -/
theorem exists_firstOdd_of_ends (hclose : escapes = true → close ≠ '\\') {body rest : Text}
    (h : Ends close escapes body rest) :
    ∃ r : Run close (body ++ rest), r.FirstOdd escapes ∧ r.stop = body.length := by
  obtain ⟨content, rfl, hcontent, hrest⟩ := h
  obtain ⟨front, k, rfl, hleft⟩ := exists_run_at_end close content
  have hwhole : front ++ (List.replicate (k + 1) close ++ rest) =
      front ++ List.replicate k close ++ [close] ++ rest := by
    rw [List.replicate_succ']
    simp only [List.append_assoc]
  refine ⟨⟨front, k + 1, rest, hwhole, Nat.succ_pos k, hleft, hrest⟩,
    ⟨hcontent.odd_live_succ hclose hleft, fun r hr => ?_⟩, by simp [Run.stop]⟩
  -- A run in front of the last one is a run of the content.
  obtain ⟨back, hback, hne, hhead⟩ := exists_back_of_lt hwhole r hleft hr
  have hcut : r.front ++ (List.replicate r.length close ++ (back ++ List.replicate k close)) =
      front ++ List.replicate k close := by
    calc r.front ++ (List.replicate r.length close ++ (back ++ List.replicate k close))
      _ = r.front ++ (List.replicate r.length close ++ back) ++ List.replicate k close := by
        simp only [List.append_assoc]
      _ = front ++ List.replicate k close := congrArg (· ++ List.replicate k close) hback
  refine hcontent.even_live hclose hcut r.left ?_
  rwa [List.head?_append_of_ne_nil _ hne]

/-- The offset at which a quoted region ends, if it does. -/
theorem extent_closed_iff (hclose : escapes = true → close ≠ '\\') {e : Nat} :
    (extent close escapes t).closed = true ∧ (extent close escapes t).taken.length = e ↔
      ∃ r : Run close t, r.FirstOdd escapes ∧ r.stop = e := by
  have hwhole := (extent_cuts close escapes t).whole
  have hends (hc : (extent close escapes t).closed = true) :
      ∃ r : Run close t, r.FirstOdd escapes ∧ r.stop = (extent close escapes t).taken.length := by
    have hrun := exists_firstOdd_of_ends hclose (extent_sound t hc)
    rwa [hwhole] at hrun
  constructor
  · intro hclosed
    obtain ⟨hc, rfl⟩ := hclosed
    exact hends hc
  · intro hfirst
    obtain ⟨r, hr, rfl⟩ := hfirst
    have hc : (extent close escapes t).closed = true := by
      by_contra hc
      have heven := even_of_open hclose (by simpa using hc) r
      exact Nat.not_odd_iff_even.mpr heven hr.odd
    obtain ⟨r', hr', hstop⟩ := hends hc
    exact ⟨hc, hstop ▸ hr'.stop_eq hr⟩

theorem extent_open_iff (hclose : escapes = true → close ≠ '\\') :
    (extent close escapes t).closed = false ↔
      ∀ r : Run close t, Even (live escapes r.front r.length) := by
  constructor
  · exact even_of_open hclose
  · intro heven
    by_contra hc
    have hclosed : (extent close escapes t).closed = true := by simpa using hc
    obtain ⟨r, hr, -⟩ := (extent_closed_iff hclose).mp ⟨hclosed, rfl⟩
    exact Nat.not_odd_iff_even.mpr (heven r) hr.odd

/-- **Quoted regions close by the parity of runs.** Behind the opening character a region
ends with the first run of closing characters of which an odd number counts, and it takes the
rest of the script just if there is no such run. -/
theorem quoted_parity (kind : Kind) {opening : Char} (hclose : escapes = true → close ≠ '\\')
    {script : Text} {p : Nat} (hp : script[p]? = some opening) :
    ∃ r rest, (Form.quoted kind opening close escapes).read? (script.drop p) = some (r, rest) ∧
      r.kind = kind ∧ r.opener = [opening] ∧
      (∀ e, r.closed = true ∧ p + r.text.length = e ↔
        ∃ run : Run close (script.drop (p + 1)), run.FirstOdd escapes ∧ p + 1 + run.stop = e) ∧
      (r.closed = false ∧ p + r.text.length = script.length ↔
        ∀ run : Run close (script.drop (p + 1)), Even (live escapes run.front run.length)) := by
  obtain ⟨hlt, hopening⟩ := List.getElem?_eq_some_iff.mp hp
  have hdrop : script.drop p = opening :: script.drop (p + 1) := by
    rw [List.drop_eq_getElem_cons hlt, hopening]
  generalize ht : script.drop (p + 1) = t at hdrop
  have hread : (Form.quoted kind opening close escapes).read? (script.drop p) =
      some (⟨kind, [opening], (extent close escapes t).taken, (extent close escapes t).closed⟩,
        (extent close escapes t).rest) := by
    rw [hdrop]
    simp [Form.read?, Form.opener?, Form.extent, Form.kind]
  have hlength (body : Text) : p + ([opening] ++ body).length = p + 1 + body.length := by
    rw [List.length_append, List.length_singleton, Nat.add_assoc]
  refine ⟨_, _, hread, rfl, rfl, fun e => ?_, ?_⟩
  · rw [Region.text, hlength]
    constructor
    · intro hclosed
      obtain ⟨hc, rfl⟩ := hclosed
      obtain ⟨run, hrun, hstop⟩ := (extent_closed_iff hclose).mp ⟨hc, rfl⟩
      exact ⟨run, hrun, by rw [hstop]⟩
    · intro hfirst
      obtain ⟨run, hrun, rfl⟩ := hfirst
      obtain ⟨hc, hstop⟩ := (extent_closed_iff hclose).mpr ⟨run, hrun, rfl⟩
      exact ⟨hc, by rw [hstop]⟩
  · rw [← extent_open_iff hclose, Region.text, hlength]
    refine ⟨fun hopen => hopen.1, fun hc => ⟨hc, ?_⟩⟩
    -- What is left open takes the whole text.
    have hwhole := congrArg List.length (extent_cuts close escapes t).whole
    rw [(extent_cuts close escapes t).rest_of_open hc, List.append_nil] at hwhole
    have hbehind := congrArg List.length ht
    rw [List.length_drop] at hbehind
    show p + 1 + (extent close escapes t).taken.length = script.length
    omega

/-- An escaped quote and a doubled one, and the end behind two backslashes. -/
theorem quoted_parity_escaped :
    let script := "a'\\'''b\\\\';'".toList
    script[1]? = some '\'' ∧
      ∃ run : Run '\'' (script.drop 2), run.FirstOdd true ∧ 2 + run.stop = 10 := by
  intro script
  have hopening : script[1]? = some '\'' := rfl
  have hclose : true = true → '\'' ≠ '\\' := by decide
  obtain ⟨r, rest, hread, -, -, hclosed, -⟩ := quoted_parity .singleQuoted hclose hopening
  have hregion : (Form.quoted .singleQuoted '\'' '\'' true).read? (script.drop 1) =
      some (⟨.singleQuoted, ['\''], "\\'''b\\\\'".toList, true⟩, ";'".toList) := by
    decide +kernel
  rw [hregion] at hread
  cases hread
  exact ⟨hopening, (hclosed 10).mp ⟨rfl, rfl⟩⟩

end SqlScript.Quote
