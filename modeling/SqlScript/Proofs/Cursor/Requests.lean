import Mathlib.Order.Bounds.Basic
import SqlScript.Proofs.Cursor.Reading

/-! Cursors under any requests.

No request takes a cursor past the end of its text, and none but a negative count takes it
back (`le_pos_step`). So a run that gives no negative count comes by ever later places of the
text (`run_keeps_to_text`), and from a place of the text a cursor shows what stands there: the
characters ahead, and the nearest occurrence of whatever is searched for (`shows_of_le`). -/
namespace SqlScript

/-! ### The first occurrence of a text -/

namespace Text

variable {sub t : Text} {n : Nat}

theorem find?_cons (sub : Text) (c : Char) (cs : Text) :
    find? sub (c :: cs) =
      if sub.isPrefixOf (c :: cs) then some 0 else (find? sub cs).map (· + 1) := by
  rw [find?, cut?]
  split
  · rfl
  · rw [find?, Option.map_map, Option.map_map]
    rfl

/-- No text stands in front of the place where it is found. -/
theorem isLeast_of_find? (h : find? sub t = some n) : IsLeast {i | sub <+: t.drop i} n := by
  induction t generalizing n with
  | nil =>
    obtain ⟨⟨before, after⟩, hcut, rfl⟩ := Option.map_eq_some_iff.mp h
    obtain ⟨rfl, hrest⟩ := List.append_eq_nil_iff.mp (append_of_cut? hcut)
    obtain ⟨rfl, -⟩ := List.append_eq_nil_iff.mp hrest
    exact ⟨List.nil_prefix, fun i _ => Nat.zero_le i⟩
  | cons c cs ih =>
    rw [find?_cons] at h
    split at h
    · next hp =>
      cases h
      exact ⟨List.isPrefixOf_iff_prefix.mp hp, fun i _ => Nat.zero_le i⟩
    · next hp =>
      obtain ⟨m, hm, rfl⟩ := Option.map_eq_some_iff.mp h
      obtain ⟨hstands, hfirst⟩ := ih hm
      refine ⟨hstands, fun i hi => ?_⟩
      cases i with
      | zero => exact absurd (List.isPrefixOf_iff_prefix.mpr hi) hp
      | succ i => exact Nat.succ_le_succ (hfirst hi)

/-- A text is found unless it stands nowhere. -/
theorem find?_eq_none_iff : find? sub t = none ↔ ∀ i, ¬ sub <+: t.drop i := by
  rw [find?, Option.map_eq_none_iff, ← Option.not_isSome_iff_eq_none, cut?_isSome_iff]
  constructor
  · exact fun h i hi => h (hi.isInfix.trans (List.drop_suffix i t).isInfix)
  · rintro h ⟨front, back, rfl⟩
    refine h front.length ⟨back, ?_⟩
    rw [List.append_assoc, List.drop_left]

/-- **What is found is the first occurrence.** -/
theorem find?_eq_some_iff : find? sub t = some n ↔ IsLeast {i | sub <+: t.drop i} n := by
  refine ⟨isLeast_of_find?, fun h => ?_⟩
  cases hfound : find? sub t with
  | none => exact absurd h.1 (find?_eq_none_iff.mp hfound n)
  | some m => rw [(isLeast_of_find? hfound).unique h]

theorem find?_eq_zero_iff : find? sub t = some 0 ↔ sub <+: t :=
  find?_eq_some_iff.trans ⟨And.left, fun h => ⟨h, fun i _ => Nat.zero_le i⟩⟩

end Text

namespace Cursor

/-! ### What a cursor shows -/

/-- What a cursor at `p` shows of a text. -/
structure Shows (text : Text) (p : Nat) : Prop where
  /-- Nothing ahead is out of range. -/
  peek_ne : ∀ k : Nat, (⟨text, p⟩ : Cursor).peek k ≠ .outOfRange
  peek_pastEnd_iff : ∀ k : Nat, (⟨text, p⟩ : Cursor).peek k = .pastEnd ↔ text.length ≤ p + k
  peek_char_iff : ∀ (k : Nat) (ch : Char),
    (⟨text, p⟩ : Cursor).peek k = .char ch ↔ text[p + k]? = some ch
  /-- What is searched for is found at the nearest place where it stands. -/
  find?_eq_some_iff : ∀ (sub : Text) (n : Nat), (⟨text, p⟩ : Cursor).find? sub = some n ↔
    IsLeast {i | p ≤ i ∧ (text.drop i).take sub.length = sub} n
  find?_eq_none_iff : ∀ sub : Text, (⟨text, p⟩ : Cursor).find? sub = none ↔
    ∀ i, p ≤ i → (text.drop i).take sub.length ≠ sub
  find?_here_iff : ∀ sub : Text, (⟨text, p⟩ : Cursor).find? sub = some p ↔
    (⟨text, p⟩ : Cursor).startsWith sub = true

variable {text : Text} {p : Nat}

theorem peek_at (hp : p ≤ text.length) (k : Nat) :
    (⟨text, p⟩ : Cursor).peek k = text[p + k]?.elim .pastEnd .char := by
  rw [← between_take_drop hp, peek_between, List.getElem?_drop]

theorem find?_at (hp : p ≤ text.length) (sub : Text) :
    (⟨text, p⟩ : Cursor).find? sub = (Text.find? sub (text.drop p)).map (p + ·) := by
  rw [← between_take_drop hp, find?_between, List.length_take_of_le hp]

theorem startsWith_at (hp : p ≤ text.length) (sub : Text) :
    (⟨text, p⟩ : Cursor).startsWith sub = true ↔ sub <+: text.drop p := by
  rw [← between_take_drop hp, startsWith_between, List.isPrefixOf_iff_prefix]

theorem take_drop_eq_iff {sub : Text} {i : Nat} :
    (text.drop (p + i)).take sub.length = sub ↔ sub <+: (text.drop p).drop i := by
  rw [List.prefix_iff_eq_take, List.drop_drop, eq_comm]

/-- The places from `p` on are those in what is left of the text, only that much later. -/
theorem isLeast_at_iff {sub : Text} {n : Nat} :
    IsLeast {i | p ≤ i ∧ (text.drop i).take sub.length = sub} (p + n) ↔
      IsLeast {i | sub <+: (text.drop p).drop i} n := by
  constructor
  · rintro ⟨⟨-, hn⟩, hfirst⟩
    refine ⟨take_drop_eq_iff.mp hn, fun i hi => ?_⟩
    exact Nat.le_of_add_le_add_left (hfirst ⟨Nat.le_add_right p i, take_drop_eq_iff.mpr hi⟩)
  · rintro ⟨hn, hfirst⟩
    refine ⟨⟨Nat.le_add_right p n, take_drop_eq_iff.mpr hn⟩, ?_⟩
    rintro i ⟨hi, htake⟩
    obtain ⟨m, rfl⟩ := Nat.exists_eq_add_of_le hi
    exact Nat.add_le_add_left (hfirst (take_drop_eq_iff.mp htake)) p

/-- **From a place of its text a cursor shows what stands there.** -/
theorem shows_of_le (hp : p ≤ text.length) : Shows text p := by
  refine
    { peek_ne := fun k => ?_
      peek_pastEnd_iff := fun k => ?_
      peek_char_iff := fun k ch => ?_
      find?_eq_some_iff := fun sub n => ?_
      find?_eq_none_iff := fun sub => ?_
      find?_here_iff := fun sub => ?_ }
  · rw [peek_at hp]
    cases text[p + k]? <;> exact Glimpse.noConfusion
  · rw [peek_at hp, ← List.getElem?_eq_none_iff]
    cases text[p + k]? <;> simp
  · rw [peek_at hp]
    cases text[p + k]? <;> simp
  · rw [find?_at hp, Option.map_eq_some_iff]
    constructor
    · rintro ⟨m, hm, rfl⟩
      exact isLeast_at_iff.mpr (Text.find?_eq_some_iff.mp hm)
    · intro h
      obtain ⟨m, rfl⟩ := Nat.exists_eq_add_of_le h.1.1
      exact ⟨m, Text.find?_eq_some_iff.mpr (isLeast_at_iff.mp h), rfl⟩
  · rw [find?_at hp, Option.map_eq_none_iff, Text.find?_eq_none_iff]
    constructor
    · intro h i hi htake
      obtain ⟨m, rfl⟩ := Nat.exists_eq_add_of_le hi
      exact h m (take_drop_eq_iff.mp htake)
    · exact fun h i hi => h (p + i) (Nat.le_add_right p i) (take_drop_eq_iff.mpr hi)
  · rw [find?_at hp, startsWith_at hp, ← Text.find?_eq_zero_iff, Option.map_eq_some_iff]
    constructor
    · rintro ⟨m, hm, hzero⟩
      rwa [Nat.add_eq_left.mp hzero] at hm
    · exact fun h => ⟨0, h, rfl⟩

/-! ### Requests -/

/-- A request that gives no negative count to move by. -/
def Request.Forward : Request → Prop
  | .advance count => 0 ≤ count
  | _ => True

instance : DecidablePred Request.Forward
  | .advance count => inferInstanceAs (Decidable (0 ≤ count))
  | .peek _ | .startsWith _ | .find _ | .advanceTo _ | .advanceToEnd | .atEnd | .shown =>
    isTrue trivial

/-- A cursor in a text, not past its end. -/
structure InText (text : Text) (c : Cursor) : Prop where
  text_eq : c.text = text
  pos_le : c.pos ≤ text.length

variable {c : Cursor} {request : Request} {requests : List Request}

theorem inText_start (text : Text) : (start text).InText text := ⟨rfl, Int.natCast_nonneg _⟩

theorem text_step (c : Cursor) (request : Request) : (c.step request).1.text = c.text := by
  cases request <;> rfl

/-- Whatever it is asked, a cursor keeps to its text. -/
theorem InText.step (h : c.InText text) (request : Request) : (c.step request).1.InText text := by
  obtain ⟨rfl, hend⟩ := h
  have hstep := pos_step_le hend request
  rw [length, text_step] at hstep
  exact ⟨text_step c request, hstep⟩

/-- **Only a negative count turns a cursor back.** An index behind the cursor does not. -/
theorem le_pos_step (h : c.InText text) (hr : request.Forward) :
    c.pos ≤ (c.step request).1.pos := by
  obtain ⟨rfl, hend⟩ := h
  cases request with
  | advance count =>
    have hcount : 0 ≤ count := hr
    show c.pos ≤ min (c.pos + count) c.text.length
    omega
  | advanceTo index => exact Int.le_max_left _ _
  | advanceToEnd => exact hend
  | peek | startsWith | find | atEnd | shown => exact Int.le_refl _

/-! ### Runs -/

/-- The cursors that a run comes by: the one it starts with, and the one after each
request. -/
def stops (c : Cursor) (requests : List Request) : List Cursor :=
  c :: (c.run requests).map Prod.fst

theorem stops_cons (c : Cursor) (request : Request) (requests : List Request) :
    c.stops (request :: requests) = c :: (c.step request).1.stops requests := rfl

/-- Every request is put to the cursor that the run has come to. -/
theorem run_eq_zipWith (c : Cursor) (requests : List Request) :
    c.run requests = List.zipWith step (c.stops requests) requests := by
  induction requests generalizing c with
  | nil => rfl
  | cons request requests ih => rw [run, stops_cons, List.zipWith_cons_cons, ← ih]

/-- What every request keeps holds of all cursors that a run comes by. -/
theorem forall_mem_stops {P : Cursor → Prop}
    (hstep : ∀ c, ∀ request ∈ requests, P c → P (c.step request).1) (h : P c) :
    ∀ c' ∈ c.stops requests, P c' := by
  induction requests generalizing c with
  | nil => exact List.forall_mem_singleton.mpr h
  | cons request requests ih =>
    rw [stops_cons, List.forall_mem_cons]
    refine ⟨h, ih (fun c r hr => hstep c r (List.mem_cons_of_mem request hr)) ?_⟩
    exact hstep c request List.mem_cons_self h

theorem InText.stops (h : c.InText text) : ∀ c' ∈ c.stops requests, c'.InText text :=
  forall_mem_stops (fun _ request _ hc => hc.step request) h

/-- A run that gives no negative count gets nowhere in front of its start. -/
theorem le_pos_of_mem_stops (hr : ∀ request ∈ requests, request.Forward) (h : c.InText text) :
    ∀ c' ∈ c.stops requests, c.pos ≤ c'.pos := by
  have hkeeps : ∀ c' ∈ c.stops requests, c'.InText text ∧ c.pos ≤ c'.pos := by
    refine forall_mem_stops (fun c' request hmem hc' => ?_) ⟨h, Int.le_refl _⟩
    obtain ⟨hin, hle⟩ := hc'
    exact ⟨hin.step request, Int.le_trans hle (le_pos_step hin (hr request hmem))⟩
  exact fun c' hc' => (hkeeps c' hc').2

/-- It turns back nowhere. -/
theorem stops_ascending (hr : ∀ request ∈ requests, request.Forward) (h : c.InText text) :
    (c.stops requests).Pairwise (·.pos ≤ ·.pos) := by
  induction requests generalizing c with
  | nil => exact List.pairwise_singleton _ c
  | cons request requests ih =>
    obtain ⟨hfirst, hrest⟩ := List.forall_mem_cons.mp hr
    rw [stops_cons, List.pairwise_cons]
    refine ⟨fun c' hc' => ?_, ih hrest (h.step request)⟩
    exact Int.le_trans (le_pos_step h hfirst) (le_pos_of_mem_stops hrest (h.step request) c' hc')

/-- **A cursor keeps to its text, whatever it is asked**. It never gets past the end. If no count
is negative it never turns back either, and so it is always at a place of the text, from where
it shows what stands there. -/
theorem run_keeps_to_text (text : Text) (requests : List Request) :
    (start text).run requests = List.zipWith step ((start text).stops requests) requests ∧
    (∀ c ∈ (start text).stops requests, c.InText text) ∧
    ((∀ request ∈ requests, request.Forward) →
      ((start text).stops requests).Pairwise (·.pos ≤ ·.pos) ∧
      ∀ c ∈ (start text).stops requests,
        ∃ p : Nat, c = ⟨text, p⟩ ∧ p ≤ text.length ∧ Shows text p) := by
  have hstart := inText_start text
  refine ⟨run_eq_zipWith _ _, hstart.stops, fun hr => ⟨stops_ascending hr hstart, fun c hc => ?_⟩⟩
  obtain ⟨p, hp⟩ := Int.eq_ofNat_of_zero_le (le_pos_of_mem_stops hr hstart c hc)
  obtain ⟨htext, hend⟩ := hstart.stops c hc
  have hle : p ≤ text.length := Int.ofNat_le.mp (hp ▸ hend)
  refine ⟨p, ?_, hle, shows_of_le hle⟩
  rw [← hp, ← htext]

/-- A search behind the first mark, a move that would lead back, and a search at the end. -/
theorem run_keeps_to_text_searching :
    let text := "$$ x $$".toList
    let requests : List Request :=
      [.advance 2, .find "$$".toList, .advanceTo (-3), .peek 9, .advanceToEnd, .find []]
    (∀ request ∈ requests, request.Forward) ∧
      (⟨text, 2⟩ : Cursor) ∈ (start text).stops requests ∧
      (⟨text, 7⟩ : Cursor) ∈ (start text).stops requests ∧ (7 : Int) ≤ text.length ∧
      ((start text).stops requests).Pairwise (·.pos ≤ ·.pos) ∧
      IsLeast {i | 2 ≤ i ∧ (text.drop i).take 2 = "$$".toList} 5 ∧
      (⟨text, 2⟩ : Cursor).peek 9 = .pastEnd ∧ (⟨text, 7⟩ : Cursor).find? [] = some 7 := by
  intro text requests
  have hforward : ∀ request ∈ requests, request.Forward := by decide
  have hbehind : (⟨text, 2⟩ : Cursor) ∈ (start text).stops requests := by decide
  have hend : (⟨text, 7⟩ : Cursor) ∈ (start text).stops requests := by decide
  obtain ⟨-, hkeeps, hrun⟩ := run_keeps_to_text text requests
  obtain ⟨hascending, hplaces⟩ := hrun hforward
  obtain ⟨p, hp, -, hshows⟩ := hplaces _ hbehind
  obtain ⟨q, hq, -, hshown⟩ := hplaces _ hend
  obtain rfl : 2 = p := Int.ofNat.inj (congrArg pos hp)
  obtain rfl : 7 = q := Int.ofNat.inj (congrArg pos hq)
  refine ⟨hforward, hbehind, hend, (hkeeps _ hend).pos_le, hascending, ?_, ?_, ?_⟩
  · exact (hshows.find?_eq_some_iff "$$".toList 5).mp (by decide)
  · exact (hshows.peek_pastEnd_iff 9).mpr (by decide)
  · exact (hshown.find?_here_iff []).mpr (by decide)

/-- A negative count takes a cursor in front of its text, where looks may be out of range. -/
example : ((start "ab".toList).advance (-3)).peek 0 = .outOfRange := by decide

end Cursor

end SqlScript
