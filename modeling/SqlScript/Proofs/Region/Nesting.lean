import Mathlib.Data.List.Chain
import SqlScript.Proofs.Region.Ending

/-! Block comments that nest, as lists of marks and other characters.

A list is written down and read back without loss if no mark arises between two of its
items (`Item.Apart`). Such a list is one comment if its first mark is closed by its last
and not before (`Balanced`); `nestedExtent_finds` says that reading stops there.

The count of marks is what the definition speaks of; `Closes`, which follows the items
one by one at a depth, is what the proofs are by induction on. -/
namespace SqlScript.Comment

/-- What a block comment is made of. -/
inductive Item
  | opening
  | closing
  | other (c : Char)
  deriving DecidableEq

namespace Item

def text : Item → Text
  | opening => blockOpener
  | closing => blockCloser
  | other c => [c]

/-- No mark arises where the second item is written behind the first. -/
def Apart (a b : Item) : Prop :=
  (a = other '/' → b.text.head? ≠ some '*') ∧ (a = other '*' → b.text.head? ≠ some '/')

theorem apart_opening (b : Item) : Apart opening b := ⟨nofun, nofun⟩

theorem apart_closing (b : Item) : Apart closing b := ⟨nofun, nofun⟩

theorem text_ne_nil (a : Item) : a.text ≠ [] := by cases a <;> simp [text, blockOpener, blockCloser]

end Item

/-- The items, one after the other. -/
def written (items : List Item) : Text := items.flatMap Item.text

/-- A list of items that is one comment: within it more comments have been opened than
closed, and in the end as many. -/
structure Balanced (items : List Item) : Prop where
  apart : items.IsChain Item.Apart
  inside : ∀ a b, a ++ b = items → a ≠ [] → b ≠ [] → a.count .closing < a.count .opening
  whole : items.count .closing = items.count .opening

/-- Behind its opening mark, a comment that may hold others ends with the mark that
closes the first. -/
def NestedEnds (body : Text) : Prop :=
  ∃ items, Balanced (.opening :: items) ∧ written items = body

/-! ### Following the depth -/

/-- The last of the items, and none before it, closes the outermost of `depth + 1`
comments. -/
def Closes : Nat → List Item → Prop
  | _, [] => False
  | depth, .opening :: rest => Closes (depth + 1) rest
  | 0, .closing :: rest => rest = []
  | outer + 1, .closing :: rest => Closes outer rest
  | depth, .other _ :: rest => Closes depth rest

theorem forall_split_cons {α : Type} {P : List α → Prop} {x : α} {xs : List α} :
    (∀ a b, a ++ b = x :: xs → b ≠ [] → P a) ↔
      P [] ∧ ∀ a b, a ++ b = xs → b ≠ [] → P (x :: a) := by
  refine ⟨?_, ?_⟩
  · intro h
    refine ⟨h [] (x :: xs) rfl (List.cons_ne_nil x xs), fun a b hab hb => h (x :: a) b ?_ hb⟩
    rw [List.cons_append, hab]
  · intro hsplit a b hab hb
    obtain ⟨hnil, hcons⟩ := hsplit
    cases a with
    | nil => exact hnil
    | cons y a =>
      obtain ⟨rfl, hab'⟩ := List.cons.inj hab
      exact hcons a b hab' hb

theorem closes_iff {depth : Nat} {items : List Item} :
    Closes depth items ↔
      (∀ a b, a ++ b = items → b ≠ [] → a.count .closing ≤ a.count .opening + depth) ∧
        items.count .closing = items.count .opening + depth + 1 := by
  induction items generalizing depth with
  | nil => simp [Closes]
  | cons item rest ih =>
    rw [forall_split_cons]
    cases item with
    | opening =>
      rw [Closes, ih]
      simp [Nat.add_right_comm, Nat.add_assoc]
    | other c =>
      rw [Closes, ih]
      simp
    | closing =>
      cases depth with
      | succ outer =>
        rw [Closes, ih]
        simp [← Nat.add_assoc]
      | zero =>
        rw [Closes]
        refine ⟨?_, ?_⟩
        · intro heq
          subst heq
          simp
        · intro hcount
          obtain ⟨⟨-, h⟩, -⟩ := hcount
          cases rest with
          | nil => rfl
          | cons y ys => simpa using h [] (y :: ys) rfl (List.cons_ne_nil y ys)

/-- One comment is what stands at depth zero behind its opening mark. -/
theorem balanced_iff {items : List Item} :
    Balanced (.opening :: items) ↔ items.IsChain Item.Apart ∧ Closes 0 items := by
  rw [closes_iff]
  refine ⟨?_, ?_⟩
  · intro hbalanced
    obtain ⟨hapart, hinside, hwhole⟩ := hbalanced
    refine ⟨hapart.tail, fun a b hab hb => ?_, ?_⟩
    · have := hinside (.opening :: a) b (by rw [List.cons_append, hab]) (List.cons_ne_nil _ a) hb
      simp at this
      omega
    · simpa using hwhole
  · intro hcloses
    obtain ⟨hapart, hinside, hwhole⟩ := hcloses
    refine ⟨?_, fun a b hab ha hb => ?_, by simpa using hwhole⟩
    · exact List.isChain_cons.mpr ⟨fun b _ => Item.apart_opening b, hapart⟩
    · cases a with
      | nil => exact absurd rfl ha
      | cons y a =>
        obtain ⟨rfl, hab'⟩ := List.cons.inj hab
        have := hinside a b hab' hb
        simp
        omega

/-! ### Reading -/

theorem nestedExtent_opening (depth : Nat) (cs : Text) :
    nestedExtent depth ('/' :: '*' :: cs) = (nestedExtent (depth + 1) cs).after ['/', '*'] := by
  simp [nestedExtent]

theorem nestedExtent_closing (outer : Nat) (cs : Text) :
    nestedExtent (outer + 1) ('*' :: '/' :: cs) = (nestedExtent outer cs).after ['*', '/'] := by
  simp [nestedExtent]

theorem nestedExtent_last (cs : Text) :
    nestedExtent 0 ('*' :: '/' :: cs) = ⟨['*', '/'], true, cs⟩ := by
  simp [nestedExtent]

theorem nestedExtent_other (depth : Nat) {c d : Char} (cs : Text) (ho : ¬ (c = '/' ∧ d = '*'))
    (hc : ¬ (c = '*' ∧ d = '/')) :
    nestedExtent depth (c :: d :: cs) = (nestedExtent depth (d :: cs)).after [c] := by
  rw [nestedExtent.eq_def]
  simp only [if_neg ho, if_neg hc]

theorem head?_written {item : Item} {items : List Item} (h : items.head? = some item) :
    (written items).head? = item.text.head? := by
  obtain ⟨rest, rfl⟩ := List.head?_eq_some_iff.mp h
  obtain ⟨c, cs, hc⟩ := List.exists_cons_of_ne_nil item.text_ne_nil
  rw [written, List.flatMap_cons, hc]
  rfl

/-- A character in front of items is apart from them if it makes no mark with the next
character. -/
theorem apart_other {c d : Char} {items : List Item} (hd : (written items).head? = some d)
    (ho : ¬ (c = '/' ∧ d = '*')) (hc : ¬ (c = '*' ∧ d = '/')) :
    ∀ b ∈ items.head?, Item.Apart (.other c) b := by
  intro b hb
  rw [head?_written hb] at hd
  rw [Item.Apart, hd]
  refine ⟨?_, ?_⟩
  · intro hfirst hnext
    cases hfirst
    cases hnext
    exact ho ⟨rfl, rfl⟩
  · intro hfirst hnext
    cases hfirst
    cases hnext
    exact hc ⟨rfl, rfl⟩

/-- Reading stops where the items close. -/
theorem nestedExtent_sound (depth : Nat) (t : Text) (h : (nestedExtent depth t).closed = true) :
    ∃ items, items.IsChain Item.Apart ∧ Closes depth items ∧
      written items = (nestedExtent depth t).taken := by
  induction depth, t using nestedExtent.induct with
  | case1 => simp [nestedExtent] at h
  | case2 => simp [nestedExtent] at h
  | case3 depth c d cs hm ih =>
    obtain ⟨rfl, rfl⟩ := hm
    rw [nestedExtent_opening] at h ⊢
    obtain ⟨items, hapart, hcloses, hw⟩ := ih h
    refine ⟨.opening :: items, ?_, hcloses, ?_⟩
    · exact List.isChain_cons.mpr ⟨fun b _ => Item.apart_opening b, hapart⟩
    · exact congrArg (['/', '*'] ++ ·) hw
  | case4 c d cs ho hm =>
    obtain ⟨rfl, rfl⟩ := hm
    rw [nestedExtent_last]
    exact ⟨[.closing], .singleton _, rfl, rfl⟩
  | case5 c d cs ho hm outer ih =>
    obtain ⟨rfl, rfl⟩ := hm
    rw [nestedExtent_closing] at h ⊢
    obtain ⟨items, hapart, hcloses, hw⟩ := ih h
    refine ⟨.closing :: items, ?_, hcloses, ?_⟩
    · exact List.isChain_cons.mpr ⟨fun b _ => Item.apart_closing b, hapart⟩
    · exact congrArg (['*', '/'] ++ ·) hw
  | case6 depth c d cs ho hc ih =>
    rw [nestedExtent_other depth cs ho hc] at h ⊢
    obtain ⟨items, hapart, hcloses, hw⟩ := ih h
    have hd : (written items).head? = some d := by
      have hwhole := (nestedExtent_cuts depth (d :: cs)).whole
      rw [← hw] at hwhole
      cases items with
      | nil => exact absurd hcloses (by simp [Closes])
      | cons item rest =>
        rw [head?_written rfl]
        obtain ⟨x, xs, hx⟩ := List.exists_cons_of_ne_nil item.text_ne_nil
        simp only [written, List.flatMap_cons, hx, List.cons_append] at hwhole ⊢
        rw [(List.cons.inj hwhole).1]
        rfl
    refine ⟨.other c :: items, ?_, hcloses, ?_⟩
    · exact List.isChain_cons.mpr ⟨apart_other hd ho hc, hapart⟩
    · exact congrArg ([c] ++ ·) hw

/-- Reading comes to the end of items that close, whatever follows. -/
theorem nestedExtent_complete {depth : Nat} {items : List Item} (hapart : items.IsChain Item.Apart)
    (hcloses : Closes depth items) (rest : Text) :
    nestedExtent depth (written items ++ rest) = ⟨written items, true, rest⟩ := by
  induction items generalizing depth with
  | nil => exact absurd hcloses (by simp [Closes])
  | cons item items ih =>
    obtain ⟨hhead, htail⟩ := List.isChain_cons.mp hapart
    cases item with
    | opening =>
      exact (nestedExtent_opening depth _).trans (congrArg (Extent.after _) (ih htail hcloses))
    | closing =>
      cases depth with
      | zero =>
        cases hcloses
        exact nestedExtent_last rest
      | succ outer =>
        exact (nestedExtent_closing outer _).trans (congrArg (Extent.after _) (ih htail hcloses))
    | other c =>
      cases items with
      | nil => exact absurd hcloses (by simp [Closes])
      | cons next items =>
        obtain ⟨d, ds, hd⟩ := List.exists_cons_of_ne_nil next.text_ne_nil
        have happly : written (next :: items) = d :: (ds ++ written items) := by
          rw [written, List.flatMap_cons, hd]
          rfl
        have hnext := hhead next rfl
        rw [Item.Apart, hd] at hnext
        have hread := ih htail hcloses
        rw [happly, List.cons_append] at hread
        show nestedExtent depth (c :: (written (next :: items) ++ rest)) = _
        rw [happly, List.cons_append, nestedExtent_other, hread]
        · rw [← happly]
          rfl
        · intro hmark
          obtain ⟨rfl, rfl⟩ := hmark
          exact hnext.1 rfl rfl
        · intro hmark
          obtain ⟨rfl, rfl⟩ := hmark
          exact hnext.2 rfl rfl

theorem nestedExtent_finds : Extent.Finds (nestedExtent 0) (fun body _ => NestedEnds body) where
  cuts := nestedExtent_cuts 0
  sound t h := by
    obtain ⟨items, hapart, hcloses, hw⟩ := nestedExtent_sound 0 t h
    exact ⟨items, balanced_iff.mpr ⟨hapart, hcloses⟩, hw⟩
  complete {body rest} h := by
    obtain ⟨items, hbalanced, rfl⟩ := h
    obtain ⟨hapart, hcloses⟩ := balanced_iff.mp hbalanced
    exact nestedExtent_complete hapart hcloses rest

end SqlScript.Comment
