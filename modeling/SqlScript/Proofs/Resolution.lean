import Mathlib.Data.List.Forall2
import SqlScript.Script
import SqlScript.Proofs.Text.Trim

/-! How a caller's choice of a dialect is resolved.

A text stands for a dialect if it is one of the ten names of `nameTable`, with blanks around it
or not and in either case (`ofName?_eq_some_iff`). How characters outside ASCII go to lower case
does not matter, as long as no name can come of them (`ofKey?_lower`). Everything that takes a
choice refuses one that stands for no dialect in the same words, whatever the script
(`refuses_of_resolve`). -/
namespace SqlScript

open Text (Blanks)
open Dialect (Designator ofName? all)

/-! ### Upper and lower case -/

/-- The same character, or the two cases of one ASCII letter. -/
def SameLetter (c d : Char) : Prop :=
  c = d ∨ ('A' ≤ c ∧ c ≤ 'Z' ∧ d.toNat = c.toNat + 32) ∨
    ('A' ≤ d ∧ d ≤ 'Z' ∧ c.toNat = d.toNat + 32)

/-- Texts that differ in the case of ASCII letters at most. -/
def CaseVariant (t s : Text) : Prop := List.Forall₂ SameLetter t s

theorem toNat_toLower (c : Char) :
    c.toLower.toNat = if 65 ≤ c.toNat ∧ c.toNat ≤ 90 then c.toNat + 32 else c.toNat := by
  by_cases h : 65 ≤ c.toNat ∧ c.toNat ≤ 90
  · have hval : c.toLower.val = c.val + 32 := congrArg Char.val (dif_pos h)
    have hbound : c.val.toNat ≤ 90 := h.2
    rw [if_pos h]
    show c.toLower.val.toNat = c.val.toNat + 32
    rw [hval, UInt32.toNat_add]
    apply Nat.mod_eq_of_lt
    show c.val.toNat + 32 < 2 ^ 32
    omega
  · rw [if_neg h]
    exact congrArg Char.toNat (dif_neg h)

theorem sameLetter_iff {c d : Char} : SameLetter c d ↔ c.toLower = d.toLower := by
  have hle (a b : Char) : a ≤ b ↔ a.toNat ≤ b.toNat := Iff.rfl
  have hA : 'A'.toNat = 65 := rfl
  have hZ : 'Z'.toNat = 90 := rfl
  rw [SameLetter, ← Char.toNat_inj, ← Char.toNat_inj, toNat_toLower, toNat_toLower, hle, hle, hle,
    hle, hA, hZ]
  split <;> split <;> omega

theorem caseVariant_iff {t s : Text} :
    CaseVariant t s ↔ t.map Char.toLower = s.map Char.toLower := by
  have hletters : SameLetter = fun c d => c.toLower = d.toLower :=
    funext fun c => funext fun d => propext sameLetter_iff
  rw [CaseVariant, hletters, ← List.forall₂_eq_eq_eq, List.forall₂_map_left_iff,
    List.forall₂_map_right_iff]

theorem isBlank_toLower (c : Char) : isBlank c.toLower = isBlank c := by
  rw [Bool.eq_iff_iff]
  simp only [isBlank, toNat_toLower, Bool.or_eq_true, Bool.and_eq_true, decide_eq_true_eq,
    beq_iff_eq]
  split <;> omega

/-- Case does not matter to trimming. -/
theorem map_toLower_trim (t : Text) : (Text.trim t).map Char.toLower = Text.trim (t.map Char.toLower) := by
  have hblank : isBlank ∘ Char.toLower = isBlank := funext isBlank_toLower
  simp only [Text.trim, Text.trimEnd, Text.trimStart, List.dropWhile_map, ← List.map_reverse, hblank]

/-! ### Names -/

/-- The names of the dialects. -/
def nameTable : List (Text × Dialect) :=
  [("postgres".toList, .postgres), ("postgresql".toList, .postgres), ("pg".toList, .postgres),
   ("mysql".toList, .mysql), ("mariadb".toList, .mysql),
   ("mssql".toList, .mssql), ("sqlserver".toList, .mssql), ("tsql".toList, .mssql),
   ("sqlite".toList, .sqlite), ("sqlite3".toList, .sqlite)]

/-- A text that stands for a dialect: one of its names but for case, between blanks. -/
def StandsFor (t : Text) (d : Dialect) : Prop :=
  ∃ name, (name, d) ∈ nameTable ∧ CaseVariant t.trim name

theorem mem_nameTable_iff {name : Text} {d : Dialect} :
    (name, d) ∈ nameTable ↔ name ∈ d.name :: d.aliases := by
  have htable : nameTable = all.flatMap fun d => (d.name :: d.aliases).map (·, d) := rfl
  rw [htable, List.mem_flatMap]
  constructor
  · rintro ⟨d', -, hmem⟩
    obtain ⟨name', hname, heq⟩ := List.mem_map.mp hmem
    cases heq
    exact hname
  · intro hname
    exact ⟨d, Dialect.mem_all d, List.mem_map_of_mem hname⟩

/-- No name stands for two dialects. -/
theorem nameTable_unique {name : Text} {d d' : Dialect} (h : (name, d) ∈ nameTable)
    (h' : (name, d') ∈ nameTable) : d = d' := by
  have hall : ∀ x ∈ nameTable, ∀ y ∈ nameTable, x.1 = y.1 → x.2 = y.2 := by decide +kernel
  exact hall _ h _ h' rfl

/-- Names are in lower case. -/
theorem map_toLower_of_mem_nameTable {name : Text} {d : Dialect} (h : (name, d) ∈ nameTable) :
    name.map Char.toLower = name := by
  have hall : ∀ x ∈ nameTable, x.1.map Char.toLower = x.1 := by decide
  exact hall _ h

/-- Names are of ASCII, and hold no `k`. -/
theorem of_mem_nameTable {name : Text} {d : Dialect} (h : (name, d) ∈ nameTable) :
    ∀ c ∈ name, c ≠ 'k' ∧ c.toNat < 128 := by
  have hall : ∀ x ∈ nameTable, x.1.all (fun c => c ≠ 'k' ∧ c.toNat < 128) = true := by decide
  intro c hc
  exact of_decide_eq_true (List.all_eq_true.mp (hall _ h) c hc)

/-- The dialect that has a key among its names. -/
def ofKey? (key : Text) : Option Dialect := all.find? fun d => (d.name :: d.aliases).contains key

/-- A text is looked up by a key: what is left of it without blanks and capital letters. -/
theorem ofName?_eq (t : Text) : ofName? t = ofKey? (t.trim.map Char.toLower) := rfl

theorem ofKey?_eq_some_iff {key : Text} {d : Dialect} : ofKey? key = some d ↔ (key, d) ∈ nameTable := by
  have hcontains (d : Dialect) :
      (d.name :: d.aliases).contains key = true ↔ (key, d) ∈ nameTable := by
    rw [List.contains_iff_mem, mem_nameTable_iff]
  have hfound {d : Dialect} (h : ofKey? key = some d) : (key, d) ∈ nameTable := by
    have hkey := List.find?_some h
    exact (hcontains d).mp hkey
  refine ⟨hfound, fun h => ?_⟩
  cases hfind : ofKey? key with
  | none => exact absurd ((hcontains d).mpr h) (List.find?_eq_none.mp hfind d (Dialect.mem_all d))
  | some d' => rw [nameTable_unique h (hfound hfind)]

theorem ofKey?_eq_none {key : Text} (h : ∀ d, (key, d) ∉ nameTable) : ofKey? key = none := by
  simp only [Option.eq_none_iff_forall_ne_some, ne_eq, ofKey?_eq_some_iff]
  exact h

/-- **A text is found to name the dialect that it stands for.** -/
theorem ofName?_eq_some_iff {t : Text} {d : Dialect} : ofName? t = some d ↔ StandsFor t d := by
  rw [ofName?_eq, ofKey?_eq_some_iff]
  constructor
  · intro h
    refine ⟨_, h, caseVariant_iff.mpr ?_⟩
    rw [map_toLower_of_mem_nameTable h]
  · rintro ⟨name, hname, hcase⟩
    rw [caseVariant_iff.mp hcase, map_toLower_of_mem_nameTable hname]
    exact hname

theorem ofName?_eq_none_iff {t : Text} : ofName? t = none ↔ ∀ d, ¬ StandsFor t d := by
  simp only [← ofName?_eq_some_iff, Option.eq_none_iff_forall_ne_some, ne_eq]

theorem ofName?_padded {front back : Text} (hfront : Blanks front) (hback : Blanks back) (t : Text) :
    ofName? (front ++ t ++ back) = ofName? t := by
  rw [ofName?_eq, ofName?_eq, Text.trim_append_blanks hback, Text.trim_blanks_append hfront]

theorem ofName?_of_caseVariant {t s : Text} (h : CaseVariant t s) : ofName? t = ofName? s := by
  rw [ofName?_eq, ofName?_eq, map_toLower_trim, map_toLower_trim, caseVariant_iff.mp h]

theorem ofName?_name (d : Dialect) : ofName? d.name = some d := by
  cases d <;> decide +kernel

/-! ### Lower case beyond ASCII -/

/-- What lower case may make of one character: of ASCII what one expects, and of any other the
letter `k` or something that is not all ASCII. -/
def LowersTo (c : Char) (piece : Text) : Prop :=
  if c.toNat < 128 then piece = [c.toLower] else piece = ['k'] ∨ ∃ d ∈ piece, 128 ≤ d.toNat

/-- A way to put texts in lower case. What becomes of a character may depend on its place. -/
def LowerCasing (lower : Text → Text) : Prop :=
  ∀ t, ∃ pieces, List.Forall₂ LowersTo t pieces ∧ lower t = pieces.flatten

theorem flatten_of_ascii {t : Text} {pieces : List Text} (h : List.Forall₂ LowersTo t pieces)
    (ht : ∀ c ∈ t, c.toNat < 128) : pieces.flatten = t.map Char.toLower := by
  induction h with
  | nil => rfl
  | cons hc _ ih =>
    obtain ⟨hascii, ht⟩ := List.forall_mem_cons.mp ht
    rw [LowersTo, if_pos hascii] at hc
    rw [hc, List.flatten_cons, ih ht]
    rfl

/-- What is outside ASCII leaves a trace in lower case that no name has. -/
theorem exists_foreign {t : Text} {pieces : List Text} (h : List.Forall₂ LowersTo t pieces)
    {c : Char} (hc : c ∈ t) (hforeign : 128 ≤ c.toNat) :
    ∃ d ∈ pieces.flatten, d = 'k' ∨ 128 ≤ d.toNat := by
  induction h with
  | nil => cases hc
  | @cons b piece t pieces hb _ ih =>
    rcases List.mem_cons.mp hc with rfl | hc
    · rw [LowersTo, if_neg (Nat.not_lt.mpr hforeign)] at hb
      rcases hb with rfl | ⟨d, hd, hd'⟩
      · exact ⟨'k', List.mem_append_left _ List.mem_cons_self, .inl rfl⟩
      · exact ⟨d, List.mem_append_left _ hd, .inr hd'⟩
    · obtain ⟨d, hd, hd'⟩ := ih hc
      exact ⟨d, List.mem_append_right _ hd, hd'⟩

theorem not_mem_nameTable_of_foreign {key : Text} {c : Char} (hc : c ∈ key)
    (hforeign : c = 'k' ∨ 128 ≤ c.toNat) (d : Dialect) : (key, d) ∉ nameTable := by
  intro h
  obtain ⟨hk, hascii⟩ := of_mem_nameTable h c hc
  rcases hforeign with rfl | hforeign
  · exact hk rfl
  · omega

/-- **Any lower case finds the same dialects.** -/
theorem ofKey?_lower {lower : Text → Text} (h : LowerCasing lower) (t : Text) :
    ofKey? (lower t.trim) = ofName? t := by
  obtain ⟨pieces, hpieces, hlower⟩ := h t.trim
  rw [hlower, ofName?_eq]
  by_cases hascii : ∀ c ∈ t.trim, c.toNat < 128
  · rw [flatten_of_ascii hpieces hascii]
  · obtain ⟨c, hc, hforeign⟩ : ∃ c ∈ t.trim, 128 ≤ c.toNat := by
      simpa using hascii
    obtain ⟨d, hd, hd'⟩ := exists_foreign hpieces hc hforeign
    have hlow : c.toLower ∈ t.trim.map Char.toLower := List.mem_map_of_mem hc
    have hkept : 128 ≤ c.toLower.toNat := by
      rw [toNat_toLower]
      split <;> omega
    rw [ofKey?_eq_none (not_mem_nameTable_of_foreign hd hd'),
      ofKey?_eq_none (not_mem_nameTable_of_foreign hlow (.inr hkept))]

/-- Lower case that takes the Kelvin sign to `k`, and knows of no other letter outside ASCII. -/
def lowerKelvin (t : Text) : Text :=
  (t.map fun c => if c.toNat = 0x212A then ['k'] else [c.toLower]).flatten

theorem lowerCasing_lowerKelvin : LowerCasing lowerKelvin := by
  intro t
  refine ⟨_, ?_, rfl⟩
  rw [List.forall₂_map_right_iff]
  apply List.forall₂_same.mpr
  intro c _
  rw [LowersTo]
  split
  · next hascii => rw [if_neg (by omega)]
  · next hforeign =>
    by_cases hkelvin : c.toNat = 0x212A
    · exact .inl (if_pos hkelvin)
    · rw [if_neg hkelvin]
      refine .inr ⟨c.toLower, List.mem_singleton_self _, ?_⟩
      rw [toNat_toLower, if_neg (by omega)]
      omega

/-! ### Choices -/

theorem resolve_text (t : Text) :
    (Designator.datum (.text t)).resolve = (ofName? t).elim (.error (Dialect.unknown t)) .ok := by
  rw [Designator.resolve]
  cases ofName? t <;> rfl

theorem resolve_text_eq_ok_iff {t : Text} {d : Dialect} :
    (Designator.datum (.text t)).resolve = .ok d ↔ ofName? t = some d := by
  rw [resolve_text]
  cases ofName? t with
  | none => exact iff_of_false nofun nofun
  | some d' => simp

/-- A datum that is no text is told by its written form. -/
theorem resolve_of_written {v : Datum} (h : ∀ t, v ≠ .text t) {form : Text}
    (hform : v.written = .ok form) :
    (Designator.datum v).resolve = .error (Dialect.unknown form) := by
  cases v with
  | text t => exact absurd rfl (h t)
  | other written =>
    obtain rfl : written = .ok form := hform
    rfl

/-- A datum that cannot be written is none of the texts. -/
theorem resolve_of_not_written {v : Datum} {words : Text} (h : v.written = .error words) :
    (Designator.datum v).resolve = .error (.unwritten words) := by
  cases v with
  | text t => cases h
  | other written =>
    obtain rfl : written = .error words := h
    rfl

theorem unknown_message (name : Text) :
    (Dialect.unknown name).message =
      "Unknown dialect ".toList ++ name.quoted ++
        "; expected one of 'postgres', 'mysql', 'mssql', 'sqlite'".toList := by
  have hchoices :
      "; expected one of ".toList ++ Text.join ", ".toList ((all.map Dialect.name).map Text.quoted) =
        "; expected one of 'postgres', 'mysql', 'mssql', 'sqlite'".toList := by
    decide +kernel
  have hmessage : (Dialect.unknown name).message =
      "Unknown dialect ".toList ++ name.quoted ++ "; expected one of ".toList ++
        Text.join ", ".toList ((all.map Dialect.name).map Text.quoted) := rfl
  rw [hmessage, List.append_assoc, hchoices]

/-- A choice that is refused, with the same failure by everything that takes one. Nothing is
noted on the way, and a session stays as it was. -/
structure Refuses (choice : Designator) (failure : Failure) : Prop where
  resolve : choice.resolve = .error failure
  rulesOf : rulesOf choice = .error failure
  split : ∀ script, split script choice = ⟨.error failure, []⟩
  iterate : ∀ script, iterate script choice = .error failure
  start : ∀ (s : Session) script, s.step (.start script choice) = (s, .failed failure, [])
  diagnose : ∀ script, diagnose script choice = ⟨.error failure, []⟩
  check : ∀ script, check script choice = ⟨.error failure, []⟩
  bind : Splitter.bind choice = .error failure
  queries : ∀ (α : Type) script terminate,
    (queries script choice terminate : Logged (List (Query α))) = ⟨.error failure, []⟩

/-- **A choice that does not resolve is refused everywhere.** -/
theorem refuses_of_resolve {choice : Designator} {failure : Failure}
    (h : choice.resolve = .error failure) : Refuses choice failure := by
  have hrules : rulesOf choice = .error failure := by rw [rulesOf, h]; rfl
  have hiterate (script : Text) : iterate script choice = .error failure := by
    rw [iterate, hrules]; rfl
  have hdiagnose (script : Text) : diagnose script choice = ⟨.error failure, []⟩ := by
    rw [diagnose, hiterate]
  have hsplit (script : Text) : split script choice = ⟨.error failure, []⟩ := by
    rw [split, hiterate]
  exact
    { resolve := h
      rulesOf := hrules
      split := hsplit
      iterate := hiterate
      start := fun s script => by rw [Session.step, hiterate]
      diagnose := hdiagnose
      check := fun script => by rw [check, hdiagnose]; rfl
      bind := by rw [Splitter.bind, h]; rfl
      queries := fun α script terminate => by rw [queries, hsplit]; rfl }

/-- **Resolution.** The texts that resolve are those that stand for a dialect, and it is that
dialect that they resolve to, by whatever lower case they are looked up. Blanks around a text
and the case of its ASCII letters change nothing, nor does resolving what has been resolved.
Any other text and any other datum is refused everywhere in the same words, a text as it was
given and another datum by its written form. Where writing the datum fails there are no such
words, and it is that failure which comes back from everywhere. -/
theorem dialect_resolution :
    (∀ t d, (Designator.datum (.text t)).resolve = .ok d ↔ StandsFor t d) ∧
    (∀ lower, LowerCasing lower → ∀ t, ofKey? (lower (Text.trim t)) = ofName? t) ∧
    (∀ t front back, Blanks front → Blanks back → ∀ d,
      (Designator.datum (.text (front ++ t ++ back))).resolve = .ok d ↔
        (Designator.datum (.text t)).resolve = .ok d) ∧
    (∀ t s, CaseVariant t s → ∀ d,
      (Designator.datum (.text t)).resolve = .ok d ↔ (Designator.datum (.text s)).resolve = .ok d) ∧
    (∀ choice d, Designator.resolve choice = .ok d →
      (Designator.member d).resolve = .ok d ∧ (Designator.datum (.text d.name)).resolve = .ok d) ∧
    (∀ t, (∀ d, ¬ StandsFor t d) → Refuses (.datum (.text t)) (Dialect.unknown t)) ∧
    (∀ v : Datum, (∀ t, v ≠ .text t) → ∀ form, v.written = .ok form →
      Refuses (.datum v) (Dialect.unknown form)) ∧
    (∀ (v : Datum) words, v.written = .error words → Refuses (.datum v) (.unwritten words)) ∧
    ∀ name, (Dialect.unknown name).isBadValue = true ∧
      Dialect.unknown name =
        .unknownDialect name (["postgres", "mysql", "mssql", "sqlite"].map String.toList) ∧
      (Dialect.unknown name).message =
        "Unknown dialect ".toList ++ name.quoted ++
          "; expected one of 'postgres', 'mysql', 'mssql', 'sqlite'".toList := by
  refine ⟨?_, fun lower h => ofKey?_lower h, ?_, ?_, ?_, ?_, ?_, ?_, ?_⟩
  · intro t d
    rw [resolve_text_eq_ok_iff, ofName?_eq_some_iff]
  · intro t front back hfront hback d
    rw [resolve_text_eq_ok_iff, resolve_text_eq_ok_iff, ofName?_padded hfront hback]
  · intro t s h d
    rw [resolve_text_eq_ok_iff, resolve_text_eq_ok_iff, ofName?_of_caseVariant h]
  · intro choice d _
    exact ⟨rfl, resolve_text_eq_ok_iff.mpr (ofName?_name d)⟩
  · intro t h
    apply refuses_of_resolve
    rw [resolve_text, ofName?_eq_none_iff.mpr h]
    rfl
  · intro v h form hform
    exact refuses_of_resolve (resolve_of_written h hform)
  · intro v words h
    exact refuses_of_resolve (resolve_of_not_written h)
  · intro name
    exact ⟨rfl, rfl, unknown_message name⟩

/-- A name with capital letters between blanks, the sign of the kelvin, characters that do not
show, the octets of a name, a list of many kinds of data, and a number that is too long to be
written. -/
theorem dialect_resolution_kelvin :
    (Designator.datum (.text " PoStGrEsQl\u3000".toList)).resolve = .ok .postgres ∧
    ofKey? (lowerKelvin (Text.trim " p\u212A".toList)) = ofName? " p\u212A".toList ∧
    ((Designator.datum (.text "\tTSQL\n".toList)).resolve = .ok .mssql ↔
      (Designator.datum (.text "TSQL".toList)).resolve = .ok .mssql) ∧
    ((Designator.datum (.text "TSQL".toList)).resolve = .ok .mssql ↔
      (Designator.datum (.text "tSql".toList)).resolve = .ok .mssql) ∧
    (Designator.datum (.text Dialect.postgres.name)).resolve = .ok .postgres ∧
    Refuses (.datum (.text " p\u212A".toList)) (Dialect.unknown " p\u212A".toList) ∧
    (Dialect.unknown "\tp\u212A\u3000'\x00".toList).message =
      "Unknown dialect \"\\tp\u212A\\u3000'\\x00\"".toList ++
        "; expected one of 'postgres', 'mysql', 'mssql', 'sqlite'".toList ∧
    Refuses (.datum (.octets [0x70, 0x67, 0x27, 0x5C, 0x0A, 0x7F, 0xE9]))
      (Dialect.unknown "b\"pg'\\\\\\n\\x7f\\xe9\"".toList) ∧
    Refuses
      (.datum (.list [.none, .bool true, .bool false, .int (-12), .octets [], .text "p\"g".toList,
        .dict [("k".toList, .list []), ("v".toList, .other (.ok "1e-05".toList))]]))
      (Dialect.unknown
        "[None, True, False, -12, b'', 'p\"g', \x7b'k': [], 'v': 1e-05\x7d]".toList) ∧
    Refuses (.datum (.list [.int (Nat.pow 10 4300)]))
      (.unwritten ("Exceeds the limit (4300 digits) for integer string conversion; ".toList ++
        "use sys.set_int_max_str_digits() to increase the limit".toList)) := by
  obtain ⟨hstands, hlower, hpadded, hcase, hagain, htext, hwritten, hunwritten, hname⟩ :=
    dialect_resolution
  have htab : Blanks "\t".toList := List.all_eq_true.mp rfl
  have hnewline : Blanks "\n".toList := List.all_eq_true.mp rfl
  have hpostgres : (Designator.datum (.text " PoStGrEsQl\u3000".toList)).resolve = .ok .postgres :=
    (hstands _ _).mpr ⟨"postgresql".toList, by decide, caseVariant_iff.mpr (by decide +kernel)⟩
  have hnone : ofName? " p\u212A".toList = none := by decide +kernel
  have hother (form : Except Text Text) : ∀ t, Datum.other form ≠ .text t := fun _ => nofun
  refine ⟨hpostgres, hlower _ lowerCasing_lowerKelvin _,
    hpadded "TSQL".toList _ _ htab hnewline _, ?_, (hagain _ _ hpostgres).2, ?_, ?_, ?_, ?_, ?_⟩
  · exact hcase _ _ (caseVariant_iff.mpr (by decide +kernel)) _
  · exact htext _ (ofName?_eq_none_iff.mp hnone)
  · refine (hname _).2.2.trans (congrArg (· ++ _) ?_)
    decide +kernel
  · refine hwritten _ (hother _) _ (congrArg Except.ok ?_)
    decide +kernel
  · refine hwritten _ (hother _) _ (congrArg Except.ok ?_)
    decide +kernel
  · have hlong : ¬ (Text.ofNat (Int.natAbs (Nat.pow 10 4300))).length ≤ 4300 := by decide +kernel
    apply hunwritten
    rw [Datum.list, Datum.int, if_neg hlong]
    rfl

end SqlScript
