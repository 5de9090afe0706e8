import Mathlib.Data.List.Flatten
import PostfixSpec.Proofs.Console.Quiet
import PostfixSpec.Proofs.Text.Lines

/-!
# The lines that a console shows

A console that is configured once shows the events from its level on, and ends each of them with a line
feed. So what it shows are the lines of these events in a row, also where an event has line feeds inside.
At a lower level the same lines are shown, with more of them in between.
-/

namespace PostfixSpec

/-! ### Shown events -/

/-- Whether an event is shown from a level on. Nothing holds a plain line back. -/
def Event.shownFrom (level : Level) : Event → Bool
  | .record own _ => level.number ≤ own.number
  | .line _ => true

def Event.shownText : Event → String
  | .record level message => formatRecord level.number message
  | .line text => text

def Event.shownLines (event : Event) : List (List Char) :=
  Text.lines (event.shownText.toList ++ ['\n'])

theorem Event.shownFrom_of_le {low high : Level} (hle : low.number ≤ high.number) {event : Event}
    (h : event.shownFrom high = true) : event.shownFrom low = true := by
  cases event with
  | line text => rfl
  | record own message =>
      rw [shownFrom, decide_eq_true_eq] at h ⊢
      exact Int.le_trans hle h

/-! ### Shown lines -/

namespace Console

theorem writeAll_cons (c : Console) (event : Event) (events : List Event) :
    c.writeAll (event :: events) = c.write event ++ c.writeAll events := rfl

variable (debug verbose : Bool)

theorem write_eq (event : Event) :
    (initial.configure debug verbose).write event
      = if event.shownFrom (levelOf debug verbose) then .line event.shownText else .empty := by
  cases event with
  | line text => rfl
  | record level message =>
      rw [write_record, Event.shownFrom]
      exact if_congr decide_eq_true_iff.symm rfl rfl

/-- Nothing goes to the error output. -/
theorem stderr_writeAll (events : List Event) :
    ((initial.configure debug verbose).writeAll events).stderr = "" := by
  induction events with
  | nil => rfl
  | cons event events ih =>
      rw [writeAll_cons, Output.stderr_append, ih, write_eq]
      split_ifs <;> rfl

/-- **What is shown are the lines of the shown events in a row.** -/
theorem lines_writeAll (events : List Event) :
    Text.lines ((initial.configure debug verbose).writeAll events).stdout.toList
      = (events.filter (·.shownFrom (levelOf debug verbose))).flatMap Event.shownLines := by
  induction events with
  | nil => rfl
  | cons event events ih =>
      rw [writeAll_cons, Output.stdout_append, String.toList_append, write_eq]
      cases hshown : event.shownFrom (levelOf debug verbose) with
      | false =>
          rw [List.filter_cons_of_neg (ne_true_of_eq_false hshown), ← ih]
          rfl
      | true =>
          have hline : (Output.line event.shownText).stdout.toList
              = event.shownText.toList ++ ['\n'] := String.toList_append
          rw [List.filter_cons_of_pos hshown, List.flatMap_cons, ← ih, if_pos rfl, hline,
            List.append_assoc, List.singleton_append, Text.lines_append]
          rfl

/-- An event that is shown last ends what is shown. -/
theorem getLast?_lines_writeAll (events : List Event) {event : Event}
    (hshown : event.shownFrom (levelOf debug verbose) = true) :
    (Text.lines ((initial.configure debug verbose).writeAll (events ++ [event])).stdout.toList).getLast?
      = event.shownLines.getLast? := by
  have hlines : event.shownLines ≠ [] := by simp [Event.shownLines, Text.lines_eq_nil_iff]
  rw [lines_writeAll, List.filter_append, List.filter_cons_of_pos hshown, List.filter_nil,
    List.flatMap_append, List.flatMap_singleton, List.getLast?_append_of_ne_nil _ hlines]

/-- At a lower level no line is lost. -/
theorem lines_writeAll_sublist {debug verbose debug' verbose' : Bool}
    (hle : (levelOf debug' verbose').number ≤ (levelOf debug verbose).number) (events : List Event) :
    (Text.lines ((initial.configure debug verbose).writeAll events).stdout.toList).Sublist
      (Text.lines ((initial.configure debug' verbose').writeAll events).stdout.toList) := by
  rw [lines_writeAll, lines_writeAll]
  refine List.Sublist.flatMap ?_ _
  exact List.monotone_filter_right events fun event => Event.shownFrom_of_le hle

end Console

end PostfixSpec
