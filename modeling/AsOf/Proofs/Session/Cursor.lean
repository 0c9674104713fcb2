import AsOf.Proofs.Store.Keep
import AsOf.Session.Run

/-!
# Cursors in a session

Whatever is read through a document, by moving its cursor or by passing through groups of keys, ends
with the cursor on some node that it was moved to, and changes nothing else about the transaction.

## Main results

* `Session.visits_moveAll`: moving the cursor
* `ItemStream.visits_drain`, `Session.visits_streamAll`: passing through groups of keys
-/

namespace AsOf

open Observed

namespace ItemStream

variable {t : Transaction}

theorem visits_serve (s : ItemStream) (key : Nat) : s.cursor.Visits (serve s key).2.cursor := by
  unfold serve
  split
  · exact .stay
  · next h => split <;> exact .moveTo h

theorem visits_advance : Keeps (fun s => t.Visits s.cursor) advance := by
  intro o ho
  unfold advance
  split
  · exact ho
  · next key rest _ =>
    have hserve := visits_serve { o.state with keys := rest } key
    split
    all_goals
      next h =>
        rw [h] at hserve
        exact Transaction.Visits.trans ho hserve

theorem visits_next : Keeps (fun s => t.Visits s.cursor) next := by
  intro o ho
  unfold next
  split
  · exact ho
  · split
    · split
      · exact ho
      · exact ho
      · exact visits_advance _ ho
    · exact visits_advance _ ho

/-- A stream that is drained leaves the cursor on a node that it was moved to. -/
theorem visits_drain : Keeps (fun s => t.Visits s.cursor) drain := by
  intro o ho
  fun_induction drain o with
  | case1 o h e o' hnext =>
    have hvisits := visits_next o ho
    rwa [hnext] at hvisits
  | case2 o h item o' hnext hless items o'' hdrain ih | case3 o h item o' hnext hless e o'' hdrain ih =>
    have hvisits := visits_next o ho
    rw [hnext] at hvisits
    have hrest := ih hvisits
    rwa [hdrain] at hrest
  | case4 => exact ho

end ItemStream

namespace Session

variable {t : Transaction}

theorem visits_moveCursor (t : Transaction) (m : CursorMove) : t.Visits (moveCursor t m).2 := by
  cases m with
  | toRoot | moveTo =>
    simp only [moveCursor]
    split
    · next h => exact .moveTo h
    · exact .stay
  | readNode | readRevision => exact .stay

/-- Moving the cursor leaves it on a node that it was moved to. -/
theorem visits_moveAll (t : Transaction) (moves : List CursorMove) : t.Visits (moveAll t moves).2 := by
  induction moves generalizing t with
  | nil => exact .stay
  | cons m rest ih => exact (visits_moveCursor t m).trans (ih _)

theorem visits_streamAll (pulls : List Pull) :
    Keeps (fun s => t.Visits s.cursor) (streamAll pulls) := by
  induction pulls with
  | nil => exact keeps_pure _
  | cons pull rest ih =>
    have hpull : Keeps (fun s => t.Visits s.cursor) (pullOne pull) := by
      cases pull with
      | next => exact ItemStream.visits_next.attempt.bind fun _ => keeps_pure _
      | close => exact keeps_pure _
    exact hpull.bind fun _ => keeps_current.bind fun _ => ih.bind fun _ => keeps_pure _

end Session

end AsOf
