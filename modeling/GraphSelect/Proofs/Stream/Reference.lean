import GraphSelect.Stream.Basic
import Mathlib.Data.List.Induction

/-!
# What a consumer ought to be told

A query has one `Outcome`, whoever moves when: the rows that its results decode to, in the order of
the results and up to the first fault, and that fault if there is one. A call of the executor or of
its cursor that breaks down counts as a fault, since the worker is lost with it.

A `Reader` hands an outcome out in chunks. It has no queue and no worker, and it answers each call
at once, so a sequence of calls has one sequence of answers. `reference` is that sequence. It is
what the two sides of a stream are measured against; nothing here mentions them.
-/

set_option autoImplicit false

namespace GraphSelect

/-! ## Outcomes -/

/-- The rows that a query delivers, and the fault that ends them, if one does. -/
structure Outcome where
  rows : List Row
  fault : Option Fault

namespace Outcome

def finished : Outcome := ⟨[], none⟩

def failed (f : Fault) : Outcome := ⟨[], some f⟩

def after (r : Row) (o : Outcome) : Outcome := ⟨r :: o.rows, o.fault⟩

/-- What some results decode to, followed by `o` if all of them can be decoded. -/
def ofResults (d : RowDecoder) (o : Outcome) : List Json → Outcome
  | [] => o
  | raw :: rest =>
    match d.decode raw with
    | .ok row => (ofResults d o rest).after row
    | .error f => failed f

/-- What the end of a cursor comes to. -/
def ofEnding : Ending → Outcome
  | .exhausted => finished
  | .failed f => failed f
  | .crashed => failed .workerLost

/-- What the batches of a cursor come to. An empty one is the end of the results. -/
def ofBatches (d : RowDecoder) (e : Ending) : List (List Json) → Outcome
  | [] => ofEnding e
  | [] :: _ => finished
  | (raw :: batch) :: rest => ofResults d (ofBatches d e rest) (raw :: batch)

/-- What is left of an outcome once the cursor has been closed. A call that breaks down takes the
end with it, however that was to be, and none of the rows: they are on their way already. -/
def closedBy (o : Outcome) : Closing → Outcome
  | .orderly => o
  | .crashed => ⟨o.rows, some .workerLost⟩

@[simp] theorem closedBy_after (o : Outcome) (r : Row) (c : Closing) :
    (o.after r).closedBy c = (o.closedBy c).after r := by
  cases c <;> rfl

/-- Nothing is lost with a worker that is lost already. -/
@[simp] theorem closedBy_workerLost (c : Closing) :
    (failed .workerLost).closedBy c = failed .workerLost := by
  cases c <;> rfl

end Outcome

/-- What the batches of a cursor come to, and their end. -/
def Cursor.results (d : RowDecoder) (c : Cursor) : Outcome :=
  .ofBatches d c.ending c.batches

def Cursor.outcome (d : RowDecoder) (c : Cursor) : Outcome :=
  (c.results d).closedBy c.closing

def StreamPlan.outcome (p : StreamPlan) : Outcome :=
  match p.opening with
  | .opened cursor => cursor.outcome p.decoder
  | .refused f => .failed f
  | .crashed => .failed .workerLost

/-! ## Readers -/

/-- An outcome that is being handed out: what is left of it, and how far the consumer has got. -/
structure Reader where
  rest : Outcome
  status : Status

namespace Reader

/-- Some rows as an answer, or what is said instead if there are none. -/
def pageOf (rows : List Row) (otherwise : Answer) : Answer :=
  match rows with
  | [] => otherwise
  | r :: rest => .page (r :: rest)

/-- The next chunk of `n` rows. If there are fewer, the end of the outcome lies within the chunk:
those that are left are handed out, and the query is over. -/
def chunk (o : Outcome) (n : Nat) : Answer × Reader :=
  if n ≤ o.rows.length then (.page (o.rows.take n), ⟨⟨o.rows.drop n, o.fault⟩, .running⟩)
  else match o.fault with
    | none => (pageOf o.rows .finished, ⟨.finished, .completed⟩)
    | some f => (pageOf o.rows (.failed f), ⟨.failed f, .failed⟩)

/-- Stopping, which does nothing to a query that is over. -/
def stop (r : Reader) : Reader :=
  if r.status.isTerminal then r else { r with status := .cancelled }

/-- The answer to a call, and what is left. -/
def respond (r : Reader) : RowStream.Call → Answer × Reader
  | .next n =>
    match r.status with
    | .running => chunk r.rest (max n 1)
    | .failed => (.failed (r.rest.fault.getD .workerLost), r)
    | .completed => (.finished, r)
    | .cancelled => (.finished, r)
  | .cancel => (.cancelled, r.stop)
  | .drop => (.dropped, r.stop)

end Reader

/-! ## Sessions -/

structure Session where
  reader : Reader
  answers : List Answer

def Session.call (t : Session) (c : RowStream.Call) : Session :=
  ⟨(t.reader.respond c).2, t.answers ++ [(t.reader.respond c).1]⟩

/-- What a consumer who makes these calls ought to have been told, and where that leaves it. -/
def reference (plan : StreamPlan) (calls : List RowStream.Call) : Session :=
  calls.foldl Session.call ⟨⟨plan.outcome, .running⟩, []⟩

theorem reference_snoc (plan : StreamPlan) (calls : List RowStream.Call) (c : RowStream.Call) :
    reference plan (calls ++ [c]) = (reference plan calls).call c := by
  unfold reference
  rw [List.foldl_append]
  rfl

/-! ## No row is lost, repeated or moved

The rows of all answers, one after the other, are the rows of the outcome up to some point, and all
of them once the query has ended by itself. -/

def Answer.rows : Answer → List Row
  | .page rows => rows
  | _ => []

/-- The rows that some answers hand out, one answer after the other. -/
def handedOut (answers : List Answer) : List Row :=
  answers.flatMap Answer.rows

theorem handedOut_snoc (answers : List Answer) (a : Answer) :
    handedOut (answers ++ [a]) = handedOut answers ++ a.rows := by
  simp [handedOut]

theorem Reader.pageOf_rows (rows : List Row) {a : Answer} (ha : a.rows = []) :
    (pageOf rows a).rows = rows := by
  cases rows with
  | nil => exact ha
  | cons r rest => rfl

/-- A chunk and what is left after it make up what there was. -/
theorem Reader.chunk_rows (o : Outcome) (n : Nat) :
    (chunk o n).1.rows ++ (chunk o n).2.rest.rows = o.rows := by
  unfold chunk
  split
  · exact List.take_append_drop n o.rows
  · split
    · rw [pageOf_rows _ rfl]; exact List.append_nil _
    · rw [pageOf_rows _ rfl]; exact List.append_nil _

theorem Reader.respond_rows (r : Reader) (c : RowStream.Call) :
    (r.respond c).1.rows ++ (r.respond c).2.rest.rows = r.rest.rows := by
  have hstop : r.stop.rest = r.rest := by unfold stop; split <;> rfl
  cases c with
  | next n =>
    cases hs : r.status with
    | running => simpa only [respond, hs] using chunk_rows r.rest (max n 1)
    | completed | failed | cancelled => simp only [respond, hs, Answer.rows, List.nil_append]
  | cancel | drop => simp only [respond, Answer.rows, List.nil_append, hstop]

theorem reference_rows (plan : StreamPlan) (calls : List RowStream.Call) :
    handedOut (reference plan calls).answers ++ (reference plan calls).reader.rest.rows =
      plan.outcome.rows := by
  induction calls using List.reverseRecOn with
  | nil => rfl
  | append_singleton calls c ih =>
    rw [reference_snoc, Session.call, handedOut_snoc, List.append_assoc, Reader.respond_rows]
    exact ih

/-- A reader whose outcome ended by itself has nothing left. -/
def Reader.Spent (r : Reader) : Prop :=
  r.status = .completed ∨ r.status = .failed → r.rest.rows = []

theorem Reader.chunk_spent (o : Outcome) (n : Nat) : (chunk o n).2.Spent := by
  intro hs
  unfold chunk at hs ⊢
  split
  · rename_i hn
    rw [if_pos hn] at hs
    rcases hs with hs | hs <;> cases hs
  · split <;> rfl

theorem Reader.respond_spent {r : Reader} (h : r.Spent) (c : RowStream.Call) :
    (r.respond c).2.Spent := by
  have hstop : r.stop.Spent := by
    unfold stop
    split
    · exact h
    · intro hs
      rcases hs with hs | hs <;> cases hs
  cases c with
  | next n =>
    cases hs : r.status with
    | running => simpa only [respond, hs] using chunk_spent r.rest (max n 1)
    | completed | failed | cancelled => simpa only [respond, hs] using h
  | cancel | drop => exact hstop

theorem reference_spent (plan : StreamPlan) (calls : List RowStream.Call) :
    (reference plan calls).reader.Spent := by
  induction calls using List.reverseRecOn with
  | nil => intro hs; rcases hs with hs | hs <;> cases hs
  | append_singleton calls c ih =>
    rw [reference_snoc]
    exact Reader.respond_spent ih c

end GraphSelect
