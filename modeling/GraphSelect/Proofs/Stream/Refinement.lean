import GraphSelect.Proofs.Stream.Progress
import GraphSelect.Proofs.Stream.Reference

/-!
# A stream tells its consumer what the reference does

The invariant is `Agrees`, and its heart is one equation about a stream that nobody has stopped.
What is still `ahead` of the consumer (the queue, then whatever the worker makes of the rest of its
cursor) is what the reader has left, once the rows that the call in progress has already collected
are put back in front. Every move of the worker leaves `ahead` as it is. A move of the consumer
takes its first row, or finds that it has none.

The two flags are why this is enough. A worker that sees one of them drops rows, but both are set by
a consumer that is stopping the query, and such a consumer never looks into the queue again.
-/

set_option autoImplicit false

namespace GraphSelect
namespace RowStream

/-! ## What is still to come -/

/-- What some deliveries come to, followed by `o` if none of them is a mark. -/
def delivered (o : Outcome) : List Delivery → Outcome
  | [] => o
  | .row r :: rest => (delivered o rest).after r
  | .fault f :: _ => .failed f
  | .exhausted :: _ => .finished

theorem delivered_append (o : Outcome) (xs ys : List Delivery) :
    delivered o (xs ++ ys) = delivered (delivered o ys) xs := by
  induction xs with
  | nil => rfl
  | cons d xs ih =>
    cases d with
    | row r => simp only [List.cons_append, delivered, ih]
    | fault f => rfl
    | exhausted => rfl

/-- What a report comes to that is made after closing the cursor, if it is made. -/
def reportOutcome (report : Option Delivery) : Closing → Outcome
  | .orderly => delivered (.failed .workerLost) report.toList
  | .crashed => .failed .workerLost

@[simp] theorem reportOutcome_none (c : Closing) : reportOutcome none c = .failed .workerLost := by
  cases c <;> rfl

@[simp] theorem reportOutcome_exhausted (c : Closing) :
    reportOutcome (some .exhausted) c = Outcome.finished.closedBy c := by
  cases c <;> rfl

@[simp] theorem reportOutcome_fault (f : Fault) (c : Closing) :
    reportOutcome (some (.fault f)) c = (Outcome.failed f).closedBy c := by
  cases c <;> rfl

/-- What a worker in some phase still delivers, if nobody stops it. One that leaves without another
word is lost. -/
def remaining (p : StreamPlan) : Phase → Outcome
  | .opening => p.outcome
  | .checking cursor => cursor.outcome p.decoder
  | .pulling cursor => cursor.outcome p.decoder
  | .decoding batch cursor =>
    (Outcome.ofResults p.decoder (cursor.results p.decoder) batch).closedBy cursor.closing
  | .sending row batch cursor =>
    (Outcome.ofResults p.decoder (cursor.results p.decoder) batch).closedBy cursor.closing
      |>.after row
  | .closing report cursor => reportOutcome report cursor.closing
  | .reporting d => delivered (.failed .workerLost) [d]
  | .leaving => .failed .workerLost
  | .gone => .failed .workerLost

/-- What the consumer has before it, if nobody stops the query. -/
def ahead (s : RowStream) : Outcome :=
  delivered (remaining s.plan s.phase) s.queue

theorem Dry.results {cursor : Cursor} (h : Dry cursor) (d : RowDecoder) :
    cursor.results d = .finished := by
  rcases h with ⟨hb, he⟩ | ⟨rest, hb⟩
  · simp only [Cursor.results, hb, he, Outcome.ofBatches, Outcome.ofEnding]
  · simp only [Cursor.results, hb, Outcome.ofBatches]

/-- **The worker does not change what is ahead**, as long as neither flag is set. -/
theorem WorkerMove.ahead_eq {s s' : RowStream} (h : WorkerMove s s')
    (hr : s.stopRequested = false) (hc : s.queueClosed = false) : s'.ahead = s.ahead := by
  cases h with
  | opened hp ho | refused hp ho | openingCrashed hp ho =>
    simp only [ahead, remaining, hp, StreamPlan.outcome, ho, delivered]
  -- A worker that stops before the end does so at a flag.
  | stopped _ hr' => rw [hr] at hr'; cases hr'
  | passed hp _ => simp only [ahead, remaining, hp]
  | pulledNothing hp hd =>
    simp only [ahead, remaining, noteAsk, notePull, hp, Cursor.outcome, Dry.results hd,
      reportOutcome_exhausted]
  | pulledFault hp hb he =>
    simp only [ahead, remaining, noteAsk, hp, Cursor.outcome, Cursor.results, hb, he,
      Outcome.ofBatches, Outcome.ofEnding, reportOutcome_fault]
  | crashed hp hb he =>
    simp only [ahead, remaining, noteAsk, hp, Cursor.outcome, Cursor.results, hb, he,
      Outcome.ofBatches, Outcome.ofEnding, reportOutcome_none, Outcome.closedBy_workerLost]
  | pulledBatch hp hb =>
    simp only [ahead, remaining, noteAsk, notePull, hp, Cursor.outcome, Cursor.results, hb,
      Outcome.ofBatches]
  | emptied hp => simp only [ahead, remaining, hp, Cursor.outcome, Outcome.ofResults]
  | decoded hp hd =>
    simp only [ahead, remaining, hp, Outcome.ofResults, hd, Outcome.closedBy_after]
  | undecodable hp hd =>
    simp only [ahead, remaining, hp, Outcome.ofResults, hd, reportOutcome_fault]
  | unsent _ hc' | unreported _ hc' => rw [hc] at hc'; cases hc'
  | sent hp _ _ | reported hp _ _ => simp only [ahead, remaining, hp, delivered_append, delivered]
  | closed hp hc' | closedSilently hp hc' =>
    simp only [ahead, remaining, hp, hc', reportOutcome, Option.toList, delivered]
  -- The report is lost with the worker, as the outcome of such a cursor says.
  | closingCrashed hp hc' => simp only [ahead, remaining, hp, hc', reportOutcome]
  | left hp => simp only [ahead, remaining, hp]

/-! ## Agreement -/

/-- A query that runs and that nobody is stopping. -/
structure Open (s : RowStream) : Prop where
  running : s.status = .running
  unrequested : s.stopRequested = false
  unclosed : s.queueClosed = false

/-- A consumer between two calls, beside a reader. -/
structure Settled (t : Session) (s : RowStream) : Prop where
  answers : s.answers = t.answers
  status : s.status = t.reader.status
  fault : s.status = .failed → s.fault = t.reader.rest.fault
  ahead : s.status = .running → s.Open ∧ s.ahead = t.reader.rest

/-- An outcome with some rows put back in front. -/
def putBack (rows : List Row) (o : Outcome) : Outcome :=
  ⟨rows ++ o.rows, o.fault⟩

/-- The state of a stream agrees with the reference for the calls made so far. While a call is in
progress, the reference has answered all calls but that one. -/
inductive Agrees (plan : StreamPlan) : List Call → RowStream → Prop where
  | between {calls : List Call} {s : RowStream} (ht : s.task = .idle ∨ s.task = .left)
      (hs : Settled (reference plan calls) s) : Agrees plan calls s
  -- Rows are being collected.
  | collecting {calls : List Call} {s : RowStream} {n : Nat} {rows : List Row}
      (ht : s.task = .receiving (max n 1) rows) (hn : rows.length ≤ max n 1) (ho : s.Open)
      (ha : s.answers = (reference plan calls).answers)
      (hr : (reference plan calls).reader = ⟨putBack rows s.ahead, .running⟩) :
      Agrees plan (calls ++ [.next n]) s
  -- The query is being stopped.
  | stopping {calls : List Call} {s : RowStream} {c : Call} {a : Answer}
      (ht : s.task = .requesting a ∨ s.task = .shutting a ∨ s.task = .draining a)
      (hc : (reference plan calls).reader.respond c =
        (a, ⟨(reference plan calls).reader.rest, .cancelled⟩))
      (ha : s.answers = (reference plan calls).answers) : Agrees plan (calls ++ [c]) s
  -- The answer is known, and the worker is waited for.
  | joining {calls : List Call} {s : RowStream} {c : Call} {a : Answer} {r : Reader}
      (ht : s.task = .joining a) (hc : (reference plan calls).reader.respond c = (a, r))
      (ha : s.answers = (reference plan calls).answers) (hs : s.status = r.status)
      (hf : s.status = .failed → s.fault = r.rest.fault) (ho : s.status ≠ .running) :
      Agrees plan (calls ++ [c]) s

theorem Agrees.start (plan : StreamPlan) : Agrees plan [] (start plan) :=
  .between (.inl rfl) ⟨rfl, rfl, fun h => (by cases h), fun _ => ⟨⟨rfl, rfl, rfl⟩, rfl⟩⟩

/-! ## The worker keeps agreement -/

theorem WorkerMove.keepsOpen {s s' : RowStream} (h : WorkerMove s s') (ho : s.Open) : s'.Open := by
  obtain ⟨-, hreq, hclosed, -, hstatus, -, -⟩ := h.frame
  exact ⟨hstatus ▸ ho.running, hreq ▸ ho.unrequested, hclosed ▸ ho.unclosed⟩

theorem WorkerMove.agrees {plan : StreamPlan} {calls : List Call} {s s' : RowStream}
    (h : WorkerMove s s') (ha : Agrees plan calls s) : Agrees plan calls s' := by
  obtain ⟨-, -, -, htask, hstatus, hfault, hanswers⟩ := h.frame
  cases ha with
  | between ht hs =>
    refine .between (htask ▸ ht) ⟨hanswers ▸ hs.answers, hstatus ▸ hs.status, ?_, ?_⟩
    · rw [hstatus, hfault]; exact hs.fault
    · intro hrun
      obtain ⟨ho, hahead⟩ := hs.ahead (hstatus ▸ hrun)
      exact ⟨h.keepsOpen ho, (h.ahead_eq ho.unrequested ho.unclosed).trans hahead⟩
  | collecting ht hn ho ha hr =>
    refine .collecting (htask ▸ ht) hn (h.keepsOpen ho) (hanswers ▸ ha) ?_
    rw [h.ahead_eq ho.unrequested ho.unclosed]
    exact hr
  -- From here on the consumer never looks into the queue, so nothing is said about what is ahead.
  | stopping ht hc ha => exact .stopping (htask ▸ ht) hc (hanswers ▸ ha)
  | joining ht hc ha hs hf ho =>
    refine .joining (htask ▸ ht) hc (hanswers ▸ ha) (hstatus ▸ hs) ?_ (hstatus ▸ ho)
    rw [hstatus, hfault]
    exact hf

/-! ## The consumer keeps agreement -/

/-- While rows are collected, the reader has them and what is ahead. -/
theorem Agrees.of_receiving {plan : StreamPlan} {calls : List Call} {s : RowStream} {wanted : Nat}
    {rows : List Row} (h : Agrees plan calls s) (ht : s.task = .receiving wanted rows) :
    ∃ before n, calls = before ++ [.next n] ∧ wanted = max n 1 ∧ rows.length ≤ wanted ∧ s.Open ∧
      s.answers = (reference plan before).answers ∧
      (reference plan before).reader = ⟨putBack rows s.ahead, .running⟩ := by
  cases h with
  | between ht' => rcases ht' with ht' | ht' <;> rw [ht] at ht' <;> cases ht'
  | collecting ht' hn ho ha hr =>
    rw [ht] at ht'
    cases ht'
    exact ⟨_, _, rfl, rfl, hn, ho, ha, hr⟩
  | stopping ht' => rcases ht' with ht' | ht' | ht' <;> rw [ht] at ht' <;> cases ht'
  | joining ht' => rw [ht] at ht'; cases ht'

theorem Agrees.of_stopping {plan : StreamPlan} {calls : List Call} {s : RowStream} {a : Answer}
    (h : Agrees plan calls s)
    (ht : s.task = .requesting a ∨ s.task = .shutting a ∨ s.task = .draining a) :
    ∃ before c, calls = before ++ [c] ∧
      (reference plan before).reader.respond c =
        (a, ⟨(reference plan before).reader.rest, .cancelled⟩) ∧
      s.answers = (reference plan before).answers := by
  cases h with
  | between ht' =>
    rcases ht with ht | ht | ht <;> rcases ht' with ht' | ht' <;> rw [ht] at ht' <;> cases ht'
  | collecting ht' => rcases ht with ht | ht | ht <;> rw [ht] at ht' <;> cases ht'
  | @stopping before _ c b ht' hc ha =>
    have heq : a = b := by
      rcases ht with ht | ht | ht <;> rcases ht' with ht' | ht' | ht' <;> rw [ht] at ht' <;>
        cases ht' <;> rfl
    exact ⟨before, c, rfl, heq ▸ hc, ha⟩
  | joining ht' => rcases ht with ht | ht | ht <;> rw [ht] at ht' <;> cases ht'

theorem Agrees.of_joining {plan : StreamPlan} {calls : List Call} {s : RowStream} {a : Answer}
    (h : Agrees plan calls s) (ht : s.task = .joining a) :
    ∃ before c r, calls = before ++ [c] ∧ (reference plan before).reader.respond c = (a, r) ∧
      s.answers = (reference plan before).answers ∧ s.status = r.status ∧
      (s.status = .failed → s.fault = r.rest.fault) ∧ s.status ≠ .running := by
  cases h with
  | between ht' => rcases ht' with ht' | ht' <;> rw [ht] at ht' <;> cases ht'
  | collecting ht' => rw [ht] at ht'; cases ht'
  | stopping ht' => rcases ht' with ht' | ht' | ht' <;> rw [ht] at ht' <;> cases ht'
  | joining ht' hc ha hs hf ho =>
    rw [ht] at ht'
    cases ht'
    exact ⟨_, _, _, rfl, hc, ha, hs, hf, ho⟩

/-- An answered call: the answer and what is left are those of the reader. -/
theorem Agrees.reply {plan : StreamPlan} {calls : List Call} {s : RowStream} {c : Call} {a : Answer}
    {r : Reader} (hc : (reference plan calls).reader.respond c = (a, r))
    (ha : s.answers = (reference plan calls).answers) (hs : s.status = r.status)
    (hf : s.status = .failed → s.fault = r.rest.fault)
    (hr : s.status = .running → s.Open ∧ s.ahead = r.rest) :
    Agrees plan (calls ++ [c]) (s.reply a) := by
  refine .between (reply_task s a) ?_
  rw [reference_snoc, Session.call, hc]
  refine ⟨?_, hs, hf, fun hrun => ?_⟩
  · show s.answers ++ [a] = _
    rw [ha]
  · obtain ⟨ho, hahead⟩ := hr hrun
    exact ⟨⟨ho.running, ho.unrequested, ho.unclosed⟩, hahead⟩

theorem pageOr_eq (rows : List Row) (a : Answer) : pageOr rows a = Reader.pageOf rows a := by
  cases rows <;> rfl

/-- The last chunk: the rows collected so far are all that is left, and `e` ends them. -/
theorem chunk_putBack {rows : List Row} {n : Nat} (hn : rows.length < n) (e : Option Fault) :
    Reader.chunk (putBack rows ⟨[], e⟩) n =
      match e with
      | none => (pageOr rows .finished, ⟨.finished, .completed⟩)
      | some f => (pageOr rows (.failed f), ⟨.failed f, .failed⟩) := by
  have hlen : ¬ n ≤ (putBack rows ⟨[], e⟩).rows.length := by
    simp only [putBack, List.append_nil]
    omega
  unfold Reader.chunk
  rw [if_neg hlen]
  cases e <;> simp only [putBack, List.append_nil, pageOr_eq]

theorem ConsumerMove.agrees {plan : StreamPlan} {calls : List Call} {s s' : RowStream}
    (h : ConsumerMove s s') (ha : Agrees plan calls s) : Agrees plan calls s' := by
  cases h with
  | @filled wanted rows ht hf =>
    obtain ⟨before, n, rfl, rfl, hn, ho, hans, hr⟩ := ha.of_receiving ht
    -- The chunk is full: the reader takes off exactly the rows that were put back.
    have hlen : rows.length = max n 1 := by omega
    refine .reply (r := ⟨s.ahead, .running⟩) ?_ hans ho.running
      (fun hs => absurd (ho.running.symm.trans hs) (by simp)) (fun _ => ⟨ho, rfl⟩)
    simp only [hr, Reader.respond, Reader.chunk, putBack, ← hlen, List.length_append,
      Nat.le_add_right, if_true, List.take_left, List.drop_left]
  | @took wanted rows r rest ht hf hq =>
    obtain ⟨before, n, rfl, rfl, hn, ho, hans, hr⟩ := ha.of_receiving ht
    refine .collecting rfl ?_ ⟨ho.running, ho.unrequested, ho.unclosed⟩ hans ?_
    · rw [List.length_append, List.length_singleton]; omega
    · rw [hr]
      simp only [ahead, hq, delivered, putBack, Outcome.after, List.append_assoc,
        List.singleton_append]
  | @ended wanted rows rest ht hf hq =>
    obtain ⟨before, n, rfl, rfl, hn, ho, hans, hr⟩ := ha.of_receiving ht
    have hahead : s.ahead = ⟨[], none⟩ := by simp only [ahead, hq, delivered, Outcome.finished]
    refine .joining rfl (r := ⟨.finished, .completed⟩) ?_ hans rfl (fun hs => by cases hs)
      (fun hs => by cases hs)
    rw [hr, hahead]
    exact chunk_putBack hf none
  | @faulted wanted rows f rest ht hf hq =>
    obtain ⟨before, n, rfl, rfl, hn, ho, hans, hr⟩ := ha.of_receiving ht
    have hahead : s.ahead = ⟨[], some f⟩ := by simp only [ahead, hq, delivered, Outcome.failed]
    refine .joining rfl (r := ⟨.failed f, .failed⟩) ?_ hans rfl (fun _ => rfl)
      (fun hs => by cases hs)
    rw [hr, hahead]
    exact chunk_putBack hf (some f)
  | @lost wanted rows ht hf hq hg =>
    obtain ⟨before, n, rfl, rfl, hn, ho, hans, hr⟩ := ha.of_receiving ht
    have hahead : s.ahead = ⟨[], some .workerLost⟩ := by
      simp only [ahead, hq, hg, delivered, remaining, Outcome.failed]
    refine .joining rfl (r := ⟨.failed .workerLost, .failed⟩) ?_ hans rfl (fun _ => rfl)
      (fun hs => by cases hs)
    rw [hr, hahead]
    exact chunk_putBack hf (some .workerLost)
  | requested ht =>
    obtain ⟨before, c, rfl, hc, hans⟩ := ha.of_stopping (.inl ht)
    exact .stopping (.inr (.inl rfl)) hc hans
  | shut ht =>
    obtain ⟨before, c, rfl, hc, hans⟩ := ha.of_stopping (.inr (.inl ht))
    exact .stopping (.inr (.inr rfl)) hc hans
  | drained ht =>
    obtain ⟨before, c, rfl, hc, hans⟩ := ha.of_stopping (.inr (.inr ht))
    exact .joining rfl hc hans rfl (fun hs => by cases hs) (fun hs => by cases hs)
  | joined ht hg =>
    obtain ⟨before, c, r, rfl, hc, hans, hs, hf, ho⟩ := ha.of_joining ht
    exact .reply hc hans hs hf (fun hrun => absurd hrun ho)

/-! ## A new call keeps agreement -/

/-- A call that is answered at once leaves the reader as it is. -/
theorem Settled.reply {plan : StreamPlan} {calls : List Call} {s : RowStream}
    (hs : Settled (reference plan calls) s) {c : Call} {a : Answer}
    (hc : (reference plan calls).reader.respond c = (a, (reference plan calls).reader)) :
    Agrees plan (calls ++ [c]) (s.reply a) :=
  .reply hc hs.answers hs.status hs.fault hs.ahead

/-- Stopping a query: at once if it is over, else the answer waits for the worker to leave. -/
theorem Settled.stop {plan : StreamPlan} {calls : List Call} {s : RowStream}
    (hs : Settled (reference plan calls) s) {c : Call} {a : Answer}
    (hc : (reference plan calls).reader.respond c = (a, (reference plan calls).reader.stop)) :
    Agrees plan (calls ++ [c])
      (if s.status.isTerminal then s.reply a else { s with task := .requesting a }) := by
  by_cases hover : s.status.isTerminal = true
  · rw [if_pos hover]
    refine hs.reply ?_
    rw [hc, Reader.stop, if_pos (hs.status ▸ hover)]
  · rw [if_neg hover]
    refine .stopping (.inl rfl) ?_ hs.answers
    rw [hc, Reader.stop, if_neg (hs.status ▸ hover)]

theorem Settled.next {plan : StreamPlan} {calls : List Call} {s : RowStream}
    (hs : Settled (reference plan calls) s) (n : Nat) :
    Agrees plan (calls ++ [.next n]) (s.begin (.next n)) := by
  have hstatus := hs.status
  cases hst : s.status with
  | running =>
    obtain ⟨ho, hahead⟩ := hs.ahead hst
    simp only [RowStream.begin, hst]
    refine .collecting rfl (Nat.zero_le _) ⟨rfl, ho.unrequested, ho.unclosed⟩ hs.answers ?_
    show _ = (⟨⟨[] ++ s.ahead.rows, s.ahead.fault⟩, .running⟩ : Reader)
    rw [List.nil_append, hahead, ← hst, hstatus]
  | failed =>
    simp only [RowStream.begin, hst]
    refine hs.reply ?_
    simp only [Reader.respond, ← hstatus, hst, hs.fault hst]
  | completed | cancelled =>
    simp only [RowStream.begin, hst]
    refine hs.reply ?_
    simp only [Reader.respond, ← hstatus, hst]

theorem Agrees.begin {plan : StreamPlan} {calls : List Call} {s : RowStream}
    (h : Agrees plan calls s) (hi : s.task = .idle) (c : Call) :
    Agrees plan (calls ++ [c]) (s.begin c) := by
  have hs : Settled (reference plan calls) s := by
    cases h with
    | between _ hs => exact hs
    | collecting ht => rw [hi] at ht; cases ht
    | stopping ht => rcases ht with ht | ht | ht <;> rw [hi] at ht <;> cases ht
    | joining ht => rw [hi] at ht; cases ht
  cases c with
  | next n => exact hs.next n
  | cancel => exact hs.stop rfl
  | drop => exact hs.stop rfl

theorem Reaches.agrees {plan : StreamPlan} {calls : List Call} {s : RowStream}
    (h : Reaches plan calls s) : Agrees plan calls s := by
  induction h with
  | start => exact .start plan
  | worker _ hs ih => exact (workerStep_cases hs).agrees ih
  | consumer _ hs ih => exact (consumerStep_cases hs).agrees ih
  | call _ hi c ih => exact ih.begin hi c

/-! ## Every interleaving -/

/-- A consumer between two calls has been told what the reference says. -/
theorem Reaches.settled {plan : StreamPlan} {calls : List Call} {s : RowStream}
    (h : Reaches plan calls s) (hb : s.isBusy = false) : Settled (reference plan calls) s := by
  cases h.agrees with
  | between _ hs => exact hs
  | collecting ht => simp [isBusy, ht] at hb
  | stopping ht => rcases ht with ht | ht | ht <;> simp [isBusy, ht] at hb
  | joining ht => simp [isBusy, ht] at hb

/-- **What a consumer sees does not depend on the schedule.** Whatever the cursor does, whatever the
two sizes are, whichever calls are made and whichever side moves when:

* between two calls, the answers so far and the status are those of the reference;
* the rows handed out are the first rows of the outcome, in order, and all of them once the query
  has completed or failed;
* both sides together have only so many steps before them until the next call;
* and a state in which neither side has a step is one between two calls, so the call in progress, if
  there is one, is answered however the run goes on. -/
theorem stream_refines_reference {plan : StreamPlan} {calls : List Call} {s : RowStream}
    (h : Reaches plan calls s) :
    (s.isBusy = false → s.answers = (reference plan calls).answers ∧
      s.status = (reference plan calls).reader.status ∧
      handedOut s.answers <+: plan.outcome.rows ∧
      (s.status = .completed ∨ s.status = .failed → handedOut s.answers = plan.outcome.rows)) ∧
    (∃ bound, ∀ k t, Steps k s t → k ≤ bound) ∧
    (∀ k t, Steps k s t → t.workerStep = none → t.consumerStep = none → t.isBusy = false ∧
      t.answers = (reference plan calls).answers ∧
      t.status = (reference plan calls).reader.status) := by
  refine ⟨fun hb => ?_, ⟨s.effort, fun k t hk => hk.length_le⟩, fun k t hk hw hc => ?_⟩
  · have hs := h.settled hb
    have hrows := reference_rows plan calls
    refine ⟨hs.answers, hs.status, ?_, fun hover => ?_⟩
    · rw [hs.answers]
      exact ⟨_, hrows⟩
    · rw [reference_spent plan calls (hs.status ▸ hover), List.append_nil] at hrows
      rw [hs.answers]
      exact hrows
  · have hreach := h.steps hk
    have hb : t.isBusy = false := by
      cases hb : t.isBusy with
      | false => rfl
      | true =>
        rcases hreach.progress hb with ⟨t', ht'⟩ | ⟨t', ht'⟩
        · rw [hw] at ht'; cases ht'
        · rw [hc] at ht'; cases ht'
    have hs := hreach.settled hb
    exact ⟨hb, hs.answers, hs.status⟩

/-- Two rows in a batch and then an error, with room for one row in the queue. -/
def twoRowsThenFault : StreamPlan where
  decoder := ⟨["n"], [.integer]⟩
  opening := .opened
    ⟨[[.obj [("n", .int 1)], .obj [("n", .int 2)]]], .failed (.traversal "gone"), .orderly⟩
  pageSize := 1
  fetchSize := 2

/-- The second chunk is cut short by the fault. It is handed out all the same, with the query failed
already, and a later stop changes nothing. -/
theorem stream_refines_reference_twoRowsThenFault :
    ∃ s, Reaches twoRowsThenFault [.next 1, .next 5, .cancel, .next 1] s ∧ s.isBusy = false ∧
      s.answers = [.page [⟨["n"], [.long 1]⟩], .page [⟨["n"], [.long 2]⟩], .cancelled,
        .failed (.traversal "gone")] ∧ s.status = .failed := by
  have h : Reaches twoRowsThenFault [.next 1, .next 5, .cancel, .next 1] _ :=
    (((Reaches.start.perform rfl (.next 1)).perform rfl (.next 5)).perform rfl .cancel).perform rfl
      (.next 1)
  have hs := (stream_refines_reference h).1 rfl
  exact ⟨_, h, rfl, hs.1.trans rfl, hs.2.1.trans rfl⟩

end RowStream
end GraphSelect
