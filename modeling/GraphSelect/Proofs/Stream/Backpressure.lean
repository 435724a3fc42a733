import GraphSelect.Proofs.Stream.Closing
import GraphSelect.Proofs.Stream.Waiting
import Mathlib

/-!
# How far a worker runs ahead

A worker pulls results before anybody has asked for them. What it has pulled and the consumer has
not received is in one of three places: in the queue, which holds a page at most; in the rest of the
batch at hand; or, once the worker has given up, in the rest of the batch that it has given up. In
the first two cases nothing is lost, so that the account is exact (`Accounted`), and a worker with
no batch at hand has sent all that it has pulled. As no batch is longer than what was asked for, a
page and a batch are the most that can be on the way.

The account is kept in terms of rows that were put into the queue. The consumer moves them from the
queue to those received and cannot change their number, so all the work is in the moves of the
worker.
-/

set_option autoImplicit false

namespace GraphSelect

/-- No batch that is still to come has more than `n` results. -/
def Cursor.AtMost (cursor : Cursor) (n : Nat) : Prop :=
  ∀ batch ∈ cursor.batches, batch.length ≤ n

/-- The cursor never returns more results than are asked for. -/
def StreamPlan.Obliging (p : StreamPlan) : Prop :=
  ∀ cursor, p.opening = .opened cursor → cursor.AtMost p.batchLength

namespace RowStream

/-! ## Counting -/

/-- How many results the cursor has returned. -/
def pulled (s : RowStream) : Nat :=
  (s.pulls.map Prod.snd).sum

/-- How many rows have been put into the queue: each is still there, or it has been taken out. -/
def sentRows (s : RowStream) : Nat :=
  s.taken + s.queuedRows

/-- How often a row is put into the queue in a log. -/
def rowsSent (log : List WorkerEvent) : Nat :=
  log.countP fun e => match e with
    | .sent d => isRow d
    | _ => false

theorem queuedRows_eq (s : RowStream) : s.queuedRows = s.queue.countP isRow := by
  unfold queuedRows
  congr 1

theorem queuedRows_le (s : RowStream) : s.queuedRows ≤ s.queue.length :=
  List.countP_le_length

theorem rowsSent_append (log log' : List WorkerEvent) :
    rowsSent (log ++ log') = rowsSent log + rowsSent log' :=
  List.countP_append

/-! ## The account of a worker -/

/-- What a worker in some phase has pulled, in terms of what it has sent. -/
def Accounted (s : RowStream) : Phase → Prop
  | .opening => s.pulled = s.sentRows
  | .checking cursor | .pulling cursor =>
    s.pulled = s.sentRows ∧ cursor.AtMost s.plan.batchLength
  | .decoding batch cursor =>
    s.pulled = s.sentRows + batch.length ∧ batch.length ≤ s.plan.batchLength ∧
      cursor.AtMost s.plan.batchLength
  | .sending _ batch cursor =>
    s.pulled = s.sentRows + (batch.length + 1) ∧ batch.length + 1 ≤ s.plan.batchLength ∧
      cursor.AtMost s.plan.batchLength
  -- Of the last batch, a part may have been given up.
  | .closing _ _ | .reporting _ | .leaving | .gone =>
    s.pulled ≤ s.sentRows + s.plan.batchLength

/-- In every phase, what is not sent fits into one batch. -/
theorem Accounted.pulled_le {s : RowStream} {phase : Phase} (h : s.Accounted phase) :
    s.pulled ≤ s.sentRows + s.plan.batchLength := by
  cases phase with
  | opening =>
    have hsent : s.pulled = s.sentRows := h
    omega
  | checking cursor | pulling cursor =>
    obtain ⟨hsent, -⟩ := h
    omega
  | decoding batch cursor | sending row batch cursor =>
    obtain ⟨hsent, hbatch, -⟩ := h
    omega
  | closing report cursor | reporting report | leaving | gone => exact h

/-- The account depends on what was pulled and sent, and on the plan. -/
theorem Accounted.congr {s s' : RowStream} {phase : Phase} (h : s.Accounted phase)
    (hplan : s'.plan = s.plan) (hpulled : s'.pulled = s.pulled) (hsent : s'.sentRows = s.sentRows) :
    s'.Accounted phase := by
  cases phase <;> simpa only [Accounted, hplan, hpulled, hsent] using h

section

variable {s s' : RowStream}

theorem pulled_notePull (s : RowStream) (length : Nat) :
    (s.noteAsk.notePull length).pulled = s.pulled + length := by
  simp [pulled, notePull, noteAsk]

/-- **The worker keeps its account.** A batch is entered with its length when it comes, and a row is
struck off when it is sent. -/
theorem WorkerMove.accounted (h : WorkerMove s s') (hob : s.plan.Obliging)
    (ha : s.Accounted s.phase) : s'.Accounted s'.phase := by
  have hle := ha.pulled_le
  cases h with
  | opened hp ho =>
    rw [hp] at ha
    exact ⟨ha, hob _ ho⟩
  | refused hp ho | openingCrashed hp ho => exact hle
  | stopped hp hr | undecodable hp hd | unsent hp hc => exact hle
  | passed hp hr =>
    rw [hp] at ha
    exact ha
  | pulledNothing hp hd =>
    show (s.noteAsk.notePull 0).pulled ≤ s.sentRows + s.plan.batchLength
    rw [pulled_notePull]
    exact hle
  | pulledFault hp hb he | crashed hp hb he => exact hle
  | @pulledBatch cursor raw batch batches hp hb =>
    rw [hp] at ha
    obtain ⟨hsent, hcursor⟩ := ha
    have hpulled := pulled_notePull s (batch.length + 1)
    refine ⟨?_, ?_, ?_⟩
    · exact hpulled.trans (by rw [hsent]; rfl)
    · exact hcursor (raw :: batch) (by rw [hb]; exact List.mem_cons_self)
    · intro other hother
      exact hcursor other (by rw [hb]; exact List.mem_cons_of_mem _ hother)
  | emptied hp =>
    rw [hp] at ha
    obtain ⟨hsent, -, hcursor⟩ := ha
    exact ⟨hsent, hcursor⟩
  | decoded hp hd =>
    rw [hp] at ha
    exact ha
  | @sent row batch cursor hp hc hr =>
    rw [hp] at ha
    obtain ⟨hsent, hbatch, hcursor⟩ := ha
    have hrows : ({ s with queue := s.queue ++ [.row row], phase := .decoding batch cursor } :
        RowStream).sentRows = s.sentRows + 1 := by
      simp only [sentRows, queuedRows_eq, List.countP_append]
      rfl
    refine ⟨?_, Nat.le_of_succ_le hbatch, hcursor⟩
    rw [hrows]
    show s.pulled = _
    omega
  | closed hp _ | closedSilently hp _ | closingCrashed hp _ | unreported hp _ | left hp => exact hle
  | @reported d hp hc hr =>
    have hrows : s.sentRows ≤ ({ s with queue := s.queue ++ [d], phase := .leaving } :
        RowStream).sentRows := by
      simp only [sentRows, queuedRows_eq, List.countP_append]
      omega
    exact Nat.le_trans hle (Nat.add_le_add_right hrows _)

/-- Only a worker that is about to pull asks for anything, and it asks for one batch. -/
theorem WorkerMove.asks_cases (h : WorkerMove s s') :
    s'.asks = s.asks ∨
      (∃ cursor, s.phase = .pulling cursor) ∧ s'.asks = s.asks ++ [s.plan.batchLength] := by
  cases h with
  | pulledNothing hp _ | pulledFault hp _ _ | crashed hp _ _ | pulledBatch hp _ =>
    exact .inr ⟨⟨_, hp⟩, rfl⟩
  | _ => exact .inl rfl

/-- Nothing is put into a queue without room. -/
theorem WorkerMove.queue_le (h : WorkerMove s s') (hq : s.queue.length ≤ s.plan.capacity) :
    s'.queue.length ≤ s'.plan.capacity := by
  cases h with
  | sent _ _ hr | reported _ _ hr =>
    simp only [hasRoom, decide_eq_true_eq] at hr
    simp only [List.length_append, List.length_singleton]
    omega
  | _ => exact hq

/-- A log counts the calls of the cursor and the rows that were sent. -/
theorem WorkerMove.counted (h : WorkerMove s s') :
    s'.asks.length = s.asks.length + s.event?.toList.count .asked ∧
      s'.sentRows = s.sentRows + rowsSent s.event?.toList := by
  cases h with
  | opened hp ho | refused hp ho | openingCrashed hp ho =>
    simp [event?, hp, ho, sentRows, queuedRows, rowsSent]
  | unsent hp hc | unreported hp hc => simp [event?, hp, hc, sentRows, queuedRows, rowsSent]
  | sent hp hc _ | reported hp hc _ =>
    simp [event?, hp, hc, sentRows, queuedRows_eq, rowsSent, List.countP_cons]
    omega
  | pulledNothing hp _ | pulledBatch hp _ | pulledFault hp _ _ | crashed hp _ _ =>
    simp [event?, noteAsk, notePull, hp, sentRows, queuedRows, rowsSent]
  | stopped hp _ | passed hp _ | emptied hp | decoded hp _ | undecodable hp _ | left hp
  | closed hp _ | closedSilently hp _ | closingCrashed hp _ =>
    simp [event?, hp, sentRows, queuedRows, rowsSent]

end

/-! ## The consumer -/

/-- What the consumer leaves as it is: the cursor's side of the account, and how many rows were
sent. A row that it takes, or throws away with the queue, counts as received from then on. -/
theorem ConsumerMove.account {s s' : RowStream} (h : ConsumerMove s s') :
    s'.asks = s.asks ∧ s'.pulls = s.pulls ∧ s'.sentRows = s.sentRows ∧
      s'.queue.length ≤ s.queue.length := by
  cases h with
  | filled | requested | shut | joined => exact ⟨rfl, rfl, rfl, Nat.le_refl _⟩
  | took _ _ hq =>
    refine ⟨rfl, rfl, ?_, ?_⟩
    · simp only [sentRows, queuedRows_eq, hq, List.countP_cons, isRow, ↓reduceIte]
      omega
    · simp [hq]
  | ended _ _ hq | faulted _ _ hq =>
    refine ⟨rfl, rfl, ?_, ?_⟩
    · simp [sentRows, queuedRows_eq, failWith, hq, isRow]
    · simp [failWith, hq]
  | lost => exact ⟨rfl, rfl, rfl, Nat.le_refl _⟩
  | drained => exact ⟨rfl, rfl, rfl, Nat.zero_le _⟩

theorem begin_account (s : RowStream) (c : Call) :
    (s.begin c).asks = s.asks ∧ (s.begin c).pulls = s.pulls ∧
      (s.begin c).sentRows = s.sentRows ∧ (s.begin c).queue.length ≤ s.queue.length := by
  cases c with
  | next n =>
    unfold RowStream.begin
    cases s.status <;> exact ⟨rfl, rfl, rfl, Nat.le_refl _⟩
  | cancel | drop =>
    unfold RowStream.begin
    cases s.status.isTerminal <;> exact ⟨rfl, rfl, rfl, Nat.le_refl _⟩

/-! ## Runs -/

/-- What holds in every state of a query whose cursor is obliging. -/
structure Balanced (s : RowStream) : Prop where
  queue : s.queue.length ≤ s.plan.capacity
  asks : ∀ n ∈ s.asks, n = s.plan.batchLength
  accounted : s.Accounted s.phase

theorem Balanced.start (plan : StreamPlan) : (start plan).Balanced :=
  ⟨Nat.zero_le _, fun _ hn => absurd hn List.not_mem_nil, rfl⟩

theorem WorkerMove.balanced {s s' : RowStream} (h : WorkerMove s s') (hob : s.plan.Obliging)
    (hb : s.Balanced) : s'.Balanced := by
  refine ⟨h.queue_le hb.queue, ?_, h.accounted hob hb.accounted⟩
  intro n hn
  rw [h.frame.1]
  rcases h.asks_cases with hasks | ⟨-, hasks⟩
  · exact hb.asks n (hasks ▸ hn)
  · rw [hasks, List.mem_append, List.mem_singleton] at hn
    rcases hn with hn | hn
    · exact hb.asks n hn
    · exact hn

/-- A step that leaves the account of the worker as it is. -/
theorem Balanced.of_account {s s' : RowStream} (hb : s.Balanced) (hplan : s'.plan = s.plan)
    (hphase : s'.phase = s.phase)
    (ha : s'.asks = s.asks ∧ s'.pulls = s.pulls ∧ s'.sentRows = s.sentRows ∧
      s'.queue.length ≤ s.queue.length) : s'.Balanced := by
  obtain ⟨hasks, hpulls, hsent, hqueue⟩ := ha
  have hpulled : s'.pulled = s.pulled := by rw [pulled, pulled, hpulls]
  refine ⟨?_, ?_, ?_⟩
  · rw [hplan]
    exact Nat.le_trans hqueue hb.queue
  · rw [hplan, hasks]
    exact hb.asks
  · rw [hphase]
    exact hb.accounted.congr hplan hpulled hsent

theorem Reaches.balanced {plan : StreamPlan} {calls : List Call} {s : RowStream}
    (h : Reaches plan calls s) (hob : plan.Obliging) : s.plan = plan ∧ s.Balanced := by
  induction h with
  | start => exact ⟨rfl, .start plan⟩
  | worker _ hs ih =>
    obtain ⟨hplan, hb⟩ := ih
    have hmove := workerStep_cases hs
    exact ⟨hmove.frame.1.trans hplan, hmove.balanced (hplan ▸ hob) hb⟩
  | consumer _ hs ih =>
    obtain ⟨hplan, hb⟩ := ih
    have hmove := consumerStep_cases hs
    obtain ⟨hsame, hphase, -, -⟩ := hmove.frame
    exact ⟨hsame.trans hplan, hb.of_account hsame hphase hmove.account⟩
  | @call _ s _ _ c ih =>
    obtain ⟨hplan, hb⟩ := ih
    obtain ⟨hsame, hphase, -, -⟩ := begin_frame s c
    exact ⟨hsame.trans hplan, hb.of_account hsame hphase (begin_account s c)⟩

/-- A log says how often the cursor was called, and how many rows were sent. -/
theorem Logged.counted {plan : StreamPlan} {calls : List Call} {log : List WorkerEvent}
    {s : RowStream} (h : Logged plan calls log s) :
    s.asks.length = log.count .asked ∧ s.sentRows = rowsSent log := by
  induction h with
  | start => exact ⟨rfl, rfl⟩
  | worker _ hs ih =>
    obtain ⟨hasks, hsent⟩ := (workerStep_cases hs).counted
    rw [hasks, hsent, ih.1, ih.2, List.count_append, rowsSent_append]
    exact ⟨rfl, rfl⟩
  | consumer _ hs ih =>
    obtain ⟨hasks, -, hsent, -⟩ := (consumerStep_cases hs).account
    rw [hasks, hsent]
    exact ih
  | @call _ _ s _ _ c ih =>
    obtain ⟨hasks, -, hsent, -⟩ := begin_account s c
    rw [hasks, hsent]
    exact ih

/-- Where a batch is asked for, all that was pulled before has been sent. -/
theorem Balanced.pulled_eq_of_asking {s s' : RowStream} (hb : s.Balanced)
    (hs : s.workerStep = some s') (hasks : s'.asks ≠ s.asks) : s.pulled = s.sentRows := by
  rcases (workerStep_cases hs).asks_cases with hsame | ⟨⟨cursor, hp⟩, -⟩
  · exact absurd hsame hasks
  · have haccount := hb.accounted
    rw [hp] at haccount
    exact haccount.1

/-- **A worker is at most a page and a batch ahead.** Let the sizes be positive and the cursor
return no more than it is asked for. Then in every state that some calls lead to, in every
interleaving:

* the queue holds at most a page;
* every call of the cursor has asked for one batch, and these are all calls that the worker has
  made;
* the results pulled exceed the rows received, or thrown away with the queue, by at most a page and
  a batch;
* and if the next step of the worker is a call of the cursor, then the worker has sent as many rows
  as it has pulled results: none of the batch before is left. -/
theorem pulled_within_page_and_batch {plan : StreamPlan} {calls : List Call} {s : RowStream}
    (hpage : 1 ≤ plan.pageSize) (hfetch : 1 ≤ plan.fetchSize) (hob : plan.Obliging)
    (h : Reaches plan calls s) :
    s.queue.length ≤ plan.pageSize ∧
    (∀ n ∈ s.asks, n = plan.fetchSize) ∧
    s.pulled ≤ s.taken + (plan.pageSize + plan.fetchSize) ∧
    (∃ log, Logged plan calls log s) ∧
    ∀ log, Logged plan calls log s →
      s.asks.length = log.count .asked ∧
      ∀ s', s.workerStep = some s' → s'.asks ≠ s.asks → rowsSent log = s.pulled := by
  obtain ⟨rfl, hb⟩ := h.balanced hob
  have hcapacity : s.plan.capacity = s.plan.pageSize := Nat.max_eq_left hpage
  have hbatch : s.plan.batchLength = s.plan.fetchSize := Nat.max_eq_left hfetch
  have hqueue := hb.queue
  rw [hcapacity] at hqueue
  refine ⟨hqueue, hbatch ▸ hb.asks, ?_, h.logged, ?_⟩
  · have hpulled := hb.accounted.pulled_le
    rw [hbatch] at hpulled
    have hqueued := s.queuedRows_le
    unfold sentRows at hpulled
    omega
  · intro log hlog
    obtain ⟨hasks, hsent⟩ := hlog.counted
    refine ⟨hasks, ?_⟩
    intro s' hs hne
    rw [← hsent, hb.pulled_eq_of_asking hs hne]

/-- A batch that is short and one that is not, with pages of two rows. -/
def shortThenFull : StreamPlan where
  decoder := ⟨["n"], [.integer]⟩
  opening := .opened ⟨[[.obj [("n", .int 1)], .obj [("n", .int 2)]],
    [.obj [("n", .int 3)], .obj [("n", .int 4)], .obj [("n", .int 5)]]], .exhausted, .orderly⟩
  pageSize := 2
  fetchSize := 3

/-- The bound is met: nobody has received anything, the first batch fills the queue, and of the
second one the worker has sent nothing. -/
theorem pulled_within_page_and_batch_shortThenFull :
    shortThenFull.Obliging ∧ ∃ s, Reaches shortThenFull [] s ∧ s.WaitsForRoom ∧
      s.queue.length = 2 ∧ s.asks = [3, 3] ∧ s.taken = 0 ∧ s.pulled = 5 ∧
      s.pulled ≤ s.taken + (shortThenFull.pageSize + shortThenFull.fetchSize) := by
  have hob : shortThenFull.Obliging := by
    intro cursor hcursor
    cases hcursor
    intro batch hbatch
    simp only [List.mem_cons, List.not_mem_nil, or_false] at hbatch
    rcases hbatch with rfl | rfl <;> decide
  have hfull : Reaches shortThenFull [] _ := Reaches.start.work 11
  obtain ⟨-, -, hpulled, -⟩ := pulled_within_page_and_batch (by decide) (by decide) hob hfull
  exact ⟨hob, _, hfull, ⟨rfl, rfl, .inl ⟨_, _, _, rfl⟩⟩, rfl, rfl, rfl, rfl, hpulled⟩

end RowStream
end GraphSelect
