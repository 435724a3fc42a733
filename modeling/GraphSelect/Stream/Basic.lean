import GraphSelect.Stream.Cursor

/-!
# Streaming rows

A query runs on a worker of its own. The worker pulls batches from the cursor, decodes the results
one by one and puts the rows into a queue that holds at most one page; it waits while the queue is
full. The consumer takes rows out of the queue, a chunk for each call, and waits while the queue is
empty.

Worker and consumer share the queue and two flags: a request to stop, which the worker looks at
before each batch, and the closing of the queue, after which nothing can be put into it. When the
worker stops, for whatever reason, it closes its cursor first, then puts a mark of the end or of
the fault into the queue, and then leaves. A worker that breaks down in a call of the executor or
of the cursor leaves without a mark. The consumer waits for the worker to leave before a call
returns in which the query has ended.

The state of both sides is a `RowStream`, and each side has a step function. A step is the smallest
part that the other side cannot interrupt. A side that has to wait has no step.
-/

set_option autoImplicit false

namespace GraphSelect

/-- What the worker puts into the queue. -/
inductive Delivery where
  | row (r : Row)
  | fault (f : Fault)
  | exhausted
deriving DecidableEq

/-- How far a query has got, as the consumer sees it. -/
inductive Status where
  | running
  | completed
  | failed
  | cancelled
deriving DecidableEq

/-- Whether nothing more will come. -/
def Status.isTerminal : Status → Bool
  | .running => false
  | _ => true

def Status.name : Status → String
  | .running => "running"
  | .completed => "completed"
  | .failed => "failed"
  | .cancelled => "cancelled"

/-- What the worker is about to do. -/
inductive Phase where
  -- To open the traversal.
  | opening
  -- To look for a request to stop.
  | checking (cursor : Cursor)
  -- To pull a batch.
  | pulling (cursor : Cursor)
  -- To decode the next result of the batch.
  | decoding (batch : List Json) (cursor : Cursor)
  -- To put a row into the queue.
  | sending (row : Row) (batch : List Json) (cursor : Cursor)
  -- To close the cursor, and to report afterwards.
  | closing (report : Option Delivery) (cursor : Cursor)
  -- To put the report into the queue.
  | reporting (report : Delivery)
  | leaving
  -- Nothing: it has left.
  | gone

/-- What the consumer is told by a call. -/
inductive Answer where
  | page (rows : List Row)
  | finished
  | failed (fault : Fault)
  -- The query is stopped, if it was not over.
  | cancelled
  -- The stream is given up.
  | dropped

/-- What the consumer is doing. -/
inductive Task where
  | idle
  | receiving (wanted : Nat) (rows : List Row)
  -- About to ask the worker to stop.
  | requesting (answer : Answer)
  -- About to close the queue.
  | shutting (answer : Answer)
  -- About to empty the queue.
  | draining (answer : Answer)
  -- Waiting for the worker to leave.
  | joining (answer : Answer)
  -- Nothing any more: it has given up the stream.
  | left

/-- What is fixed for a stream: the columns, what opening the traversal gives, and the two sizes. -/
structure StreamPlan where
  decoder : RowDecoder
  opening : Opening
  pageSize : Nat
  fetchSize : Nat

/-- How many deliveries the queue holds. -/
def StreamPlan.capacity (p : StreamPlan) : Nat :=
  max p.pageSize 1

/-- How many results are asked for at once. -/
def StreamPlan.batchLength (p : StreamPlan) : Nat :=
  max p.fetchSize 1

/-- The state of a worker and its consumer. -/
structure RowStream where
  plan : StreamPlan
  queue : List Delivery
  stopRequested : Bool
  queueClosed : Bool
  phase : Phase
  -- How often a traversal was opened, or tried to be.
  opens : Nat
  -- How often a cursor was closed.
  closes : Nat
  -- How many results each call of a cursor has asked for.
  asks : List Nat
  -- For each batch that the cursor returned, how many results were asked for and how many came.
  pulls : List (Nat × Nat)
  task : Task
  status : Status
  fault : Option Fault
  -- How many rows have been taken out of the queue.
  taken : Nat
  -- The answers to all calls so far, in order.
  answers : List Answer

namespace RowStream

def start (plan : StreamPlan) : RowStream :=
  { plan := plan
    queue := []
    stopRequested := false
    queueClosed := false
    phase := .opening
    opens := 0
    closes := 0
    asks := []
    pulls := []
    task := .idle
    status := .running
    fault := none
    taken := 0
    answers := [] }

def hasRoom (s : RowStream) : Bool :=
  s.queue.length < s.plan.capacity

/-- Notes that a batch is asked for, whatever comes of it. -/
def noteAsk (s : RowStream) : RowStream :=
  { s with asks := s.asks ++ [s.plan.batchLength] }

/-- Notes a batch of the given length. -/
def notePull (s : RowStream) (length : Nat) : RowStream :=
  { s with pulls := s.pulls ++ [(s.plan.batchLength, length)] }

/-! ## The worker -/

/-- What is left to do once a cursor has been closed. A report is lost if that call breaks down. -/
def afterClosing (cursor : Cursor) (report : Option Delivery) : Phase :=
  match cursor.closing, report with
  | .orderly, some d => .reporting d
  | .orderly, none => .leaving
  | .crashed, _ => .leaving

def pull (s : RowStream) (cursor : Cursor) : RowStream :=
  match cursor.batches with
  | [] =>
    match cursor.ending with
    | .exhausted => { s.notePull 0 with phase := .closing (some .exhausted) cursor }
    | .failed f => { s with phase := .closing (some (.fault f)) cursor }
    | .crashed => { s with phase := .closing none cursor }
  | [] :: _ => { s.notePull 0 with phase := .closing (some .exhausted) cursor }
  | (raw :: batch) :: batches =>
    { s.notePull (batch.length + 1) with
      phase := .decoding (raw :: batch) { cursor with batches := batches } }

/-- One step of the worker, unless it has to wait or has left. -/
def workerStep (s : RowStream) : Option RowStream :=
  match s.phase with
  | .opening =>
    let s := { s with opens := s.opens + 1 }
    match s.plan.opening with
    | .opened cursor => some { s with phase := .checking cursor }
    | .refused f => some { s with phase := .reporting (.fault f) }
    | .crashed => some { s with phase := .leaving }
  | .checking cursor =>
    some { s with phase := if s.stopRequested then .closing none cursor else .pulling cursor }
  | .pulling cursor => some (s.noteAsk.pull cursor)
  | .decoding [] cursor => some { s with phase := .checking cursor }
  | .decoding (raw :: batch) cursor =>
    match s.plan.decoder.decode raw with
    | .ok row => some { s with phase := .sending row batch cursor }
    | .error f => some { s with phase := .closing (some (.fault f)) cursor }
  | .sending row batch cursor =>
    if s.queueClosed then some { s with phase := .closing none cursor }
    else if s.hasRoom then
      some { s with queue := s.queue ++ [.row row], phase := .decoding batch cursor }
    else none
  | .closing report cursor =>
    some { s with closes := s.closes + 1, phase := afterClosing cursor report }
  | .reporting d =>
    if s.queueClosed then some { s with phase := .leaving }
    else if s.hasRoom then some { s with queue := s.queue ++ [d], phase := .leaving }
    else none
  | .leaving => some { s with phase := .gone }
  | .gone => none

def workerGone (s : RowStream) : Bool :=
  match s.phase with
  | .gone => true
  | _ => false

/-! ## The consumer -/

inductive Call where
  -- At most this many rows; at least one is waited for.
  | next (rows : Nat)
  | cancel
  -- To give up the stream, which stops the query.
  | drop

/-- The call in progress is answered. -/
def reply (s : RowStream) (a : Answer) : RowStream :=
  { s with
    answers := s.answers ++ [a]
    task := match a with
      | .dropped => .left
      | _ => .idle }

/-- Rows that have been collected, or what is said instead if there are none. -/
def pageOr (rows : List Row) (otherwise : Answer) : Answer :=
  if rows.isEmpty then otherwise else .page rows

/-- A call starts. It is answered at once where nothing has to be waited for. -/
def begin (s : RowStream) : Call → RowStream
  | .next n =>
    match s.status with
    | .running => { s with task := .receiving (max n 1) [] }
    | .failed => s.reply (.failed (s.fault.getD .workerLost))
    | _ => s.reply .finished
  | .cancel =>
    if s.status.isTerminal then s.reply .cancelled
    else { s with task := .requesting .cancelled }
  | .drop =>
    if s.status.isTerminal then s.reply .dropped
    else { s with task := .requesting .dropped }

/-- The query has failed while rows were collected. -/
def failWith (s : RowStream) (rows : List Row) (f : Fault) : RowStream :=
  { s with fault := some f, status := .failed, task := .joining (pageOr rows (.failed f)) }

def queuedRows (s : RowStream) : Nat :=
  s.queue.countP fun d => match d with
    | .row _ => true
    | _ => false

/-- One step of the consumer, unless it has to wait or has nothing to do. -/
def consumerStep (s : RowStream) : Option RowStream :=
  match s.task with
  | .idle => none
  | .receiving wanted rows =>
    if wanted ≤ rows.length then some (s.reply (.page rows))
    else match s.queue with
      | .row r :: rest =>
        some { s with queue := rest, taken := s.taken + 1, task := .receiving wanted (rows ++ [r]) }
      | .exhausted :: rest =>
        some { s with
          queue := rest
          status := .completed
          task := .joining (pageOr rows .finished) }
      | .fault f :: rest => some (failWith { s with queue := rest } rows f)
      | [] => if s.workerGone then some (s.failWith rows .workerLost) else none
  | .requesting a => some { s with stopRequested := true, task := .shutting a }
  | .shutting a => some { s with queueClosed := true, task := .draining a }
  | .draining a =>
    some { s with
      taken := s.taken + s.queuedRows
      queue := []
      status := .cancelled
      task := .joining a }
  | .joining a => if s.workerGone then some (s.reply a) else none
  | .left => none

end RowStream

end GraphSelect
