import GraphSelect.Proofs.Stream.Progress
import Mathlib.Data.List.Basic

/-!
# The cursor is closed once, and in time

A worker that has opened a traversal owes its cursor a call that closes it. There are six ways out of
its loop, and on each of them the debt is paid before anybody can learn that the query is over:
before the mark of the end or of a fault is in the queue, before the worker has left, and so before
any call returns that ends the query.

`Logged` is every interleaving once more, with a log of what the worker has done so far. The calls in
the log that concern the cursor are always a beginning of one script: the traversal is opened, some
batches are asked for, the cursor is closed. How far the script has been followed can be read off the
phase of the worker, and that is the invariant.
-/

set_option autoImplicit false

namespace GraphSelect
namespace RowStream

/-! ## The log of a run -/

/-- What a worker does, as far as its cursor and its end of the queue are concerned. -/
inductive WorkerEvent where
  -- The traversal is opened, and there is a cursor.
  | opened
  -- The traversal cannot be opened: there is an error, or the call breaks down.
  | refused
  -- The cursor is asked for a batch.
  | asked
  -- The call that closes the cursor is made, whether it breaks down or not.
  | closed
  -- Something is put into the queue.
  | sent (d : Delivery)
  -- The worker gives up its end of the queue.
  | left
deriving DecidableEq

/-- What the next step of the worker does. -/
def event? (s : RowStream) : Option WorkerEvent :=
  match s.phase with
  | .opening =>
    match s.plan.opening with
    | .opened _ => some .opened
    | .refused _ | .crashed => some .refused
  | .pulling _ => some .asked
  | .sending row _ _ => if s.queueClosed then none else some (.sent (.row row))
  | .closing _ _ => some .closed
  | .reporting d => if s.queueClosed then none else some (.sent d)
  | .leaving => some .left
  | _ => none

/-- The states that a query can be in after the given calls were made, with all that the worker has
done until then. -/
inductive Logged (plan : StreamPlan) : List Call → List WorkerEvent → RowStream → Prop where
  | start : Logged plan [] [] (start plan)
  | worker {calls : List Call} {log : List WorkerEvent} {s s' : RowStream}
      (h : Logged plan calls log s) (hs : s.workerStep = some s') :
      Logged plan calls (log ++ s.event?.toList) s'
  | consumer {calls : List Call} {log : List WorkerEvent} {s s' : RowStream}
      (h : Logged plan calls log s) (hs : s.consumerStep = some s') : Logged plan calls log s'
  | call {calls : List Call} {log : List WorkerEvent} {s : RowStream} (h : Logged plan calls log s)
      (hi : s.task = .idle) (c : Call) : Logged plan (calls ++ [c]) log (s.begin c)

/-- Every interleaving has a log. -/
theorem Reaches.logged {plan : StreamPlan} {calls : List Call} {s : RowStream}
    (h : Reaches plan calls s) : ∃ log, Logged plan calls log s := by
  induction h with
  | start => exact ⟨[], .start⟩
  | worker _ hs ih =>
    obtain ⟨log, hlog⟩ := ih
    exact ⟨_, hlog.worker hs⟩
  | consumer _ hs ih =>
    obtain ⟨log, hlog⟩ := ih
    exact ⟨log, hlog.consumer hs⟩
  | call _ hi c ih =>
    obtain ⟨log, hlog⟩ := ih
    exact ⟨log, hlog.call hi c⟩

theorem Logged.reaches {plan : StreamPlan} {calls : List Call} {log : List WorkerEvent}
    {s : RowStream} (h : Logged plan calls log s) : Reaches plan calls s := by
  induction h with
  | start => exact .start
  | worker _ hs ih => exact ih.worker hs
  | consumer _ hs ih => exact ih.consumer hs
  | call _ hi c ih => exact ih.call hi c

/-! ## The script of a cursor -/

/-- Whether an event is a call on the executor or on its cursor. -/
def WorkerEvent.isCursorCall : WorkerEvent → Bool
  | .sent _ => false
  | .left => false
  | _ => true

def cursorCalls (log : List WorkerEvent) : List WorkerEvent :=
  log.filter WorkerEvent.isCursorCall

/-- All calls of a worker that asks for `n` batches. -/
def cursorScript (p : StreamPlan) (n : Nat) : List WorkerEvent :=
  match p.opening with
  | .opened _ => .opened :: (List.replicate n .asked ++ [.closed])
  | .refused _ | .crashed => [.refused]

/-- The cursor is open: it has been asked for some batches and has not been closed. -/
def Holding (p : StreamPlan) (calls : List WorkerEvent) : Prop :=
  (∃ cursor, p.opening = .opened cursor) ∧ ∃ n, calls = .opened :: List.replicate n .asked

/-- Which calls a worker has made that is in some phase. -/
def Followed (p : StreamPlan) (calls : List WorkerEvent) : Phase → Prop
  | .opening => calls = []
  | .checking _ | .pulling _ | .decoding _ _ | .sending _ _ _ | .closing _ _ => Holding p calls
  | .reporting _ | .leaving | .gone => ∃ n, calls = cursorScript p n

section

variable {p : StreamPlan} {calls : List WorkerEvent}

theorem Holding.ask (h : Holding p calls) : Holding p (calls ++ [.asked]) := by
  obtain ⟨hopen, n, rfl⟩ := h
  refine ⟨hopen, n + 1, ?_⟩
  rw [List.replicate_succ', List.cons_append]

theorem Holding.close (h : Holding p calls) : ∃ n, calls ++ [.closed] = cursorScript p n := by
  obtain ⟨⟨cursor, hopen⟩, n, rfl⟩ := h
  refine ⟨n, ?_⟩
  simp only [cursorScript, hopen, List.cons_append]

/-- In every phase the calls so far are a beginning of the script. -/
theorem Followed.isPrefix {phase : Phase} (h : Followed p calls phase) :
    ∃ n, calls <+: cursorScript p n := by
  have hholding : Holding p calls → ∃ n, calls <+: cursorScript p n := by
    intro hh
    obtain ⟨n, hn⟩ := hh.close
    exact ⟨n, [.closed], hn⟩
  have hfull : (∃ n, calls = cursorScript p n) → ∃ n, calls <+: cursorScript p n := by
    rintro ⟨n, rfl⟩
    exact ⟨n, List.prefix_rfl⟩
  cases phase with
  | opening =>
    rw [show calls = [] from h]
    exact ⟨0, List.nil_prefix⟩
  | checking | pulling | decoding | sending | closing => exact hholding h
  | reporting | leaving | gone => exact hfull h

theorem cursorScript_count_opens (p : StreamPlan) (n : Nat) :
    (cursorScript p n).count .opened + (cursorScript p n).count .refused = 1 := by
  unfold cursorScript
  cases p.opening with
  | opened cursor => simp [List.count_replicate]
  | refused f | crashed => simp

theorem cursorScript_count_closed (p : StreamPlan) (n : Nat) :
    (cursorScript p n).count .closed ≤ 1 := by
  unfold cursorScript
  cases p.opening with
  | opened cursor => simp [List.count_replicate]
  | refused f | crashed => simp

/-- In the script nothing is asked for after the cursor is closed. -/
theorem cursorScript_pairwise (p : StreamPlan) (n : Nat) :
    (cursorScript p n).Pairwise fun a b => a = .closed → b ≠ .asked := by
  unfold cursorScript
  cases p.opening with
  | opened cursor => simp [List.pairwise_append, List.pairwise_replicate]
  | refused f | crashed => simp

/-- The whole script closes what it opens. -/
theorem closed_mem_cursorScript (p : StreamPlan) (n : Nat) (h : .opened ∈ cursorScript p n) :
    .closed ∈ cursorScript p n := by
  unfold cursorScript at h ⊢
  cases hopen : p.opening with
  | opened cursor => simp
  | refused f | crashed => simp [hopen] at h

end

section

variable {p : StreamPlan} {log : List WorkerEvent} {phase : Phase}

theorem mem_cursorCalls {e : WorkerEvent} (he : e.isCursorCall = true) :
    e ∈ cursorCalls log ↔ e ∈ log := by
  simp [cursorCalls, List.mem_filter, he]

/-- Calls are no more often in the log than in the script. -/
theorem count_le_of_isPrefix {n : Nat} (h : cursorCalls log <+: cursorScript p n) {e : WorkerEvent}
    (he : e.isCursorCall = true) : log.count e ≤ (cursorScript p n).count e := by
  rw [← List.count_filter (l := log) he]
  exact h.sublist.count_le e

theorem Followed.count_opens_le (h : Followed p (cursorCalls log) phase) :
    log.count .opened + log.count .refused ≤ 1 := by
  obtain ⟨n, hn⟩ := h.isPrefix
  have hopened := count_le_of_isPrefix hn (e := .opened) rfl
  have hrefused := count_le_of_isPrefix hn (e := .refused) rfl
  have hscript := cursorScript_count_opens p n
  omega

theorem Followed.count_closed_le (h : Followed p (cursorCalls log) phase) :
    log.count .closed ≤ 1 := by
  obtain ⟨n, hn⟩ := h.isPrefix
  exact Nat.le_trans (count_le_of_isPrefix hn (e := .closed) rfl) (cursorScript_count_closed p n)

/-- Without a cursor there is nothing to close. -/
theorem Followed.not_closed_of_not_opened (h : Followed p (cursorCalls log) phase)
    (ho : ∀ cursor, p.opening ≠ .opened cursor) : .closed ∉ log := by
  intro hmem
  obtain ⟨n, hn⟩ := h.isPrefix
  have hclosed := hn.subset ((mem_cursorCalls rfl).2 hmem)
  cases hopen : p.opening with
  | opened cursor => exact ho cursor hopen
  | refused f | crashed => simp [cursorScript, hopen] at hclosed

theorem Followed.pairwise (h : Followed p (cursorCalls log) phase) :
    log.Pairwise fun a b => a = .closed → b ≠ .asked := by
  obtain ⟨n, hn⟩ := h.isPrefix
  have hcalls := (cursorScript_pairwise p n).sublist hn.sublist
  refine (List.pairwise_filter.1 hcalls).imp ?_
  rintro a b hab rfl rfl
  exact hab rfl rfl rfl rfl

/-- A worker that has come so far has closed what it has opened. -/
theorem Followed.closed_of_opened (h : Followed p (cursorCalls log) phase)
    (hphase : phase = .leaving ∨ phase = .gone) (hopened : .opened ∈ log) : .closed ∈ log := by
  have hfull : ∃ n, cursorCalls log = cursorScript p n := by
    rcases hphase with rfl | rfl <;> exact h
  obtain ⟨n, hn⟩ := hfull
  have hclosed := closed_mem_cursorScript p n (hn ▸ (mem_cursorCalls rfl).2 hopened)
  exact (mem_cursorCalls rfl).1 (hn ▸ hclosed)

end

/-! ## The log and the state -/

/-- What a log says about the state that it leads to. -/
structure Ledger (log : List WorkerEvent) (s : RowStream) : Prop where
  followed : Followed s.plan (cursorCalls log) s.phase
  -- A mark is the last thing that the worker puts into the queue.
  marked : ∀ d, .sent d ∈ log → isRow d = false → s.Done
  gone : .left ∈ log → s.phase = .gone
  opens : s.opens = log.count .opened + log.count .refused
  closes : s.closes = log.count .closed

theorem Ledger.start (plan : StreamPlan) : Ledger [] (start plan) :=
  ⟨rfl, fun _ hd => absurd hd List.not_mem_nil, fun hl => absurd hl List.not_mem_nil, rfl, rfl⟩

theorem WorkerMove.phase_ne_gone {s s' : RowStream} (h : WorkerMove s s') : s.phase ≠ .gone := by
  cases h <;> simp_all

/-- Each move follows the script by what its event says. -/
theorem WorkerMove.followed {s s' : RowStream} {log : List WorkerEvent} (h : WorkerMove s s')
    (hf : Followed s.plan (cursorCalls log) s.phase) :
    Followed s'.plan (cursorCalls (log ++ s.event?.toList)) s'.phase := by
  unfold cursorCalls at hf ⊢
  rw [List.filter_append]
  -- Only opening, asking and closing are calls; any other move leaves what has been called.
  cases h with
  | opened hp ho =>
    simp only [hp, Followed] at hf
    simp only [event?, hp, ho, hf]
    exact ⟨⟨_, ho⟩, 0, rfl⟩
  | refused hp ho | openingCrashed hp ho =>
    simp only [hp, Followed] at hf
    simp only [event?, hp, ho, hf, Followed, cursorScript]
    exact ⟨0, rfl⟩
  | stopped hp _ | passed hp _ | emptied hp | decoded hp _ | undecodable hp _ =>
    simp only [hp, Followed] at hf
    simpa [event?, hp, Followed] using hf
  | pulledNothing hp _ | pulledFault hp _ _ | crashed hp _ _ | pulledBatch hp _ =>
    simp only [hp, Followed] at hf
    simp only [event?, hp]
    exact hf.ask
  | unsent hp hc | sent hp hc _ =>
    simp only [hp, Followed] at hf
    simpa [event?, hp, hc, WorkerEvent.isCursorCall, Followed] using hf
  | closed hp _ | closedSilently hp _ | closingCrashed hp _ =>
    simp only [hp, Followed] at hf
    simp only [event?, hp]
    exact hf.close
  | unreported hp hc | reported hp hc _ =>
    simp only [hp, Followed] at hf
    simpa [event?, hp, hc, WorkerEvent.isCursorCall, Followed] using hf
  | left hp =>
    simp only [hp, Followed] at hf
    simpa [event?, hp, WorkerEvent.isCursorCall, Followed] using hf

/-- The counters of a stream count the events of their kind. -/
theorem WorkerMove.counts {s s' : RowStream} (h : WorkerMove s s') :
    s'.opens = s.opens + s.event?.toList.count .opened + s.event?.toList.count .refused ∧
      s'.closes = s.closes + s.event?.toList.count .closed := by
  cases h with
  | opened hp ho | refused hp ho | openingCrashed hp ho => simp [event?, hp, ho]
  | unsent hp hc | sent hp hc _ | unreported hp hc | reported hp hc _ => simp [event?, hp, hc]
  | pulledNothing hp _ | pulledBatch hp _ | pulledFault hp _ _ | crashed hp _ _ =>
    simp [event?, noteAsk, notePull, hp]
  | stopped hp _ | passed hp _ | emptied hp | decoded hp _ | undecodable hp _ | left hp
  | closed hp _ | closedSilently hp _ | closingCrashed hp _ => simp [event?, hp]

/-- What a worker sends is a row, unless it is done afterwards, and it leaves only once. -/
theorem WorkerMove.last_events {s s' : RowStream} (h : WorkerMove s s') :
    (∀ d, .sent d ∈ s.event?.toList → isRow d = false → s'.Done) ∧
      (.left ∈ s.event?.toList → s'.phase = .gone) := by
  cases h with
  | opened hp ho | refused hp ho | openingCrashed hp ho => simp [event?, hp, ho]
  | sent hp hc _ => simp [event?, hp, hc, isRow]
  | unsent hp hc | unreported hp hc => simp [event?, hp, hc]
  | reported hp hc _ => simp [event?, hp, hc, Done]
  | stopped hp _ | passed hp _ | emptied hp | decoded hp _ | undecodable hp _ | left hp
  | pulledNothing hp _ | pulledBatch hp _ | pulledFault hp _ _ | crashed hp _ _ | closed hp _
  | closedSilently hp _ | closingCrashed hp _ => simp [event?, hp]

theorem WorkerMove.ledger {s s' : RowStream} {log : List WorkerEvent} (h : WorkerMove s s')
    (hl : Ledger log s) : Ledger (log ++ s.event?.toList) s' := by
  obtain ⟨hopens, hcloses⟩ := h.counts
  obtain ⟨hsent, hleft⟩ := h.last_events
  refine ⟨h.followed hl.followed, ?_, ?_, ?_, ?_⟩
  · intro d hd hr
    rcases List.mem_append.1 hd with hd | hd
    · exact h.done (hl.marked d hd hr)
    · exact hsent d hd hr
  · intro hmem
    rcases List.mem_append.1 hmem with hmem | hmem
    · exact absurd (hl.gone hmem) h.phase_ne_gone
    · exact hleft hmem
  · rw [hopens, hl.opens, List.count_append, List.count_append]
    omega
  · rw [hcloses, hl.closes, List.count_append]

/-- What the consumer never touches: everything that belongs to the worker. -/
theorem ConsumerMove.frame {s s' : RowStream} (h : ConsumerMove s s') :
    s'.plan = s.plan ∧ s'.phase = s.phase ∧ s'.opens = s.opens ∧ s'.closes = s.closes := by
  cases h <;> exact ⟨rfl, rfl, rfl, rfl⟩

theorem begin_frame (s : RowStream) (c : Call) :
    (s.begin c).plan = s.plan ∧ (s.begin c).phase = s.phase ∧ (s.begin c).opens = s.opens ∧
      (s.begin c).closes = s.closes := by
  cases c with
  | next n =>
    unfold RowStream.begin
    cases s.status <;> exact ⟨rfl, rfl, rfl, rfl⟩
  | cancel | drop =>
    unfold RowStream.begin
    cases s.status.isTerminal <;> exact ⟨rfl, rfl, rfl, rfl⟩

theorem Ledger.of_frame {s s' : RowStream} {log : List WorkerEvent} (hl : Ledger log s)
    (hf : s'.plan = s.plan ∧ s'.phase = s.phase ∧ s'.opens = s.opens ∧ s'.closes = s.closes) :
    Ledger log s' := by
  obtain ⟨hplan, hphase, hopens, hcloses⟩ := hf
  refine ⟨?_, ?_, ?_, hopens.trans hl.opens, hcloses.trans hl.closes⟩
  · rw [hplan, hphase]
    exact hl.followed
  · intro d hd hr
    rw [Done, hphase]
    exact hl.marked d hd hr
  · rw [hphase]
    exact hl.gone

theorem Logged.ledger {plan : StreamPlan} {calls : List Call} {log : List WorkerEvent}
    {s : RowStream} (h : Logged plan calls log s) : s.plan = plan ∧ Ledger log s := by
  induction h with
  | start => exact ⟨rfl, .start plan⟩
  | worker _ hs ih =>
    have hmove := workerStep_cases hs
    exact ⟨hmove.frame.1.trans ih.1, hmove.ledger ih.2⟩
  | consumer _ hs ih =>
    have hframe := (consumerStep_cases hs).frame
    exact ⟨hframe.1.trans ih.1, ih.2.of_frame hframe⟩
  | @call _ _ s _ _ c ih =>
    have hframe := begin_frame s c
    exact ⟨hframe.1.trans ih.1, ih.2.of_frame hframe⟩

/-! ## The end of a query -/

/-- A query that is over has been left by its worker, unless the consumer still waits for that. -/
def Over (s : RowStream) : Prop :=
  s.status.isTerminal = true → (∃ a, s.task = .joining a) ∨ s.phase = .gone

theorem ConsumerMove.over {s s' : RowStream} (h : ConsumerMove s s') (ho : s.Over) : s'.Over := by
  have hphase := h.frame.2.1
  -- Where the status stays, it was terminal before, and only one task goes with that.
  have hkept : s'.status = s.status → (∀ a, s.task ≠ .joining a) → s'.Over := by
    intro hstatus htask hover
    rw [hstatus] at hover
    rcases ho hover with ⟨a, ha⟩ | hgone
    · exact absurd ha (htask a)
    · exact .inr (hphase.trans hgone)
  cases h with
  | filled ht _ | took ht _ _ | requested ht | shut ht => exact hkept rfl (by simp [ht])
  | ended | faulted | lost | drained => exact fun _ => .inl ⟨_, rfl⟩
  | joined _ hg => exact fun _ => .inr (hphase.trans hg)

theorem Over.begin {s : RowStream} (ho : s.Over) (hi : s.task = .idle) (c : Call) :
    (s.begin c).Over := by
  obtain ⟨-, hphase, -, -⟩ := begin_frame s c
  have hstatus : (s.begin c).status = s.status := by
    cases c with
    | next n =>
      unfold RowStream.begin
      cases hs : s.status <;> simp [reply, hs]
    | cancel | drop =>
      unfold RowStream.begin
      cases hs : s.status.isTerminal <;> simp [reply]
  intro hover
  rw [hstatus] at hover
  rcases ho hover with ⟨a, ha⟩ | hgone
  · cases hi.symm.trans ha
  · exact .inr (hphase.trans hgone)

theorem Reaches.over {plan : StreamPlan} {calls : List Call} {s : RowStream}
    (h : Reaches plan calls s) : s.Over := by
  induction h with
  | start => exact fun hover => (by cases hover)
  | worker _ hs ih =>
    have hmove := workerStep_cases hs
    obtain ⟨-, -, -, htask, hstatus, -, -⟩ := hmove.frame
    intro hover
    rw [hstatus] at hover
    rcases ih hover with ⟨a, ha⟩ | hgone
    · exact .inl ⟨a, htask.trans ha⟩
    · exact absurd hgone hmove.phase_ne_gone
  | consumer _ hs ih => exact (consumerStep_cases hs).over ih
  | call _ hi c ih => exact ih.begin hi c

/-- Between two calls, a query that is over has been left by its worker. -/
theorem Reaches.gone_of_terminal {plan : StreamPlan} {calls : List Call} {s : RowStream}
    (h : Reaches plan calls s) (hover : s.status.isTerminal = true) (hb : s.isBusy = false) :
    s.phase = .gone := by
  rcases h.over hover with ⟨a, ha⟩ | hgone
  · simp [isBusy, ha] at hb
  · exact hgone

/-- **A cursor is closed once, and before anybody learns of the end.** Whatever the executor and the
cursor do, whichever calls are made and whichever side moves when, a log of what the worker has done
until some state says:

* a traversal is opened at most once, and the cursor closed at most once, as the counters say;
* nothing is closed if the traversal could not be opened;
* no batch is asked for after closing;
* and if the mark of the end or of a fault has been put into the queue, or the worker has given up
  its end of the queue, or a call has returned and the query is over, then what has been opened has
  been closed. -/
theorem cursor_closed_once_before_end {plan : StreamPlan} {calls : List Call} {s : RowStream}
    (h : Reaches plan calls s) :
    (∃ log, Logged plan calls log s) ∧
    ∀ log, Logged plan calls log s →
      s.opens = log.count .opened + log.count .refused ∧ s.opens ≤ 1 ∧
      s.closes = log.count .closed ∧ s.closes ≤ 1 ∧
      ((∀ cursor, plan.opening ≠ .opened cursor) → .closed ∉ log) ∧
      log.Pairwise (fun a b => a = .closed → b ≠ .asked) ∧
      ((∃ d, isRow d = false ∧ .sent d ∈ log) ∨ .left ∈ log ∨
          (s.status.isTerminal = true ∧ s.isBusy = false) →
        (.opened ∈ log → .closed ∈ log)) := by
  refine ⟨h.logged, ?_⟩
  intro log hlog
  obtain ⟨rfl, hledger⟩ := hlog.ledger
  have hfollowed := hledger.followed
  refine ⟨hledger.opens, hledger.opens ▸ hfollowed.count_opens_le, hledger.closes,
    hledger.closes ▸ hfollowed.count_closed_le, hfollowed.not_closed_of_not_opened,
    hfollowed.pairwise, ?_⟩
  intro hend
  have hdone : s.Done := by
    rcases hend with ⟨d, hrow, hsent⟩ | hleft | ⟨hover, hb⟩
    · exact hledger.marked d hsent hrow
    · exact .inr (hledger.gone hleft)
    · exact .inr (h.gone_of_terminal hover hb)
  exact hfollowed.closed_of_opened hdone

/-- A cursor that panics when it is asked for its first batch. -/
def crashing : StreamPlan where
  decoder := ⟨["n"], [.integer]⟩
  opening := .opened ⟨[], .crashed, .orderly⟩
  pageSize := 1
  fetchSize := 1

/-- The panic closes the cursor before the worker leaves, and only then the caller is told. -/
theorem cursor_closed_once_before_end_crashing :
    ∃ s, Logged crashing [.next 1] [.opened, .asked, .closed, .left] s ∧ s.status = .failed ∧
      s.isBusy = false ∧ s.opens = 1 ∧ s.closes = 1 := by
  have hstart : Logged crashing [] [] _ := .start
  have hcalled := hstart.call rfl (.next 1)
  have hleft := ((((hcalled.worker rfl).worker rfl).worker rfl).worker rfl).worker rfl
  have hended := (hleft.consumer rfl).consumer rfl
  obtain ⟨hopens, -, hcloses, -⟩ := (cursor_closed_once_before_end hended.reaches).2 _ hended
  exact ⟨_, hended, rfl, rfl, hopens.trans rfl, hcloses.trans rfl⟩

end RowStream
end GraphSelect
