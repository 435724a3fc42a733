import GraphSelect.Proofs.Stream.Moves

/-!
# Every call is answered

Two facts make a call end, whatever the schedule. Each step of either side makes `effort` smaller,
so there is no infinite run within a call (`Steps.length_le`). And while a call is in progress one
of the sides has a step (`Reaches.progress`), so a run that cannot be continued has answered it.

The second fact rests on an invariant of the reachable states, `Orderly`. A consumer that waits for
the worker to leave is dangerous only if the worker waits for room in the queue. It never does: the
consumer waits so either after the worker's last delivery or after closing the queue.
-/

set_option autoImplicit false

namespace GraphSelect
namespace RowStream

/-! ## Effort -/

/-- What the batches of a cursor cost a worker: two steps for each result, and a few around each
batch. -/
def batchesEffort : List (List Json) → Nat
  | [] => 4
  | batch :: rest => 2 * batch.length + 3 + batchesEffort rest

/-- More steps than a worker in some phase has before it. -/
def phaseEffort (p : StreamPlan) : Phase → Nat
  | .opening =>
    match p.opening with
    | .opened cursor => batchesEffort cursor.batches + 2
    | .refused _ => 3
    | .crashed => 2
  | .checking cursor => batchesEffort cursor.batches + 1
  | .pulling cursor => batchesEffort cursor.batches
  | .decoding batch cursor => batchesEffort cursor.batches + 2 * batch.length + 2
  | .sending _ batch cursor => batchesEffort cursor.batches + 2 * batch.length + 3
  | .closing _ _ => 3
  | .reporting _ => 2
  | .leaving => 1
  | .gone => 0

/-- More steps than a consumer with some task has before it, apart from those that take rows. -/
def taskEffort : Task → Nat
  | .idle => 0
  | .receiving _ _ => 2
  | .requesting _ => 4
  | .shutting _ => 3
  | .draining _ => 2
  | .joining _ => 1
  | .left => 0

/-- A bound on the steps that both sides can still take. A delivery counts once for the consumer,
and so a step of the worker, which may add one, has to count twice. -/
def effort (s : RowStream) : Nat :=
  2 * phaseEffort s.plan s.phase + s.queue.length + taskEffort s.task

theorem batchesEffort_pos (batches : List (List Json)) : 4 ≤ batchesEffort batches := by
  induction batches with
  | nil => exact Nat.le_refl 4
  | cons batch rest ih => rw [batchesEffort]; omega

theorem WorkerMove.effort_lt {s s' : RowStream} (h : WorkerMove s s') : s'.effort < s.effort := by
  cases h with
  | opened hp ho | refused hp ho | openingCrashed hp ho =>
    simp only [effort, phaseEffort, hp, ho]; omega
  | @stopped cursor hp _ | @passed cursor hp _ =>
    have := batchesEffort_pos cursor.batches
    simp only [effort, phaseEffort, hp]; omega
  | @pulledNothing cursor hp _ =>
    have := batchesEffort_pos cursor.batches
    simp only [effort, phaseEffort, noteAsk, notePull, hp]; omega
  | pulledFault hp hb _ | crashed hp hb _ =>
    simp only [effort, phaseEffort, noteAsk, hp, hb, batchesEffort]; omega
  | pulledBatch hp hb =>
    simp only [effort, phaseEffort, noteAsk, notePull, hp, hb, batchesEffort, List.length_cons]
    omega
  | emptied hp => simp only [effort, phaseEffort, hp, List.length_nil]; omega
  | decoded hp _ => simp only [effort, phaseEffort, hp, List.length_cons]; omega
  | @undecodable _ _ cursor _ hp _ | @unsent _ _ cursor hp _ =>
    have := batchesEffort_pos cursor.batches
    simp only [effort, phaseEffort, hp]; omega
  | sent hp _ _ | reported hp _ _ =>
    simp only [effort, phaseEffort, hp, List.length_append, List.length_singleton]; omega
  | closed hp _ | closedSilently hp _ | closingCrashed hp _ | unreported hp _ | left hp =>
    simp only [effort, phaseEffort, hp]; omega

theorem reply_effort (s : RowStream) (a : Answer) :
    (s.reply a).effort + taskEffort s.task = s.effort := by
  cases a <;> simp only [effort, reply, taskEffort] <;> omega

theorem ConsumerMove.effort_lt {s s' : RowStream} (h : ConsumerMove s s') :
    s'.effort < s.effort := by
  cases h with
  | @filled _ rows ht _ =>
    have hr := reply_effort s (.page rows)
    rw [ht, taskEffort] at hr
    omega
  | took ht _ hq | ended ht _ hq => simp only [effort, ht, hq, taskEffort, List.length_cons]; omega
  | faulted ht _ hq => simp only [effort, failWith, ht, hq, taskEffort, List.length_cons]; omega
  | lost ht _ _ _ => simp only [effort, failWith, ht, taskEffort]; omega
  | requested ht | shut ht => simp only [effort, ht, taskEffort]; omega
  | drained ht => simp only [effort, ht, taskEffort, List.length_nil]; omega
  | @joined a ht _ =>
    have hr := reply_effort s a
    rw [ht, taskEffort] at hr
    omega

/-- **A call takes finitely many steps**, and their number is bounded before the first of them. -/
theorem Steps.length_le {k : Nat} {s t : RowStream} (h : Steps k s t) : k ≤ s.effort := by
  induction h with
  | refl => exact Nat.zero_le _
  | worker hs _ ih =>
    have := (workerStep_cases hs).effort_lt
    omega
  | consumer hs _ ih =>
    have := (consumerStep_cases hs).effort_lt
    omega

/-! ## Order of the last delivery -/

/-- A worker that has nothing more to do but to leave. -/
def Done (s : RowStream) : Prop :=
  s.phase = .leaving ∨ s.phase = .gone

/-- Whether a delivery is a row, and not a mark of the end or of a fault. -/
def isRow : Delivery → Bool
  | .row _ => true
  | _ => false

/-- What holds between the two sides in every reachable state. -/
structure Orderly (s : RowStream) : Prop where
  -- A mark in the queue is the last thing that the worker has done.
  marked : ∀ d ∈ s.queue, isRow d = false → s.Done
  -- A consumer empties the queue only after closing it.
  draining : ∀ a, s.task = .draining a → s.queueClosed = true
  -- A consumer that waits for the worker to leave has closed the queue, or the worker is done.
  joining : ∀ a, s.task = .joining a → s.queueClosed = true ∨ s.Done

theorem Orderly.start (plan : StreamPlan) : (start plan).Orderly :=
  ⟨fun _ hd => absurd hd (by simp [RowStream.start]), fun _ ht => (by cases ht),
    fun _ ht => (by cases ht)⟩

/-- A worker that is done stays done: it only leaves. -/
theorem WorkerMove.done {s s' : RowStream} (h : WorkerMove s s') (hd : s.Done) : s'.Done := by
  cases h <;> simp_all [Done]

/-- What a worker puts into the queue is a row, unless it is done with that. -/
theorem WorkerMove.mem_queue {s s' : RowStream} (h : WorkerMove s s') {d : Delivery}
    (hd : d ∈ s'.queue) (hr : isRow d = false) : d ∈ s.queue ∨ s'.Done := by
  cases h with
  | sent =>
    rcases List.mem_append.mp hd with hd | hd
    · exact .inl hd
    · rw [List.mem_singleton.mp hd] at hr
      cases hr
  | reported => exact .inr (.inl rfl)
  | _ => exact .inl hd

theorem WorkerMove.orderly {s s' : RowStream} (h : WorkerMove s s') (ho : s.Orderly) :
    s'.Orderly := by
  obtain ⟨-, -, hclosed, htask, -, -, -⟩ := h.frame
  refine ⟨fun d hd hr => ?_, fun a ht => ?_, fun a ht => ?_⟩
  · rcases h.mem_queue hd hr with hold | hdone
    · exact h.done (ho.marked d hold hr)
    · exact hdone
  · rw [hclosed]
    exact ho.draining a (htask ▸ ht)
  · rw [hclosed]
    rcases ho.joining a (htask ▸ ht) with hc | hdone
    · exact .inl hc
    · exact .inr (h.done hdone)

theorem reply_task (s : RowStream) (a : Answer) :
    (s.reply a).task = .idle ∨ (s.reply a).task = .left := by
  cases a <;> simp [reply]

/-- An answered call leaves an orderly state: only the task has changed, and it is over. -/
theorem Orderly.reply {s : RowStream} (ho : s.Orderly) (a : Answer) : (s.reply a).Orderly := by
  refine ⟨ho.marked, fun b ht => ?_, fun b ht => ?_⟩
  all_goals
    rcases reply_task s a with h | h
    all_goals rw [h] at ht; cases ht

theorem ConsumerMove.orderly {s s' : RowStream} (h : ConsumerMove s s') (ho : s.Orderly) :
    s'.Orderly := by
  cases h with
  | filled | joined => exact ho.reply _
  | took ht _ hq =>
    refine ⟨fun d hd hr => ho.marked d (by rw [hq]; exact .tail _ hd) hr, fun a ht => ?_,
      fun a ht => ?_⟩
    all_goals cases ht
  -- A mark has been taken out of the queue, so the worker is done.
  | ended ht _ hq =>
    have hdone : s.Done := ho.marked .exhausted (by rw [hq]; exact .head _) rfl
    exact ⟨fun _ _ _ => hdone, fun a ht => (by cases ht), fun _ _ => .inr hdone⟩
  | @faulted _ _ f _ ht _ hq =>
    have hdone : s.Done := ho.marked (.fault f) (by rw [hq]; exact .head _) rfl
    exact ⟨fun _ _ _ => hdone, fun a ht => (by cases ht), fun _ _ => .inr hdone⟩
  | lost _ _ _ hg =>
    exact ⟨fun _ _ _ => .inr hg, fun a ht => (by cases ht), fun _ _ => .inr (.inr hg)⟩
  | requested => exact ⟨ho.marked, fun a ht => (by cases ht), fun a ht => (by cases ht)⟩
  | shut => exact ⟨ho.marked, fun _ _ => rfl, fun a ht => (by cases ht)⟩
  | @drained a ht =>
    exact ⟨fun d hd => (by cases hd), fun a ht => (by cases ht), fun _ _ => .inl (ho.draining a ht)⟩

theorem Orderly.begin {s : RowStream} (ho : s.Orderly) (c : Call) : (s.begin c).Orderly := by
  unfold RowStream.begin
  split
  · split
    · exact ⟨ho.marked, fun a ht => (by cases ht), fun a ht => (by cases ht)⟩
    · exact ho.reply _
    · exact ho.reply _
  all_goals
    split
    · exact ho.reply _
    · exact ⟨ho.marked, fun a ht => (by cases ht), fun a ht => (by cases ht)⟩

theorem Reaches.orderly {plan : StreamPlan} {calls : List Call} {s : RowStream}
    (h : Reaches plan calls s) : s.Orderly := by
  induction h with
  | start => exact .start plan
  | worker _ hs ih => exact (workerStep_cases hs).orderly ih
  | consumer _ hs ih => exact (consumerStep_cases hs).orderly ih
  | call _ _ c ih => exact ih.begin c

/-! ## Progress -/

theorem hasRoom_of_empty {s : RowStream} (hq : s.queue = []) : s.hasRoom = true := by
  simp only [hasRoom, hq, List.length_nil, StreamPlan.capacity, decide_eq_true_eq]
  omega

/-- **While a call is in progress, one of the sides can move.** A worker that cannot has left, or it
waits for room. In the first case nothing keeps the consumer waiting. In the second the queue holds
something for a consumer that collects rows, and none waits for the worker to leave. -/
theorem Reaches.progress {plan : StreamPlan} {calls : List Call} {s : RowStream}
    (h : Reaches plan calls s) (hb : s.isBusy = true) :
    (∃ s', s.workerStep = some s') ∨ ∃ s', s.consumerStep = some s' := by
  -- The only thing that either side can wait for is the other one.
  by_cases hg : s.phase = .gone
  · exact .inr (consumerStep_isSome hb (fun _ _ _ _ _ => hg) (fun _ _ => hg))
  · by_cases hw : s.queueClosed = true ∨ s.hasRoom = true ∨ s.phase = .leaving
    · exact .inl (workerStep_isSome hg hw)
    · refine .inr (consumerStep_isSome hb (fun _ _ _ _ hq => ?_) (fun a ht => ?_))
      · exact absurd (.inr (.inl (hasRoom_of_empty hq))) hw
      · rcases h.orderly.joining a ht with hc | hl | hgone
        · exact absurd (.inl hc) hw
        · exact absurd (.inr (.inr hl)) hw
        · exact hgone

end RowStream
end GraphSelect
