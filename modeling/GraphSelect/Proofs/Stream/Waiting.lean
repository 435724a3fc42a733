import GraphSelect.Proofs.Stream.Refinement

/-!
# Nobody waits in vain

Each side can be kept waiting by the other in two places. The worker waits for room when it has a row
or a report to send. The consumer waits for a delivery when it collects rows, and for the worker to
leave when the query is over. A deadlock is a pair of such waits, so there are two to be excluded:

* the queue cannot be empty and without room at once, since it holds at least one delivery;
* a consumer that waits for the worker to leave has closed the queue before, or has taken the last
  delivery out of it (`Orderly.joining`), so that the worker does not wait for room any more.

Hence a worker that is waited for has a step, and its steps alone bring the wait to an end.
-/

set_option autoImplicit false

namespace GraphSelect
namespace RowStream

/-! ## Where the sides wait -/

/-- The worker has something to send, to a queue that is open and full. -/
def WaitsForRoom (s : RowStream) : Prop :=
  s.queueClosed = false ∧ s.hasRoom = false ∧
    ((∃ row batch cursor, s.phase = .sending row batch cursor) ∨ ∃ d, s.phase = .reporting d)

/-- The consumer collects rows, has not got all of them, and finds the queue empty. -/
def WaitsForDelivery (s : RowStream) : Prop :=
  ∃ wanted rows, s.task = .receiving wanted rows ∧ rows.length < wanted ∧ s.queue = []

/-- The consumer waits for the worker to leave. -/
def WaitsForWorker (s : RowStream) : Prop :=
  ∃ a, s.task = .joining a

/-- **A worker has no step exactly if it has left or waits for room.** -/
theorem workerStep_eq_none_iff (s : RowStream) :
    s.workerStep = none ↔ s.phase = .gone ∨ s.WaitsForRoom := by
  unfold workerStep WaitsForRoom
  cases hp : s.phase with
  | opening => cases ho : s.plan.opening <;> simp [ho]
  | decoding batch cursor =>
    cases batch with
    | nil => simp
    | cons raw batch => cases hd : s.plan.decoder.decode raw <;> simp [hd]
  | sending row batch cursor | reporting d =>
    cases s.queueClosed <;> cases s.hasRoom <;> simp
  | checking | pulling | closing | leaving | gone => simp

theorem waitsForDelivery_iff {s : RowStream} {wanted : Nat} {rows : List Row}
    (ht : s.task = .receiving wanted rows) :
    s.WaitsForDelivery ↔ rows.length < wanted ∧ s.queue = [] := by
  constructor
  · rintro ⟨_, _, ht', hlt, hq⟩
    cases ht.symm.trans ht'
    exact ⟨hlt, hq⟩
  · rintro ⟨hlt, hq⟩
    exact ⟨wanted, rows, ht, hlt, hq⟩

/-- **A consumer with a call in progress has no step exactly if it waits for something, and the
worker has not left.** -/
theorem consumerStep_eq_none_iff {s : RowStream} (hb : s.isBusy = true) :
    s.consumerStep = none ↔ (s.WaitsForDelivery ∨ s.WaitsForWorker) ∧ s.phase ≠ .gone := by
  rw [ne_eq, ← workerGone_iff, Bool.not_eq_true]
  cases ht : s.task with
  | receiving wanted rows =>
    rw [waitsForDelivery_iff ht]
    by_cases hlen : wanted ≤ rows.length
    · have hfull : ¬ rows.length < wanted := Nat.not_lt.2 hlen
      simp [consumerStep, WaitsForWorker, ht, hlen, hfull]
    · have hshort : rows.length < wanted := Nat.not_le.1 hlen
      cases hq : s.queue with
      | nil => simp [consumerStep, ht, hlen, hshort, hq]
      | cons d rest => cases d <;> simp [consumerStep, WaitsForWorker, ht, hlen, hq]
  | joining a => simp [consumerStep, WaitsForDelivery, WaitsForWorker, ht]
  | requesting | shutting | draining => simp [consumerStep, WaitsForDelivery, WaitsForWorker, ht]
  | idle | left => simp [isBusy, ht] at hb

/-! ## The worker on its own -/

/-- The worker moves and the consumer does not: the given number of steps, unless it has to wait. -/
def work : Nat → RowStream → RowStream
  | 0, s => s
  | n + 1, s =>
    match s.workerStep with
    | some s' => work n s'
    | none => s

theorem work_succ {s s' : RowStream} (n : Nat) (h : s.workerStep = some s') :
    work (n + 1) s = work n s' := by
  rw [work, h]

theorem Reaches.work {plan : StreamPlan} {calls : List Call} (n : Nat) {s : RowStream}
    (h : Reaches plan calls s) : Reaches plan calls (s.work n) := by
  induction n generalizing s with
  | zero => exact h
  | succ n ih =>
    rw [RowStream.work]
    cases hs : s.workerStep with
    | some s' => exact ih (h.worker hs)
    | none => exact h

/-! ## One of the sides can move -/

section

variable {plan : StreamPlan} {calls : List Call} {s : RowStream}

/-- An empty queue has room. -/
theorem WaitsForDelivery.not_waitsForRoom (h : s.WaitsForDelivery) : ¬ s.WaitsForRoom := by
  rintro ⟨-, hroom, -⟩
  obtain ⟨_, _, -, -, hq⟩ := h
  rw [hasRoom_of_empty hq] at hroom
  cases hroom

/-- A worker that is waited for sends nothing more, or finds the queue closed. -/
theorem Reaches.not_waitsForRoom_of_waitsForWorker (h : Reaches plan calls s)
    (hw : s.WaitsForWorker) : ¬ s.WaitsForRoom := by
  rintro ⟨hopen, -, hphase⟩
  obtain ⟨a, ht⟩ := hw
  rcases h.orderly.joining a ht with hclosed | hdone
  · rw [hopen] at hclosed
    cases hclosed
  · rcases hdone with hd | hd <;> simp [hd] at hphase

theorem Reaches.workerStep_of_waiting (h : Reaches plan calls s)
    (hw : s.WaitsForDelivery ∨ s.WaitsForWorker) (hg : s.phase ≠ .gone) :
    ∃ s', s.workerStep = some s' := by
  have hroom : ¬ s.WaitsForRoom := by
    rcases hw with hd | hj
    · exact hd.not_waitsForRoom
    · exact h.not_waitsForRoom_of_waitsForWorker hj
  apply Option.ne_none_iff_exists'.1
  intro hnone
  rcases (workerStep_eq_none_iff s).1 hnone with hgone | hwait
  · exact hg hgone
  · exact hroom hwait

theorem isBusy_of_waiting (hw : s.WaitsForDelivery ∨ s.WaitsForWorker) : s.isBusy = true := by
  rcases hw with ⟨_, _, ht, -⟩ | ⟨_, ht⟩ <;> simp [isBusy, ht]

theorem consumerStep_of_gone (hb : s.isBusy = true) (hg : s.phase = .gone) :
    ∃ s', s.consumerStep = some s' := by
  apply Option.ne_none_iff_exists'.1
  intro hnone
  exact ((consumerStep_eq_none_iff hb).1 hnone).2 hg

/-- **The worker alone ends a wait.** Its effort bounds how often it can move, and whenever the
consumer still waits it can move. -/
theorem Reaches.wait_ends (h : Reaches plan calls s) (hb : s.isBusy = true) :
    ∃ n, (s.work n).task = s.task ∧ ∃ s', (s.work n).consumerStep = some s' := by
  induction he : s.effort using Nat.strongRecOn generalizing s with
  | ind e ih =>
    cases hc : s.consumerStep with
    | some s' => exact ⟨0, rfl, s', hc⟩
    | none =>
      obtain ⟨hw, hg⟩ := (consumerStep_eq_none_iff hb).1 hc
      obtain ⟨t, ht⟩ := h.workerStep_of_waiting hw hg
      have hmove := workerStep_cases ht
      have htask : t.task = s.task := hmove.frame.2.2.2.1
      have hbusy : t.isBusy = true := by
        rw [isBusy, htask]
        exact hb
      obtain ⟨n, hn, hstep⟩ := ih t.effort (he ▸ hmove.effort_lt) (h.worker ht) hbusy rfl
      refine ⟨n + 1, ?_⟩
      rw [work_succ n ht]
      exact ⟨hn.trans htask, hstep⟩

end

/-- **There is no deadlock.** In every state that some calls lead to, in every interleaving:

* a call in progress is kept from going on only where it waits for a delivery or for the worker to
  leave, and only while the worker is there;
* then the worker has a step; and once it has left, the call goes on;
* in particular the consumer never waits for the leaving of a worker that waits for room;
* and the steps of the worker alone lead to a state in which the call goes on. -/
theorem waiting_never_deadlocks {plan : StreamPlan} {calls : List Call} {s : RowStream}
    (h : Reaches plan calls s) :
    (s.isBusy = true →
      (s.consumerStep = none ↔ (s.WaitsForDelivery ∨ s.WaitsForWorker) ∧ s.phase ≠ .gone)) ∧
    (s.WaitsForDelivery ∨ s.WaitsForWorker →
      (s.phase ≠ .gone ∧ ∃ s', s.workerStep = some s') ∨
        (s.phase = .gone ∧ ∃ s', s.consumerStep = some s')) ∧
    (s.WaitsForWorker → ¬ s.WaitsForRoom) ∧
    (s.isBusy = true →
      ∃ n, (s.work n).task = s.task ∧ ∃ s', (s.work n).consumerStep = some s') := by
  refine ⟨consumerStep_eq_none_iff, ?_, h.not_waitsForRoom_of_waitsForWorker, h.wait_ends⟩
  intro hw
  by_cases hg : s.phase = .gone
  · exact .inr ⟨hg, consumerStep_of_gone (isBusy_of_waiting hw) hg⟩
  · exact .inl ⟨hg, h.workerStep_of_waiting hw hg⟩

/-- The worker waits for room for its second row when the query is stopped. The consumer ends up
waiting for it, and it has a step all the same: the queue has been closed. -/
theorem waiting_never_deadlocks_twoRowsThenFault :
    ∃ s t, Reaches twoRowsThenFault [] s ∧ s.WaitsForRoom ∧
      Reaches twoRowsThenFault [.cancel] t ∧ t.WaitsForWorker ∧ t.phase = s.phase ∧
      ¬ t.WaitsForRoom ∧ ∃ t', t.workerStep = some t' := by
  have hfull : Reaches twoRowsThenFault [] _ := Reaches.start.work 6
  have hstopped : Reaches twoRowsThenFault [.cancel] _ := (hfull.call rfl .cancel).settle 3
  obtain ⟨-, hstep, hroom, -⟩ := waiting_never_deadlocks hstopped
  refine ⟨_, _, hfull, ⟨rfl, rfl, .inl ⟨_, _, _, rfl⟩⟩, hstopped, ⟨.cancelled, rfl⟩, rfl,
    hroom ⟨.cancelled, rfl⟩, ?_⟩
  rcases hstep (.inr ⟨.cancelled, rfl⟩) with ⟨-, hs⟩ | ⟨hgone, -⟩
  · exact hs
  · cases hgone

end RowStream
end GraphSelect
