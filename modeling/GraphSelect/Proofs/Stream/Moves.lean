import GraphSelect.Stream.Run

/-!
# The moves of a stream

`workerStep` and `consumerStep` are functions that compute. What a proof needs from them is a list
of the things that a step can do, each with the condition under which it is done. That list is
stated here once: `WorkerMove` and `ConsumerMove` have a case for each, and the two `_cases`
theorems say that a step is always one of them. No later proof opens a step function.

`Reaches` is every interleaving: from the start of a query, the worker may move, the consumer may
move, and a consumer without a task may start any call. It carries the calls made so far, because
what a consumer ought to have been told depends on nothing else.
-/

set_option autoImplicit false

namespace GraphSelect
namespace RowStream

/-! ## The worker -/

/-- A cursor whose next call returns an empty batch. -/
def Dry (cursor : Cursor) : Prop :=
  (cursor.batches = [] ∧ cursor.ending = .exhausted) ∨ ∃ rest, cursor.batches = [] :: rest

/-- What a worker can do in one step. -/
inductive WorkerMove (s : RowStream) : RowStream → Prop where
  | opened {cursor : Cursor} (hp : s.phase = .opening) (ho : s.plan.opening = .opened cursor) :
      WorkerMove s { s with opens := s.opens + 1, phase := .checking cursor }
  | refused {f : Fault} (hp : s.phase = .opening) (ho : s.plan.opening = .refused f) :
      WorkerMove s { s with opens := s.opens + 1, phase := .reporting (.fault f) }
  | openingCrashed (hp : s.phase = .opening) (ho : s.plan.opening = .crashed) :
      WorkerMove s { s with opens := s.opens + 1, phase := .leaving }
  | stopped {cursor : Cursor} (hp : s.phase = .checking cursor) (hr : s.stopRequested = true) :
      WorkerMove s { s with phase := .closing none cursor }
  | passed {cursor : Cursor} (hp : s.phase = .checking cursor) (hr : s.stopRequested = false) :
      WorkerMove s { s with phase := .pulling cursor }
  | pulledNothing {cursor : Cursor} (hp : s.phase = .pulling cursor) (hd : Dry cursor) :
      WorkerMove s { s.noteAsk.notePull 0 with phase := .closing (some .exhausted) cursor }
  | pulledFault {cursor : Cursor} {f : Fault} (hp : s.phase = .pulling cursor)
      (hb : cursor.batches = []) (he : cursor.ending = .failed f) :
      WorkerMove s { s.noteAsk with phase := .closing (some (.fault f)) cursor }
  | crashed {cursor : Cursor} (hp : s.phase = .pulling cursor) (hb : cursor.batches = [])
      (he : cursor.ending = .crashed) :
      WorkerMove s { s.noteAsk with phase := .closing none cursor }
  | pulledBatch {cursor : Cursor} {raw : Json} {batch : List Json} {batches : List (List Json)}
      (hp : s.phase = .pulling cursor) (hb : cursor.batches = (raw :: batch) :: batches) :
      WorkerMove s { s.noteAsk.notePull (batch.length + 1) with
        phase := .decoding (raw :: batch) { cursor with batches := batches } }
  | emptied {cursor : Cursor} (hp : s.phase = .decoding [] cursor) :
      WorkerMove s { s with phase := .checking cursor }
  | decoded {raw : Json} {batch : List Json} {cursor : Cursor} {row : Row}
      (hp : s.phase = .decoding (raw :: batch) cursor) (hd : s.plan.decoder.decode raw = .ok row) :
      WorkerMove s { s with phase := .sending row batch cursor }
  | undecodable {raw : Json} {batch : List Json} {cursor : Cursor} {f : Fault}
      (hp : s.phase = .decoding (raw :: batch) cursor) (hd : s.plan.decoder.decode raw = .error f) :
      WorkerMove s { s with phase := .closing (some (.fault f)) cursor }
  | unsent {row : Row} {batch : List Json} {cursor : Cursor}
      (hp : s.phase = .sending row batch cursor) (hc : s.queueClosed = true) :
      WorkerMove s { s with phase := .closing none cursor }
  | sent {row : Row} {batch : List Json} {cursor : Cursor}
      (hp : s.phase = .sending row batch cursor) (hc : s.queueClosed = false)
      (hr : s.hasRoom = true) :
      WorkerMove s { s with queue := s.queue ++ [.row row], phase := .decoding batch cursor }
  | closed {d : Delivery} {cursor : Cursor} (hp : s.phase = .closing (some d) cursor)
      (hc : cursor.closing = .orderly) :
      WorkerMove s { s with closes := s.closes + 1, phase := .reporting d }
  | closedSilently {cursor : Cursor} (hp : s.phase = .closing none cursor)
      (hc : cursor.closing = .orderly) :
      WorkerMove s { s with closes := s.closes + 1, phase := .leaving }
  | closingCrashed {report : Option Delivery} {cursor : Cursor}
      (hp : s.phase = .closing report cursor) (hc : cursor.closing = .crashed) :
      WorkerMove s { s with closes := s.closes + 1, phase := .leaving }
  | unreported {d : Delivery} (hp : s.phase = .reporting d) (hc : s.queueClosed = true) :
      WorkerMove s { s with phase := .leaving }
  | reported {d : Delivery} (hp : s.phase = .reporting d) (hc : s.queueClosed = false)
      (hr : s.hasRoom = true) :
      WorkerMove s { s with queue := s.queue ++ [d], phase := .leaving }
  | left (hp : s.phase = .leaving) : WorkerMove s { s with phase := .gone }

theorem pull_cases {s : RowStream} {cursor : Cursor} (hp : s.phase = .pulling cursor) :
    WorkerMove s (s.noteAsk.pull cursor) := by
  unfold pull
  split
  · rename_i hb
    split
    · rename_i he
      exact .pulledNothing hp (.inl ⟨hb, he⟩)
    · rename_i f he
      exact .pulledFault hp hb he
    · rename_i he
      exact .crashed hp hb he
  · rename_i rest hb
    exact .pulledNothing hp (.inr ⟨rest, hb⟩)
  · rename_i raw batch batches hb
    exact .pulledBatch hp hb

theorem afterClosing_cases {s : RowStream} {report : Option Delivery} {cursor : Cursor}
    (hp : s.phase = .closing report cursor) :
    WorkerMove s { s with closes := s.closes + 1, phase := afterClosing cursor report } := by
  unfold afterClosing
  cases hc : cursor.closing with
  | orderly =>
    cases report with
    | none => exact .closedSilently hp hc
    | some d => exact .closed hp hc
  | crashed => exact .closingCrashed hp hc

/-- **A step of the worker is one of its moves.** -/
theorem workerStep_cases {s s' : RowStream} (h : s.workerStep = some s') : WorkerMove s s' := by
  unfold workerStep at h
  split at h
  · rename_i hp
    dsimp only at h
    split at h <;> rename_i ho <;> cases h
    · exact .opened hp ho
    · exact .refused hp ho
    · exact .openingCrashed hp ho
  · rename_i cursor hp
    cases h
    split
    · rename_i hr
      exact .stopped hp hr
    · rename_i hr
      exact .passed hp (by simpa using hr)
  · rename_i cursor hp
    cases h
    exact pull_cases hp
  · rename_i cursor hp
    cases h
    exact .emptied hp
  · rename_i raw batch cursor hp
    split at h <;> rename_i hd <;> cases h
    · exact .decoded hp hd
    · exact .undecodable hp hd
  · rename_i row batch cursor hp
    split at h
    · rename_i hc
      cases h
      exact .unsent hp hc
    · rename_i hc
      split at h <;> cases h
      rename_i hr
      exact .sent hp (by simpa using hc) hr
  · rename_i report cursor hp
    cases h
    exact afterClosing_cases hp
  · rename_i d hp
    split at h
    · rename_i hc
      cases h
      exact .unreported hp hc
    · rename_i hc
      split at h <;> cases h
      rename_i hr
      exact .reported hp (by simpa using hc) hr
  · rename_i hp
    cases h
    exact .left hp
  · cases h

/-- A worker that has not left can move, unless it waits for room in the queue. -/
theorem workerStep_isSome {s : RowStream} (hg : s.phase ≠ .gone)
    (hw : s.queueClosed = true ∨ s.hasRoom = true ∨ s.phase = .leaving) :
    ∃ s', s.workerStep = some s' := by
  unfold workerStep
  split
  · dsimp only
    split <;> exact ⟨_, rfl⟩
  · exact ⟨_, rfl⟩
  · exact ⟨_, rfl⟩
  · exact ⟨_, rfl⟩
  · split <;> exact ⟨_, rfl⟩
  · rename_i hp
    rcases hw with hc | hr | hl
    · rw [if_pos hc]; exact ⟨_, rfl⟩
    · rw [if_pos hr]; split <;> exact ⟨_, rfl⟩
    · rw [hp] at hl; cases hl
  · exact ⟨_, rfl⟩
  · rename_i hp
    rcases hw with hc | hr | hl
    · rw [if_pos hc]; exact ⟨_, rfl⟩
    · rw [if_pos hr]; split <;> exact ⟨_, rfl⟩
    · rw [hp] at hl; cases hl
  · exact ⟨_, rfl⟩
  · rename_i hp
    exact absurd hp hg

/-- What the worker never touches: everything that belongs to the consumer. -/
theorem WorkerMove.frame {s s' : RowStream} (h : WorkerMove s s') :
    s'.plan = s.plan ∧ s'.stopRequested = s.stopRequested ∧ s'.queueClosed = s.queueClosed ∧
      s'.task = s.task ∧ s'.status = s.status ∧ s'.fault = s.fault ∧ s'.answers = s.answers := by
  cases h <;> exact ⟨rfl, rfl, rfl, rfl, rfl, rfl, rfl⟩

/-! ## The consumer -/

/-- What a consumer can do in one step of a call. -/
inductive ConsumerMove (s : RowStream) : RowStream → Prop where
  | filled {wanted : Nat} {rows : List Row} (ht : s.task = .receiving wanted rows)
      (hf : wanted ≤ rows.length) : ConsumerMove s (s.reply (.page rows))
  | took {wanted : Nat} {rows : List Row} {r : Row} {rest : List Delivery}
      (ht : s.task = .receiving wanted rows) (hf : rows.length < wanted)
      (hq : s.queue = .row r :: rest) :
      ConsumerMove s { s with
        queue := rest, taken := s.taken + 1, task := .receiving wanted (rows ++ [r]) }
  | ended {wanted : Nat} {rows : List Row} {rest : List Delivery}
      (ht : s.task = .receiving wanted rows) (hf : rows.length < wanted)
      (hq : s.queue = .exhausted :: rest) :
      ConsumerMove s { s with
        queue := rest, status := .completed, task := .joining (pageOr rows .finished) }
  | faulted {wanted : Nat} {rows : List Row} {f : Fault} {rest : List Delivery}
      (ht : s.task = .receiving wanted rows) (hf : rows.length < wanted)
      (hq : s.queue = .fault f :: rest) :
      ConsumerMove s (failWith { s with queue := rest } rows f)
  | lost {wanted : Nat} {rows : List Row} (ht : s.task = .receiving wanted rows)
      (hf : rows.length < wanted) (hq : s.queue = []) (hg : s.phase = .gone) :
      ConsumerMove s (s.failWith rows .workerLost)
  | requested {a : Answer} (ht : s.task = .requesting a) :
      ConsumerMove s { s with stopRequested := true, task := .shutting a }
  | shut {a : Answer} (ht : s.task = .shutting a) :
      ConsumerMove s { s with queueClosed := true, task := .draining a }
  | drained {a : Answer} (ht : s.task = .draining a) :
      ConsumerMove s { s with
        taken := s.taken + s.queuedRows, queue := [], status := .cancelled, task := .joining a }
  | joined {a : Answer} (ht : s.task = .joining a) (hg : s.phase = .gone) :
      ConsumerMove s (s.reply a)

theorem workerGone_iff {s : RowStream} : s.workerGone = true ↔ s.phase = .gone := by
  unfold workerGone
  split <;> simp_all

/-- **A step of the consumer is one of its moves.** -/
theorem consumerStep_cases {s s' : RowStream} (h : s.consumerStep = some s') :
    ConsumerMove s s' := by
  unfold consumerStep at h
  split at h
  · cases h
  · rename_i wanted rows ht
    split at h
    · rename_i hf
      cases h
      exact .filled ht hf
    · rename_i hf
      have hlt : rows.length < wanted := by omega
      split at h
      · rename_i hq; cases h; exact .took ht hlt hq
      · rename_i hq; cases h; exact .ended ht hlt hq
      · rename_i hq; cases h; exact .faulted ht hlt hq
      · rename_i hq
        split at h <;> cases h
        rename_i hg
        exact .lost ht hlt hq (workerGone_iff.mp hg)
  · rename_i ht; cases h; exact .requested ht
  · rename_i ht; cases h; exact .shut ht
  · rename_i ht; cases h; exact .drained ht
  · rename_i ht
    split at h <;> cases h
    rename_i hg
    exact .joined ht (workerGone_iff.mp hg)
  · cases h

/-- A consumer in the middle of a call can move, unless it waits for a delivery or for the worker to
leave. -/
theorem consumerStep_isSome {s : RowStream} (hb : s.isBusy = true)
    (hr : ∀ wanted rows, s.task = .receiving wanted rows → rows.length < wanted → s.queue = [] →
      s.phase = .gone)
    (hj : ∀ a, s.task = .joining a → s.phase = .gone) : ∃ s', s.consumerStep = some s' := by
  unfold consumerStep
  split
  · rename_i ht; simp [isBusy, ht] at hb
  · rename_i wanted rows ht
    split
    · exact ⟨_, rfl⟩
    · rename_i hf
      split
      · exact ⟨_, rfl⟩
      · exact ⟨_, rfl⟩
      · exact ⟨_, rfl⟩
      · rename_i hq
        rw [if_pos (workerGone_iff.mpr (hr wanted rows ht (by omega) hq))]
        exact ⟨_, rfl⟩
  · exact ⟨_, rfl⟩
  · exact ⟨_, rfl⟩
  · exact ⟨_, rfl⟩
  · rename_i a ht
    rw [if_pos (workerGone_iff.mpr (hj a ht))]
    exact ⟨_, rfl⟩
  · rename_i ht; simp [isBusy, ht] at hb

/-! ## Interleavings -/

/-- The states that a query can be in after the given calls were made, whichever side moved when.
A call can only be made while no other is in progress. -/
inductive Reaches (plan : StreamPlan) : List Call → RowStream → Prop where
  | start : Reaches plan [] (start plan)
  | worker {calls : List Call} {s s' : RowStream} (h : Reaches plan calls s)
      (hs : s.workerStep = some s') : Reaches plan calls s'
  | consumer {calls : List Call} {s s' : RowStream} (h : Reaches plan calls s)
      (hs : s.consumerStep = some s') : Reaches plan calls s'
  | call {calls : List Call} {s : RowStream} (h : Reaches plan calls s) (hi : s.task = .idle)
      (c : Call) : Reaches plan (calls ++ [c]) (s.begin c)

/-- So many steps of the two sides lead from one state to another, with no call started. -/
inductive Steps : Nat → RowStream → RowStream → Prop where
  | refl (s : RowStream) : Steps 0 s s
  | worker {k : Nat} {s s' t : RowStream} (hs : s.workerStep = some s') (h : Steps k s' t) :
      Steps (k + 1) s t
  | consumer {k : Nat} {s s' t : RowStream} (hs : s.consumerStep = some s') (h : Steps k s' t) :
      Steps (k + 1) s t

theorem Reaches.steps {plan : StreamPlan} {calls : List Call} {k : Nat} {s t : RowStream}
    (h : Reaches plan calls s) (hk : Steps k s t) : Reaches plan calls t := by
  induction hk with
  | refl => exact h
  | worker hs _ ih => exact ih (h.worker hs)
  | consumer hs _ ih => exact ih (h.consumer hs)

/-- The schedule by which `settle` runs a call is one of the interleavings. -/
theorem Reaches.settle {plan : StreamPlan} {calls : List Call} (fuel : Nat) {s : RowStream}
    (h : Reaches plan calls s) : Reaches plan calls (settle fuel s) := by
  induction fuel generalizing s with
  | zero => exact h
  | succ fuel ih =>
    rw [RowStream.settle]
    split
    · split
      · rename_i hs
        exact ih (h.consumer hs)
      · split
        · rename_i hs
          exact ih (h.worker hs)
        · exact h
    · exact h

theorem Reaches.perform {plan : StreamPlan} {calls : List Call} {s : RowStream}
    (h : Reaches plan calls s) (hi : s.task = .idle) (c : Call) :
    Reaches plan (calls ++ [c]) (s.perform c) :=
  (h.call hi c).settle _

end RowStream
end GraphSelect
