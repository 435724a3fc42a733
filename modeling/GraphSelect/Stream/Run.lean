import GraphSelect.Query.Compile
import GraphSelect.Stream.Basic

/-!
# Running a stream

What the consumer sees does not depend on how the steps of the two sides alternate, so any order
will do for running a stream. Here the worker moves only while the consumer waits.
-/

set_option autoImplicit false

namespace GraphSelect

/-- More steps than the two sides can take during one call. -/
def StreamPlan.stepBound (p : StreamPlan) : Nat :=
  match p.opening with
  | .opened cursor => 3 * cursor.batches.foldl (fun n b => n + b.length + 1) 0 + 32
  | .refused _ | .crashed => 32

namespace RowStream

def isBusy (s : RowStream) : Bool :=
  match s.task with
  | .idle => false
  | .left => false
  | _ => true

/-- Both sides move, at most the given number of steps, until the call is answered. -/
def settle : Nat → RowStream → RowStream
  | 0, s => s
  | fuel + 1, s =>
    if s.isBusy then
      match s.consumerStep with
      | some s => settle fuel s
      | none =>
        match s.workerStep with
        | some s => settle fuel s
        | none => s
    else s

/-- The state after a call has been answered. -/
def perform (s : RowStream) (c : Call) : RowStream :=
  settle s.plan.stepBound (s.begin c)

end RowStream

def CompiledQuery.decoder (q : CompiledQuery) : RowDecoder :=
  ⟨q.columnNames, q.columns.map OutputColumn.type⟩

end GraphSelect
