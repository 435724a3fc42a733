import GraphSelect.Row.Decoder

/-!
# Cursors

Results are pulled from a server in batches. All that a worker can learn from a cursor is what its
calls return one after the other: some batches, and then an empty batch, an error, or a call that
never returns in an orderly way; and at last how the call that closes it returns. That is what a
`Cursor` is here. An executor gives a cursor, or an error, or it breaks down itself.
-/

set_option autoImplicit false

namespace GraphSelect

/-- What comes after the last batch of a cursor. -/
inductive Ending where
  | exhausted
  | failed (fault : Fault)
  -- The call breaks down, and the worker with it.
  | crashed

/-- How the call returns that closes a cursor. -/
inductive Closing where
  | orderly
  -- The call breaks down, and the worker with it, whatever it had to report. Where the call before
  -- has broken down too, no consumer is left to be told anything: that ends the whole program.
  | crashed

/-- What the calls of a cursor still return. -/
structure Cursor where
  batches : List (List Json)
  ending : Ending
  closing : Closing

/-- What becomes of a traversal that is to be opened. -/
inductive Opening where
  | opened (cursor : Cursor)
  | refused (fault : Fault)
  -- The executor breaks down, and the worker with it. There is no cursor to be closed.
  | crashed

/-! ## Prepared results -/

/-- A list cut into pieces of the given length, which counts as one if it is zero; the last piece
may be shorter. -/
def pieces {α : Type} (length : Nat) : Nat → List α → List (List α)
  | 0, _ => []
  | _, [] => []
  | fuel + 1, xs =>
    let n := max length 1
    xs.take n :: pieces length fuel (xs.drop n)

/-- Results that are known in advance, with the positions at which the source fails or breaks down,
or with the reason why it cannot be opened. -/
structure PreparedResults where
  rows : List Json
  failAt : Option Nat
  crashAt : Option Nat
  openError : Option String

namespace PreparedResults

/-- The position at which the results end, if they do not end by themselves. -/
def stopAt (p : PreparedResults) : Option Nat :=
  let stop := match p.failAt, p.crashAt with
    | some f, some q => some (min f q)
    | some f, none => some f
    | none, q => q
  stop.filter fun n => n ≤ p.rows.length

def ending (p : PreparedResults) : Ending :=
  match p.stopAt with
  | none => .exhausted
  | some n =>
    if p.crashAt = some n then .crashed
    else .failed (.traversal ("server error at result " ++ String.ofList (Nat.toDigits 10 n)))

/-- The results, handed out in batches of the given length by a cursor that can always be closed. -/
def opening (p : PreparedResults) (batchLength : Nat) : Opening :=
  match p.openError with
  | some reason => .refused (.traversal reason)
  | none =>
    let rows := match p.stopAt with
      | some n => p.rows.take n
      | none => p.rows
    .opened ⟨pieces batchLength rows.length rows, p.ending, .orderly⟩

end PreparedResults

end GraphSelect
