import Mathlib

/-!
# MoneyFlow.Concurrent.Prog

Programs over shared state, as trees of **atomic operations**.

A `Prog Op Resp α` is what one thread of control still has to do: return a
value, stop for good, or perform an operation `o` and continue with its
response. Everything between two operations is a pure Lean function, so a
source function that loads, decides and appends is transcribed as it is
written, and the only places another thread can run in between are the `op`
nodes.

* `halt` is a thread that takes no further step. A loop of the source is
  transcribed with a fuel argument and halts when it runs out. For a statement
  about every interleaving this costs nothing: a thread may stop anywhere, so
  the runs of all fuels together are exactly the runs of the loop. For a
  statement that a program *returns* it is what must be ruled out
  (`MoneyFlow.Concurrent.Alone`).
* Fallible code is `ExceptT ε (Prog Op Resp)`.

`Atomic` packages the meaning of the operations on a preordered state: every
operation can only make the state grow. That is all one thread may rely on
about the others (`MoneyFlow.Concurrent.Safe`).
-/

namespace MoneyFlow.Concurrent

/-- What one thread of control still has to do. -/
inductive Prog (Op : Type) (Resp : Op → Type) (α : Type) where
  /-- Return `a`. -/
  | ret (a : α)
  /-- Take no further step. -/
  | halt
  /-- Perform `o` and continue with its response. -/
  | op (o : Op) (k : Resp o → Prog Op Resp α)

namespace Prog

variable {Op : Type} {Resp : Op → Type} {α β γ : Type}

/-- Run `p`, then `f` on what it returned. -/
def bind : Prog Op Resp α → (α → Prog Op Resp β) → Prog Op Resp β
  | .ret a, f => f a
  | .halt, _ => .halt
  | .op o k, f => .op o fun r => (k r).bind f

instance : Monad (Prog Op Resp) where
  pure := .ret
  bind := Prog.bind

end Prog

/-! ### Fallible programs -/

section Fallible

variable {Op : Type} {Resp : Op → Type} {ε α β : Type}

/-- The one-operation program, as a fallible one that does not fail. -/
def request (o : Op) : ExceptT ε (Prog Op Resp) (Resp o) :=
  ExceptT.mk (.op o fun r => .ret (.ok r))

/-- Stop for good: a loop out of fuel. -/
def halted : ExceptT ε (Prog Op Resp) α := ExceptT.mk .halt

/-- Hand the outcome of `p`, value or error, to the caller to inspect. -/
def outcomeOf (p : ExceptT ε (Prog Op Resp) α) : ExceptT ε (Prog Op Resp) (Except ε α) :=
  ExceptT.mk (ExceptT.run p >>= fun r => .ret (.ok r))

end Fallible

/-! ### Atomic operations on a growing state -/

/-- The meaning of the operations: `exec s o r s'` says that performing `o` in
`s` may answer `r` and leave `s'`. -/
class Atomic (σ : Type) [Preorder σ] (Op : outParam Type) (Resp : outParam (Op → Type)) where
  /-- One operation, performed atomically. -/
  exec : σ → (o : Op) → Resp o → σ → Prop
  /-- An operation only ever makes the state grow. -/
  le_of_exec {s s' : σ} {o : Op} {r : Resp o} : exec s o r s' → s ≤ s'
  /-- One of the possible results, computed. -/
  run : σ → (o : Op) → Resp o × σ
  run_exec (s : σ) (o : Op) : exec s o (run s o).1 (run s o).2

end MoneyFlow.Concurrent
