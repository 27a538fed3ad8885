import MoneyFlow.Concurrent.Pool

/-!
# MoneyFlow.Concurrent.Play

Explicit runs of a pool. A schedule is a list of moves; playing it computes the
pool it leads to, every operation answering what `Atomic.run` computes, and that
pool is one the scheduler's steps reach (`play_steps`).
-/

namespace MoneyFlow.Concurrent

variable {σ : Type} [Preorder σ] {Op : Type} {Resp : Op → Type} [Atomic σ Op Resp]
variable {τ ρ : Type}

/-- One move of a schedule. -/
inductive Move (S : Scheduler σ τ Op Resp ρ)
  /-- Start a thread. -/
  | spawn (t : τ) (p : Prog Op Resp ρ) (h : S.start t p)
  /-- Thread `i` performs up to `n` operations, as long as the guard allows. -/
  | run (i n : Nat)
  /-- The environment moves. -/
  | env (f : σ → σ) (h : ∀ s, S.env s (f s))

section

variable (S : Scheduler σ τ Op Resp ρ) [∀ t o s, Decidable (S.guard t o s)]

/-- Up to `n` operations of one thread. -/
def advance (t : τ) : Nat → σ → Prog Op Resp ρ → σ × Prog Op Resp ρ
  | 0, s, p => (s, p)
  | n + 1, s, .op o k =>
    if S.guard t o s then advance t n (Atomic.run s o).2 (k (Atomic.run s o).1) else (s, .op o k)
  | _ + 1, s, p => (s, p)

theorem advance_steps (pre post : List (τ × Prog Op Resp ρ)) (t : τ) :
    ∀ (n : Nat) (s : σ) (p : Prog Op Resp ρ),
      Pool.Steps S ⟨s, pre ++ (t, p) :: post⟩
        ⟨(advance S t n s p).1, pre ++ (t, (advance S t n s p).2) :: post⟩
  | 0, _, _ => .refl
  | _ + 1, _, .ret _ => .refl
  | _ + 1, _, .halt => .refl
  | n + 1, s, .op o k => by
    unfold advance
    split
    · rename_i hg
      exact .head (.run hg (Atomic.run_exec s o)) (advance_steps pre post t n _ _)
    · exact .refl

end

variable {S : Scheduler σ τ Op Resp ρ} [∀ t o s, Decidable (S.guard t o s)]

/-- The pool after one move. -/
def Move.play (c : Pool σ τ Op Resp ρ) : Move S → Pool σ τ Op Resp ρ
  | .spawn t p _ => ⟨c.state, c.threads ++ [(t, p)]⟩
  | .run i n =>
    match c.threads[i]? with
    | some (t, p) =>
      ⟨(advance S t n c.state p).1, c.threads.set i (t, (advance S t n c.state p).2)⟩
    | none => c
  | .env f _ => ⟨f c.state, c.threads⟩

/-- The pool a schedule leads to. -/
def play (moves : List (Move S)) (c : Pool σ τ Op Resp ρ) : Pool σ τ Op Resp ρ :=
  moves.foldl Move.play c

theorem Move.play_steps (c : Pool σ τ Op Resp ρ) (m : Move S) : Pool.Steps S c (m.play c) := by
  cases m with
  | spawn t p h => exact .single (.spawn h)
  | env f h => exact .single (.env (h c.state))
  | run i n =>
    cases hi : c.threads[i]? with
    | none =>
      simp only [Move.play, hi]
      exact .refl
    | some tp =>
      obtain ⟨t, p⟩ := tp
      simp only [Move.play, hi]
      obtain ⟨hlt, hget⟩ := List.getElem?_eq_some_iff.mp hi
      have hthreads : c.threads = c.threads.take i ++ (t, p) :: c.threads.drop (i + 1) := by
        rw [← hget, List.getElem_cons_drop, List.take_append_drop]
      have hsteps := advance_steps S (c.threads.take i) (c.threads.drop (i + 1)) t n c.state p
      rw [← hthreads] at hsteps
      rw [List.set_eq_take_append_cons_drop, if_pos hlt]
      exact hsteps

/-- **A schedule played is a run.** -/
theorem play_steps : ∀ (moves : List (Move S)) (c : Pool σ τ Op Resp ρ),
    Pool.Steps S c (play moves c)
  | [], _ => .refl
  | m :: moves, c => (m.play_steps c).trans (play_steps moves (m.play c))

end MoneyFlow.Concurrent
