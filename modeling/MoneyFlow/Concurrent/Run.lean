import MoneyFlow.Concurrent.Pool

/-!
# MoneyFlow.Concurrent.Run

Runs of a pool with their steps numbered, to speak of **which thread did what,
and when**.

Reachability only knows the pool at the end. A claim that one operation came
after another is about the steps in between, so here a run keeps all of its
pools, `Run.Performs` says that the thread started `i`-th performs an operation
at step `k`, and `Run.ensures` is adequacy for a contract that may speak of what
this one thread has performed: every operation a thread performs is one its own
contract allows.
-/

namespace MoneyFlow.Concurrent

variable {k i : Nat}

variable {σ : Type} [Preorder σ] {Op : Type} {Resp : Op → Type} [Atomic σ Op Resp]
variable {τ ρ α : Type}

/-- A run of `length` steps from `s0` with no thread running. -/
structure Run (S : Scheduler σ τ Op Resp ρ) (s0 : σ) where
  pool : Nat → Pool σ τ Op Resp ρ
  length : Nat
  first : pool 0 = ⟨s0, []⟩
  step : ∀ k < length, Pool.Step S (pool k) (pool (k + 1))

/-- What is left of a program after an operation is not the program. -/
theorem Prog.next_ne {p : Prog Op Resp α} :
    ∀ {o : Op} {k : Resp o → Prog Op Resp α} {r : Resp o}, p = .op o k → k r ≠ p := by
  induction p with
  | ret a | halt => exact fun h => nomatch h
  | op o k ih =>
    intro o' k' r h hr
    obtain ⟨rfl, hk⟩ := Prog.op.inj h
    obtain rfl := eq_of_heq hk
    exact ih r hr rfl

namespace Run

variable {S : Scheduler σ τ Op Resp ρ} {s0 : σ}

/-- The state before step `k`. -/
def state (run : Run S s0) (k : Nat) : σ := (run.pool k).state

/-- The state at the end. -/
def final (run : Run S s0) : σ := run.state run.length

/-- At step `k` the thread started `i`-th performs `o`. -/
def Performs (run : Run S s0) (i : Nat) (o : Op) (k : Nat) : Prop :=
  k < run.length ∧ ∃ t next r, Pool.Performs S (run.pool k) (run.pool (k + 1)) i t o next r

/-- The thread started `i`-th has performed `o` in `s`. -/
def Performed (run : Run S s0) (i : Nat) (o : Op) (s : σ) : Prop :=
  ∃ k, run.Performs i o k ∧ run.state k = s

/-- A thread performs one operation at a time. -/
theorem Performs.op_eq {run : Run S s0} {o o' : Op} (h : run.Performs i o k)
    (h' : run.Performs i o' k) : o = o' := by
  obtain ⟨-, t, next, r, hi, -⟩ := h
  obtain ⟨-, t', next', r', hi', -⟩ := h'
  rw [hi] at hi'
  exact (Prog.op.inj (Prod.mk.inj (Option.some.inj hi')).2).1

/-- What a step may be. -/
theorem step_cases (run : Run S s0) (hk : k < run.length) : (run.state (k + 1) = run.state k ∧
      ∃ t p, S.start t p ∧ (run.pool (k + 1)).threads = (run.pool k).threads ++ [(t, p)]) ∨
    (∃ i o, run.Performs i o k) ∨
    (S.env (run.state k) (run.state (k + 1)) ∧
      (run.pool (k + 1)).threads = (run.pool k).threads) := by
  rcases (run.step k hk).performs with h | ⟨i, t, o, next, r, h⟩ | h
  · exact Or.inl h
  · exact Or.inr (Or.inl ⟨i, o, hk, t, next, r, h⟩)
  · exact Or.inr (Or.inr h)

/-- A thread that is as it was has performed nothing. -/
theorem idle_of_same {run : Run S s0} {t : τ} {p : Prog Op Resp ρ}
    (h : (run.pool k).threads[i]? = some (t, p)) (h' : (run.pool (k + 1)).threads[i]? = some (t, p))
    (o : Op) : ¬ run.Performs i o k := by
  rintro ⟨-, u, next, r, hi, -, -, hts⟩
  obtain ⟨rfl, rfl⟩ := Prod.mk.inj (Option.some.inj (h.symm.trans hi))
  have hlt : i < (run.pool k).threads.length := (List.getElem?_eq_some_iff.mp hi).1
  rw [hts, List.getElem?_set_self hlt] at h'
  exact Prog.next_ne rfl (Prod.mk.inj (Option.some.inj h')).2

/-- Where a thread comes from: it is as it was, was just started, or has just
performed an operation. -/
theorem thread_cases (run : Run S s0) (hk : k < run.length) {t : τ} {p : Prog Op Resp ρ}
    (h : (run.pool (k + 1)).threads[i]? = some (t, p)) :
    ((run.pool k).threads[i]? = some (t, p) ∧ ∀ o, ¬ run.Performs i o k) ∨ S.start t p ∨
      ∃ o next r, Pool.Performs S (run.pool k) (run.pool (k + 1)) i t o next r ∧ p = next r := by
  rcases (run.step k hk).performs with
    ⟨-, u, q, hq, hts⟩ | ⟨j, u, o, next, r, hperf⟩ | ⟨-, hts⟩
  · have h' := h
    rw [hts, List.getElem?_append] at h'
    split at h'
    · exact Or.inl ⟨h', idle_of_same h' h⟩
    · obtain ⟨rfl, rfl⟩ := Prod.mk.inj (List.mem_singleton.mp (List.mem_of_getElem? h'))
      exact Or.inr (Or.inl hq)
  · have h' := h
    rw [hperf.2.2.2, List.getElem?_set] at h'
    split at h'
    · rename_i hji
      subst hji
      split at h'
      · cases h'
        exact Or.inr (Or.inr ⟨o, next, r, hperf, rfl⟩)
      · cases h'
    · exact Or.inl ⟨h', idle_of_same h' h⟩
  · have h' := h
    rw [hts] at h'
    exact Or.inl ⟨h', idle_of_same h' h⟩

section

variable (henv : ∀ s s', S.env s s' → s ≤ s')
include henv

theorem state_le_succ (run : Run S s0) (hk : k < run.length) : run.state k ≤ run.state (k + 1) :=
  (run.step k hk).le henv

/-- A run never undoes anything. -/
theorem state_mono (run : Run S s0) {k' : Nat} (hle : k ≤ k') (hk : k' ≤ run.length) :
    run.state k ≤ run.state k' := by
  induction hle with
  | refl => exact le_rfl
  | step _ ih => exact (ih (by omega)).trans (run.state_le_succ henv (by omega))

/-- What is known of every thread at every step: what holds when it is started, and
growth and its own steps keep. -/
theorem threadwise (run : Run S s0) {F : Nat → τ → Prog Op Resp ρ → σ → Prop}
    (hgrow : ∀ i t p s s', F i t p s → s ≤ s' → F i t p s')
    (hstart : ∀ i t p s, S.start t p → F i t p s)
    (hrun : ∀ k < run.length, ∀ i t o next r, F i t (.op o next) (run.state k) →
      Pool.Performs S (run.pool k) (run.pool (k + 1)) i t o next r →
        F i t (next r) (run.state (k + 1))) :
    ∀ k ≤ run.length, ∀ i t p, (run.pool k).threads[i]? = some (t, p) → F i t p (run.state k) := by
  intro k
  induction k with
  | zero =>
    intro _ i t p h
    simp [run.first] at h
  | succ k ih =>
    intro hk i t p h
    have hle := run.state_le_succ henv hk
    rcases run.thread_cases hk h with ⟨hold, -⟩ | hs | ⟨o, next, r, hperf, rfl⟩
    · exact hgrow _ _ _ _ _ (ih (by omega) i t p hold) hle
    · exact hstart i t p _ hs
    · exact hrun k hk i t o next r (ih (by omega) i t _ hperf.1) hperf

/-- **Adequacy.** If whatever is started is safe under the contract of each
thread, every thread stays so. -/
theorem safe (run : Run S s0) {C : Nat → Contract σ Op} {Q : ρ → σ → Prop}
    (hstart : ∀ i t p s, S.start t p → Safe (C i) Q p s)
    (hassume : ∀ i o k, run.Performs i o k → (C i).assume o (run.state k)) :
    ∀ k ≤ run.length, ∀ i t p, (run.pool k).threads[i]? = some (t, p) →
      Safe (C i) Q p (run.state k) := by
  refine run.threadwise henv (F := fun i _ p s => Safe (C i) Q p s)
    (fun _ _ _ _ _ h hle => h.grow hle) (fun i t p s hs => hstart i t p s hs) ?_
  intro k hk i t o next r h hperf
  exact (h _ le_rfl (hassume i o k ⟨hk, t, next, r, hperf⟩)).2 r _ hperf.2.2.1

/-- What a thread performs is what its contract allows. -/
theorem ensures (run : Run S s0) {C : Nat → Contract σ Op} {Q : ρ → σ → Prop}
    (hstart : ∀ i t p s, S.start t p → Safe (C i) Q p s)
    (hassume : ∀ i o k, run.Performs i o k → (C i).assume o (run.state k)) {o : Op}
    (h : run.Performs i o k) : (C i).ensure o (run.state k) := by
  obtain ⟨hk, t, next, r, hi, -⟩ := id h
  exact (run.safe henv hstart hassume k (by omega) i t _ hi _ le_rfl (hassume i o k h)).1

end

/-- Every state of a run can be reached. -/
theorem reachable (run : Run S s0) : ∀ {k}, k ≤ run.length → Pool.Reachable S s0 (run.pool k)
  | 0, _ => by
    rw [run.first]
    exact .refl
  | k + 1, hk => (run.reachable (Nat.le_of_succ_le hk)).tail (run.step k hk)

/-- What does not hold at first and holds at some time came to hold at a step
before it. -/
theorem exists_step (run : Run S s0) {P : σ → Prop} (h0 : ¬ P s0) :
    ∀ {n}, P (run.state n) → ∃ k < n, ¬ P (run.state k) ∧ P (run.state (k + 1))
  | 0, h => by
    rw [state, run.first] at h
    exact absurd h h0
  | n + 1, h => by
    by_cases hn : P (run.state n)
    · obtain ⟨k, hk, hstep⟩ := run.exists_step h0 hn
      exact ⟨k, by omega, hstep⟩
    · exact ⟨n, Nat.lt_succ_self n, hn, h⟩

/-- A step can be added at the end. -/
def snoc (run : Run S s0) (c : Pool σ τ Op Resp ρ)
    (h : Pool.Step S (run.pool run.length) c) : Run S s0 where
  pool k := if k ≤ run.length then run.pool k else c
  length := run.length + 1
  first := by simp [run.first]
  step k hk := by
    rcases Nat.lt_succ_iff_lt_or_eq.mp hk with hlt | rfl
    · rw [if_pos (by omega), if_pos (by omega)]
      exact run.step k hlt
    · rw [if_pos (by omega), if_neg (by omega)]
      exact h

/-- Whatever can be reached ends some run. -/
theorem of_reachable {c : Pool σ τ Op Resp ρ} (h : Pool.Reachable S s0 c) :
    ∃ run : Run S s0, run.pool run.length = c := by
  induction h with
  | refl => exact ⟨⟨fun _ => ⟨s0, []⟩, 0, rfl, fun _ hk => absurd hk (Nat.not_lt_zero _)⟩, rfl⟩
  | tail _ hs ih =>
    obtain ⟨run, rfl⟩ := ih
    exact ⟨run.snoc _ hs, if_neg (Nat.not_succ_le_self _)⟩

end Run

end MoneyFlow.Concurrent
