import MoneyFlow.Concurrent.Safe

/-!
# MoneyFlow.Concurrent.Pool

Any number of threads interleaved over one growing state.

A pool is the shared state and what each thread still has to do. At each step
a new thread may start, some thread performs its next operation, or the
environment moves. A thread that never steps again is one that crashed or
stalls: no rule is needed for it.

`Pool.reachable_safe` is the adequacy theorem of `Safe`: if every program that
may be started is safe, and the operations performed under the contract keep
an invariant, then the invariant holds in every state of every run, and every
thread is at all times about to perform only operations its contract allows.
`Pool.reachable_meets` adds what is known of the values threads have returned.
-/

namespace MoneyFlow.Concurrent

variable {σ : Type} [Preorder σ] {Op : Type} {Resp : Op → Type} [Atomic σ Op Resp]
variable {τ ρ : Type}

/-- A shared state and the threads over it, each with the tag it was started
under. -/
structure Pool (σ τ Op : Type) (Resp : Op → Type) (ρ : Type) where
  state : σ
  threads : List (τ × Prog Op Resp ρ)

/-- Which runs are considered: what may be started, when an operation may be
performed, and how the environment moves the state. -/
structure Scheduler (σ τ Op : Type) (Resp : Op → Type) (ρ : Type) where
  start : τ → Prog Op Resp ρ → Prop
  guard : τ → Op → σ → Prop
  env : σ → σ → Prop

namespace Pool

/-- One step of a pool. -/
inductive Step (S : Scheduler σ τ Op Resp ρ) :
    Pool σ τ Op Resp ρ → Pool σ τ Op Resp ρ → Prop
  /-- A thread starts. -/
  | spawn {s : σ} {ts : List (τ × Prog Op Resp ρ)} {t : τ} {p : Prog Op Resp ρ} :
      S.start t p → Step S ⟨s, ts⟩ ⟨s, ts ++ [(t, p)]⟩
  /-- A thread performs its next operation. -/
  | run {s s' : σ} {pre post : List (τ × Prog Op Resp ρ)} {t : τ} {o : Op}
      {k : Resp o → Prog Op Resp ρ} {r : Resp o} :
      S.guard t o s → Atomic.exec s o r s' →
      Step S ⟨s, pre ++ (t, .op o k) :: post⟩ ⟨s', pre ++ (t, k r) :: post⟩
  /-- The environment moves. -/
  | env {s s' : σ} {ts : List (τ × Prog Op Resp ρ)} :
      S.env s s' → Step S ⟨s, ts⟩ ⟨s', ts⟩

/-- The thread started `i`-th performs its next operation, `o`, and is answered
`r`. -/
def Performs (S : Scheduler σ τ Op Resp ρ) (c c' : Pool σ τ Op Resp ρ) (i : Nat) (t : τ) (o : Op)
    (next : Resp o → Prog Op Resp ρ) (r : Resp o) : Prop :=
  c.threads[i]? = some (t, .op o next) ∧ S.guard t o c.state ∧
    Atomic.exec c.state o r c'.state ∧ c'.threads = c.threads.set i (t, next r)

/-- What a step may be, with the thread that moves by its number. -/
theorem Step.performs {S : Scheduler σ τ Op Resp ρ} {c c' : Pool σ τ Op Resp ρ}
    (h : Step S c c') :
    (c'.state = c.state ∧ ∃ t p, S.start t p ∧ c'.threads = c.threads ++ [(t, p)]) ∨
    (∃ i t o next r, Performs S c c' i t o next r) ∨
    (S.env c.state c'.state ∧ c'.threads = c.threads) := by
  cases h with
  | spawn hp => exact Or.inl ⟨rfl, _, _, hp, rfl⟩
  | @run s s' pre post t o next r hg hx =>
    refine Or.inr (Or.inl ⟨pre.length, t, o, next, r, ?_, hg, hx, ?_⟩)
    · simp
    · simp
  | env he => exact Or.inr (Or.inr ⟨he, rfl⟩)

/-- Finitely many steps. -/
def Steps (S : Scheduler σ τ Op Resp ρ) :
    Pool σ τ Op Resp ρ → Pool σ τ Op Resp ρ → Prop :=
  Relation.ReflTransGen (Step S)

/-- Reachable from `s0` with no thread running. -/
def Reachable (S : Scheduler σ τ Op Resp ρ) (s0 : σ) (c : Pool σ τ Op Resp ρ) : Prop :=
  Steps S ⟨s0, []⟩ c

theorem Reachable.trans {S : Scheduler σ τ Op Resp ρ} {s0 : σ} {c c' : Pool σ τ Op Resp ρ}
    (h : Reachable S s0 c) (hs : Steps S c c') : Reachable S s0 c' :=
  Relation.ReflTransGen.trans h hs

/-- What one scheduler's runs do, another allows. -/
theorem Reachable.mono {S S' : Scheduler σ τ Op Resp ρ} {s0 : σ} {c : Pool σ τ Op Resp ρ}
    (h : Reachable S s0 c) (hstart : ∀ t p, S.start t p → S'.start t p)
    (hguard : ∀ c t o, Reachable S s0 c → S.guard t o c.state → S'.guard t o c.state)
    (henv : ∀ s s', S.env s s' → S'.env s s') : Reachable S' s0 c := by
  induction h with
  | refl => exact .refl
  | tail hr hs ih =>
    refine ih.tail ?_
    cases hs with
    | spawn hp => exact .spawn (hstart _ _ hp)
    | run hg hx => exact .run (hguard _ _ _ hr hg) hx
    | env he => exact .env (henv _ _ he)

variable {S : Scheduler σ τ Op Resp ρ} {C : τ → Contract σ Op} {Inv : σ → Prop} {s0 : σ}

/-- Every thread is safe from the current state on. -/
def Threadwise (C : τ → Contract σ Op) (c : Pool σ τ Op Resp ρ) : Prop :=
  ∀ t p, (t, p) ∈ c.threads → Safe (C t) (fun _ _ => True) p c.state

/-- Every thread is safe from the current state on, and what it returns meets
its postcondition. -/
def Meets (C : τ → Contract σ Op) (Q : τ → ρ → σ → Prop) (c : Pool σ τ Op Resp ρ) : Prop :=
  ∀ t p, (t, p) ∈ c.threads → Safe (C t) (Q t) p c.state

variable {Q : τ → ρ → σ → Prop}

/-- One step keeps the invariant and every thread's safety. -/
theorem Step.safe {c c' : Pool σ τ Op Resp ρ} (h : Step S c c')
    (henv : ∀ s s', S.env s s' → Inv s → s ≤ s' ∧ Inv s')
    (hstart : ∀ t p s, S.start t p → Safe (C t) (Q t) p s)
    (hassume : ∀ t o s, S.guard t o s → Inv s → (C t).assume o s)
    (hstep : ∀ t o s r s', Inv s → S.guard t o s → (C t).ensure o s →
      Atomic.exec s o r s' → Inv s')
    (hI : Inv c.state) (hT : Meets C Q c) : Inv c'.state ∧ Meets C Q c' := by
  cases h with
  | @spawn s ts t p hs =>
    refine ⟨hI, fun u q hq => ?_⟩
    rcases List.mem_append.mp hq with hq | hq
    · exact hT u q hq
    · obtain ⟨rfl, rfl⟩ := Prod.mk.inj (List.mem_singleton.mp hq)
      exact hstart u q s hs
  | @run s s' pre post t o k r hg hx =>
    have hop : Safe (C t) (Q t) (.op o k) s :=
      hT t (.op o k) (List.mem_append_right _ List.mem_cons_self)
    obtain ⟨he, hk⟩ := hop s le_rfl (hassume t o s hg hI)
    refine ⟨hstep t o s r s' hI hg he hx, fun u q hq => ?_⟩
    -- the thread that moved is safe by its own continuation, the others by growth
    rcases List.mem_append.mp hq with hq | hq
    · exact (hT u q (List.mem_append_left _ hq)).grow (Atomic.le_of_exec hx)
    · rcases List.mem_cons.mp hq with hq | hq
      · cases hq
        exact hk r s' hx
      · exact (hT u q (List.mem_append_right _ (List.mem_cons_of_mem _ hq))).grow
          (Atomic.le_of_exec hx)
  | @env s s' ts he =>
    obtain ⟨hle, hI'⟩ := henv s s' he hI
    exact ⟨hI', fun u q hq => (hT u q hq).grow hle⟩

/-- **Adequacy.** Along every run the invariant holds, every thread stays safe,
and what has been returned meets its postcondition. -/
theorem reachable_meets (h0 : Inv s0)
    (henv : ∀ s s', S.env s s' → Inv s → s ≤ s' ∧ Inv s')
    (hstart : ∀ t p s, S.start t p → Safe (C t) (Q t) p s)
    (hassume : ∀ t o s, S.guard t o s → Inv s → (C t).assume o s)
    (hstep : ∀ t o s r s', Inv s → S.guard t o s → (C t).ensure o s →
      Atomic.exec s o r s' → Inv s')
    {c : Pool σ τ Op Resp ρ} (h : Reachable S s0 c) : Inv c.state ∧ Meets C Q c := by
  induction h with
  | refl => exact ⟨h0, fun t p hp => absurd hp List.not_mem_nil⟩
  | tail _ hs ih => exact hs.safe henv hstart hassume hstep ih.1 ih.2

/-- A returned value meets its postcondition. -/
theorem Meets.returned {c : Pool σ τ Op Resp ρ} (h : Meets C Q c) {t : τ} {a : ρ}
    (hm : (t, .ret a) ∈ c.threads) : Q t a c.state :=
  h t _ hm c.state le_rfl

/-- Adequacy, where nothing is asked of what is returned. -/
theorem reachable_safe (h0 : Inv s0)
    (henv : ∀ s s', S.env s s' → Inv s → s ≤ s' ∧ Inv s')
    (hstart : ∀ t p s, S.start t p → Safe (C t) (fun _ _ => True) p s)
    (hassume : ∀ t o s, S.guard t o s → Inv s → (C t).assume o s)
    (hstep : ∀ t o s r s', Inv s → S.guard t o s → (C t).ensure o s →
      Atomic.exec s o r s' → Inv s')
    {c : Pool σ τ Op Resp ρ} (h : Reachable S s0 c) : Inv c.state ∧ Threadwise C c :=
  reachable_meets h0 henv hstart hassume hstep h

/-- At every moment a thread about to perform `o` meets its contract. -/
theorem Threadwise.ensure {c : Pool σ τ Op Resp ρ} (hT : Threadwise C c) {t : τ} {o : Op}
    {k : Resp o → Prog Op Resp ρ} (hm : (t, .op o k) ∈ c.threads)
    (ha : (C t).assume o c.state) : (C t).ensure o c.state :=
  (hT t _ hm c.state le_rfl ha).1

/-- A run never undoes anything. -/
theorem Step.le (henv : ∀ s s', S.env s s' → s ≤ s') {c c' : Pool σ τ Op Resp ρ}
    (h : Step S c c') : c.state ≤ c'.state := by
  cases h with
  | spawn _ => exact le_rfl
  | run _ hx => exact Atomic.le_of_exec hx
  | env he => exact henv _ _ he

theorem Steps.le (henv : ∀ s s', S.env s s' → s ≤ s') {c c' : Pool σ τ Op Resp ρ}
    (h : Steps S c c') : c.state ≤ c'.state := by
  induction h with
  | refl => exact le_rfl
  | tail _ hs ih => exact ih.trans (hs.le henv)

end Pool

end MoneyFlow.Concurrent
