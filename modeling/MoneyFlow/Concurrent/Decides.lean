import MoneyFlow.Concurrent.Obeys
import MoneyFlow.Concurrent.Pool

/-!
# MoneyFlow.Concurrent.Decides

Programs that **decide once**, in a pool where threads may fail.

A handler reads what it likes, and at some point performs an operation that
decides what it was asked for. If that operation succeeds it is the handler's
last: nothing is left to do but return the answer it decided. `Decides` says so
of a program. It is what makes a decision and its answer one step of the run, as
a specification has it that decides and answers at once.

`Pool.FaultyStep` adds the ways a handler may be cut short: an operation fails, or
it is performed and its reply is lost. Either way the handler returns at once
with one of the results `failed` allows.
-/

namespace MoneyFlow.Concurrent

variable {σ : Type} [Preorder σ] {Op : Type} {Resp : Op → Type} [Atomic σ Op Resp]
variable {τ ρ α β ε : Type}

/-- Which operations have nothing to do with deciding, which decide what, and by
which answer a decision is known to have been made. -/
structure Ruling (Op : Type) (Resp : Op → Type) (ρ : Type) where
  quiet : Op → Prop
  decides : Op → ρ → Prop
  landed : (o : Op) → Resp o → Prop

/-- The operation is quiet, or a decision that leaves nothing to do but return what
was decided. -/
def Ruling.Final (D : Ruling Op Resp ρ) (o : Op) (k : Resp o → Prog Op Resp ρ) : Prop :=
  D.quiet o ∨ ∃ a, D.decides o a ∧ ∀ r, D.landed o r → k r = .ret a

/-- The ruling on a value that will be wrapped. -/
def Ruling.comap (D : Ruling Op Resp ρ) (f : α → ρ) : Ruling Op Resp α where
  quiet := D.quiet
  decides o a := D.decides o (f a)
  landed := D.landed

/-- Every operation of the program is quiet or a decision that ends it, and what it
returns meets `Q`. -/
def Decides (D : Ruling Op Resp ρ) (Q : ρ → σ → Prop) : Prog Op Resp ρ → σ → Prop
  | .ret a, s => ∀ s', s ≤ s' → Q a s'
  | .halt, _ => True
  | .op o k, s => ∀ s1, s ≤ s1 → D.Final o k ∧
      ∀ r s2, Atomic.exec s1 o r s2 → Decides D Q (k r) s2

/-- Only quiet operations are performed. -/
def Ruling.silence (D : Ruling Op Resp ρ) : Contract σ Op := ⟨fun _ _ => True, fun o _ => D.quiet o⟩

namespace Decides

variable {D : Ruling Op Resp ρ} {Q : ρ → σ → Prop} {s s' : σ}

theorem grow {p : Prog Op Resp ρ} (h : Decides D Q p s) (hs : s ≤ s') : Decides D Q p s' := by
  cases p with
  | ret a | op o k => exact fun t ht => h t (hs.trans ht)
  | halt => trivial

/-- Quiet code first. -/
theorem bind {p : Prog Op Resp α} {f : α → Prog Op Resp ρ}
    (h : Safe D.silence (fun a s' => Decides D Q (f a) s') p s) : Decides D Q (p >>= f) s := by
  induction p generalizing s with
  | ret a => exact h s le_rfl
  | halt => trivial
  | op o k ih =>
    intro s1 h1
    obtain ⟨he, hk⟩ := h s1 h1 trivial
    exact ⟨Or.inl he, fun r s2 hx => ih r (hk r s2 hx)⟩

/-- What is returned may be wrapped. -/
theorem map {f : α → ρ} {F : α → Prog Op Resp ρ} {p : Prog Op Resp α}
    (h : Decides (D.comap f) (fun a s' => Q (f a) s') p s) (hF : ∀ a, F a = .ret (f a)) :
    Decides D Q (p >>= F) s := by
  obtain rfl : F = fun a => .ret (f a) := funext hF
  induction p generalizing s with
  | ret a => exact h
  | halt => trivial
  | op o k ih =>
    intro s1 h1
    obtain ⟨hfinal, hk⟩ := h s1 h1
    refine ⟨hfinal.imp_right ?_, fun r s2 hx => ih r (hk r s2 hx)⟩
    rintro ⟨a, ha, hland⟩
    exact ⟨f a, ha, fun r hr => congrArg (fun p => p.bind fun b => .ret (f b)) (hland r hr)⟩

section Fallible

variable {D : Ruling Op Resp (Except ε β)} {Q : Except ε β → σ → Prop}

/-- Quiet code first; an error is passed on. -/
theorem seq {p : ExceptT ε (Prog Op Resp) α} {f : α → ExceptT ε (Prog Op Resp) β}
    {R : α → σ → Prop} (h : Ensures D.silence p R s) (hQ : ∀ e s', Q (.error e) s')
    (hf : ∀ a s', s ≤ s' → R a s' → Decides D Q (f a).run s') :
    Decides D Q (p >>= f).run s := by
  refine bind (Safe.mono h fun r s' hs hr => ?_)
  cases r with
  | ok a => exact hf a s' hs (hr a rfl)
  | error e => exact fun t _ => hQ e t

end Fallible

end Decides

namespace Pool

/-- A step of a pool, or a thread is cut short. -/
inductive FaultyStep (S : Scheduler σ τ Op Resp ρ) (failed : ρ → Prop) :
    Pool σ τ Op Resp ρ → Pool σ τ Op Resp ρ → Prop
  | step {c c' : Pool σ τ Op Resp ρ} : Step S c c' → FaultyStep S failed c c'
  /-- An operation fails. -/
  | fail {c : Pool σ τ Op Resp ρ} {i : Nat} {t : τ} {o : Op} {k : Resp o → Prog Op Resp ρ} {a : ρ} :
      c.threads[i]? = some (t, .op o k) → failed a →
      FaultyStep S failed c ⟨c.state, c.threads.set i (t, .ret a)⟩
  /-- An operation is performed, and its reply is lost. -/
  | lost {c : Pool σ τ Op Resp ρ} {s : σ} {i : Nat} {t : τ} {o : Op} {k : Resp o → Prog Op Resp ρ}
      {r : Resp o} {a : ρ} :
      c.threads[i]? = some (t, .op o k) → S.guard t o c.state → Atomic.exec c.state o r s →
      failed a → FaultyStep S failed c ⟨s, c.threads.set i (t, .ret a)⟩

/-- Reachable from `s0` with no thread running, where threads may be cut short. -/
def FaultyReachable (S : Scheduler σ τ Op Resp ρ) (failed : ρ → Prop) (s0 : σ)
    (c : Pool σ τ Op Resp ρ) : Prop :=
  Relation.ReflTransGen (FaultyStep S failed) ⟨s0, []⟩ c

theorem Reachable.faulty {S : Scheduler σ τ Op Resp ρ} {failed : ρ → Prop} {s0 : σ}
    {c : Pool σ τ Op Resp ρ} (h : Reachable S s0 c) : FaultyReachable S failed s0 c :=
  Relation.ReflTransGen.mono (fun _ _ => FaultyStep.step) _ _ h

/-- What each thread is known to be about, from the state on. A property of programs
that growth keeps and that each kind of step keeps for the thread it moves is
kept for every thread. -/
theorem FaultyStep.threadwise {S : Scheduler σ τ Op Resp ρ} {failed : ρ → Prop}
    {c c' : Pool σ τ Op Resp ρ} (h : FaultyStep S failed c c')
    {P : τ → Prog Op Resp ρ → σ → Prop}
    (hgrow : ∀ t p s s', P t p s → s ≤ s' → P t p s')
    (henv : ∀ s s', S.env s s' → s ≤ s')
    (hstart : ∀ t p s, S.start t p → P t p s)
    (hrun : ∀ t o k s r s', P t (.op o k) s → S.guard t o s → Atomic.exec s o r s' → P t (k r) s')
    (hfail : ∀ t o k a s, P t (.op o k) s → failed a → P t (.ret a) s)
    (hP : ∀ (i : Nat) t p, c.threads[i]? = some (t, p) → P t p c.state) :
    ∀ (i : Nat) t p, c'.threads[i]? = some (t, p) → P t p c'.state := by
  -- one thread moves, the others only see the state grow
  have hset {j : Nat} {t : τ} {q : Prog Op Resp ρ} {s' : σ} (hle : c.state ≤ s')
      (hq : P t q s') : ∀ (i : Nat) u p, (c.threads.set j (t, q))[i]? = some (u, p) → P u p s' := by
    intro i u p hi
    rw [List.getElem?_set] at hi
    split at hi
    · split at hi
      · cases hi
        exact hq
      · cases hi
    · exact hgrow u p _ _ (hP i u p hi) hle
  cases h with
  | step h =>
    rcases h.performs with ⟨hs, t, p, hp, hts⟩ | ⟨j, t, o, next, r, hj, hg, hx, hts⟩ | ⟨he, hts⟩
    · intro i u q hi
      rw [hs]
      rw [hts, List.getElem?_append] at hi
      split at hi
      · exact hP i u q hi
      · obtain ⟨rfl, rfl⟩ := Prod.mk.inj (List.mem_singleton.mp (List.mem_of_getElem? hi))
        exact hstart u q _ hp
    · rw [hts]
      exact hset (Atomic.le_of_exec hx) (hrun t o next _ r _ (hP j t _ hj) hg hx)
    · intro i u q hi
      exact hgrow u q _ _ (hP i u q (hts ▸ hi)) (henv _ _ he)
  | @fail j t o k a hj ha => exact hset le_rfl (hfail t o k a _ (hP j t _ hj) ha)
  | @lost s j t o k r a hj hg hx ha =>
    have hle := Atomic.le_of_exec hx
    exact hset hle (hfail t o k a _ (hgrow t _ _ _ (hP j t _ hj) hle) ha)

end Pool

end MoneyFlow.Concurrent
