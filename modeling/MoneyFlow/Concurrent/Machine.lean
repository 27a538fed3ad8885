import Mathlib

/-!
# MoneyFlow.Concurrent.Machine

Machines whose steps are moves that are made or refused.

Everything the machine does not decide itself is part of the move: which process
takes a step, what it reads from a copy that lags behind, what the environment
answers. So a run is a list of moves, which can be played (`Machine.play`), and the
states reached by moves that all meet a condition are the `Reaches` of that condition.
-/

namespace MoneyFlow.Concurrent

/-- A state to start from, and what a move does in a state; `none` refuses it. -/
structure Machine (σ μ : Type) where
  init : σ
  exec : σ → μ → Option σ

namespace Machine

variable {σ μ : Type} {M : Machine σ μ} {cond cond' : σ → μ → Prop} {s s' : σ}

/-- Reached by moves that all meet the condition. -/
inductive Reaches (M : Machine σ μ) (cond : σ → μ → Prop) : σ → Prop
  | init : Reaches M cond M.init
  | step {s s' : σ} {m : μ} (h : Reaches M cond s) (hm : cond s m) (hx : M.exec s m = some s') :
      Reaches M cond s'

/-- Reached at all. -/
abbrev Reachable (M : Machine σ μ) : σ → Prop := Reaches M fun _ _ => True

/-- What the start meets and every move keeps. -/
theorem Reaches.invariant {P : σ → Prop} (h : Reaches M cond s) (hinit : P M.init)
    (hstep : ∀ s m s', P s → cond s m → M.exec s m = some s' → P s') : P s := by
  induction h with
  | init => exact hinit
  | step _ hm hx ih => exact hstep _ _ _ ih hm hx

theorem Reaches.reachable (h : Reaches M cond s) : M.Reachable s := by
  induction h with
  | init => exact .init
  | step _ _ hx ih => exact .step ih trivial hx

/-- One move after another, as long as each meets the condition and is made. -/
def play (M : Machine σ μ) (cond : σ → μ → Prop) [∀ s m, Decidable (cond s m)] :
    σ → List μ → Option σ
  | s, [] => some s
  | s, m :: ms =>
    if cond s m then
      match M.exec s m with
      | some s' => play M cond s' ms
      | none => none
    else none

theorem Reaches.play [∀ s m, Decidable (cond s m)] {ms : List μ} (h : Reaches M cond s)
    (hp : M.play cond s ms = some s') : Reaches M cond s' := by
  induction ms generalizing s with
  | nil =>
    cases hp
    exact h
  | cons m ms ih =>
    unfold Machine.play at hp
    split at hp
    · rename_i hm
      split at hp
      · rename_i s1 hx
        exact ih (.step h hm hx) hp
      · cases hp
    · cases hp

/-- A run that was played. -/
theorem reaches_of_play [∀ s m, Decidable (cond s m)] (ms : List μ)
    (hp : M.play cond M.init ms = some s) : Reaches M cond s :=
  Reaches.init.play hp

/-- A run that was played to a state with a property. -/
theorem exists_of_play (M : Machine σ μ) (cond : σ → μ → Prop) [∀ s m, Decidable (cond s m)]
    (P : σ → Prop) [DecidablePred P] (ms : List μ)
    (hp : (M.play cond M.init ms).any (fun s => decide (P s)) = true) :
    ∃ s, Reaches M cond s ∧ P s := by
  cases hs : M.play cond M.init ms with
  | none =>
    rw [hs] at hp
    cases hp
  | some s =>
    rw [hs] at hp
    exact ⟨s, reaches_of_play ms hs, of_decide_eq_true hp⟩

end Machine

/-! ### Lists of what runs side by side -/

variable {α β : Type}

/-- Replacing an entry by one that looks the same leaves the list looking the same. -/
theorem map_set_of_eq (f : α → β) : ∀ {xs : List α} {i : Nat} {x : α} (y : α),
    xs[i]? = some x → f y = f x → (xs.set i y).map f = xs.map f
  | [], _, _, _, _, _ => rfl
  | z :: xs, 0, x, y, h, hf => by
    obtain rfl : z = x := by simpa using h
    simp [hf]
  | z :: xs, i + 1, x, y, h, hf => by
    have htail : xs[i]? = some x := by simpa using h
    simp [map_set_of_eq f y htail hf]

/-- An entry other than the one replaced is still there. -/
theorem mem_set_of_ne {xs : List α} {i : Nat} {x y : α} (z : α) (hy : y ∈ xs)
    (hx : xs[i]? = some x) (hne : y ≠ x) : y ∈ xs.set i z := by
  obtain ⟨k, hk, rfl⟩ := List.mem_iff_getElem.mp hy
  refine List.mem_iff_getElem.mpr ⟨k, by simpa using hk, ?_⟩
  rw [List.getElem_set_ne]
  intro hik
  subst hik
  exact hne (by simpa [List.getElem?_eq_getElem hk] using hx)

end MoneyFlow.Concurrent
