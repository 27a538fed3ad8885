import MoneyFlow.Concurrent.Machine

/-!
# MoneyFlow.Concurrent.Crew

Processes that share a state.

Each process is where it stands in its program; a step takes it and the shared state on
together, and the world around them may change the shared state at any time. A process
that crashes is one that takes no further step, so crashes need no move of their own.

`Crew.invariant_others` is the rule for what holds of the shared state and of every
process: a step keeps what it knows itself, and does not break what any other process
knows. In `Crew.invariant_of` it breaks nothing at all, and in `Crew.invariant` the
condition on the moves says nothing.
-/

namespace MoneyFlow.Concurrent

/-- Programs of processes over a shared state. `ε` is what a step is answered from
outside, `η` what the world does. -/
structure Crew (σ π ε η : Type) where
  init : σ
  /-- Where a process may begin. -/
  start : σ → π → Bool
  step : σ → π → ε → Option (σ × π)
  world : σ → η → Option σ

namespace Crew

/-- The shared state and the processes. -/
structure State (σ π : Type) where
  shared : σ
  procs : List π

/-- What can happen next. -/
inductive Move (π ε η : Type)
  | spawn (p : π)
  | step (i : Nat) (e : ε)
  | world (w : η)

variable {σ π ε η : Type}

/-- What a move does. -/
def exec (C : Crew σ π ε η) (s : State σ π) : Move π ε η → Option (State σ π)
  | .spawn p => if C.start s.shared p then some { s with procs := s.procs ++ [p] } else none
  | .step i e =>
    match s.procs[i]? with
    | some p => (C.step s.shared p e).map fun r => ⟨r.1, s.procs.set i r.2⟩
    | none => none
  | .world w => (C.world s.shared w).map fun shared => { s with shared := shared }

/-- The processes at work, from none. -/
def machine (C : Crew σ π ε η) : Machine (State σ π) (Move π ε η) where
  init := ⟨C.init, []⟩
  exec := C.exec

variable {C : Crew σ π ε η} {s s' : State σ π}

theorem exec_spawn {p : π} (h : C.exec s (.spawn p) = some s') :
    C.start s.shared p = true ∧ s' = { s with procs := s.procs ++ [p] } := by
  simp only [exec] at h
  split at h
  · rename_i hstart
    exact ⟨hstart, (Option.some.inj h).symm⟩
  · cases h

theorem exec_step {i : Nat} {e : ε} (h : C.exec s (.step i e) = some s') :
    ∃ p r, s.procs[i]? = some p ∧ C.step s.shared p e = some r ∧
      s' = ⟨r.1, s.procs.set i r.2⟩ := by
  simp only [exec] at h
  split at h
  · rename_i p hp
    obtain ⟨r, hr, rfl⟩ := Option.map_eq_some_iff.mp h
    exact ⟨p, r, hp, hr, rfl⟩
  · cases h

theorem exec_world {w : η} (h : C.exec s (.world w) = some s') :
    ∃ shared, C.world s.shared w = some shared ∧ s' = { s with shared := shared } := by
  obtain ⟨shared, hw, rfl⟩ := Option.map_eq_some_iff.mp h
  exact ⟨shared, hw, rfl⟩

/-- An entry of a list with one replaced is the new one, or one of the others. -/
theorem mem_set_eraseIdx {xs : List π} {i : Nat} {x y : π} (h : y ∈ xs.set i x) :
    y = x ∨ y ∈ xs.eraseIdx i := by
  induction xs generalizing i with
  | nil => cases h
  | cons z xs ih =>
    cases i with
    | zero => exact List.mem_cons.mp h
    | succ i =>
      rcases List.mem_cons.mp h with rfl | h
      · exact .inr List.mem_cons_self
      · exact (ih h).imp_right (List.mem_cons_of_mem _)

/-- What holds of the shared state, and of every process in it, where every move meets
the condition; a step answers for what it does to the other processes. What is known of
every state that is reached may be used of the one before a move. -/
theorem invariant_others {cond : State σ π → Move π ε η → Prop} {P : σ → Prop} {Q : σ → π → Prop}
    (h : C.machine.Reaches cond s) (hinit : P C.init)
    (hspawn : ∀ s p, P s.shared → cond s (.spawn p) → C.start s.shared p = true → Q s.shared p)
    (hstep : ∀ s i e p t p', C.machine.Reaches cond s → P s.shared →
      (∀ q ∈ s.procs, Q s.shared q) → cond s (.step i e) → s.procs[i]? = some p →
      C.step s.shared p e = some (t, p') →
      P t ∧ Q t p' ∧ ∀ q ∈ s.procs.eraseIdx i, Q s.shared q → Q t q)
    (hworld : ∀ s w t, C.machine.Reaches cond s → P s.shared → (∀ q ∈ s.procs, Q s.shared q) →
      cond s (.world w) → C.world s.shared w = some t → P t ∧ ∀ q ∈ s.procs, Q s.shared q → Q t q) :
    P s.shared ∧ ∀ p ∈ s.procs, Q s.shared p := by
  induction h with
  | init => exact ⟨hinit, nofun⟩
  | @step s s' m hs hm hx ih =>
    obtain ⟨hP, hQ⟩ := ih
    cases m with
    | spawn p =>
      obtain ⟨hstart, rfl⟩ := exec_spawn hx
      refine ⟨hP, ?_⟩
      intro q hq
      rcases List.mem_append.mp hq with hq | hq
      · exact hQ q hq
      · obtain rfl := List.mem_singleton.mp hq
        exact hspawn s _ hP hm hstart
    | step i e =>
      obtain ⟨p, r, hp, hr, rfl⟩ := exec_step hx
      obtain ⟨hP', hQ', hothers⟩ := hstep _ _ _ _ _ _ hs hP hQ hm hp hr
      refine ⟨hP', ?_⟩
      intro q hq
      rcases mem_set_eraseIdx hq with rfl | hq
      · exact hQ'
      · exact hothers q hq (hQ q (List.mem_of_mem_eraseIdx hq))
    | world w =>
      obtain ⟨shared, hw, rfl⟩ := exec_world hx
      obtain ⟨hP', hothers⟩ := hworld _ _ _ hs hP hQ hm hw
      exact ⟨hP', fun q hq => hothers q hq (hQ q hq)⟩

/-- The same, where a step breaks nothing that any process knows. -/
theorem invariant_of {cond : State σ π → Move π ε η → Prop} {P : σ → Prop} {Q : σ → π → Prop}
    (h : C.machine.Reaches cond s) (hinit : P C.init)
    (hspawn : ∀ s p, P s.shared → cond s (.spawn p) → C.start s.shared p = true → Q s.shared p)
    (hstep : ∀ s i e p t p', P s.shared → (∀ q ∈ s.procs, Q s.shared q) → cond s (.step i e) →
      s.procs[i]? = some p → C.step s.shared p e = some (t, p') →
      P t ∧ Q t p' ∧ ∀ q ∈ s.procs, Q s.shared q → Q t q)
    (hworld : ∀ s w t, P s.shared → (∀ q ∈ s.procs, Q s.shared q) → cond s (.world w) →
      C.world s.shared w = some t → P t ∧ ∀ q ∈ s.procs, Q s.shared q → Q t q) :
    P s.shared ∧ ∀ p ∈ s.procs, Q s.shared p := by
  refine invariant_others h hinit hspawn ?_ (fun s w t _ => hworld s w t)
  intro s i e p t p' _ hP hQ hm hp hx
  obtain ⟨hP', hQ', hothers⟩ := hstep s i e p t p' hP hQ hm hp hx
  exact ⟨hP', hQ', fun q hq => hothers q (List.mem_of_mem_eraseIdx hq)⟩

/-- What holds of the shared state, and of every process in it. -/
theorem invariant {cond : State σ π → Move π ε η → Prop} {P : σ → Prop} {Q : σ → π → Prop}
    (h : C.machine.Reaches cond s) (hinit : P C.init)
    (hspawn : ∀ t p, P t → C.start t p = true → Q t p)
    (hstep : ∀ t p e t' p', P t → Q t p → C.step t p e = some (t', p') →
      P t' ∧ Q t' p' ∧ ∀ q, Q t q → Q t' q)
    (hworld : ∀ t w t', P t → C.world t w = some t' → P t' ∧ ∀ q, Q t q → Q t' q) :
    P s.shared ∧ ∀ p ∈ s.procs, Q s.shared p := by
  refine invariant_of h hinit (fun s p hP _ => hspawn s.shared p hP) ?_ ?_
  · intro s i e p t p' hP hQ _ hp hx
    obtain ⟨hP', hQ', hothers⟩ := hstep _ _ _ _ _ hP (hQ p (List.mem_of_getElem? hp)) hx
    exact ⟨hP', hQ', fun q _ => hothers q⟩
  · intro s w t hP _ _ hx
    obtain ⟨hP', hothers⟩ := hworld _ _ _ hP hx
    exact ⟨hP', fun q _ => hothers q⟩

end Crew

end MoneyFlow.Concurrent
