import MoneyFlow.Concurrent.Prog

/-!
# MoneyFlow.Concurrent.Alone

What a program does when nothing else runs.

`Ends exec Q p s` says that `p`, run from `s` with every operation answered as
`exec` allows, **returns**, whatever the answers, and that what it returns and the
state it leaves meet `Q`. A program that halts meets no `Q`: to show that code with
a loop ends is to find the fuel it needs. The meaning of the operations is a
parameter here, so one program can be run against two accounts of the world it
talks to.
-/

namespace MoneyFlow.Concurrent

variable {σ Op : Type} {Resp : Op → Type} {α β ε : Type}

/-- Run from `s` with nothing else going on, the program returns, whatever its
operations are answered, and the result meets `Q`. -/
def Ends (exec : σ → (o : Op) → Resp o → σ → Prop) (Q : α → σ → Prop) : Prog Op Resp α → σ → Prop
  | .ret a, s => Q a s
  | .halt, _ => False
  | .op o k, s => (∃ r s', exec s o r s') ∧ ∀ r s', exec s o r s' → Ends exec Q (k r) s'

variable {exec : σ → (o : Op) → Resp o → σ → Prop}

namespace Ends

variable {Q Q' : α → σ → Prop} {R : β → σ → Prop} {p : Prog Op Resp α} {s : σ}

theorem mono (h : Ends exec Q p s) (hQ : ∀ a s', Q a s' → Q' a s') : Ends exec Q' p s := by
  induction p generalizing s with
  | ret a => exact hQ a s h
  | halt => exact h
  | op o k ih => exact ⟨h.1, fun r s' hx => ih r (h.2 r s' hx)⟩

theorem and (h : Ends exec Q p s) (h' : Ends exec Q' p s) :
    Ends exec (fun a s' => Q a s' ∧ Q' a s') p s := by
  induction p generalizing s with
  | ret a => exact ⟨h, h'⟩
  | halt => exact h
  | op o k ih => exact ⟨h.1, fun r s' hx => ih r (h.2 r s' hx) (h'.2 r s' hx)⟩

/-- There is a way it ends. -/
theorem result (h : Ends exec Q p s) : ∃ a s', Q a s' := by
  induction p generalizing s with
  | ret a => exact ⟨a, s, h⟩
  | halt => exact h.elim
  | op o k ih =>
    obtain ⟨⟨r, s', hx⟩, hk⟩ := h
    exact ih r (hk r s' hx)

theorem bind {f : α → Prog Op Resp β} (h : Ends exec (fun a s' => Ends exec R (f a) s') p s) :
    Ends exec R (p >>= f) s := by
  induction p generalizing s with
  | ret a | halt => exact h
  | op o k ih => exact ⟨h.1, fun r s' hx => ih r (h.2 r s' hx)⟩

end Ends

/-- `Ends` for a fallible program. -/
abbrev Yields (exec : σ → (o : Op) → Resp o → σ → Prop) (p : ExceptT ε (Prog Op Resp) α)
    (Q : Except ε α → σ → Prop) (s : σ) : Prop :=
  Ends exec Q p.run s

/-- It ends without an error, with a value that meets `Q`. -/
abbrev Returns (exec : σ → (o : Op) → Resp o → σ → Prop) (p : ExceptT ε (Prog Op Resp) α)
    (Q : α → σ → Prop) (s : σ) : Prop :=
  Yields exec p (fun r s' => ∃ a, r = .ok a ∧ Q a s') s

namespace Yields

variable {p : ExceptT ε (Prog Op Resp) α} {f : α → ExceptT ε (Prog Op Resp) β}
  {Q : Except ε β → σ → Prop} {P : α → σ → Prop} {s : σ}

theorem throw {e : ε} (h : Q (.error e) s) :
    Yields exec (throw e : ExceptT ε (Prog Op Resp) β) Q s := h

theorem bind (h : Yields exec p (fun r s' => match r with
    | .ok a => Yields exec (f a) Q s'
    | .error e => Q (.error e) s') s) : Yields exec (p >>= f) Q s := by
  refine Ends.bind (Ends.mono h fun r s' hr => ?_)
  cases r with
  | ok a | error e => exact hr

/-- What returns, then `f`. -/
theorem seq (hp : Returns exec p P s) (hf : ∀ a s', P a s' → Yields exec (f a) Q s') :
    Yields exec (p >>= f) Q s := by
  refine bind (Ends.mono hp fun r s' hr => ?_)
  obtain ⟨a, rfl, ha⟩ := hr
  exact hf a s' ha

/-- An operation, then `f`. -/
theorem request {o : Op} {g : Resp o → ExceptT ε (Prog Op Resp) β} (hx : ∃ r s', exec s o r s')
    (hg : ∀ r s', exec s o r s' → Yields exec (g r) Q s') :
    Yields exec (Concurrent.request o >>= g) Q s :=
  ⟨hx, hg⟩

/-- An operation that has but one answer, then `f`. -/
theorem request_one {o : Op} {g : Resp o → ExceptT ε (Prog Op Resp) β} {r : Resp o} {s1 : σ}
    (hx : ∀ r' s', exec s o r' s' ↔ (r', s') = (r, s1)) (hg : Yields exec (g r) Q s1) :
    Yields exec (Concurrent.request o >>= g) Q s := by
  refine request ⟨r, s1, (hx r s1).mpr rfl⟩ fun r' s' h => ?_
  obtain ⟨rfl, rfl⟩ := Prod.mk.inj ((hx r' s').mp h)
  exact hg

end Yields

namespace Returns

variable {p : ExceptT ε (Prog Op Resp) α} {f : α → ExceptT ε (Prog Op Resp) β}
  {P P' : α → σ → Prop} {s : σ}

theorem pure {a : α} (h : P a s) :
    Returns exec (Pure.pure a : ExceptT ε (Prog Op Resp) α) P s := ⟨a, rfl, h⟩

theorem mono (h : Returns exec p P s) (hP : ∀ a s', P a s' → P' a s') : Returns exec p P' s := by
  refine Ends.mono h fun r s' hr => ?_
  obtain ⟨a, rfl, ha⟩ := hr
  exact ⟨a, rfl, hP a s' ha⟩

end Returns

end MoneyFlow.Concurrent
