import MoneyFlow.Concurrent.Alone
import MoneyFlow.Concurrent.Safe

/-!
# MoneyFlow.Concurrent.Noted

A program run with nothing else going on, and **a note kept** of some of what it
asks and is answered.

`Noted exec note` means by every operation what `exec` means by it, and adds what
`note` picks out of it to a list. Code that performs nothing of note does what it
does without the list (`Ends.noted`), so what is known of such code carries over as
it stands.
-/

namespace MoneyFlow.Concurrent

variable {σ δ : Type} [Preorder σ] {Op : Type} {Resp : Op → Type} [Atomic σ Op Resp]
variable {α ε : Type}

/-- The operations as `exec` has them, with a list of what `note` picks out. -/
def Noted (exec : σ → (o : Op) → Resp o → σ → Prop) (note : (o : Op) → Resp o → Option δ)
    (s : σ × List δ) (o : Op) (r : Resp o) (s' : σ × List δ) : Prop :=
  exec s.1 o r s'.1 ∧ s'.2 = s.2 ++ (note o r).toList

variable {exec : σ → (o : Op) → Resp o → σ → Prop} {note : (o : Op) → Resp o → Option δ}

/-- Nothing `note` picks out is ever performed; the rest is as everywhere. -/
structure Unnoted (exec : σ → (o : Op) → Resp o → σ → Prop) (note : (o : Op) → Resp o → Option δ)
    (C : Contract σ Op) : Prop where
  assume : ∀ o s, C.assume o s
  none : ∀ o s, C.ensure o s → ∀ r, note o r = none
  exec : ∀ o s r s', C.ensure o s → exec s o r s' → Atomic.exec s o r s'

theorem Ends.noted {C : Contract σ Op} {Q : α → σ → Prop} {R : α → σ → Prop}
    {p : Prog Op Resp α} {s : σ} (hC : Unnoted exec note C) (h : Ends exec Q p s)
    (hs : Safe C R p s) (log : List δ) :
    Ends (Noted exec note) (fun a s' => Q a s'.1 ∧ s'.2 = log) p (s, log) := by
  induction p generalizing s with
  | ret a => exact ⟨h, rfl⟩
  | halt => exact h
  | op o k ih =>
    obtain ⟨⟨r, s', hx⟩, hk⟩ := h
    obtain ⟨hensure, hsafe⟩ := hs s le_rfl (hC.assume o s)
    have hsame (r : Resp o) : log ++ (note o r).toList = log := by
      simp [hC.none o s hensure r]
    refine ⟨⟨r, (s', log), hx, (hsame r).symm⟩, fun r t ht => ?_⟩
    obtain ⟨hx, hlog⟩ := ht
    obtain ⟨s1, log1⟩ := t
    obtain rfl : log1 = log := hlog.trans (hsame r)
    exact ih r (hk r s1 hx) (hsafe r s1 (hC.exec o s r s1 hensure hx))

theorem Returns.noted {C : Contract σ Op} {P : α → σ → Prop} {R : α → σ → Prop}
    {p : ExceptT ε (Prog Op Resp) α} {s : σ} (hC : Unnoted exec note C) (h : Returns exec p P s)
    (hs : Ensures C p R s) (log : List δ) :
    Returns (Noted exec note) p (fun a s' => P a s'.1 ∧ s'.2 = log) (s, log) := by
  refine Ends.mono (Ends.noted hC h hs log) fun r s' hr => ?_
  obtain ⟨⟨a, rfl, ha⟩, hlog⟩ := hr
  exact ⟨a, rfl, ha, hlog⟩

end MoneyFlow.Concurrent
