import MoneyFlow.Concurrent.Safe

/-!
# MoneyFlow.Concurrent.Obeys

Contracts that most code keeps **without knowing anything**.

A contract that only speaks of a few kinds of operation (who may open a stream,
when a claim may be taken) is kept by any code that performs none of them, and a
program keeps it if its parts do. `Obeys C p s` is `Ensures` with nothing owed
for what is returned. Its rules follow the shape of the code, so the code that
the contract is about can be treated apart, with the facts it needs, and put
back where it is called.
-/

namespace MoneyFlow.Concurrent

variable {σ : Type} [Preorder σ] {Op : Type} {Resp : Op → Type} [Atomic σ Op Resp]
variable {α β ε : Type}

/-- Whenever `o` may be performed, it may be performed under the contract. -/
def Permits (C : Contract σ Op) (o : Op) : Prop := ∀ s, C.assume o s → C.ensure o s

/-- From `s` on, whenever `o` may be performed, it may be performed under the
contract. -/
def PermitsFrom (C : Contract σ Op) (o : Op) (s : σ) : Prop :=
  ∀ s1, s ≤ s1 → C.assume o s1 → C.ensure o s1

theorem PermitsFrom.grow {C : Contract σ Op} {o : Op} {s s' : σ} (h : PermitsFrom C o s)
    (hs : s ≤ s') : PermitsFrom C o s' := fun s1 hle => h s1 (hs.trans hle)

theorem Permits.from {C : Contract σ Op} {o : Op} (h : Permits C o) (s : σ) :
    PermitsFrom C o s := fun s1 _ => h s1

/-- The contract, with what holds from `s` on taken for granted. -/
def Contract.from (C : Contract σ Op) (s : σ) : Contract σ Op where
  assume o t := s ≤ t ∧ C.assume o t
  ensure := C.ensure

/-- A program started in `s` is at all times past `s`. -/
theorem Safe.of_from {C : Contract σ Op} {Q : α → σ → Prop} {p : Prog Op Resp α} {s t : σ}
    (h : Safe (C.from s) Q p t) (hle : s ≤ t) : Safe C Q p t := by
  induction p generalizing t with
  | ret a => exact h
  | halt => trivial
  | op o k ih =>
    intro t1 h1 ha
    obtain ⟨he, hk⟩ := h t1 h1 ⟨hle.trans h1, ha⟩
    refine ⟨he, fun r t2 hx => ih r (hk r t2 hx) ?_⟩
    exact (hle.trans h1).trans (Atomic.le_of_exec hx)

theorem Ensures.of_from {C : Contract σ Op} {Q : α → σ → Prop}
    {p : ExceptT ε (Prog Op Resp) α} {s : σ} (h : Ensures (C.from s) p Q s) :
    Ensures C p Q s :=
  Safe.of_from h le_rfl

/-- From `s` on the program keeps the contract, whatever it returns. -/
abbrev Obeys (C : Contract σ Op) (p : ExceptT ε (Prog Op Resp) α) (s : σ) : Prop :=
  Ensures C p (fun _ _ => True) s

namespace Obeys

variable {C : Contract σ Op} {Q : α → σ → Prop} {R : β → σ → Prop} {s : σ}

theorem of_ensures {p : ExceptT ε (Prog Op Resp) α} (h : Ensures C p Q s) : Obeys C p s :=
  h.mono fun _ _ _ _ => trivial

/-- What keeps two contracts keeps them together. -/
theorem both {D : Contract σ Op} {p : ExceptT ε (Prog Op Resp) α} (h : Obeys C p s)
    (h' : Obeys D p s) : Obeys (C.both D) p s :=
  of_ensures (Ensures.both h h')

theorem pure {a : α} : Obeys C (Pure.pure a : ExceptT ε (Prog Op Resp) α) s :=
  Ensures.pure fun _ _ => trivial

theorem bind {p : ExceptT ε (Prog Op Resp) α} {f : α → ExceptT ε (Prog Op Resp) β}
    (hp : Obeys C p s) (hf : ∀ a, Obeys C (f a) s) : Obeys C (p >>= f) s :=
  Ensures.seq hp fun a _ hle _ => (hf a).grow hle

theorem bind_bool {p : ExceptT ε (Prog Op Resp) Bool} {f : Bool → ExceptT ε (Prog Op Resp) β}
    (hp : Obeys C p s) (hfalse : Obeys C (f false) s) (htrue : Obeys C (f true) s) :
    Obeys C (p >>= f) s :=
  bind hp fun b => b.rec hfalse htrue

theorem bind_option {p : ExceptT ε (Prog Op Resp) (Option α)}
    {f : Option α → ExceptT ε (Prog Op Resp) β} (hp : Obeys C p s) (hnone : Obeys C (f none) s)
    (hsome : ∀ a, Obeys C (f (some a)) s) : Obeys C (p >>= f) s :=
  bind hp fun o => o.rec hnone hsome

/-- An operation the contract permits from now on, then `f`. -/
theorem request_from {o : Op} {f : Resp o → ExceptT ε (Prog Op Resp) β}
    (ho : PermitsFrom C o s) (hf : ∀ r, Ensures C (f r) R s) :
    Ensures C (Concurrent.request o >>= f) R s := by
  refine Ensures.request fun s1 hle ha => ⟨ho s1 hle ha, fun r s2 hx => ?_⟩
  exact (hf r).grow (hle.trans (Atomic.le_of_exec hx))

/-- An operation the contract permits, then `f`. -/
theorem request {o : Op} {f : Resp o → ExceptT ε (Prog Op Resp) β} (ho : Permits C o)
    (hf : ∀ r, Ensures C (f r) R s) : Ensures C (Concurrent.request o >>= f) R s :=
  request_from (ho.from s) hf

theorem map {p : ExceptT ε (Prog Op Resp) α} {f : α → β} (h : Obeys C p s) :
    Obeys C (f <$> p) s :=
  Ensures.map h fun _ _ _ => trivial

theorem outcomeOf {p : ExceptT ε (Prog Op Resp) α} (h : Obeys C p s) :
    Obeys C (Concurrent.outcomeOf p) s :=
  of_ensures (Ensures.outcomeOf h)

end Obeys

end MoneyFlow.Concurrent
