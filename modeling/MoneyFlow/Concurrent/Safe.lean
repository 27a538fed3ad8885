import MoneyFlow.Concurrent.Prog

/-!
# MoneyFlow.Concurrent.Safe

A rely-guarantee logic for programs over a **growing** state.

While a thread is between two of its operations the other threads may do
anything that makes the state grow. `Safe C p Q s` says that a thread which
has `p` left to do, started in any state grown from `s`, performs each of its
operations in a state that meets the contract `C`, and that whatever it
returns meets `Q` from then on. Knowledge a thread has gathered (a prefix of a
log it has loaded, an answer it has been given) survives exactly when it is
upward closed, so the rules below never mention the other threads.

* `Contract.assume` is what may be taken for granted when an operation is
  performed (an invariant of the state, a restriction on the runs considered);
* `Contract.ensure` is what the program owes at that moment.

`Ensures` is the same judgment for fallible programs, where only a normal
return owes anything: to a caller an error is the end of the step, and to the
state it is a thread that stops.
-/

namespace MoneyFlow.Concurrent

variable {σ : Type} [Preorder σ] {Op : Type} {Resp : Op → Type} [Atomic σ Op Resp]
variable {α β ε : Type}

/-- What holds when an operation is performed, and what is owed then. -/
structure Contract (σ Op : Type) where
  assume : Op → σ → Prop
  ensure : Op → σ → Prop

/-- Both contracts at once. -/
def Contract.both (C D : Contract σ Op) : Contract σ Op where
  assume o s := C.assume o s ∧ D.assume o s
  ensure o s := C.ensure o s ∧ D.ensure o s

/-- A contract that asks for nothing. -/
def Contract.free : Contract σ Op := ⟨fun _ _ => True, fun _ _ => True⟩

/-- From any state grown from `s`, every operation of the program meets the
contract, and its result meets `Q`. -/
def Safe (C : Contract σ Op) (Q : α → σ → Prop) : Prog Op Resp α → σ → Prop
  | .ret a, s => ∀ s', s ≤ s' → Q a s'
  | .halt, _ => True
  | .op o k, s => ∀ s1, s ≤ s1 → C.assume o s1 → C.ensure o s1 ∧
      ∀ r s2, Atomic.exec s1 o r s2 → Safe C Q (k r) s2

namespace Safe

variable {C : Contract σ Op} {Q Q' : α → σ → Prop} {R : β → σ → Prop}

/-- What is safe stays safe as the state grows. -/
theorem grow {p : Prog Op Resp α} {s s' : σ} (h : Safe C Q p s) (hs : s ≤ s') :
    Safe C Q p s' := by
  cases p with
  | ret a | op o k => exact fun t ht => h t (hs.trans ht)
  | halt => trivial

theorem mono {p : Prog Op Resp α} {s : σ} (h : Safe C Q p s)
    (hQ : ∀ a s', s ≤ s' → Q a s' → Q' a s') : Safe C Q' p s := by
  induction p generalizing s with
  | ret a => exact fun t ht => hQ a t ht (h t ht)
  | halt => trivial
  | op o k ih =>
    intro s1 h1 ha
    obtain ⟨he, hk⟩ := h s1 h1 ha
    refine ⟨he, fun r s2 hx => ih r (hk r s2 hx) ?_⟩
    intro a t ht
    exact hQ a t ((h1.trans (Atomic.le_of_exec hx)).trans ht)

/-- Every program is safe when nothing is asked of it. -/
theorem free (hQ : ∀ a s, Q a s) (p : Prog Op Resp α) (s : σ) : Safe Contract.free Q p s := by
  induction p generalizing s with
  | ret a => exact fun s' _ => hQ a s'
  | halt => trivial
  | op o k ih => exact fun _ _ _ => ⟨trivial, fun r s2 _ => ih r s2⟩

/-- What a program returns meets `Q` from then on. -/
theorem closed {p : Prog Op Resp α} {s : σ} (h : Safe C Q p s) :
    Safe C (fun a s' => ∀ t, s' ≤ t → Q a t) p s := by
  induction p generalizing s with
  | ret a => exact fun t ht u hu => h u (ht.trans hu)
  | halt => trivial
  | op o k ih =>
    intro s1 h1 ha
    obtain ⟨he, hk⟩ := h s1 h1 ha
    exact ⟨he, fun r s2 hx => ih r (hk r s2 hx)⟩

theorem bind {p : Prog Op Resp α} {f : α → Prog Op Resp β} {s : σ}
    (h : Safe C (fun a s' => Safe C R (f a) s') p s) : Safe C R (p >>= f) s := by
  induction p generalizing s with
  | ret a => exact h s le_rfl
  | halt => trivial
  | op o k ih =>
    intro s1 h1 ha
    obtain ⟨he, hk⟩ := h s1 h1 ha
    exact ⟨he, fun r s2 hx => ih r (hk r s2 hx)⟩

/-- What keeps two contracts keeps them together. -/
theorem both {D : Contract σ Op} {p : Prog Op Resp α} {s : σ} (h : Safe C Q p s)
    (h' : Safe D Q' p s) : Safe (C.both D) (fun a s' => Q a s' ∧ Q' a s') p s := by
  induction p generalizing s with
  | ret a => exact fun t ht => ⟨h t ht, h' t ht⟩
  | halt => trivial
  | op o k ih =>
    intro s1 h1 ha
    obtain ⟨he, hk⟩ := h s1 h1 ha.1
    obtain ⟨he', hk'⟩ := h' s1 h1 ha.2
    exact ⟨⟨he, he'⟩, fun r s2 hx => ih r (hk r s2 hx) (hk' r s2 hx)⟩

/-- Two things known of one program. -/
theorem and {p : Prog Op Resp α} {s : σ} (h : Safe C Q p s) (h' : Safe C Q' p s) :
    Safe C (fun a s' => Q a s' ∧ Q' a s') p s := by
  induction p generalizing s with
  | ret a => exact fun t ht => ⟨h t ht, h' t ht⟩
  | halt => trivial
  | op o k ih =>
    intro s1 h1 ha
    obtain ⟨he, hk⟩ := h s1 h1 ha
    exact ⟨he, fun r s2 hx => ih r (hk r s2 hx) ((h' s1 h1 ha).2 r s2 hx)⟩

end Safe

/-- `Safe` for a fallible program: a normal return meets `Q`, an error owes
nothing. -/
def Ensures (C : Contract σ Op) (p : ExceptT ε (Prog Op Resp) α) (Q : α → σ → Prop)
    (s : σ) : Prop :=
  Safe C (fun r s' => ∀ a, r = .ok a → Q a s') p.run s

namespace Ensures

variable {C : Contract σ Op} {Q Q' : α → σ → Prop} {R : β → σ → Prop} {s : σ}

theorem grow {p : ExceptT ε (Prog Op Resp) α} {s' : σ} (h : Ensures C p Q s) (hs : s ≤ s') :
    Ensures C p Q s' :=
  Safe.grow h hs

theorem mono {p : ExceptT ε (Prog Op Resp) α} (h : Ensures C p Q s)
    (hQ : ∀ a s', s ≤ s' → Q a s' → Q' a s') : Ensures C p Q' s :=
  Safe.mono h fun _ s' hs hr a ha => hQ a s' hs (hr a ha)

theorem pure {a : α} (h : ∀ s', s ≤ s' → Q a s') :
    Ensures C (Pure.pure a : ExceptT ε (Prog Op Resp) α) Q s := by
  rintro s' hs b ⟨rfl⟩
  exact h s' hs

theorem throw {e : ε} : Ensures C (throw e : ExceptT ε (Prog Op Resp) α) Q s := by
  rintro s' - b ⟨⟩

theorem halted : Ensures C (Concurrent.halted : ExceptT ε (Prog Op Resp) α) Q s := trivial

theorem bind {p : ExceptT ε (Prog Op Resp) α} {f : α → ExceptT ε (Prog Op Resp) β}
    (h : Ensures C p (fun a s' => Ensures C (f a) R s') s) : Ensures C (p >>= f) R s := by
  refine Safe.bind (Safe.mono h ?_)
  intro r s' _ hr
  cases r with
  | ok a => exact hr a rfl
  | error e => exact throw

/-- Sequencing through what the first program is known to return. -/
theorem seq {p : ExceptT ε (Prog Op Resp) α} {f : α → ExceptT ε (Prog Op Resp) β}
    (h : Ensures C p Q s) (hf : ∀ a s', s ≤ s' → Q a s' → Ensures C (f a) R s') :
    Ensures C (p >>= f) R s :=
  bind (h.mono hf)

/-- A program that goes on only from `true`. -/
theorem seq_true {p : ExceptT ε (Prog Op Resp) Bool} {f : Bool → ExceptT ε (Prog Op Resp) β}
    {Q : Bool → σ → Prop} (h : Ensures C p Q s) (hend : ∀ s', Ensures C (f false) R s')
    (hf : ∀ s', s ≤ s' → Q true s' → Ensures C (f true) R s') : Ensures C (p >>= f) R s := by
  refine h.seq fun b s' hle hb => ?_
  cases b with
  | false => exact hend s'
  | true => exact hf s' hle hb

theorem seq_some {p : ExceptT ε (Prog Op Resp) (Option α)}
    {f : Option α → ExceptT ε (Prog Op Resp) β} {Q : Option α → σ → Prop} (h : Ensures C p Q s)
    (hend : ∀ s', Ensures C (f none) R s')
    (hf : ∀ a s', s ≤ s' → Q (some a) s' → Ensures C (f (some a)) R s') :
    Ensures C (p >>= f) R s := by
  refine h.seq fun o s' hle ho => ?_
  cases o with
  | none => exact hend s'
  | some a => exact hf a s' hle ho

/-- One operation, then `f`. -/
theorem request {o : Op} {f : Resp o → ExceptT ε (Prog Op Resp) β}
    (h : ∀ s1, s ≤ s1 → C.assume o s1 → C.ensure o s1 ∧
      ∀ r s2, Atomic.exec s1 o r s2 → Ensures C (f r) R s2) :
    Ensures C (Concurrent.request o >>= f) R s :=
  fun s1 h1 ha => ⟨(h s1 h1 ha).1, fun r s2 hx => (h s1 h1 ha).2 r s2 hx⟩

/-- What keeps two contracts keeps them together. -/
theorem both {D : Contract σ Op} {p : ExceptT ε (Prog Op Resp) α} (h : Ensures C p Q s)
    (h' : Ensures D p Q' s) : Ensures (C.both D) p (fun a s' => Q a s' ∧ Q' a s') s :=
  Safe.mono (Safe.both h h') fun _ _ _ hr a ha => ⟨hr.1 a ha, hr.2 a ha⟩

/-- Two things known of one program. -/
theorem and {p : ExceptT ε (Prog Op Resp) α} (h : Ensures C p Q s) (h' : Ensures C p Q' s) :
    Ensures C p (fun a s' => Q a s' ∧ Q' a s') s :=
  Safe.mono (Safe.and h h') fun _ _ _ hr a ha => ⟨hr.1 a ha, hr.2 a ha⟩

theorem map {p : ExceptT ε (Prog Op Resp) α} {f : α → β} (h : Ensures C p Q s)
    (hf : ∀ a s', Q a s' → R (f a) s') : Ensures C (f <$> p) R s := by
  refine Safe.bind (Safe.mono (Safe.closed h) ?_)
  intro r s' _ hr
  cases r with
  | ok a =>
    rintro t ht _ ⟨rfl⟩
    exact hf a t (hr t ht a rfl)
  | error e => exact throw

theorem outcomeOf {p : ExceptT ε (Prog Op Resp) α} (h : Ensures C p Q s) :
    Ensures C (outcomeOf p) (fun r s' => ∀ a, r = .ok a → Q a s') s := by
  refine Safe.bind (Safe.mono (Safe.closed h) ?_)
  rintro r s' _ hr t ht _ ⟨rfl⟩
  exact hr t ht

end Ensures

end MoneyFlow.Concurrent
