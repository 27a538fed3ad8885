import MoneyFlow.Footprint
import MoneyFlow.Protocol

/-!
# MoneyFlow.Conduct

How service code is shown to keep the protocol, and that the Wallet and Token
services do.

`Conducts R A p Q w` says that `p`, started in any world grown from `w` and
interrupted at will, performs legal operations only, and that what it returns
meets `Q`. There is one rule for each operation. Loading a stream gives the
invariant as of that moment and a prefix of the stream that stays one; an append
that lands at the position a reader loaded finds the stream exactly as loaded
(`Conducts.append_at`), and that is all compare-and-swap is good for.
-/

namespace MoneyFlow

open Concurrent Service Transfer Transaction

variable {id : Id} {R : Prop} {w : World}

/-- `p` keeps the protocol from `w` on, and what it returns meets `Q`. -/
abbrev Conducts {α : Type} (R : Prop) (A : Op → World → Prop) (p : Service α)
    (Q : α → World → Prop) (w : World) : Prop :=
  Ensures (contract R A) p Q w

/-- What is assumed of the moments at which operations are performed: at least
the invariant. -/
def Assumes (R : Prop) (A : Op → World → Prop) : Prop := ∀ o w, A o w → Inv R w

/-- The writes are appended at a moment that meets the assumption, and land. -/
def Lands (A : Op → World → Prop) (ws : List StreamWrite) (w : World) : Prop :=
  A (.appendAtomic ws) w ∧ ∃ st, appendAtomic w.clock w.store ws = .ok st

/-- `P` holds from `w` on, in every world in which the invariant does. -/
def Henceforth (R : Prop) (P : World → Prop) (w : World) : Prop :=
  ∀ w', w ≤ w' → Inv R w' → P w'

theorem Henceforth.grow {P : World → Prop} {w' : World} (h : Henceforth R P w) (hle : w ≤ w') :
    Henceforth R P w' := fun w'' hle' => h w'' (hle.trans hle')

theorem Henceforth.imp {P P' : World → Prop} (h : Henceforth R P w)
    (hP : ∀ w', w ≤ w' → P w' → P' w') : Henceforth R P' w :=
  fun w' hle hinv => hP w' hle (h w' hle hinv)

/-- A final outcome is one from now on. -/
theorem henceforth_outcome {k : OutcomeKind} (h : w.outcome id = k) (hf : k.final = true) :
    Henceforth R (fun w' => w'.outcome id = k) w := by
  intro w' hle hinv
  rw [World.outcome_grow hle (hinv.lifecycle id) (by rw [h]; exact hf)]
  exact h

theorem contract_reads {A : Op → World → Prop} : Reads (contract R A) := fun o ho _ _ => by
  cases o <;> trivial

namespace Conducts

variable {R : Prop} {A : Op → World → Prop} {α β : Type} {Q : β → World → Prop} {w : World}

theorem check {r : Except Err α} {Q : α → World → Prop}
    (h : ∀ a, r = .ok a → ∀ w', w ≤ w' → Q a w') : Conducts R A (Service.check r) Q w := by
  cases r with
  | ok a => exact Ensures.pure (h a rfl)
  | error e => exact Ensures.throw

theorem check_bind {r : Except Err α} {f : α → Service β}
    (h : ∀ a, r = .ok a → Conducts R A (f a) Q w) : Conducts R A (Service.check r >>= f) Q w := by
  cases r with
  | ok a => exact h a rfl
  | error e => exact Ensures.throw

section Rules

variable (hA : Assumes R A)
include hA

theorem load {a : Aggregate} {f : List (Row a.Event) → Service β}
    (h : ∀ w1, w ≤ w1 → Inv R w1 → Conducts R A (f (w1.store a id)) Q w1) :
    Conducts R A (Service.load a id >>= f) Q w := by
  refine Ensures.request fun w1 hle ha => ⟨trivial, ?_⟩
  rintro r w2 hx
  cases hx
  exact h _ hle (hA _ _ ha)

theorem load_transfer {f : List (Row TransferEvent) → Service β}
    (h : ∀ w1, w ≤ w1 → Inv R w1 → Conducts R A (f (w1.transfer id)) Q w1) :
    Conducts R A (Service.load .transfer id >>= f) Q w := load hA h

theorem load_transaction {tid : Id} {f : List (Row TransactionEvent) → Service β}
    (h : ∀ w1, w ≤ w1 → Inv R w1 → Conducts R A (f (w1.transaction tid)) Q w1) :
    Conducts R A (Service.load .transaction tid >>= f) Q w := load hA h

omit hA in
theorem wait {ms : Nat} {f : Unit → Service β} (h : ∀ w1, w ≤ w1 → Conducts R A (f ()) Q w1) :
    Conducts R A (Service.wait ms >>= f) Q w :=
  Ensures.request fun _ hle _ => ⟨trivial, fun _ _ hx => h _ (hle.trans (Atomic.le_of_exec hx))⟩

omit hA in
theorem balances {ids : List Id} {f : (Id → Option Ledger.Balance) → Service β}
    (h : ∀ bs w1, w ≤ w1 → Conducts R A (f bs) Q w1) :
    Conducts R A (Service.balances ids >>= f) Q w := by
  refine Ensures.request fun w1 hle _ => ⟨trivial, ?_⟩
  rintro r w2 hx
  cases hx
  exact h _ _ hle

omit hA in
theorem rangeMap {keys : List Id} {f : List Id → Service β}
    (h : ∀ order w1, w ≤ w1 → order.Perm keys → Conducts R A (f order) Q w1) :
    Conducts R A (Service.rangeMap keys >>= f) Q w := by
  refine Ensures.request fun w1 hle _ => ⟨trivial, ?_⟩
  rintro r w2 ⟨hperm, rfl⟩
  exact h _ _ hle hperm

omit hA in
theorem newV7 {f : Id → Service β}
    (h : ∀ w1, w ≤ w1 → Conducts R A (f (.v7 w1.issued.length)) Q
      { w1 with issued := w1.issued ++ [id] }) :
    Conducts R A (Service.newV7 id >>= f) Q w := by
  refine Ensures.request fun w1 hle _ => ⟨trivial, ?_⟩
  rintro r w2 hx
  cases hx
  exact h w1 hle

theorem call {c : Call} {f : Unit → Service β}
    (h : ∀ w1, w ≤ w1 → Inv R w1 → LegalCall w1 c ∧ Conducts R A (f ()) Q w1) :
    Conducts R A (Service.call c >>= f) Q w := by
  refine Ensures.request fun w1 hle ha => ⟨(h w1 hle (hA _ _ ha)).1, ?_⟩
  rintro r w2 hx
  cases hx
  exact (h _ hle (hA _ _ ha)).2

omit hA in
theorem createAccounts {as : List Account}
    {f : Except Err (List AccountResultCode) → Service β}
    (h : ∀ w1, w ≤ w1 → Conducts R A (f (w1.ledger.createAccounts as).1) Q
      { w1 with ledger := (w1.ledger.createAccounts as).2 }) :
    Conducts R A (Service.createAccounts as >>= f) Q w := by
  refine Ensures.request fun w1 hle _ => ⟨trivial, ?_⟩
  rintro r w2 hx
  cases hx
  exact h w1 hle

/-- A ledger request: it is legal, and the ledger takes it as one linked run. -/
theorem createTransfers {batch : List LedgerTransfer}
    {f : Except Err (List TransferResultCode) → Service β}
    (h : ∀ w1, w ≤ w1 → Inv R w1 → LegalRequest w1 batch ∧
      Conducts R A (f (.ok (w1.ledger.createTransferRun batch).1)) Q
        { w1 with ledger := (w1.ledger.createTransferRun batch).2 }) :
    Conducts R A (Service.createTransfers batch >>= f) Q w := by
  refine Ensures.request fun w1 hle ha => ?_
  obtain ⟨hreq, hf⟩ := h w1 hle (hA _ _ ha)
  refine ⟨hreq, ?_⟩
  rintro r w2 hx
  cases hx
  rw [hreq.createTransfers (hA _ _ ha).transfer]
  exact hf

/-- An append: whenever it lands it is legal, and it may be refused by the store as
it stands. -/
theorem appendWrites_cases {ws : List StreamWrite} {f : Except Err Unit → Service β}
    (h : ∀ w1 st, w ≤ w1 → A (.appendAtomic ws) w1 → Inv R w1 →
      appendAtomic w1.clock w1.store ws = .ok st →
      (∀ x ∈ ws, x.events ≠ [] → LegalWrite R w1 ws x) ∧
        Conducts R A (f (.ok ())) Q { w1 with store := st })
    (herr : ∀ e w1, w ≤ w1 → A (.appendAtomic ws) w1 →
      appendAtomic w1.clock w1.store ws = .error e → Conducts R A (f (.error e)) Q w1) :
    Conducts R A (Service.appendWrites ws >>= f) Q w := by
  refine Ensures.request fun w1 hle ha => ⟨fun st hst => (h w1 st hle ha (hA _ _ ha) hst).1, ?_⟩
  intro r w2 hx
  have hx' : (r, w2) = w1.append ws := hx
  unfold World.append at hx'
  split at hx'
  · rename_i e he
    cases hx'
    exact herr e _ hle ha he
  · rename_i st hst
    cases hx'
    exact (h w1 st hle ha (hA _ _ ha) hst).2

/-- An append, where nothing is asked of a refusal. -/
theorem appendWrites {ws : List StreamWrite} {f : Except Err Unit → Service β}
    (h : ∀ w1 st, w ≤ w1 → A (.appendAtomic ws) w1 → Inv R w1 →
      appendAtomic w1.clock w1.store ws = .ok st →
      (∀ x ∈ ws, x.events ≠ [] → LegalWrite R w1 ws x) ∧
        Conducts R A (f (.ok ())) Q { w1 with store := st })
    (herr : ∀ e w1, w ≤ w1 → Conducts R A (f (.error e)) Q w1) :
    Conducts R A (Service.appendWrites ws >>= f) Q w :=
  appendWrites_cases hA h fun e w1 hle _ _ => herr e w1 hle

/-- An append to one stream at the position a reader loaded: when it lands, the
stream is what was loaded. -/
theorem append_at {a : Aggregate} {id : Id} {rows : List (Row a.Event)} {events : List a.Event}
    {f : Except Err Unit → Service β} (hrows : rows <+: w.store a id) (hne : events ≠ [])
    (h : ∀ w1, w ≤ w1 → Lands A [⟨a, id, rows.length, events⟩] w1 → Inv R w1 →
      w1.store a id = rows →
      LegalWrite R w1 [⟨a, id, rows.length, events⟩] ⟨a, id, rows.length, events⟩ ∧
        ∀ w2, w1 ≤ w2 → w2.store a id = rows ++ rowsFrom w1.clock rows.length events →
          Conducts R A (f (.ok ())) Q w2)
    (herr : ∀ e w1, w ≤ w1 → Conducts R A (f (.error e)) Q w1) :
    Conducts R A (Service.append a id rows.length events >>= f) Q w := by
  refine appendWrites hA (fun w1 st hle ha hinv hst => ?_) herr
  obtain ⟨hlen, hland⟩ := appendAtomic_landed hst (List.mem_singleton.mpr rfl) hne
  have heq : w1.store a id = rows :=
    ((hrows.trans (hle.stream a id)).eq_of_length hlen.symm).symm
  obtain ⟨hlegal, hf⟩ := h w1 hle ⟨ha, st, hst⟩ hinv heq
  refine ⟨fun x hx _ => ?_, hf _ (le_landed hst) ?_⟩
  · obtain rfl := List.mem_singleton.mp hx
    exact hlegal
  · change st a id = _
    rw [← heq]
    simpa [heq] using hland

/-- An append that opens a stream. -/
theorem append_new {a : Aggregate} {id : Id} {events : List a.Event}
    {f : Except Err Unit → Service β} (hne : events ≠ [])
    (h : ∀ w1, w ≤ w1 → Inv R w1 → w1.store a id = [] →
      LegalWrite R w1 [⟨a, id, 0, events⟩] ⟨a, id, 0, events⟩ ∧
        ∀ w2, w1 ≤ w2 → w2.store a id = rowsFrom w1.clock 0 events →
          Conducts R A (f (.ok ())) Q w2)
    (herr : ∀ e w1, w ≤ w1 → Conducts R A (f (.error e)) Q w1) :
    Conducts R A (Service.append a id 0 events >>= f) Q w :=
  append_at hA List.nil_prefix hne (fun w1 hle _ hinv heq => h w1 hle hinv heq) herr

end Rules

end Conducts

end MoneyFlow
