import MoneyFlow.Ledger.Caps
import MoneyFlow.Plans

/-!
# MoneyFlow.Balances

The ledger in every state of every run.

A leg takes from one Token and gives to another, so every request a driver makes
is between two accounts, and the totals of an account stay the sums of what was
applied to it (`balanced_step`).
-/

namespace MoneyFlow

open Concurrent Transfer

variable {R : Prop} {w w' : World} {x : Id}

/-- What a step does to the ledger. -/
theorem exec_ledger {o : Op} {r : Resp o} (hinv : Inv R w) (hlegal : Legal R o w)
    (hx : w.Exec o r w') :
    w'.ledger = w.ledger ∨
      (∃ as, o = .createAccounts as ∧ w'.ledger = (w.ledger.createAccounts as).2) ∨
      ∃ batch, o = .createTransfers batch ∧ LegalRequest w batch ∧
        w'.ledger = (w.ledger.createTransferRun batch).2 := by
  cases o with
  | wait ms =>
    obtain ⟨d, -, rfl⟩ := hx
    exact Or.inl rfl
  | rangeMap keys =>
    obtain ⟨-, rfl⟩ := hx
    exact Or.inl rfl
  | createAccounts as =>
    obtain ⟨-, rfl⟩ := Prod.mk.inj hx
    exact Or.inr (Or.inl ⟨as, rfl, rfl⟩)
  | createTransfers batch =>
    obtain ⟨-, rfl⟩ := Prod.mk.inj hx
    have hreq : LegalRequest w batch := hlegal
    refine Or.inr (Or.inr ⟨batch, rfl, hreq, ?_⟩)
    change (w.ledger.createTransfers batch).2 = _
    rw [hreq.createTransfers hinv.transfer]
  | appendAtomic ws =>
    have hw : w' = (w.append ws).2 := congrArg Prod.snd hx
    left
    subst hw
    unfold World.append
    split <;> rfl
  | _ =>
    obtain ⟨-, rfl⟩ := Prod.mk.inj hx
    exact Or.inl rfl

/-- A request is between the two Tokens of each leg. -/
theorem Transfer.LegalRequest.between {batch : List LedgerTransfer} (h : LegalRequest w batch)
    (hplans : PlansOk w) : ∀ t ∈ batch, t.debitAccountID ≠ t.creditAccountID := by
  have hleg {id : Id} {legs part : List TransferLeg} {f : TransferLeg → LedgerTransfer}
      (hlegs : w.legs id = .ok legs) (hpart : ∀ leg ∈ part, leg ∈ legs)
      (hf : ∀ leg, (f leg).debitAccountID = leg.sourceTokenID ∧
        (f leg).creditAccountID = leg.destTokenID) :
      ∀ t ∈ link (part.map f), t.debitAccountID ≠ t.creditAccountID := by
    intro t ht
    obtain ⟨leg, hleg, -, hof⟩ := mem_link_map ht
    have hdebit : (f leg).debitAccountID = t.debitAccountID :=
      congrArg StoredTransfer.debitAccountID hof
    have hcredit : (f leg).creditAccountID = t.creditAccountID :=
      congrArg StoredTransfer.creditAccountID hof
    rw [← hdebit, ← hcredit, (hf leg).1, (hf leg).2]
    exact hplans.distinct id legs hlegs leg (hpart leg hleg)
  cases h with
  | move hlegs _ _ _ => exact hleg hlegs (fun _ h => h) fun _ => ⟨rfl, rfl⟩
  | reserve hlegs _ _ | post hlegs _ _ _ | void hlegs _ _ =>
    exact hleg hlegs (fun _ h => mem_of_mem_window h) fun _ => ⟨rfl, rfl⟩

/-! ### The books -/

/-- The plans are sound, and the totals are the sums of what was applied. -/
structure Balanced (w : World) : Prop where
  plans : PlansOk w
  accounted : Ledger.Accounted w.ledger.accounts w.ledger.transfers

theorem balanced_init : Balanced .init := ⟨plansOk_init, Ledger.accounted_empty⟩

theorem Balanced.tick (h : Balanced w) (ht : w.Tick w') : Balanced w' := by
  have hplans := h.plans.tick ht
  obtain ⟨d, rfl⟩ := ht
  exact ⟨hplans, h.accounted⟩

/-- **A step keeps the books.** -/
theorem balanced_step {o : Op} {r : Resp o} (hinv : Inv R w) (hinv' : Inv R w') (h : Balanced w)
    (hlegal : Legal R o w) (hplans : (plans R).ensure o w) (hx : w.Exec o r w') : Balanced w' := by
  refine ⟨plans_step hinv hinv' h.plans hlegal hplans hx, ?_⟩
  rcases exec_ledger hinv hlegal hx with hsame | ⟨as, -, hl⟩ | ⟨batch, -, hreq, hl⟩
  · rw [hsame]
    exact h.accounted
  · rw [hl]
    exact Ledger.createAccounts_accounted h.accounted
  · rw [hl]
    exact Ledger.createTransferRun_accounted h.accounted (hreq.between h.plans)

end MoneyFlow
