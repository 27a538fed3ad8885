import MoneyFlow.Runs
import MoneyFlow.Transaction.Planning

/-!
# MoneyFlow.Transaction.Dispatch

Whether a Transaction that was accepted can request its children.

`validateDAG` refuses an amount no Transfer would accept, so that a child is
never refused by `RequestTransfer`'s own validation: that refusal is an error
and not a rejection, nothing is recorded, and every retry meets it again. It
does not look at the child's id and its Wallets, which the same validation
wants as canonical UUIDs (`initialized_requests_iff`), so a Transaction can be
accepted and then stay Started for good (`child_refused_on_every_retry`).
-/

namespace MoneyFlow.Transaction

open Concurrent

variable {tid : Id}

/-- A child's ids are canonical UUIDs. -/
def CanonicalIds (spec : TransferSpec) : Prop :=
  spec.id.isUUID = true ∧ spec.fromWalletID.isUUID = true ∧ spec.toWalletID.isUUID = true

instance (spec : TransferSpec) : Decidable (CanonicalIds spec) :=
  inferInstanceAs (Decidable (_ ∧ _ ∧ _))

theorem validateId_ok_iff (field : String) {value : Id} :
    validateId field value = .ok () ↔ value.isUUID = true := by
  refine ⟨validateId_ok, fun h => ?_⟩
  have hne : value ≠ Id.empty := by
    rintro rfl
    simp [Id.empty, Id.isUUID] at h
  simp [validateId, hne, h]

theorem validateMoney_of_validAmount (field : String) {amount : Option Money}
    (h : ValidAmount amount) : ∃ a, validateMoney field amount = .ok a := by
  obtain ⟨a, rfl, hc, hpos⟩ := h
  have hz : a.minorUnits ≠ 0 := by
    rintro h0
    simp [h0] at hpos
  exact ⟨a, by simp [validateMoney, hc, hz]⟩

/-- Under an id of its own and with an amount that was checked, a child's
request is valid exactly when its ids are. -/
theorem validateRequest_ok_iff {spec : TransferSpec} (htid : tid.isUUID = true)
    (hamount : ValidAmount spec.amount) :
    (∃ a, Transfer.validateRequest (requestFor tid spec) = .ok a) ↔ CanonicalIds spec := by
  obtain ⟨a, ha⟩ := validateMoney_of_validAmount "amount" hamount
  have hne : tid ≠ Id.empty := by
    rintro rfl
    simp [Id.empty, Id.isUUID] at htid
  unfold Transfer.validateRequest CanonicalIds
  rw [← validateId_ok_iff "id", ← validateId_ok_iff "from_wallet_id",
    ← validateId_ok_iff "to_wallet_id"]
  simp only [requestFor, ha, hne, and_false, if_false]
  cases validateId "id" spec.id with
  | error e => simp
  | ok u =>
    cases validateId "from_wallet_id" spec.fromWalletID with
    | error e => simp
    | ok u =>
      cases validateId "to_wallet_id" spec.toWalletID with
      | error e | ok u => simp

/-- A driver of `StartInitializingTransaction` answers only for a canonical id. -/
theorem answered_uuid (d : Driver) (fuel : Nat) (w : World) :
    Ensures (driverContract True (fun _ _ _ => True) d) (d.service fuel)
      (fun _ _ => ∀ id spec, d = .startInitializingTransaction id spec → id.isUUID = true) w := by
  have hany : Ensures (driverContract True (fun _ _ _ => True) d) (d.service fuel)
      (fun r w' => Answered True d r w') w := d.answers refusals_true fuel w
  cases d with
  | startInitializingTransaction id spec =>
    cases hid : validateId "id" id with
    | error e =>
      have hthrow : startInitializingTransaction id spec = throw e := by
        rw [startInitializingTransaction, hid]
        rfl
      simp only [Driver.service, hthrow]
      exact Ensures.throw
    | ok u =>
      refine hany.mono fun _ _ _ _ id' spec' heq => ?_
      obtain ⟨rfl, -⟩ := Driver.startInitializingTransaction.inj heq
      exact validateId_ok hid
  | _ => exact hany.mono fun _ _ _ _ _ _ heq => nomatch heq

/-- A Transaction accepted has a canonical id, and its DAG is well formed. -/
theorem reachable_initialized {c : System} (h : Pool.Reachable anyRun .init c)
    {spec' spec : Spec} {i : Id}
    (hm : (Driver.startInitializingTransaction tid spec',
      .ret (.ok (.startInitializingTransaction (.initialized i spec)))) ∈ c.threads) :
    tid.isUUID = true ∧ WellFormedSpec spec.transfers spec.transferDependency := by
  have hopens : [TransactionEvent.transactionInitialized i spec] <+:
      eventsOf (c.state.transaction tid) := reachable_answered refusals_true h hm
  have hwf := ((reachable_inv refusals_true h).transaction tid).wellFormed
  have hspec : decodeSpec (eventsOf (c.state.transaction tid)) = .ok spec := by
    obtain ⟨rest, hrest⟩ := hopens
    rw [← hrest]
    rfl
  exact ⟨reachable_returned answered_uuid h hm tid spec' rfl, .of_ok (hwf.spec_valid hspec)⟩

/-- **An accepted Transaction can request every child exactly when its
children's ids and Wallets are canonical UUIDs.** -/
theorem initialized_requests_iff {c : System} (h : Pool.Reachable anyRun .init c)
    {spec' spec : Spec} {i : Id}
    (hm : (Driver.startInitializingTransaction tid spec',
      .ret (.ok (.startInitializingTransaction (.initialized i spec)))) ∈ c.threads) :
    (∀ child ∈ spec.transfers.keys, ∃ amount,
        Transfer.validateRequest (requestFor tid (specOf spec.transfers child)) = .ok amount) ↔
      ∀ e ∈ spec.transfers.entries, CanonicalIds e.2 := by
  obtain ⟨htid, hwf⟩ := reachable_initialized h hm
  have hentry {e : Id × TransferSpec} (he : e ∈ spec.transfers.entries) :
      (∃ a, Transfer.validateRequest (requestFor tid (specOf spec.transfers e.1)) = .ok a) ↔
        CanonicalIds e.2 := by
    rw [specOf, GoMap.get?_of_mem he, Option.getD_some]
    exact validateRequest_ok_iff htid (hwf.amounts e he)
  constructor
  · intro hall e he
    exact (hentry he).mp (hall e.1 (List.mem_map.mpr ⟨e, he, rfl⟩))
  · intro hall child hchild
    obtain ⟨e, he, rfl⟩ := List.mem_map.mp hchild
    exact (hentry he).mpr (hall e he)

/-- The spec a driver's answer says was accepted. -/
def acceptedSpec (c : System) (i : Nat) : Option Spec :=
  match c.threads[i]? with
  | some (.startInitializingTransaction _ _,
      .ret (.ok (.startInitializingTransaction (.initialized _ spec)))) => some spec
  | _ => none

theorem mem_of_acceptedSpec {c : System} {i : Nat} {spec : Spec}
    (h : acceptedSpec c i = some spec) :
    ∃ tid spec' j, (Driver.startInitializingTransaction tid spec',
      .ret (.ok (.startInitializingTransaction (.initialized j spec)))) ∈ c.threads := by
  unfold acceptedSpec at h
  split at h
  · rename_i tid spec' j spec0 hi
    cases h
    exact ⟨tid, spec', j, List.mem_of_getElem? hi⟩
  · simp at h

/-- The deposit is accepted, and its child can be requested. -/
theorem deposit_requests :
    ∃ c, Pool.Reachable anyRun .init c ∧ ∃ tid spec' i spec,
      (Driver.startInitializingTransaction tid spec',
        .ret (.ok (.startInitializingTransaction (.initialized i spec)))) ∈ c.threads ∧
      ∀ child ∈ spec.transfers.keys, ∃ amount,
        Transfer.validateRequest (requestFor tid (specOf spec.transfers child)) = .ok amount := by
  have haccepted : acceptedSpec (played (inTurn 0 (deposit.take 3))) 2 =
      some (depositSpec (.uuid 3) (.uuid 0) (.uuid 1) ⟨100, "USD"⟩) := by
    decide +kernel
  obtain ⟨tid, spec', i, hm⟩ := mem_of_acceptedSpec haccepted
  have hreach := played_reachable (inTurn 0 (deposit.take 3))
  exact ⟨_, hreach, tid, spec', i, _, hm, (initialized_requests_iff hreach hm).mpr (by decide)⟩

/-- A deposit to a Wallet named by something that is no UUID. -/
def misnamedDeposit : Spec := depositSpec (.uuid 3) (.uuid 0) (.text "payer") ⟨100, "USD"⟩

/-- A deposit to a Wallet that is named by no UUID is accepted. Each time the
Transaction is resumed, its request for the child is refused as an invalid
argument, and it stays Started with nothing recorded. -/
theorem child_refused_on_every_retry :
    ∃ c, Pool.Reachable anyRun .init c ∧
      acceptedSpec c 1 = some misnamedDeposit ∧
      .uuid 3 ∈ misnamedDeposit.transfers.keys ∧
      Transfer.validateRequest (requestFor (.uuid 2) (specOf misnamedDeposit.transfers (.uuid 3))) =
        .error (invalidArgument "to_wallet_id" "must be a valid UUID") ∧
      failedAt c 2 = some (invalidArgument "to_wallet_id" "must be a valid UUID") ∧
      failedAt c 3 = some (invalidArgument "to_wallet_id" "must be a valid UUID") ∧
      eventsOf (c.state.transaction (.uuid 2)) =
        [.transactionInitialized (.uuid 2) misnamedDeposit, .transactionStarted (.uuid 2),
          .transferRequestedWithinTransaction (.uuid 2) (.uuid 3)] :=
  ⟨_, played_reachable (inTurn 0 [.openWallet ⟨.uuid 0, .uuid 100, "bank", .onramp⟩,
    .startInitializingTransaction (.uuid 2) misnamedDeposit, .resumeTransaction (.uuid 2),
    .resumeTransaction (.uuid 2)]), by decide +kernel⟩

end MoneyFlow.Transaction
