import MoneyFlow.Runs

/-!
# MoneyFlow.Drivers

Contracts that most drivers keep whatever they know.

What a contract asks of the steps of a settlement is left open (`Routine`): given
those steps, every driver but the one that runs a Transfer's saga keeps it. A
contract that only speaks of minting and preparing lets every driver do what it
does, if preparing does (`Driver.obeys`). A contract on what is settled is kept
beside the protocol's own, which knows that a saga settles what it has prepared
(`Settling.driver`).
-/

namespace MoneyFlow

open Concurrent Transfer Transaction

variable {w : World}

/-- The event neither prepares a Transfer nor stages it nor claims a step. -/
def Transfer.quiet (ty : TransferEventType) : Bool :=
  !(ty == .transferPrepared || ty == .transferStaged || isClaimMarkerType ty)

/-- The event states an amount the service has added up. -/
def Transfer.reckons (ty : TransferEventType) : Bool :=
  ty == .reversalRequestAccepted || ty == .transferCommitted

/-- The Transaction whose stream the driver writes to. -/
def Driver.onTransaction : Driver → Option Id
  | .startInitializingTransaction tid _ | .startTransactionRollback tid _
  | .resumeTransaction tid => some tid
  | _ => none

/-- A contract under which everything but accepting a Reversal, the steps of a
settlement and a Transaction's own steps is of no concern. -/
structure Regular (C : Contract World Op) (S : Scope) : Prop where
  lenient : Lenient C S
  transfer : ∀ id e, quiet e.eventType = true → reckons e.eventType = false → S.transfer id [e]
  opened : ∀ id holderID name allows, S.wallet id [.walletOpened id holderID name allows]
  untagged : ∀ tok, S.Mints tok Id.empty
  reverse : ∀ req w, Obeys C (requestReversal req) w
  commit : ∀ fuel id w, Obeys C (commit fuel id) w
  cancelStaged : ∀ fuel id reason w, Obeys C (cancelStaged fuel id reason) w

/-- A contract under which everything but the steps of a settlement is routine. -/
structure Routine (C : Contract World Op) (S : Scope) : Prop where
  lenient : Lenient C S
  transfer : ∀ id e, quiet e.eventType = true → S.transfer id [e]
  opened : ∀ id holderID name allows, S.wallet id [.walletOpened id holderID name allows]
  untagged : ∀ tok, S.Mints tok Id.empty
  transaction : ∀ tid seq events, Permits C (.appendAtomic [⟨.transaction, tid, seq, events⟩])
  commit : ∀ fuel id w, Obeys C (commit fuel id) w
  cancelStaged : ∀ fuel id reason w, Obeys C (cancelStaged fuel id reason) w

namespace Regular

variable {C : Contract World Op} {S : Scope} (h : Regular C S)
include h

theorem mayRequest (tid : Id) (transfers : GoMap TransferSpec) (w : World) :
    MayRequest C tid transfers w :=
  fun _ => requestTransfer_obeys h.lenient (fun _ _ => h.transfer _ _ rfl rfl)
    (fun _ => h.transfer _ _ rfl rfl) w

theorem mayUnwind (tid : Id) (transfers : GoMap TransferSpec) (w : World) :
    MayUnwind C tid transfers w where
  request := h.mayRequest tid transfers w
  reverse _ := h.reverse _ w
  cancelStaged _ _ := cancelStagedTransfer_obeys h.lenient (h.cancelStaged _ _ _ w)
    fun _ => h.transfer _ _ rfl rfl
  cancelAccepted _ _ := cancelAcceptedTransfer_obeys h.lenient (h.transfer _ _ rfl rfl)
    (h.transfer _ _ rfl rfl) w

/-- Where a Transaction's stream is of no concern either, its drivers keep it. -/
theorem onTransaction {fuel : Nat} {d : Driver} {tid : Id} (hd : d.onTransaction = some tid)
    (hT : OwnAppends C tid) : Obeys C (d.service fuel) w := by
  have hC := h.lenient
  cases d with
  | startInitializingTransaction id spec =>
    cases hd
    exact (startInitializingTransaction_obeys hC (hT _ _) (fun _ => hT _ _) w).map
  | startTransactionRollback id reason =>
    cases hd
    have happ := hT.records hC fuel (.transactionRollbackStarted tid reason)
    exact (startTransactionRollback_obeys hC.reads happ w).map
  | resumeTransaction id =>
    cases hd
    refine (runSaga_obeys hC (hT.steps hC) ?_ ?_ fuel (le_refl w)).map
    · exact fun w1 spec _ _ _ => h.mayRequest tid spec.transfers w1
    · exact fun w1 spec _ _ _ _ => h.mayUnwind tid spec.transfers w1
  | _ => cases hd

/-- **Every driver keeps such a contract, if running a Transfer's saga and a
Transaction's drivers do.** -/
theorem driver {fuel : Nat} (d : Driver)
    (hresume : ∀ id, d = .resumeTransfer id → Obeys C (Transfer.resume fuel id) w)
    (htransaction : ∀ tid, d.onTransaction = some tid → Obeys C (d.service fuel) w) :
    Safe C (fun _ _ => True) (d.service fuel).run w := by
  have hC := h.lenient
  suffices Obeys C (d.service fuel) w from Safe.mono this fun _ _ _ _ => trivial
  cases d with
  | establish req => exact (Holder.establish_obeys hC w).map
  | addWallet req => exact (Holder.addWallet_obeys hC h.opened w).map
  | provision req => exact (Holder.provision_obeys hC h.opened w).map
  | openWallet req => exact (Wallet.openWallet_obeys hC (h.opened _ _ _ _) w).map
  | mint req => exact (Token.mint_obeys hC (h.untagged _) w).map
  | requestTransfer req =>
    exact (requestTransfer_obeys hC (fun _ _ => h.transfer _ _ rfl rfl)
      (fun _ => h.transfer _ _ rfl rfl) w).map
  | requestReversal req =>
    exact (h.reverse req w).map
  | cancelAcceptedTransfer id reason =>
    exact (cancelAcceptedTransfer_obeys hC (h.transfer id _ rfl rfl)
      (h.transfer id _ rfl rfl) w).map
  | confirmStagedTransfer id =>
    exact (confirmStagedTransfer_obeys hC (h.transfer id _ rfl rfl)
      (fun _ => h.transfer id _ rfl rfl) w).map
  | cancelStagedTransfer id reason =>
    exact (cancelStagedTransfer_obeys hC (h.cancelStaged _ _ _ w)
      fun _ => h.transfer id _ rfl rfl).map
  | postPendingTransfer id =>
    exact (postPendingTransfer_obeys hC (h.commit _ _ w) fun _ => h.transfer id _ rfl rfl).map
  | resumeTransfer id => exact (hresume id rfl).map
  | startInitializingTransaction id spec
  | startTransactionRollback id reason | resumeTransaction id => exact htransaction id rfl

end Regular

/-! ### Transactions' streams only -/

/-- Any write to another stream is in scope. -/
def elsewhere : Scope := ⟨fun _ _ => True, fun _ _ => True⟩

namespace Lenient

variable {C : Contract World Op} (hC : Lenient C elsewhere)
  (hL : ∀ ts, Permits C (.createTransfers ts))
include hC hL

theorem regular : Regular C elsewhere where
  lenient := hC
  transfer _ _ _ _ := trivial
  opened _ _ _ _ := trivial
  untagged _ _ _ := trivial
  reverse _ w := requestReversal_obeys hC (fun _ => trivial) (fun _ => trivial) w
  commit _ _ w := commit_continues hC (fun _ _ _ => trivial) hL w
  cancelStaged _ _ _ w := cancelStaged_continues hC (fun _ _ _ => trivial) hL w

/-- A contract that speaks of Transactions' streams only is for their drivers to
keep. -/
theorem driver {fuel : Nat} (d : Driver)
    (htransaction : ∀ tid, d.onTransaction = some tid → Obeys C (d.service fuel) w) :
    Safe C (fun _ _ => True) (d.service fuel).run w :=
  (hC.regular hL).driver d (fun _ _ => Transfer.resume_continues hC (fun _ _ _ => trivial) hL
    fun fuel => prepare_within hC (fun _ _ _ _ => trivial) (fun _ _ => trivial)
      (fun _ => trivial) w fuel) htransaction

end Lenient

namespace Routine

variable {C : Contract World Op} {S : Scope} (h : Routine C S)
include h

theorem regular : Regular C S where
  lenient := h.lenient
  transfer id e he _ := h.transfer id e he
  opened := h.opened
  untagged := h.untagged
  reverse _ w := requestReversal_obeys h.lenient (fun _ => h.transfer _ _ rfl)
    (fun _ => h.transfer _ _ rfl) w
  commit := h.commit
  cancelStaged := h.cancelStaged

/-- The same for a contract that leaves accepting a Reversal alone. -/
theorem driver {fuel : Nat} (d : Driver)
    (hresume : ∀ id, d = .resumeTransfer id → Obeys C (Transfer.resume fuel id) w) :
    Safe C (fun _ _ => True) (d.service fuel).run w :=
  h.regular.driver d hresume fun tid hd => h.regular.onTransaction hd (h.transaction tid)

end Routine

/-- The contract speaks of mints and preparations only. -/
structure Indifferent (C : Contract World Op) (S : Scope) : Prop where
  lenient : Lenient C S
  transfer : ∀ id e, (e.eventType == .transferPrepared) = false → S.transfer id [e]
  opened : ∀ id holderID name allows, S.wallet id [.walletOpened id holderID name allows]
  untagged : ∀ tok, S.Mints tok Id.empty
  ledger : ∀ ts, Permits C (.createTransfers ts)
  transaction : ∀ tid seq events, Permits C (.appendAtomic [⟨.transaction, tid, seq, events⟩])

namespace Indifferent

variable {C : Contract World Op} {S : Scope} (h : Indifferent C S)
include h

theorem continues : Continues S :=
  fun id e he => h.transfer id e (Bool.or_eq_false_iff.mp he).2

theorem routine : Routine C S where
  lenient := h.lenient
  transfer id e he := by
    refine h.transfer id e ?_
    rw [quiet, Bool.not_eq_true', Bool.or_eq_false_iff, Bool.or_eq_false_iff] at he
    exact he.1.1
  opened := h.opened
  untagged := h.untagged
  transaction := h.transaction
  commit _ _ w := commit_continues h.lenient h.continues h.ledger w
  cancelStaged _ _ _ w := cancelStaged_continues h.lenient h.continues h.ledger w

end Indifferent

/-- **Every driver keeps such a contract, if preparing does.** -/
theorem Driver.obeys {C : Contract World Op} {S : Scope} (h : Indifferent C S)
    (hp : ∀ id, Obeys C (tryPrepare id) w) (d : Driver) (fuel : Nat) :
    Safe C (fun _ _ => True) (d.service fuel).run w :=
  h.routine.driver d fun id _ => resume_continues h.lenient h.continues h.ledger
    (prepare_obeys h.lenient (hp id))

/-! ### Sagas that know what they prepared -/

/-- The steps of a Transfer's saga keep the contract, given the legs and the kind of
the Transfer. -/
structure Settling (C : Contract World Op) : Prop where
  prepare : ∀ id fuel w, Obeys C (prepare id fuel) w
  stage : ∀ fuel id w, w.stage id = .ok true → Obeys C (stage fuel id) w
  stageClaimed : ∀ fuel id seq legs w, w.legs id = .ok legs → w.stage id = .ok true →
    Obeys C (stageClaimed fuel id seq legs) w
  commitClaimed : ∀ fuel id seq legs w, w.legs id = .ok legs → w.stage id = .ok false →
    Obeys C (commitClaimed fuel id seq legs false) w

section

variable {R : Prop} {C : Contract World Op} {S : Scope} (h : Regular C S) (hsteps : Settling C)
include h hsteps

/-- The first step of a saga keeps the contract beside its own: what it settles is
what it prepared. -/
theorem Settling.dispatch {A : Op → World → Prop} (hA : Assumes R A) (fuel : Nat) (id : Id)
    (w : World) : Obeys ((contract R A).both C) (dispatch fuel id (w.transfer id)) w := by
  refine dispatch_obeys ?_ (fun hs => ?_) fun hs => ?_
  · refine ((prepare_conducts hA fuel).both (hsteps.prepare id fuel w)).mono ?_
    intro r w1 _ hr step hstep
    obtain ⟨hlegs, hstage⟩ := hr.1 step hstep
    refine ⟨fun hs => ?_, fun hs => ?_⟩
    · rw [hs] at hstage
      exact Obeys.both (stageClaimed_conducts hA hlegs hstage)
        (hsteps.stageClaimed _ _ _ _ w1 hlegs hstage)
    · rw [hs] at hstage
      refine Obeys.both ?_ (hsteps.commitClaimed _ _ _ _ w1 hlegs hstage)
      exact commitClaimed_conducts hA hlegs (fun h => absurd h Bool.false_ne_true) fun _ => hstage
  · exact Obeys.both (stage_conducts hA hs) (hsteps.stage fuel id w hs)
  · exact Obeys.both (commit_conducts hA fun w1 hle _ _ => World.stage_grow hle hs)
      (h.commit fuel id w)

/-- **Every driver keeps such a contract beside its own.** -/
theorem Settling.driver {guard : Driver → Op → World → Prop} (hR : Refusals R guard)
    (hT : ∀ tid, OwnAppends C tid) (d : Driver) (fuel : Nat) (w : World) :
    Safe ((driverContract R guard d).both C) (fun _ _ => True) (d.service fuel).run w := by
  by_cases hd : ∃ id, d = .resumeTransfer id
  · obtain ⟨id, rfl⟩ := hd
    have hA : Assumes R fun o w => guard (.resumeTransfer id) o w ∧ Inv R w := fun _ _ h => h.2
    have hload : Permits ((driverContract R guard (.resumeTransfer id)).both C)
        (.load .transfer id) := fun w1 hw1 => ⟨trivial, h.lenient.free _ rfl w1 hw1.2⟩
    have hresume : Obeys ((driverContract R guard (.resumeTransfer id)).both C)
        (Driver.service fuel (.resumeTransfer id)) w :=
      (resume_obeys hload fun w1 fuel _ => hsteps.dispatch h hA fuel id w1).map
    exact Safe.mono hresume fun _ _ _ _ => trivial
  · refine ((d.safe hR fuel w).both (h.driver d (fun id hid => ?_)
      fun tid hd => h.onTransaction hd (hT tid))).mono fun _ _ _ _ => trivial
    exact absurd ⟨id, hid⟩ hd

end

end MoneyFlow
