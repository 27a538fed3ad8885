import MoneyFlow.Concurrent.Pool
import MoneyFlow.Holder
import MoneyFlow.Transaction.Server

/-!
# MoneyFlow.System

The whole system: any number of drivers, each one call of a service, run
interleaved over one `World`.

A **driver** is the orchestrator (or `cmd/resume`) resuming a Transfer or a
Transaction, or a client's RPC. Any driver may start at any time, with any
arguments, any number of times; it may be overtaken between any two of its
operations, and it may never take another step. Time passes as it likes, so a
claim marker can be found stale as soon as it has landed.
-/

namespace MoneyFlow

open Concurrent

/-- One call of a service. -/
inductive Driver
  | establish (req : Holder.EstablishRequest)
  | addWallet (req : Holder.AddWalletRequest)
  | provision (req : Holder.ProvisionRequest)
  | openWallet (req : Wallet.OpenRequest)
  | mint (req : Token.MintRequest)
  | requestTransfer (req : Transfer.RequestTransferRequest)
  | requestReversal (req : Transfer.RequestReversalRequest)
  | cancelAcceptedTransfer (id : Id) (reason : Text)
  | confirmStagedTransfer (id : Id)
  | cancelStagedTransfer (id : Id) (reason : Text)
  | postPendingTransfer (id : Id)
  | resumeTransfer (id : Id)
  | startInitializingTransaction (id : Id) (spec : Spec)
  | startTransactionRollback (id : Id) (reason : Text)
  | resumeTransaction (id : Id)

/-- What a call answers. -/
inductive Reply
  | establish (r : Holder.EstablishedHolder)
  | addWallet (r : Holder.AddWalletResponse)
  | provision (r : Holder.ProvisionResponse)
  | openWallet (r : Wallet.OpenResponse)
  | mint (r : Token.MintResponse)
  | requestTransfer (r : Transfer.RequestTransferResponse)
  | requestReversal (r : Transfer.RequestReversalResponse)
  | cancelAcceptedTransfer (r : Transfer.CancelAcceptedTransferResponse)
  | confirmStagedTransfer (r : Transfer.ConfirmStagedTransferResponse)
  | cancelStagedTransfer (r : Transfer.CancelStagedTransferResponse)
  | postPendingTransfer (r : Transfer.PostPendingTransferResponse)
  | resumed
  | startInitializingTransaction (r : Transaction.StartInitializingTransactionResponse)
  | startTransactionRollback (state : Transaction.State)

namespace Driver

/-- The code a driver runs, its loops bounded by `fuel`. -/
def service (fuel : Nat) : Driver → Service Reply
  | establish req => Reply.establish <$> Holder.establish req
  | addWallet req => Reply.addWallet <$> Holder.addWallet req
  | provision req => Reply.provision <$> Holder.provision req
  | openWallet req => Reply.openWallet <$> Wallet.openWallet req
  | mint req => Reply.mint <$> Token.mint req
  | requestTransfer req => Reply.requestTransfer <$> Transfer.requestTransfer req
  | requestReversal req => Reply.requestReversal <$> Transfer.requestReversal req
  | cancelAcceptedTransfer id reason =>
    Reply.cancelAcceptedTransfer <$> Transfer.cancelAcceptedTransfer fuel id reason
  | confirmStagedTransfer id =>
    Reply.confirmStagedTransfer <$> Transfer.confirmStagedTransfer fuel id
  | cancelStagedTransfer id reason =>
    Reply.cancelStagedTransfer <$> Transfer.cancelStagedTransfer fuel id reason
  | postPendingTransfer id => Reply.postPendingTransfer <$> Transfer.postPendingTransfer fuel id
  | resumeTransfer id => (fun _ => Reply.resumed) <$> Transfer.resume fuel id
  | startInitializingTransaction id spec =>
    Reply.startInitializingTransaction <$> Transaction.startInitializingTransaction id spec
  | startTransactionRollback id reason =>
    Reply.startTransactionRollback <$> Transaction.startTransactionRollback fuel id reason
  | resumeTransaction id => (fun _ => Reply.resumed) <$> Transaction.resume fuel id

end Driver

/-- The shared state and the drivers running over it. -/
abbrev System := Pool World Driver Op Resp (Except Err Reply)

/-- Which runs are considered: drivers start freely where `admits` allows, and
take their steps where `guard` does. -/
def scheduler (admits : Driver → Prop) (guard : Driver → Op → World → Prop) :
    Scheduler World Driver Op Resp (Except Err Reply) where
  start d p := admits d ∧ ∃ fuel, p = (d.service fuel).run
  guard := guard
  env := World.Tick

/-- Every run there is. -/
abbrev anyRun : Scheduler World Driver Op Resp (Except Err Reply) :=
  scheduler (fun _ => True) fun _ _ _ => True

end MoneyFlow
