import MoneyFlow.Shared

/-!
# MoneyFlow.Events

The Domain Events each aggregate records, as the proto packages define them.

An event type carries the fields some modelled function reads. Messages the
services declare but never record (the `Start…`/`Complete…` commands and the
markers of older builds) are left out.
-/

namespace MoneyFlow

/-! ### Holder, Wallet and Token -/

/-- `holder.v1.Memo`. -/
structure Memo where
  id : String
  value : String
  deriving DecidableEq, Repr

/-- `holder.v1` events. The memos are a map from strings; the order of its
entries means nothing. -/
inductive HolderEvent
  | holderEstablished (id : Id) (memos : List (String × Memo))
  | holderAddedWallet (id walletID : Id) (name : String) (allows : Allows)
  deriving DecidableEq, Repr

/-- `wallet.v1` events. -/
inductive WalletEvent
  | walletOpened (id holderID : Id) (name : String) (allows : Allows)
  | tokenMintedForWallet (id tokenID : Id) (capacity : Money) (transactionID : Id)
  deriving DecidableEq, Repr

/-- `token.v1` events. The recorded balance is what the ledger held: posted
credits less posted debits, and the two pending totals. -/
inductive TokenEvent
  | tokenMinted (id walletID : Id) (capacity : Money)
  | tokenBalanceRecorded (id walletID : Id) (currency : String) (postedMinorUnits : Int)
      (pendingOutgoingMinorUnits pendingIncomingMinorUnits : UInt64)
  deriving DecidableEq, Repr

/-! ### Transfer -/

/-- `transfer.v1.TransferLeg`: one debit/credit pairing of a prepared Transfer. -/
structure TransferLeg where
  sourceTokenID : Id
  destTokenID : Id
  amount : Money
  ledgerTransferID : Id
  deriving DecidableEq, Repr

/-- `transfer.v1.TransferDestination`. -/
structure TransferDestination where
  toTokenID : Id
  amount : Money
  deriving DecidableEq, Repr

/-- `transfer.v1.TransferRequestAccepted`. -/
structure TransferAccepted where
  id : Id
  fromWalletID : Id
  toWalletID : Id
  amount : Money
  stage : Bool
  transactionID : Id
  mintSource : Bool
  deriving DecidableEq, Repr

/-- `transfer.v1.ReversalRequestAccepted`. -/
structure ReversalAccepted where
  id : Id
  transferID : Id
  amount : Money
  stage : Bool
  transactionID : Id
  deriving DecidableEq, Repr

/-- `transfer.v1` events, a Transfer's and a Reversal's alike. -/
inductive TransferEvent
  | transferRequestAccepted (a : TransferAccepted)
  | transferRequestRejected (id : Id) (reason : Text)
  | reversalRequestAccepted (a : ReversalAccepted)
  | reversalRequestRejected (id transferID : Id) (reason : Text)
  | transferPrepared (id : Id) (legs : List TransferLeg)
  | stagingTransferStarted (id : Id)
  | transferCommittingStarted (id : Id)
  | cancellingStagedTransferStarted (id : Id) (reason : Text)
  | transferStaged (id : Id)
  | transferPending (id : Id)
  | transferCommitted (id : Id) (destinations : List TransferDestination)
  | transferFailed (id : Id) (reason : Text)
  | transferCancelled (id : Id) (reason : Text)
  | acceptedTransferCancelled (id : Id) (reason : Text)
  | preparedTransferCancelled (id : Id) (reason : Text)
  | confirmStagedTransferRejected (id : Id) (reason : Text)
  | cancelStagedTransferRejected (id : Id) (reason : Text)
  | postPendingTransferRejected (id : Id) (reason : Text)
  deriving DecidableEq, Repr

/-- The message name of a `TransferEvent` (`eventstore.EventType`). -/
inductive TransferEventType
  | transferRequestAccepted
  | transferRequestRejected
  | reversalRequestAccepted
  | reversalRequestRejected
  | transferPrepared
  | stagingTransferStarted
  | transferCommittingStarted
  | cancellingStagedTransferStarted
  | transferStaged
  | transferPending
  | transferCommitted
  | transferFailed
  | transferCancelled
  | acceptedTransferCancelled
  | preparedTransferCancelled
  | confirmStagedTransferRejected
  | cancelStagedTransferRejected
  | postPendingTransferRejected
  deriving DecidableEq, Repr

/-- `eventstore.EventType` of a Transfer's event. -/
def TransferEvent.eventType : TransferEvent → TransferEventType
  | transferRequestAccepted _ => .transferRequestAccepted
  | transferRequestRejected _ _ => .transferRequestRejected
  | reversalRequestAccepted _ => .reversalRequestAccepted
  | reversalRequestRejected _ _ _ => .reversalRequestRejected
  | transferPrepared _ _ => .transferPrepared
  | stagingTransferStarted _ => .stagingTransferStarted
  | transferCommittingStarted _ => .transferCommittingStarted
  | cancellingStagedTransferStarted _ _ => .cancellingStagedTransferStarted
  | transferStaged _ => .transferStaged
  | transferPending _ => .transferPending
  | transferCommitted _ _ => .transferCommitted
  | transferFailed _ _ => .transferFailed
  | transferCancelled _ _ => .transferCancelled
  | acceptedTransferCancelled _ _ => .acceptedTransferCancelled
  | preparedTransferCancelled _ _ => .preparedTransferCancelled
  | confirmStagedTransferRejected _ _ => .confirmStagedTransferRejected
  | cancelStagedTransferRejected _ _ => .cancelStagedTransferRejected
  | postPendingTransferRejected _ _ => .postPendingTransferRejected

/-- The full message name, as error texts print it. -/
def TransferEventType.fullName : TransferEventType → String
  | transferRequestAccepted => "transfer.v1.TransferRequestAccepted"
  | transferRequestRejected => "transfer.v1.TransferRequestRejected"
  | reversalRequestAccepted => "transfer.v1.ReversalRequestAccepted"
  | reversalRequestRejected => "transfer.v1.ReversalRequestRejected"
  | transferPrepared => "transfer.v1.TransferPrepared"
  | stagingTransferStarted => "transfer.v1.StagingTransferStarted"
  | transferCommittingStarted => "transfer.v1.TransferCommittingStarted"
  | cancellingStagedTransferStarted => "transfer.v1.CancellingStagedTransferStarted"
  | transferStaged => "transfer.v1.TransferStaged"
  | transferPending => "transfer.v1.TransferPending"
  | transferCommitted => "transfer.v1.TransferCommitted"
  | transferFailed => "transfer.v1.TransferFailed"
  | transferCancelled => "transfer.v1.TransferCancelled"
  | acceptedTransferCancelled => "transfer.v1.AcceptedTransferCancelled"
  | preparedTransferCancelled => "transfer.v1.PreparedTransferCancelled"
  | confirmStagedTransferRejected => "transfer.v1.ConfirmStagedTransferRejected"
  | cancelStagedTransferRejected => "transfer.v1.CancelStagedTransferRejected"
  | postPendingTransferRejected => "transfer.v1.PostPendingTransferRejected"

/-! ### Transaction -/

/-- `transaction.v1.Transfer`: one child of a Transaction before it is
requested. The amount is a message field and may be absent in a request. -/
structure TransferSpec where
  id : Id
  amount : Option Money
  fromWalletID : Id
  toWalletID : Id
  stage : Bool
  mintSource : Bool
  deriving DecidableEq, Repr

/-- `transaction.v1.RollbackMethod`. -/
inductive RollbackMethod
  | reversed
  | cancelled
  | abandoned
  deriving DecidableEq, Repr

/-- A Transaction's DAG: its children and, for each child, the parents it
lists. -/
structure Spec where
  transfers : GoMap TransferSpec
  transferDependency : GoMap (List Id)
  deriving DecidableEq

/-- `transaction.v1` events. -/
inductive TransactionEvent
  | transactionInitialized (id : Id) (spec : Spec)
  | transactionRejected (id : Id) (reason : Text)
  | transactionStarted (id : Id)
  | transferRequestedWithinTransaction (id transferID : Id)
  | transferCompletedWithinTransaction (id transferID : Id)
  | transferFailedWithinTransaction (id transferID : Id) (reason : Text)
  | transferReversalRequestedWithinTransaction (id transferID reversalID : Id)
  | transferRolledBackWithinTransaction (id transferID : Id) (method : RollbackMethod)
      (detailID : Id)
  | transferRollbackFailedWithinTransaction (id transferID : Id) (reason : Text)
  | transactionRollbackStarted (id : Id) (reason : Text)
  | transactionCompleted (id : Id)
  | transactionRolledBack (id : Id) (reason : Text)
  | transactionRollbackFailed (id : Id) (reason : Text)
  deriving DecidableEq

/-- The message name of a `TransactionEvent`. -/
inductive TransactionEventType
  | transactionInitialized
  | transactionRejected
  | transactionStarted
  | transferRequestedWithinTransaction
  | transferCompletedWithinTransaction
  | transferFailedWithinTransaction
  | transferReversalRequestedWithinTransaction
  | transferRolledBackWithinTransaction
  | transferRollbackFailedWithinTransaction
  | transactionRollbackStarted
  | transactionCompleted
  | transactionRolledBack
  | transactionRollbackFailed
  deriving DecidableEq, Repr

/-- `eventstore.EventType` of a Transaction's event. -/
def TransactionEvent.eventType : TransactionEvent → TransactionEventType
  | transactionInitialized _ _ => .transactionInitialized
  | transactionRejected _ _ => .transactionRejected
  | transactionStarted _ => .transactionStarted
  | transferRequestedWithinTransaction _ _ => .transferRequestedWithinTransaction
  | transferCompletedWithinTransaction _ _ => .transferCompletedWithinTransaction
  | transferFailedWithinTransaction _ _ _ => .transferFailedWithinTransaction
  | transferReversalRequestedWithinTransaction _ _ _ => .transferReversalRequestedWithinTransaction
  | transferRolledBackWithinTransaction _ _ _ _ => .transferRolledBackWithinTransaction
  | transferRollbackFailedWithinTransaction _ _ _ => .transferRollbackFailedWithinTransaction
  | transactionRollbackStarted _ _ => .transactionRollbackStarted
  | transactionCompleted _ => .transactionCompleted
  | transactionRolledBack _ _ => .transactionRolledBack
  | transactionRollbackFailed _ _ => .transactionRollbackFailed

/-! ### Streams -/

/-- The aggregate types whose streams the log holds. -/
inductive Aggregate
  | wallet
  | token
  | transfer
  | transaction
  | holder
  deriving DecidableEq, Repr

/-- The name an aggregate type's streams go by in the log. -/
def Aggregate.name : Aggregate → String
  | wallet => "wallet"
  | token => "token"
  | transfer => "transfer"
  | transaction => "transaction"
  | holder => "holder"

/-- What an aggregate's stream is made of. -/
abbrev Aggregate.Event : Aggregate → Type
  | wallet => WalletEvent
  | token => TokenEvent
  | transfer => TransferEvent
  | transaction => TransactionEvent
  | holder => HolderEvent

instance : ∀ a : Aggregate, DecidableEq a.Event
  | .wallet => inferInstanceAs (DecidableEq WalletEvent)
  | .token => inferInstanceAs (DecidableEq TokenEvent)
  | .transfer => inferInstanceAs (DecidableEq TransferEvent)
  | .transaction => inferInstanceAs (DecidableEq TransactionEvent)
  | .holder => inferInstanceAs (DecidableEq HolderEvent)

/-- `eventstore.Event`: one row of the log. -/
structure Row (E : Type) where
  sequence : Nat
  event : E
  occurredAt : Nat
  deriving DecidableEq, Repr

/-- The events of a loaded stream. -/
def eventsOf {E : Type} (rows : List (Row E)) : List E := rows.map Row.event

end MoneyFlow
