import MoneyFlow.Events

/-!
# MoneyFlow.Projector

The orchestrating side's read model of Go's aggregates
(`ruby/app/consumer/projector.rb`, `event_state_map.rb` and
`balance_projector.rb`).

Every event Go publishes is applied to the row of its aggregate: a Transaction's
and a Transfer's by `Projector`, a Token's by `BalanceProjector`. The database is
taken to hold what is written to it; the columns only the database fills are left
out, and so are the events Go declares and never records.
-/

namespace MoneyFlow.Projector

/-! ### What is published -/

/-- An event as a message carries it: `aggregate_type`, `event_type` and the
payload. -/
inductive Payload
  | transaction (e : TransactionEvent)
  | transfer (e : TransferEvent)
  | token (e : TokenEvent)
  | wallet (e : WalletEvent)
  | holder (e : HolderEvent)
  deriving DecidableEq

def Payload.aggregateType : Payload → Aggregate
  | transaction _ => .transaction
  | transfer _ => .transfer
  | token _ => .token
  | wallet _ => .wallet
  | holder _ => .holder

/-- `Consumer::Envelope`. -/
structure Envelope where
  aggregateID : Id
  payload : Payload
  sequence : Nat
  globalSeq : Nat
  occurredAt : Option Nat
  deriving DecidableEq

/-- What `apply` raises. -/
inductive Failure
  /-- `EventStateMap::UnmappedEvent`. -/
  | unmappedEvent (message : Text)
  /-- `Envelope::MalformedMessage`. -/
  | malformedMessage (message : Text)
  deriving DecidableEq, Repr

/-- `EventBody#string` of a text. -/
def textField (t : Text) : Option Text := if t.isEmpty then none else some t

/-- `EventBody#string` of an id. -/
def idField (id : Id) : Option Id := if id = Id.empty then none else some id

/-- `body.string('reason')` of a Transaction's event. -/
def transactionReason : TransactionEvent → Option Text
  | .transactionRejected _ reason => textField reason
  | .transferFailedWithinTransaction _ _ reason => textField reason
  | .transferRollbackFailedWithinTransaction _ _ reason => textField reason
  | .transactionRollbackStarted _ reason => textField reason
  | .transactionRolledBack _ reason => textField reason
  | .transactionRollbackFailed _ reason => textField reason
  | _ => none

/-- `body.string('reason')` of a Transfer's event. -/
def transferReason : TransferEvent → Option Text
  | .transferRequestRejected _ reason => textField reason
  | .reversalRequestRejected _ _ reason => textField reason
  | .cancellingStagedTransferStarted _ reason => textField reason
  | .transferFailed _ reason => textField reason
  | .transferCancelled _ reason => textField reason
  | .acceptedTransferCancelled _ reason => textField reason
  | .preparedTransferCancelled _ reason => textField reason
  | .confirmStagedTransferRejected _ reason => textField reason
  | .cancelStagedTransferRejected _ reason => textField reason
  | .postPendingTransferRejected _ reason => textField reason
  | _ => none

/-- `body.string('transaction_id')` of a Transfer's event. -/
def owningTransaction : TransferEvent → Option Id
  | .transferRequestAccepted a => idField a.transactionID
  | .reversalRequestAccepted a => idField a.transactionID
  | _ => none

/-! ### EventStateMap -/

/-- `Types::Enums::TransactionState`. -/
inductive TransactionState
  | initialized
  | rejected
  | started
  | rollbackStarted
  | completed
  | rolledBack
  | rollbackFailed
  deriving DecidableEq, Repr

/-- `Types::Enums::TransferState`. -/
inductive TransferState
  | accepted
  | rejected
  | prepared
  | staged
  | pending
  | committed
  | failed
  | cancelled
  deriving DecidableEq, Repr

/-- `EventStateMap::TRANSACTION`. -/
def transactionMap : TransactionEventType → Option TransactionState
  | .transactionInitialized => some .initialized
  | .transactionRejected => some .rejected
  | .transactionStarted => some .started
  | .transactionRollbackStarted => some .rollbackStarted
  | .transactionCompleted => some .completed
  | .transactionRolledBack => some .rolledBack
  | .transactionRollbackFailed => some .rollbackFailed
  | .transferRequestedWithinTransaction => none
  | .transferCompletedWithinTransaction => none
  | .transferFailedWithinTransaction => none
  | .transferReversalRequestedWithinTransaction => none
  | .transferRolledBackWithinTransaction => none
  | .transferRollbackFailedWithinTransaction => none

/-- `EventStateMap::TRANSFER`. -/
def transferMap : TransferEventType → Option TransferState
  | .transferRequestAccepted => some .accepted
  | .reversalRequestAccepted => some .accepted
  | .transferRequestRejected => some .rejected
  | .reversalRequestRejected => some .rejected
  | .transferPrepared => some .prepared
  | .transferStaged => some .staged
  | .transferPending => some .pending
  | .transferCommitted => some .committed
  | .transferFailed => some .failed
  | .transferCancelled => some .cancelled
  | .acceptedTransferCancelled => some .cancelled
  | .preparedTransferCancelled => some .cancelled
  | .confirmStagedTransferRejected => none
  | .cancelStagedTransferRejected => none
  | .postPendingTransferRejected => none
  | .stagingTransferStarted => none
  | .transferCommittingStarted => none
  | .cancellingStagedTransferStarted => none

/-! ### Projector -/

/-- A row of `transaction_projections` or `transfer_projections`. Only a Transfer's
names a Transaction. -/
structure Projection (σ : Type) where
  aggregateID : Id
  transactionID : Option Id
  state : Option σ
  stateChangedAt : Option Nat
  reason : Option Text
  lastSequence : Nat
  lastGlobalSeq : Nat
  updatedAt : Nat
  deriving DecidableEq, Repr

/-- `new_row`: nothing is set yet. -/
def newRow {σ : Type} (aggregateID : Id) : Projection σ :=
  ⟨aggregateID, none, none, none, none, 0, 0, 0⟩

/-- `target_row`: the row to write to, or nil when the guard says not to. -/
def targetRow {σ : Type} (env : Envelope) (state : Option σ) (row : Option (Projection σ)) :
    Option (Projection σ) :=
  match row with
  | none => if state.isNone then none else some (newRow env.aggregateID)
  | some row => if env.sequence > row.lastSequence then some row else none

/-- `describe`; `owner` is what the event says of the owning Transaction. -/
def describe {σ : Type} (now : Nat) (env : Envelope) (reason : Option Text) (owner : Option Id)
    (state : Option σ) (row : Projection σ) : Projection σ :=
  let row :=
    match state with
    | none => row
    | some s =>
      { row with
        state := some s, stateChangedAt := some (env.occurredAt.getD now), reason := reason }
  { row with transactionID := row.transactionID.or owner }

/-- `record`. -/
def record {σ : Type} (now : Nat) (env : Envelope) (reason : Option Text) (owner : Option Id)
    (state : Option σ) (row : Projection σ) : Projection σ :=
  { describe now env reason owner state row with
    lastSequence := env.sequence
    lastGlobalSeq := env.globalSeq
    updatedAt := now }

/-- The rows of one table, by aggregate. -/
abbrev Table (α : Type) := Id → Option α

/-- Write a row. -/
def Table.save {α : Type} (t : Table α) (id : Id) (row : α) : Table α :=
  fun id' => if id' = id then some row else t id'

/-- The transaction `apply` runs on one of the two tables. -/
def project {σ : Type} (now : Nat) (env : Envelope) (reason : Option Text) (owner : Option Id)
    (state : Option σ) (t : Table (Projection σ)) : Table (Projection σ) × Bool :=
  match targetRow env state (t env.aggregateID) with
  | none => (t, false)
  | some row => (t.save env.aggregateID (record now env reason owner state row), true)

/-! ### BalanceProjector -/

/-- A row of `token_balance_projections`. -/
structure TokenBalance where
  tokenID : Id
  walletUUID : Id
  currency : String
  postedMinorUnits : Int
  pendingOutgoingMinorUnits : UInt64
  pendingIncomingMinorUnits : UInt64
  lastSequence : Nat
  lastGlobalSeq : Nat
  deriving DecidableEq, Repr

/-- `BalanceProjector::RECORDED`. -/
def recorded : String := "token.v1.TokenBalanceRecorded"

/-- `upsert`: the row is inserted, or updated when this event's sequence is higher
than the one it holds. -/
def upsert (row : TokenBalance) (t : Table TokenBalance) : Table TokenBalance × Bool :=
  match t row.tokenID with
  | none => (t.save row.tokenID row, true)
  | some held =>
    if held.lastSequence < row.lastSequence then (t.save row.tokenID row, true) else (t, false)

/-- `BalanceProjector#apply`. -/
def applyBalance (env : Envelope) (event : TokenEvent) (t : Table TokenBalance) :
    Except Failure (Table TokenBalance × Bool) :=
  match event with
  | .tokenBalanceRecorded _ walletID currency posted outgoing incoming =>
    if walletID = Id.empty then
      .error (.malformedMessage [.lit recorded, .lit " has no wallet_id"])
    else if currency = "" then
      .error (.malformedMessage [.lit recorded, .lit " has no currency"])
    else .ok (upsert ⟨env.aggregateID, walletID, currency, posted, outgoing, incoming,
      env.sequence, env.globalSeq⟩ t)
  | .tokenMinted _ _ _ => .ok (t, false)

/-! ### apply -/

structure ReadModel where
  transactions : Table (Projection TransactionState)
  transfers : Table (Projection TransferState)
  balances : Table TokenBalance

/-- Nothing has been applied. -/
def ReadModel.empty : ReadModel := ⟨fun _ => none, fun _ => none, fun _ => none⟩

/-- `Projector#apply`, at the time `now`; whether it changed anything is returned
with the read model. -/
def apply (now : Nat) (env : Envelope) (m : ReadModel) : Except Failure (ReadModel × Bool) :=
  match env.payload with
  | .token e =>
    match applyBalance env e m.balances with
    | .error e => .error e
    | .ok (t, changed) => .ok ({ m with balances := t }, changed)
  | .transaction e =>
    let (t, changed) := project now env (transactionReason e) none (transactionMap e.eventType)
      m.transactions
    .ok ({ m with transactions := t }, changed)
  | .transfer e =>
    let (t, changed) := project now env (transferReason e) (owningTransaction e)
      (transferMap e.eventType) m.transfers
    .ok ({ m with transfers := t }, changed)
  | payload => .error (.unmappedEvent
      [.lit "no projection for aggregate type ", .lit ("\"" ++ payload.aggregateType.name ++ "\"")])

/-- Messages as they are delivered: when, and what. A failure halts the consumer. -/
def applyAll (m : ReadModel) : List (Nat × Envelope) → Except Failure ReadModel
  | [] => .ok m
  | (now, env) :: ds =>
    match apply now env m with
    | .error e => .error e
    | .ok (m', _) => applyAll m' ds

end MoneyFlow.Projector
