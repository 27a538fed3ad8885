import MoneyFlow.Transaction.Saga

/-!
# MoneyFlow.Transaction.Server

The RPCs of the Transaction service, `go/internal/transaction/server.go`. Each
records a decision and returns; none of them drives the saga.
-/

namespace MoneyFlow.Transaction

open MoneyFlow.Service

/-- `transaction.maxConcurrencyAttempts`. -/
def maxConcurrencyAttempts : Nat := 3

/-- `transaction.abortedRetry`. -/
def abortedRetry (transactionID : Id) : Err :=
  .twirp .aborted [.lit "transaction ", .id transactionID,
    .lit ": could not converge after repeated concurrency conflicts; retry"]

/-- The children of a pre-flight check, in order: the reason of the first one
that would be rejected right now. -/
def wouldAcceptEach (transactionID : Id) (transfers : GoMap TransferSpec) :
    List Id → Service (Option Text)
  | [] => pure none
  | childID :: rest =>
    if (specOf transfers childID).mintSource then wouldAcceptEach transactionID transfers rest
    else do
      match ← Transfer.wouldAcceptTransfer (specOf transfers childID).fromWalletID
          ((specOf transfers childID).amount.getD ⟨0, ""⟩) transactionID with
      | some reason => pure (some ([.lit "transfer ", .id childID, .lit ": "] ++ reason))
      | none => wouldAcceptEach transactionID transfers rest

/-- `transaction.wouldAcceptReadyChildren`. -/
def wouldAcceptReadyChildren (transactionID : Id) (spec : Spec) : Service (Option Text) := do
  let order ← rangeMap spec.transfers.keys
  wouldAcceptEach transactionID spec.transfers
    (readyToRun order spec.transferDependency (fun _ => false) fun _ => false)

/-- `transaction.v1.StartInitializingTransactionResponse`. -/
inductive StartInitializingTransactionResponse
  | initialized (id : Id) (spec : Spec)
  | rejected (id : Id) (reason : Text)

/-- `transaction.decidedStartInitializingTransaction`. -/
def decidedStartInitializingTransaction (transactionID : Id) :
    List TransactionEvent → Except Err StartInitializingTransactionResponse
  | .transactionInitialized id spec :: _ => .ok (.initialized id spec)
  | .transactionRejected id reason :: _ => .ok (.rejected id reason)
  | e :: _ => .error (.twirp .internal [.lit "transaction ", .id transactionID,
      .lit ": stream starts with ", .lit (eventName e.eventType),
      .lit ", want TransactionInitialized or TransactionRejected"])
  | [] => .error (.twirp .internal [.lit "transaction ", .id transactionID,
      .lit ": empty stream"])

/-- Why a Transaction is rejected, if it is. -/
def initialRejection (transactionID : Id) (spec : Spec) : Service (Option Text) :=
  match validateDAG spec.transfers spec.transferDependency with
  | .error e => pure (some e.msg)
  | .ok () => do
    match ← Concurrent.outcomeOf (wouldAcceptReadyChildren transactionID spec) with
    | .ok reason => pure reason
    | .error e => throw e.internalWith

/-- The attempts of `StartInitializingTransaction`. -/
def startInitializingAttempts (id : Id) (spec : Spec) :
    Nat → Service StartInitializingTransactionResponse
  | 0 => throw (abortedRetry id)
  | attempts + 1 => do
    let rows ← load .transaction id
    if rows.isEmpty then do
      match ← initialRejection id spec with
      | none =>
        match ← append .transaction id 0 [TransactionEvent.transactionInitialized id spec] with
        | .ok () => pure (.initialized id spec)
        | .error .concurrencyConflict => startInitializingAttempts id spec attempts
        | .error e => throw e.internalWith
      | some reason =>
        match ← append .transaction id 0 [TransactionEvent.transactionRejected id reason] with
        | .ok () => pure (.rejected id reason)
        | .error .concurrencyConflict => startInitializingAttempts id spec attempts
        | .error e => throw e.internalWith
    else check (decidedStartInitializingTransaction id (eventsOf rows))

/-- `transaction.Server.StartInitializingTransaction`. -/
def startInitializingTransaction (id : Id) (spec : Spec) :
    Service StartInitializingTransactionResponse := do
  check (validateId "id" id)
  startInitializingAttempts id spec maxConcurrencyAttempts

/-- What `StartTransactionRollback` answers from the stream as it then
stands. -/
def rollbackResponse (id : Id) (events : List TransactionEvent) : Except Err State :=
  match topLevelState events with
  | .rollbackStarted => .ok .rollbackStarted
  | .rolledBack => .ok .rolledBack
  | .rollbackFailed => .ok .rollbackFailed
  | _ => .error (.twirp .failedPrecondition [.lit "transaction ", .id id,
      .lit " cannot be rolled back from its current state"])

/-- `transaction.Server.StartTransactionRollback`. -/
def startTransactionRollback (fuel : Nat) (id : Id) (reason : Text) : Service State := do
  check (validateId "id" id)
  let rows ← load .transaction id
  if rows.isEmpty then
    throw (.twirp .notFound [.lit "transaction ", .id id, .lit " not found"])
  else
    match topLevelState (eventsOf rows) with
    | .initialized | .started => do
      match ← Concurrent.outcomeOf
          (appendSagaStep id (.transactionRollbackStarted id reason) fuel) with
      | .ok () => do
        let rows' ← load .transaction id
        check (rollbackResponse id (eventsOf rows'))
      | .error e => throw e.internalWith
    | _ => check (rollbackResponse id (eventsOf rows))

end MoneyFlow.Transaction
