import MoneyFlow.Transfer.Saga

/-!
# MoneyFlow.Transfer.Server

The RPCs of the Transfer service, `go/internal/transfer/server.go`. Each loads,
decides, and tries to append, at most `maxConcurrencyAttempts` times.
-/

namespace MoneyFlow.Transfer

open MoneyFlow.Service

/-- `transfer.maxConcurrencyAttempts`. -/
def maxConcurrencyAttempts : Nat := 3

/-- `transfer.abortedRetry`. -/
def abortedRetry (id : Id) : Err :=
  .twirp .aborted [.lit "transfer ", .id id,
    .lit ": could not converge after repeated concurrency conflicts; retry"]

/-- `transfer.sagaStepError`: a refused takeover keeps its FailedPrecondition. -/
def sagaStepError : Err → Err
  | .abandonedClaim m => .abandonedClaim m
  | e => e.internalWith

/-- Run a claimed saga step, its error mapped for the RPC's caller. -/
def runStep (step : Service Unit) : Service Unit := do
  match ← Concurrent.outcomeOf step with
  | .ok () => pure ()
  | .error e => throw (sagaStepError e)

/-! ### Requests -/

/-- `transfer.v1.RequestTransferRequest`. -/
structure RequestTransferRequest where
  id : Id
  fromWalletID : Id
  toWalletID : Id
  amount : Option Money
  stage : Bool
  mintSource : Bool
  transactionID : Id
  deriving DecidableEq, Repr

/-- `transfer.v1.RequestTransferResponse`. -/
inductive RequestTransferResponse
  | accepted (a : TransferAccepted)
  | rejected (id : Id) (reason : Text)
  deriving DecidableEq, Repr

/-- `transfer.decidedRequestTransfer`. -/
def decidedRequestTransfer (transferID : Id) :
    List TransferEvent → Except Err RequestTransferResponse
  | .transferRequestAccepted a :: _ => .ok (.accepted a)
  | .transferRequestRejected id reason :: _ => .ok (.rejected id reason)
  | e :: _ => .error (.twirp .internal [.lit "transfer ", .id transferID,
      .lit ": stream starts with ", .lit e.eventType.fullName,
      .lit ", want TransferRequestAccepted or TransferRequestRejected"])
  | [] => .error (.twirp .internal [.lit "transfer ", .id transferID, .lit ": empty stream"])

/-- The checks `RequestTransfer` makes before any read. -/
def validateRequest (req : RequestTransferRequest) : Except Err Money :=
  match validateId "id" req.id with
  | .error e => .error e
  | .ok () =>
    match validateId "from_wallet_id" req.fromWalletID with
    | .error e => .error e
    | .ok () =>
      match validateId "to_wallet_id" req.toWalletID with
      | .error e => .error e
      | .ok () =>
        match validateMoney "amount" req.amount with
        | .error e => .error e
        | .ok amount =>
          if req.mintSource ∧ req.transactionID = Id.empty then
            .error (invalidArgument "mint_source" ("requires transaction_id: only " ++
              "Transaction-owned Transfers may mint a source Token"))
          else .ok amount

/-- Why a request is rejected at accept, if it is. -/
def acceptRejection (req : RequestTransferRequest) (amount : Money) : Service (Option Text) :=
  if req.mintSource then validateMintSource req.transactionID req.fromWalletID
  else wouldAcceptTransfer req.fromWalletID amount req.transactionID

/-- What an accepted request records. -/
def acceptedOf (req : RequestTransferRequest) (amount : Money) : TransferAccepted where
  id := req.id
  fromWalletID := req.fromWalletID
  toWalletID := req.toWalletID
  amount := amount
  stage := req.stage
  transactionID := req.transactionID
  mintSource := req.mintSource

/-- The attempts of `RequestTransfer`. -/
def requestTransferAttempts (req : RequestTransferRequest) (amount : Money) :
    Nat → Service RequestTransferResponse
  | 0 => throw (abortedRetry req.id)
  | attempts + 1 => do
    let rows ← load .transfer req.id
    if rows.isEmpty then do
      match ← acceptRejection req amount with
      | none =>
        if ← tryAppend req.id 0 (.transferRequestAccepted (acceptedOf req amount)) then
          pure (.accepted (acceptedOf req amount))
        else requestTransferAttempts req amount attempts
      | some reason =>
        if ← tryAppend req.id 0 (.transferRequestRejected req.id reason) then
          pure (.rejected req.id reason)
        else requestTransferAttempts req amount attempts
    else check (decidedRequestTransfer req.id (eventsOf rows))

/-- `transfer.Server.RequestTransfer`. -/
def requestTransfer (req : RequestTransferRequest) : Service RequestTransferResponse := do
  let amount ← check (validateRequest req)
  requestTransferAttempts req amount maxConcurrencyAttempts

/-- `transfer.v1.RequestReversalRequest`. -/
structure RequestReversalRequest where
  id : Id
  transferID : Id
  stage : Bool
  transactionID : Id
  deriving DecidableEq, Repr

/-- `transfer.v1.RequestReversalResponse`. -/
inductive RequestReversalResponse
  | accepted (a : ReversalAccepted)
  | rejected (id transferID : Id) (reason : Text)
  deriving DecidableEq, Repr

/-- `transfer.decidedRequestReversal`. -/
def decidedRequestReversal (transferID : Id) :
    List TransferEvent → Except Err RequestReversalResponse
  | .reversalRequestAccepted a :: _ => .ok (.accepted a)
  | .reversalRequestRejected id original reason :: _ => .ok (.rejected id original reason)
  | e :: _ => .error (.twirp .internal [.lit "transfer ", .id transferID,
      .lit ": stream starts with ", .lit e.eventType.fullName,
      .lit ", want ReversalRequestAccepted or ReversalRequestRejected"])
  | [] => .error (.twirp .internal [.lit "transfer ", .id transferID, .lit ": empty stream"])

/-- What an accepted reversal records: the sum of its legs, in the currency of
the last one. -/
def reversalAcceptedOf (req : RequestReversalRequest) (legs : List Leg) : ReversalAccepted where
  id := req.id
  transferID := req.transferID
  amount := ⟨legs.foldl (fun total leg => total + leg.amount.minorUnits) 0,
    (legs.getLast?.map fun leg => leg.amount.currency).getD ""⟩
  stage := req.stage
  transactionID := req.transactionID

/-- The attempts of `RequestReversal`. -/
def requestReversalAttempts (req : RequestReversalRequest) : Nat → Service RequestReversalResponse
  | 0 => throw (abortedRetry req.id)
  | attempts + 1 => do
    let rows ← load .transfer req.id
    if rows.isEmpty then do
      match ← reversalManifest req.transferID with
      | .ok legs =>
        if ← tryAppend req.id 0 (.reversalRequestAccepted (reversalAcceptedOf req legs)) then
          pure (.accepted (reversalAcceptedOf req legs))
        else requestReversalAttempts req attempts
      | .error reason =>
        if ← tryAppend req.id 0 (.reversalRequestRejected req.id req.transferID reason) then
          pure (.rejected req.id req.transferID reason)
        else requestReversalAttempts req attempts
    else check (decidedRequestReversal req.id (eventsOf rows))

/-- `transfer.Server.RequestReversal`. -/
def requestReversal (req : RequestReversalRequest) : Service RequestReversalResponse := do
  check (validateId "id" req.id)
  check (validateId "transfer_id" req.transferID)
  requestReversalAttempts req maxConcurrencyAttempts

/-! ### Cancel and settle -/

/-- `transfer.v1.CancelAcceptedTransferResponse`. -/
structure CancelAcceptedTransferResponse where
  id : Id
  reason : Text
  deriving DecidableEq, Repr

/-- The attempts of `CancelAcceptedTransfer`. -/
def cancelAcceptedAttempts (fuel : Nat) (id : Id) (reason : Text) :
    Nat → Service CancelAcceptedTransferResponse
  | 0 => throw (abortedRetry id)
  | attempts + 1 => do
    let rows ← load .transfer id
    if rows.isEmpty then
      throw (.twirp .notFound [.lit "transfer ", .id id, .lit " not found"])
    else
      match currentState (eventsOf rows) with
      | .cancelled => pure ⟨id, reason⟩
      | .accepted | .prepared => do
        runStep (cancelPrepared fuel id reason)
        let rows' ← load .transfer id
        if currentState (eventsOf rows') = .cancelled then pure ⟨id, reason⟩
        else cancelAcceptedAttempts fuel id reason attempts
      | _ => throw (.twirp .failedPrecondition [.lit "transfer ", .id id,
          .lit " cannot be cancelled from its current state"])

/-- `transfer.Server.CancelAcceptedTransfer`. -/
def cancelAcceptedTransfer (fuel : Nat) (id : Id) (reason : Text) :
    Service CancelAcceptedTransferResponse := do
  check (validateId "id" id)
  cancelAcceptedAttempts fuel id reason maxConcurrencyAttempts

/-- `transfer.v1.ConfirmStagedTransferResponse`. -/
inductive ConfirmStagedTransferResponse
  | transferPending (id : Id)
  | rejected (id : Id) (reason : Text)
  deriving DecidableEq, Repr

/-- The attempts of `ConfirmStagedTransfer`. -/
def confirmStagedAttempts (fuel : Nat) (id : Id) : Nat → Service ConfirmStagedTransferResponse
  | 0 => throw (abortedRetry id)
  | attempts + 1 => do
    let rows ← load .transfer id
    if rows.isEmpty then pure (.rejected id [.lit "transfer not found"])
    else
      match currentState (eventsOf rows) with
      | .staged => do
        match ← Concurrent.outcomeOf (confirmStaged fuel id) with
        | .ok () => pure (.transferPending id)
        | .error e => throw e.internalWith
      | .pending => pure (.transferPending id)
      | state => do
        let reason : Text := [.lit "transfer is ", .lit state.string, .lit ", not staged"]
        if ← tryAppend id rows.length (.confirmStagedTransferRejected id reason) then
          pure (.rejected id reason)
        else confirmStagedAttempts fuel id attempts

/-- `transfer.Server.ConfirmStagedTransfer`. -/
def confirmStagedTransfer (fuel : Nat) (id : Id) : Service ConfirmStagedTransferResponse := do
  check (validateId "id" id)
  confirmStagedAttempts fuel id maxConcurrencyAttempts

/-- `transfer.v1.CancelStagedTransferResponse`. -/
inductive CancelStagedTransferResponse
  | transferCancelled (id : Id) (reason : Text)
  | rejected (id : Id) (reason : Text)
  deriving DecidableEq, Repr

/-- The attempts of `CancelStagedTransfer`. -/
def cancelStagedAttempts (fuel : Nat) (id : Id) (reason : Text) :
    Nat → Service CancelStagedTransferResponse
  | 0 => throw (abortedRetry id)
  | attempts + 1 => do
    let rows ← load .transfer id
    if rows.isEmpty then pure (.rejected id [.lit "transfer not found"])
    else
      match currentState (eventsOf rows) with
      | .staged | .pending => do
        runStep (cancelStaged fuel id reason)
        let rows' ← load .transfer id
        if currentState (eventsOf rows') = .cancelled then pure (.transferCancelled id reason)
        else cancelStagedAttempts fuel id reason attempts
      | .cancelled => pure (.transferCancelled id reason)
      | state => do
        let rejection : Text :=
          [.lit "transfer is ", .lit state.string, .lit ", cannot be cancelled from there"]
        if ← tryAppend id rows.length (.cancelStagedTransferRejected id rejection) then
          pure (.rejected id rejection)
        else cancelStagedAttempts fuel id reason attempts

/-- `transfer.Server.CancelStagedTransfer`. -/
def cancelStagedTransfer (fuel : Nat) (id : Id) (reason : Text) :
    Service CancelStagedTransferResponse := do
  check (validateId "id" id)
  cancelStagedAttempts fuel id reason maxConcurrencyAttempts

/-- `transfer.v1.PostPendingTransferResponse`. -/
inductive PostPendingTransferResponse
  | transferCommitted (id : Id) (destinations : List TransferDestination)
  | rejected (id : Id) (reason : Text)
  deriving DecidableEq, Repr

/-- `transfer.postPendingCommittedResponse`. -/
def postPendingCommittedResponse : List TransferEvent → Except Err PostPendingTransferResponse
  | [] => .error (.twirp .internal [.lit "no TransferCommitted event found"])
  | .transferCommitted id destinations :: _ => .ok (.transferCommitted id destinations)
  | _ :: rest => postPendingCommittedResponse rest

/-- The attempts of `PostPendingTransfer`. -/
def postPendingAttempts (fuel : Nat) (id : Id) : Nat → Service PostPendingTransferResponse
  | 0 => throw (abortedRetry id)
  | attempts + 1 => do
    let rows ← load .transfer id
    if rows.isEmpty then pure (.rejected id [.lit "transfer not found"])
    else
      match currentState (eventsOf rows) with
      | .pending => do
        runStep (commit fuel id)
        let rows' ← load .transfer id
        match currentState (eventsOf rows') with
        | .committed => check (postPendingCommittedResponse (eventsOf rows'))
        | .failed => throw (.twirp .internal [.lit "transfer ", .id id,
            .lit ": tigerbeetle rejected posting; see TransferFailed in the event log"])
        | _ => postPendingAttempts fuel id attempts
      | .committed => check (postPendingCommittedResponse (eventsOf rows))
      | state => do
        let reason : Text := [.lit "transfer is ", .lit state.string, .lit ", not pending"]
        if ← tryAppend id rows.length (.postPendingTransferRejected id reason) then
          pure (.rejected id reason)
        else postPendingAttempts fuel id attempts

/-- `transfer.Server.PostPendingTransfer`. -/
def postPendingTransfer (fuel : Nat) (id : Id) : Service PostPendingTransferResponse := do
  check (validateId "id" id)
  postPendingAttempts fuel id maxConcurrencyAttempts

end MoneyFlow.Transfer
