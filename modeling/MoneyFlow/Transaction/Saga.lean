import MoneyFlow.Transfer.Server

/-!
# MoneyFlow.Transaction.Saga

The Transaction saga, the stateful half of `go/internal/transaction/saga.go`:
dispatch in dependency order, reconcile, and roll back in reverse.

Where the source calls the Transfer service in process the call is named first
(`Service.call`), so that "whenever the saga calls" is a moment of the run.
Every loop or recursion without a bound takes `fuel`.
-/

namespace MoneyFlow.Transaction

open MoneyFlow.Service

/-- `transfer.Outcome`. -/
def loadOutcome (transferID : Id) : Service Transfer.OutcomeKind := do
  let rows ← load .transfer transferID
  pure (Transfer.outcome (eventsOf rows))

/-- A nil spec's fields. -/
def zeroSpec : TransferSpec :=
  ⟨Id.empty, none, Id.empty, Id.empty, false, false⟩

/-- `transfers[childID]`. -/
def specOf (transfers : GoMap TransferSpec) (childID : Id) : TransferSpec :=
  (transfers.get? childID).getD zeroSpec

/-! ### Recording -/

/-- The event and what it decides for the Transaction, appended together. Only a
child's outcome carries its consequences with it. -/
def withConsequences (events : List TransactionEvent) (transactionID : Id)
    (event : TransactionEvent) : Except Err (List TransactionEvent) :=
  if childEventTransferID event = Id.empty then .ok [event]
  else
    match consequences transactionID 3 (events ++ [event]) with
    | .error e => .error e
    | .ok rest => .ok (event :: rest)

/-- `transaction.appendSagaStep`. -/
def appendSagaStep (transactionID : Id) (event : TransactionEvent) : Nat → Service Unit
  | 0 => Concurrent.halted
  | fuel + 1 => do
    let rows ← load .transaction transactionID
    if alreadyRecorded (eventsOf rows) event then pure ()
    else if ← check (stillDecidable (eventsOf rows) transactionID event) then do
      let pending ← check (withConsequences (eventsOf rows) transactionID event)
      match ← append .transaction transactionID rows.length pending with
      | .ok () => pure ()
      | .error .concurrencyConflict => appendSagaStep transactionID event fuel
      | .error e => throw e.internalWith
    else pure ()

/-- `transaction.recordIntents`: `false` when the stream is no longer at
`version`. -/
def recordIntents (transactionID : Id) (version : Nat) (intents : List TransactionEvent) :
    Service Bool := do
  match ← append .transaction transactionID version intents with
  | .ok () => pure true
  | .error .concurrencyConflict => pure false
  | .error e => throw e.internalWith

/-! ### Forward -/

/-- `transaction.requestFor`. -/
def requestFor (transactionID : Id) (spec : TransferSpec) : Transfer.RequestTransferRequest where
  id := spec.id
  fromWalletID := spec.fromWalletID
  toWalletID := spec.toWalletID
  amount := spec.amount
  stage := spec.stage
  mintSource := spec.mintSource
  transactionID := transactionID

/-- `transaction.requestChildTransfer`: `true` when the child was rejected. -/
def requestChildTransfer (fuel : Nat) (transactionID : Id) (spec : TransferSpec) :
    Service Bool := do
  call (.requestTransfer transactionID spec.id)
  match ← Transfer.requestTransfer (requestFor transactionID spec) with
  | .accepted _ => pure false
  | .rejected _ reason => do
    appendSagaStep transactionID
      (.transferFailedWithinTransaction transactionID spec.id reason) fuel
    pure true

/-- Request each child of a slice, in order. -/
def requestEach (fuel : Nat) (transactionID : Id) (transfers : GoMap TransferSpec) :
    List Id → Service Unit
  | [] => pure ()
  | childID :: rest => do
    let _ ← requestChildTransfer fuel transactionID (specOf transfers childID)
    requestEach fuel transactionID transfers rest

/-- `transaction.maxDispatchPerStep`. -/
def maxDispatchPerStep : Nat := 8

/-- `transaction.dispatchReady`, answering `(dispatched, more)`. -/
def dispatchReady (fuel : Nat) (transactionID : Id) (version : Nat) (spec : Spec)
    (children : Children) (starting : Bool) : Service (Bool × Bool) := do
  let order ← rangeMap spec.transfers.keys
  let ready := readyToRun order spec.transferDependency children.touched children.completed
  if ready.isEmpty ∧ ¬ starting then pure (false, false)
  else
    if ← recordIntents transactionID version
        (intentsFor transactionID starting (ready.take maxDispatchPerStep)) then do
      requestEach fuel transactionID spec.transfers (ready.take maxDispatchPerStep)
      pure (true, decide (maxDispatchPerStep < ready.length))
    else pure (true, false)

/-- One child of `reconcileInFlight`: `true` when something was recorded. -/
def reconcileChild (fuel : Nat) (transactionID : Id) (transfers : GoMap TransferSpec)
    (childID : Id) : Service Bool := do
  match ← loadOutcome childID with
  | .notFound | .rejected => requestChildTransfer fuel transactionID (specOf transfers childID)
  | .committed => do
    appendSagaStep transactionID
      (.transferCompletedWithinTransaction transactionID childID) fuel
    pure true
  | .failed => do
    appendSagaStep transactionID (.transferFailedWithinTransaction transactionID childID
      [.lit "child transfer reached ", .lit Transfer.OutcomeKind.failed.string]) fuel
    pure true
  | .cancelled => do
    appendSagaStep transactionID (.transferFailedWithinTransaction transactionID childID
      [.lit "child transfer reached ", .lit Transfer.OutcomeKind.cancelled.string]) fuel
    pure true
  | .inFlight | .staged | .pending => pure false

/-- Run `act` on each of these children that is in `state`, in order; `true`
when any of them recorded something. -/
def sweep (children : Children) (state : ChildState) (act : Id → Service Bool) :
    List Id → Service Bool
  | [] => pure false
  | childID :: rest =>
    if children.state childID = state then do
      let progressed ← act childID
      let others ← sweep children state act rest
      pure (progressed || others)
    else sweep children state act rest

/-- `transaction.reconcileInFlight`. -/
def reconcileInFlight (fuel : Nat) (transactionID : Id) (transfers : GoMap TransferSpec)
    (children : Children) : Service Bool := do
  let order ← rangeMap (children.map Prod.fst)
  sweep children .requested (reconcileChild fuel transactionID transfers) order

/-! ### Rollback -/

/-- One child of `reconcileRollbacks`. -/
def reconcileReversal (fuel : Nat) (transactionID : Id) (events : List TransactionEvent)
    (childID : Id) : Service Bool := do
  let reversalID := requestedReversalID childID events
  if reversalID = Id.empty then
    throw (.plain [.lit "transaction ", .id transactionID, .lit ": child ", .id childID,
      .lit " is awaiting a reversal with no recorded id"])
  else do
    let outcome ← loadOutcome reversalID
    match outcome with
    | .committed => do
      appendSagaStep transactionID (.transferRolledBackWithinTransaction transactionID childID
        .reversed reversalID) fuel
      pure true
    | .failed | .cancelled | .rejected => do
      appendSagaStep transactionID (.transferRollbackFailedWithinTransaction transactionID childID
        [.lit "reversal ", .id reversalID, .lit " reached ", .lit outcome.string,
          .lit " instead of committing"]) fuel
      pure true
    | _ => pure false

/-- `transaction.reconcileRollbacks`. -/
def reconcileRollbacks (fuel : Nat) (transactionID : Id) (events : List TransactionEvent)
    (children : Children) : Service Bool := do
  let order ← rangeMap (children.map Prod.fst)
  sweep children .rollbackRequested (reconcileReversal fuel transactionID events) order

/-- The reason the saga gives for undoing a child. -/
def rollbackReason : Text := [.lit "transaction rollback"]

/-- Request a committed child's Reversal, and record what it is waiting on. -/
def reverseChild (fuel : Nat) (transactionID : Id) (spec : TransferSpec) : Service Unit := do
  let reversalID := Id.reversal transactionID spec.id
  call (.requestReversal transactionID spec.id reversalID)
  match ← Transfer.requestReversal ⟨reversalID, spec.id, spec.stage, transactionID⟩ with
  | .rejected _ _ reason =>
    appendSagaStep transactionID
      (.transferRollbackFailedWithinTransaction transactionID spec.id reason) fuel
  | .accepted _ =>
    appendSagaStep transactionID
      (.transferReversalRequestedWithinTransaction transactionID spec.id reversalID) fuel

/-- Cancel a staged or pending child. -/
def cancelStagedChild (fuel : Nat) (transactionID : Id) (spec : TransferSpec) : Service Unit := do
  call (.cancelStagedTransfer transactionID spec.id)
  match ← Transfer.cancelStagedTransfer fuel spec.id rollbackReason with
  | .rejected _ reason =>
    appendSagaStep transactionID
      (.transferRollbackFailedWithinTransaction transactionID spec.id reason) fuel
  | .transferCancelled _ _ =>
    appendSagaStep transactionID
      (.transferRolledBackWithinTransaction transactionID spec.id .cancelled Id.empty) fuel

/-- `transaction.rollbackChild`: undo a child by its live outcome. -/
def rollbackChild (transactionID : Id) (spec : TransferSpec) (state : ChildState) :
    Nat → Service Unit
  | 0 => Concurrent.halted
  | fuel + 1 =>
    if state ≠ .requested ∧ state ≠ .completed then
      throw (.plain [.lit "transaction ", .id transactionID, .lit ": rollbackChild: child ",
        .id spec.id, .lit " is in state ", .num state.toNat,
        .lit ", which planRollback never offers"])
    else do
      match ← loadOutcome spec.id with
      | .notFound => do
        -- an intent whose request was never made: make it, then undo what it became
        call (.requestTransfer transactionID spec.id)
        let _ ← Transfer.requestTransfer (requestFor transactionID spec)
        rollbackChild transactionID spec state fuel
      | .committed => reverseChild fuel transactionID spec
      | .staged | .pending => cancelStagedChild fuel transactionID spec
      | .inFlight => do
        call (.cancelAcceptedTransfer transactionID spec.id)
        match ← Concurrent.outcomeOf
            (Transfer.cancelAcceptedTransfer fuel spec.id rollbackReason) with
        | .ok _ =>
          appendSagaStep transactionID
            (.transferRolledBackWithinTransaction transactionID spec.id .cancelled Id.empty) fuel
        | .error e =>
          -- the Transfer moved past cancelling first: undo it by what it became
          if e.code = some .failedPrecondition then rollbackChild transactionID spec state fuel
          else throw e
      | .failed | .cancelled | .rejected =>
        appendSagaStep transactionID
          (.transferRolledBackWithinTransaction transactionID spec.id .abandoned Id.empty) fuel

/-- Roll back each of these children, in order. -/
def rollbackEach (fuel : Nat) (transactionID : Id) (transfers : GoMap TransferSpec)
    (children : Children) : List Id → Service Unit
  | [] => pure ()
  | childID :: rest => do
    rollbackChild transactionID (specOf transfers childID) (children.state childID) fuel
    rollbackEach fuel transactionID transfers children rest

/-- What one rollback sweep reports. -/
inductive RollbackProgress
  /-- More children remain than this slice took. -/
  | more
  /-- Something was recorded. -/
  | progressed
  /-- Some child's Reversal has not resolved. -/
  | waiting
  /-- Nothing is left to roll back or to wait for. -/
  | done (blocked : Bool)
  deriving DecidableEq, Repr

/-- `transaction.rollbackNext`. -/
def rollbackNext (fuel : Nat) (transactionID : Id) (spec : Spec) (children : Children) :
    Service RollbackProgress := do
  let order ← rangeMap spec.transfers.keys
  let plan := planRollback order spec.transferDependency children
  if plan.candidates.isEmpty then
    pure (if plan.inFlight then .waiting else .done plan.anyFailed)
  else do
    rollbackEach fuel transactionID spec.transfers children
      (plan.candidates.take maxDispatchPerStep)
    pure (if maxDispatchPerStep < plan.candidates.length then .more else .progressed)

/-! ### Resume -/

/-- `transaction.runSaga`. -/
def runSaga (transactionID : Id) : Nat → Service Unit
  | 0 => Concurrent.halted
  | fuel + 1 => do
    let rows ← load .transaction transactionID
    if rows.isEmpty then
      throw (.plain [.lit "transaction ", .id transactionID, .lit ": no events"])
    else
      match topLevelState (eventsOf rows) with
      | .initialized => do
        let spec ← check (decodeSpec (eventsOf rows))
        let (_, more) ← dispatchReady fuel transactionID rows.length spec [] true
        if more then pure () else runSaga transactionID fuel
      | .started => do
        let spec ← check (decodeSpec (eventsOf rows))
        let children := foldChildStates (eventsOf rows)
        if ← reconcileInFlight fuel transactionID spec.transfers children then
          runSaga transactionID fuel
        else
          match ← check (consequence (eventsOf rows) transactionID) with
          | some next => do
            appendSagaStep transactionID next fuel
            runSaga transactionID fuel
          | none => do
            let (dispatched, more) ←
              dispatchReady fuel transactionID rows.length spec children false
            if more then pure ()
            else if dispatched then runSaga transactionID fuel
            else pure ()
      | .rollbackStarted => do
        let spec ← check (decodeSpec (eventsOf rows))
        let children := foldChildStates (eventsOf rows)
        if ← reconcileRollbacks fuel transactionID (eventsOf rows) children then
          runSaga transactionID fuel
        else
          match ← rollbackNext fuel transactionID spec children with
          | .more | .waiting => pure ()
          | .progressed => runSaga transactionID fuel
          | .done blocked =>
            match ← check (consequence (eventsOf rows) transactionID) with
            | none => throw (.plain [.lit "transaction ", .id transactionID,
                .lit ": rollback made no progress yet reached no conclusion (blocked=",
                .lit (if blocked then "true" else "false"), .lit ")"])
            | some concluded => do
              appendSagaStep transactionID concluded fuel
              runSaga transactionID fuel
      | .completed | .rolledBack | .rollbackFailed | .rejected => pure ()
      | .unknown => throw (.plain [.lit "transaction ", .id transactionID,
          .lit ": saga stuck in unrecognized state"])

/-- `transaction.Server.Resume`. -/
def resume (fuel : Nat) (transactionID : Id) : Service Unit := runSaga transactionID fuel

end MoneyFlow.Transaction
