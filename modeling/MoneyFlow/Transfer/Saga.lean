import MoneyFlow.Transfer.Manifest

/-!
# MoneyFlow.Transfer.Saga

The Transfer saga, `go/internal/transfer/saga.go`: prepare, stage, commit,
cancel, and the claims that keep two drivers of one Transfer apart.

Three of the source's sentinel errors never leave this file's functions, and
are modelled as the answers their callers treat them as:

* `errPlanOvertaken` is `Planned.overtaken`;
* `errClaimSuperseded` is `stillHoldsClaim` answering `false`;
* `errBatchRejected` and an `onReject` that found its claim superseded are both
  `submitBatch` answering `false`: a refusal was handled, stop.

Every loop of the source without a bound takes `fuel`.
-/

namespace MoneyFlow.Transfer

open MoneyFlow.Service

/-! ### Appends -/

/-- `transfer.tryAppend`: `false` when the append lost a race. -/
def tryAppend (transferID : Id) (expectedSeq : Nat) (event : TransferEvent) : Service Bool := do
  match ← append .transfer transferID expectedSeq [event] with
  | .ok () => pure true
  | .error .concurrencyConflict => pure false
  | .error e => throw e.internalWith

/-- `transfer.overtaken`: some stream the writes expected at a position has
moved past it. Streams a plan creates are not checked. -/
def overtaken : List StreamWrite → Service Bool
  | [] => pure false
  | w :: rest =>
    if w.expectedSeq = 0 then overtaken rest
    else do
      let rows ← load w.aggregateType w.aggregateID
      if rows.length ≠ w.expectedSeq then pure true else overtaken rest

/-- `transfer.recordOutcome`: record a saga step's outcome with the balances of
its legs' Tokens, unless it is already the latest outcome. -/
def recordOutcome (transferID : Id) (event : TransferEvent) (legs : List TransferLeg) :
    Nat → Service Unit
  | 0 => Concurrent.halted
  | fuel + 1 => do
    let rows ← load .transfer transferID
    if latestOutcome (eventsOf rows) = some event.eventType then pure ()
    else if event.eventType ∉ transitions (currentState (eventsOf rows)) then
      throw (.twirp .internal [.lit "transfer ", .id transferID, .lit ": already ",
        .lit (currentState (eventsOf rows)).string, .lit ", cannot also become ",
        .lit event.eventType.fullName])
    else do
      let writes ← Token.balanceWrites (legTokens legs)
      match ← appendWrites (writes ++ [⟨.transfer, transferID, rows.length, [event]⟩]) with
      | .ok () => pure ()
      | .error .concurrencyConflict =>
        if ← overtaken (writes ++ [⟨.transfer, transferID, rows.length, [event]⟩]) then do
          contentionWait
          recordOutcome transferID event legs fuel
        else
          throw (.twirp .internal [.lit "transfer ", .id transferID, .lit ": recording ",
            .lit event.eventType.fullName,
            .lit " conflicted, yet no stream it wrote to has moved"])
      | .error e => throw e.internalWith

/-- `transfer.appendSagaStep`. -/
def appendSagaStep (fuel : Nat) (transferID : Id) (event : TransferEvent) : Service Unit :=
  recordOutcome transferID event [] fuel

/-! ### Claims -/

/-- `transfer.claimPollInterval`, in milliseconds. -/
def claimPollInterval : Nat := 20

/-- `transfer.claimStaleAfter`, in milliseconds. -/
def claimStaleAfter : Nat := 5000

/-- `transfer.abandonedClaimError`. -/
def abandonedClaimError (transferID : Id) (abandoned wanted : TransferEventType) : Err :=
  .abandonedClaim [.lit "transfer ", .id transferID, .lit ": an abandoned ",
    .lit abandoned.fullName, .lit " claim can only be resumed by that same transition, not ",
    .lit wanted.fullName]

/-- `transfer.awaitUnclaimed`: wait until no fresh claim is live, and answer the
stream as it then stands; `none` once the Transfer has left `preClaimState`. -/
def awaitUnclaimed (transferID : Id) (preClaimState : State) (next : TransferEvent) :
    Nat → Service (Option (List (Row TransferEvent)))
  | 0 => Concurrent.halted
  | fuel + 1 => do
    let rows ← load .transfer transferID
    if currentState (eventsOf rows) ≠ preClaimState then pure none
    else
      match liveMarker rows with
      | none => pure (some rows)
      | some live => do
        let t ← now
        if live.occurredAt + claimStaleAfter ≤ t then
          -- a stale claim may be taken over only by the transition that wrote it
          if live.event.eventType ≠ next.eventType then
            throw (abandonedClaimError transferID live.event.eventType next.eventType)
          else pure (some rows)
        else do
          wait claimPollInterval
          awaitUnclaimed transferID preClaimState next fuel

/-- `transfer.claimForDispatch`: the position the marker landed at, or `none`
when the Transfer has left `preClaimState`. -/
def claimForDispatch (transferID : Id) (preClaimState : State) (marker : TransferEvent) :
    Nat → Service (Option Nat)
  | 0 => Concurrent.halted
  | fuel + 1 => do
    match ← awaitUnclaimed transferID preClaimState marker fuel with
    | none => pure none
    | some rows =>
      match ← append .transfer transferID rows.length [marker] with
      | .ok () => pure (some (rows.length + 1))
      | .error .concurrencyConflict => claimForDispatch transferID preClaimState marker fuel
      | .error e => throw e.internalWith

/-- `transfer.stillHoldsClaim`. -/
def stillHoldsClaim (transferID : Id) (claimedSeq : Nat) : Service Bool := do
  let rows ← load .transfer transferID
  match liveMarker rows with
  | none => pure false
  | some live => pure (live.sequence == claimedSeq)

/-! ### Ledger requests -/

/-- The first result that is neither OK nor Exists, as the refusal of chain
`c`. -/
def firstRefusal (c : Nat) : Nat → List TransferResultCode → Option LedgerRefusal
  | _, [] => none
  | i, r :: rest =>
    if r.accepted then firstRefusal c (i + 1) rest
    else some ⟨[.lit "leg ", .num (c * batchMax + i), .lit ": ", .lit r.string], c⟩

/-- `transfer.submitChain`. -/
def submitChain (chain : List LedgerTransfer) (c : Nat) : Service (Option LedgerRefusal) := do
  match ← createTransfers chain with
  | .error (.invalidRequest m) =>
    pure (some ⟨[.lit "ledger refused chain ", .num c, .lit ": "] ++ (Err.invalidRequest m).msg, c⟩)
  | .error e => throw (.twirp .internal (.lit "ledger: " :: e.msg))
  | .ok results => pure (firstRefusal c 0 results)

/-- `transfer.recordTouched`. -/
def recordTouched (fuel : Nat) (batch : List LedgerTransfer) : Service Unit :=
  Token.recordBalances fuel (batch.flatMap fun t => [t.debitAccountID, t.creditAccountID])

/-- The loop of `submitBatch`, from chain `c` on. -/
def submitChains (fuel : Nat) (batch : List LedgerTransfer)
    (onReject : LedgerRefusal → Service Unit) : Nat → List (List LedgerTransfer) → Service Bool
  | _, [] => pure true
  | c, chain :: rest => do
    match ← submitChain chain c with
    | none => submitChains fuel batch onReject (c + 1) rest
    | some refusal =>
      if 0 < c then do
        -- the chains before this one moved balances: publish them first
        recordTouched fuel (batch.take (c * batchMax))
        onReject refusal
        pure false
      else do
        onReject refusal
        pure false

/-- `transfer.submitBatch`: one linked chain per request, in order, stopping at
the first one refused. `true` when every chain was accepted. -/
def submitBatch (fuel : Nat) (batch : List LedgerTransfer)
    (onReject : LedgerRefusal → Service Unit) : Service Bool :=
  submitChains fuel batch onReject 0 (chains batch)

/-- `transfer.compensate`. -/
def compensate (fuel : Nat) (transferID : Id) (claimedSeq : Nat) (reason : Text) :
    Service Unit := do
  if ← stillHoldsClaim transferID claimedSeq then
    appendSagaStep fuel transferID (.transferFailed transferID reason)
  else pure ()

/-! ### Prepare -/

/-- `transfer.claimedStep`: the step `prepare` claimed for the Transfer it
prepared. -/
structure ClaimedStep where
  seq : Nat
  legs : List TransferLeg
  stage : Bool
  deriving DecidableEq, Repr

/-- How one planning ended. -/
inductive Planned
  /-- Its write lost to a different one. -/
  | overtaken
  /-- There was nothing left to prepare. -/
  | nothing
  /-- The plan landed, with the next step's claim. -/
  | claimed (step : ClaimedStep)
  deriving DecidableEq, Repr

/-- `transfer.failUnprepared`. -/
def failUnprepared (transferID : Id) (expectedSeq : Nat) (reason : Text) : Service Planned := do
  if ← tryAppend transferID expectedSeq (.transferFailed transferID reason) then pure .nothing
  else pure .overtaken

/-- Generate each leg's ledger transfer id. -/
def generateLegs (transferID : Id) : List Leg → Service (List TransferLeg)
  | [] => pure []
  | leg :: rest => do
    let ledgerTransferID ← newV7 transferID
    let legs ← generateLegs transferID rest
    pure (⟨leg.sourceTokenID, leg.destTokenID, leg.amount, ledgerTransferID⟩ :: legs)

/-- The debit side of a forward plan: legs still without a destination, and the
writes that mint a source Token. A shortfall is handed back as its reason. -/
def planSources (transferID : Id) (a : TransferAccepted) :
    Service (Except Text (List Leg × List StreamWrite)) :=
  if a.mintSource then do
    match ← validateMintSource a.transactionID a.fromWalletID with
    | some reason => throw (.plain ([.lit "transfer ", .id transferID,
        .lit ": prepare: mint_source re-validation failed after accept: "] ++ reason))
    | none => do
      let walletRows ← load .wallet a.fromWalletID
      match ← Token.mintWrites a.fromWalletID walletRows [mintSourceLeg transferID a.amount]
          a.transactionID with
      | .error reason => throw (.plain ([.lit "transfer ", .id transferID,
          .lit ": prepare: source mint rejected: "] ++ reason))
      | .ok writes =>
        pure (.ok ([{ sourceTokenID := .sourceToken transferID, amount := a.amount }], writes))
  else do
    match ← selectSourceTokens a.fromWalletID a.amount a.transactionID with
    | .error reason => pure (.error reason)
    | .ok legs => pure (.ok (legs, []))

/-- A forward Transfer's legs, and the writes that mint their Tokens. -/
def planForward (transferID : Id) (a : TransferAccepted) :
    Service (Except Text (List Leg × List StreamWrite)) := do
  match ← planSources transferID a with
  | .error reason => pure (.error reason)
  | .ok (legs, srcMintWrites) => do
    let walletRows ← load .wallet a.toWalletID
    match ← Token.mintWrites a.toWalletID walletRows (planDestinations transferID a.amount)
        a.transactionID with
    | .error reason => throw (.plain ([.lit "transfer ", .id transferID,
        .lit ": prepare: mint rejected: "] ++ reason))
    | .ok writes =>
      pure (.ok (legs.map fun leg => { leg with destTokenID := .destinationToken transferID },
        srcMintWrites ++ writes))

/-- A Reversal's legs: the original Transfer's, turned around. -/
def planReversal (transferID : Id) (a : ReversalAccepted) :
    Service (Except Text (List Leg × List StreamWrite)) := do
  match ← reversalManifest a.transferID with
  | .error reason => throw (.plain ([.lit "transfer ", .id transferID,
      .lit ": prepare: reversal manifest failed after accept: "] ++ reason))
  | .ok legs => pure (.ok (legs, []))

/-- The claim marker of the step that follows `TransferPrepared`. -/
def nextMarker (transferID : Id) (stage : Bool) : TransferEvent :=
  if stage then .stagingTransferStarted transferID else .transferCommittingStarted transferID

/-- The last part of `tryPrepare`: record the plan and claim the next step, in
one write. -/
def landPlan (transferID : Id) (rows : List (Row TransferEvent)) (legs : List Leg)
    (mintWrites : List StreamWrite) : Service Planned := do
  let protoLegs ← generateLegs transferID legs
  let stage ← check (stageRequested (eventsOf rows))
  match ← appendWrites (mintWrites ++ [⟨.transfer, transferID, rows.length,
      [TransferEvent.transferPrepared transferID protoLegs, nextMarker transferID stage]⟩]) with
  | .ok () => pure (.claimed ⟨rows.length + 2, protoLegs, stage⟩)
  | .error .concurrencyConflict =>
    if ← overtaken (mintWrites ++ [⟨.transfer, transferID, rows.length,
        [TransferEvent.transferPrepared transferID protoLegs, nextMarker transferID stage]⟩]) then
      pure .overtaken
    else throw (.plain ([.lit "transfer ", .id transferID, .lit ": prepare: "] ++
      Err.concurrencyConflict.msg ++ [.lit ", yet no stream it planned against has moved"]))
  | .error e => throw e.internalWith

/-- Record what was planned, or fail the Transfer its wallet no longer covers. -/
def finishPlan (transferID : Id) (rows : List (Row TransferEvent)) :
    Except Text (List Leg × List StreamWrite) → Service Planned
  | .error reason => failUnprepared transferID rows.length (.lit "prepare: " :: reason)
  | .ok (legs, mintWrites) => landPlan transferID rows legs mintWrites

/-- `transfer.tryPrepare`. -/
def tryPrepare (transferID : Id) : Service Planned := do
  let rows ← load .transfer transferID
  match eventsOf rows with
  | [] => throw (.plain [.lit "transfer ", .id transferID,
      .lit ": no accepted event to prepare from"])
  | first :: _ =>
    if currentState (eventsOf rows) ≠ .accepted then pure .nothing
    else
      match first with
      | .transferRequestAccepted a => do
        let plan ← planForward transferID a
        finishPlan transferID rows plan
      | .reversalRequestAccepted a => do
        let plan ← planReversal transferID a
        finishPlan transferID rows plan
      | e => throw (.plain [.lit "transfer ", .id transferID, .lit ": stream starts with ",
          .lit e.eventType.fullName, .lit ", want an Accepted event"])

/-- `transfer.prepare`: plan again for as long as the plan is overtaken. -/
def prepare (transferID : Id) : Nat → Service (Option ClaimedStep)
  | 0 => Concurrent.halted
  | fuel + 1 => do
    match ← tryPrepare transferID with
    | .overtaken => do
      contentionWait
      prepare transferID fuel
    | .nothing => pure none
    | .claimed step => pure (some step)

/-! ### Stage, commit, cancel -/

/-- `transfer.stageClaimed`. -/
def stageClaimed (fuel : Nat) (transferID : Id) (claimedSeq : Nat) (legs : List TransferLeg) :
    Service Unit := do
  if ← stillHoldsClaim transferID claimedSeq then
    if ← submitBatch fuel (reservations legs) (fun r =>
        compensate fuel transferID claimedSeq
          (.lit "tigerbeetle rejected staging " :: r.reason)) then
      if ← stillHoldsClaim transferID claimedSeq then
        recordOutcome transferID (.transferStaged transferID) legs fuel
      else pure ()
    else pure ()
  else pure ()

/-- `transfer.stage`. -/
def stage (fuel : Nat) (transferID : Id) : Service Unit := do
  let rows ← load .transfer transferID
  let legs ← check (preparedLegs transferID (eventsOf rows))
  match ← claimForDispatch transferID .prepared (.stagingTransferStarted transferID) fuel with
  | none => pure ()
  | some claimedSeq => stageClaimed fuel transferID claimedSeq legs

/-- `transfer.confirmStaged`. -/
def confirmStaged (fuel : Nat) (transferID : Id) : Service Unit :=
  appendSagaStep fuel transferID (.transferPending transferID)

/-- `transfer.settle`: submit the batch that moves money. `true` when a refusal
was handled and nothing is left to do. -/
def settle (fuel : Nat) (transferID : Id) (claimedSeq : Nat) (batch : List LedgerTransfer) :
    Service Bool := do
  let accepted ← submitBatch fuel batch fun r =>
    if 0 < r.chainsApplied then
      -- part of the money has moved: neither Failed nor Committed is true
      throw (.twirp .internal ([.lit "transfer ", .id transferID,
        .lit ": tigerbeetle rejected commit "] ++ r.reason ++ [.lit " after ",
        .num r.chainsApplied, .lit " chain(s) of ", .num batchMax, .lit
        " legs had posted; partially posted, needs reconciling (go/docs/adr/0008)"]))
    else compensate fuel transferID claimedSeq (.lit "tigerbeetle rejected commit " :: r.reason)
  pure !accepted

/-- `transfer.moveMoney`. `true` when a refusal was handled. -/
def moveMoney (fuel : Nat) (transferID : Id) (claimedSeq : Nat) (legs : List TransferLeg)
    (posting : Bool) : Service Bool :=
  if posting then settle fuel transferID claimedSeq (posts legs)
  else if legs.length ≤ batchMax then settle fuel transferID claimedSeq (movements legs)
  else do
    -- too wide for one chain: reserve every leg first, so that only a lapsed
    -- reservation can refuse a post
    if ← submitBatch fuel (reservations legs) (fun r => compensate fuel transferID claimedSeq
        (.lit "tigerbeetle rejected reserving " :: r.reason)) then
      if ← stillHoldsClaim transferID claimedSeq then
        settle fuel transferID claimedSeq (posts legs)
      else pure true
    else pure true

/-- `transfer.commitClaimed`. -/
def commitClaimed (fuel : Nat) (transferID : Id) (claimedSeq : Nat) (legs : List TransferLeg)
    (posting : Bool) : Service Unit := do
  if ← stillHoldsClaim transferID claimedSeq then
    if ← moveMoney fuel transferID claimedSeq legs posting then pure ()
    else if ← stillHoldsClaim transferID claimedSeq then
      recordOutcome transferID (.transferCommitted transferID (buildDestinations legs)) legs fuel
    else pure ()
  else pure ()

/-- `transfer.commit`. -/
def commit (fuel : Nat) (transferID : Id) : Service Unit := do
  let rows ← load .transfer transferID
  let legs ← check (preparedLegs transferID (eventsOf rows))
  let preClaimState := currentState (eventsOf rows)
  if preClaimState ≠ .prepared ∧ preClaimState ≠ .pending then pure ()
  else
    match ← claimForDispatch transferID preClaimState (.transferCommittingStarted transferID)
        fuel with
    | none => pure ()
    | some claimedSeq =>
      commitClaimed fuel transferID claimedSeq legs (preClaimState == .pending)

/-- `transfer.cancelStaged`. -/
def cancelStaged (fuel : Nat) (transferID : Id) (reason : Text) : Service Unit := do
  let rows ← load .transfer transferID
  let legs ← check (preparedLegs transferID (eventsOf rows))
  let preClaimState := currentState (eventsOf rows)
  if preClaimState ≠ .staged ∧ preClaimState ≠ .pending then pure ()
  else
    match ← claimForDispatch transferID preClaimState
        (.cancellingStagedTransferStarted transferID reason) fuel with
    | none => pure ()
    | some claimedSeq =>
      if ← stillHoldsClaim transferID claimedSeq then
        if ← submitBatch fuel (voids legs) (fun r => throw (.twirp .internal
            ([.lit "transfer ", .id transferID, .lit ": void rejected: "] ++ r.reason))) then
          if ← stillHoldsClaim transferID claimedSeq then
            recordOutcome transferID (.transferCancelled transferID reason) legs fuel
          else pure ()
        else pure ()
      else pure ()

/-- The loop of `cancelPrepared` from Prepared. -/
def cancelUnclaimed (transferID : Id) (reason : Text) : Nat → Service Unit
  | 0 => Concurrent.halted
  | fuel + 1 => do
    match ← awaitUnclaimed transferID .prepared (.preparedTransferCancelled transferID reason)
        fuel with
    | none => pure ()
    | some rows =>
      if ← tryAppend transferID rows.length (.preparedTransferCancelled transferID reason) then
        pure ()
      else cancelUnclaimed transferID reason fuel

/-- `transfer.cancelPrepared`. -/
def cancelPrepared (fuel : Nat) (transferID : Id) (reason : Text) : Service Unit := do
  let rows ← load .transfer transferID
  if rows.isEmpty then throw (.plain [.lit "transfer ", .id transferID, .lit ": not found"])
  else
    match currentState (eventsOf rows) with
    | .accepted => do
      let _ ← tryAppend transferID rows.length (.acceptedTransferCancelled transferID reason)
      pure ()
    | .prepared => cancelUnclaimed transferID reason fuel
    | .committed | .failed | .cancelled => pure ()
    | state => throw (.plain [.lit "transfer ", .id transferID, .lit ": cannot cancel from state ",
        .lit state.string])

/-! ### Resume -/

/-- The step `runSaga` dispatches from Accepted or Prepared. -/
def dispatch (fuel : Nat) (transferID : Id) (rows : List (Row TransferEvent)) : Service Unit :=
  if currentState (eventsOf rows) = .accepted then do
    match ← prepare transferID fuel with
    | none => pure ()
    | some next =>
      if next.stage then stageClaimed fuel transferID next.seq next.legs
      else commitClaimed fuel transferID next.seq next.legs false
  else do
    let requiresStaging ← check (stageRequested (eventsOf rows))
    if requiresStaging then stage fuel transferID else commit fuel transferID

/-- The loop of `runSaga`, over the stream last loaded. -/
def runSagaFrom (transferID : Id) : Nat → List (Row TransferEvent) → Service Unit
  | 0, _ => Concurrent.halted
  | fuel + 1, rows =>
    if rows.isEmpty then throw (.plain [.lit "transfer ", .id transferID, .lit ": no events"])
    else if rejectedRequest (eventsOf rows) then pure ()
    else
      match currentState (eventsOf rows) with
      | .accepted | .prepared => do
        dispatch fuel transferID rows
        let rows' ← load .transfer transferID
        -- a dispatch that changed nothing lost its claim: stop
        if currentState (eventsOf rows') = currentState (eventsOf rows) then pure ()
        else runSagaFrom transferID fuel rows'
      | .staged | .pending | .committed | .failed | .cancelled => pure ()
      | .unknown => throw (.plain [.lit "transfer ", .id transferID,
          .lit ": saga stuck in unrecognized state"])

/-- `transfer.Server.Resume`. -/
def resume (fuel : Nat) (transferID : Id) : Service Unit := do
  let rows ← load .transfer transferID
  runSagaFrom transferID fuel rows

end MoneyFlow.Transfer
