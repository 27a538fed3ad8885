import MoneyFlow.Events
import MoneyFlow.Ledger

/-!
# MoneyFlow.Transfer.Fold

What a Transfer's (or a Reversal's) stream says, and the ledger requests its
legs turn into: the pure half of `go/internal/transfer/saga.go`.
-/

namespace MoneyFlow.Transfer

/-! ### State -/

/-- `transfer.transferState`. -/
inductive State
  | unknown
  | accepted
  | prepared
  | staged
  | pending
  | committed
  | failed
  | cancelled
  deriving DecidableEq, Repr

/-- `transferState.String`. -/
def State.string : State → String
  | unknown => "unknown"
  | accepted => "accepted"
  | prepared => "prepared"
  | staged => "staged"
  | pending => "pending"
  | committed => "committed"
  | failed => "failed"
  | cancelled => "cancelled"

/-- `transfer.stateByEventType`: the state an event type produces, if it
advances the saga. -/
def stateByEventType : TransferEventType → Option State
  | .transferRequestAccepted | .reversalRequestAccepted => some .accepted
  | .transferPrepared => some .prepared
  | .transferStaged => some .staged
  | .transferPending => some .pending
  | .transferCommitted => some .committed
  | .transferFailed => some .failed
  | .transferCancelled | .acceptedTransferCancelled | .preparedTransferCancelled => some .cancelled
  | _ => none

/-- `transfer.transitions`: the outcomes that may be recorded from a state. -/
def transitions : State → List TransferEventType
  | .accepted => [.acceptedTransferCancelled, .transferFailed]
  | .prepared => [.transferStaged, .transferCommitted, .transferFailed, .preparedTransferCancelled]
  | .staged => [.transferPending, .transferCancelled]
  | .pending => [.transferCommitted, .transferFailed, .transferCancelled]
  | _ => []

/-- The state after one more event. -/
def advance (state : State) (e : TransferEvent) : State :=
  (stateByEventType e.eventType).getD state

/-- `transfer.currentState`. -/
def currentState (events : List TransferEvent) : State := events.foldl advance .unknown

/-- `transfer.OutcomeKind`. -/
inductive OutcomeKind
  | notFound
  | rejected
  | inFlight
  | staged
  | pending
  | committed
  | failed
  | cancelled
  deriving DecidableEq, Repr

/-- `OutcomeKind.String`. -/
def OutcomeKind.string : OutcomeKind → String
  | notFound => "not_found"
  | rejected => "rejected"
  | inFlight => "in_flight"
  | staged => "staged"
  | pending => "pending"
  | committed => "committed"
  | failed => "failed"
  | cancelled => "cancelled"

/-- `transfer.rejectedRequest`. -/
def rejectedRequest : List TransferEvent → Bool
  | .transferRequestRejected _ _ :: _ => true
  | .reversalRequestRejected _ _ _ :: _ => true
  | _ => false

/-- `transfer.Outcome`, over a loaded stream. -/
def outcome (events : List TransferEvent) : OutcomeKind :=
  if events.isEmpty then .notFound
  else if rejectedRequest events then .rejected
  else
    match currentState events with
    | .accepted | .prepared => .inFlight
    | .staged => .staged
    | .pending => .pending
    | .committed => .committed
    | .failed => .failed
    | .cancelled => .cancelled
    | .unknown => .notFound

/-- `transfer.stageRequested`. -/
def stageRequested : List TransferEvent → Except Err Bool
  | .transferRequestAccepted a :: _ => .ok a.stage
  | .reversalRequestAccepted a :: _ => .ok a.stage
  | e :: _ => .error (.plain [.lit "transfer: stream starts with ", .lit e.eventType.fullName,
      .lit ", want an Accepted event"])
  | [] => .error (.plain [.lit "transfer: empty stream"])

/-- `transfer.preparedLegs`. -/
def preparedLegs (transferID : Id) : List TransferEvent → Except Err (List TransferLeg)
  | [] => .error (.plain [.lit "transfer ", .id transferID,
      .lit ": no TransferPrepared event found"])
  | .transferPrepared _ legs :: _ => .ok legs
  | _ :: rest => preparedLegs transferID rest

/-- The amount and Token of the destinations so far, one more leg added. -/
def addDestination (leg : TransferLeg) : List TransferDestination → List TransferDestination
  | [] => [⟨leg.destTokenID, leg.amount⟩]
  | d :: rest =>
    if d.toTokenID = leg.destTokenID then
      { d with amount := { d.amount with
          minorUnits := d.amount.minorUnits + leg.amount.minorUnits } } :: rest
    else d :: addDestination leg rest

/-- `transfer.buildDestinations`: the amount each destination Token receives, in
the currency of the last leg. -/
def buildDestinations (legs : List TransferLeg) : List TransferDestination :=
  let currency := (legs.getLast?.map fun leg => leg.amount.currency).getD ""
  (legs.foldl (fun ds leg => addDestination leg ds) []).map fun d =>
    { d with amount := { d.amount with currency } }

/-- `transfer.legTokens`. -/
def legTokens (legs : List TransferLeg) : List Id :=
  legs.flatMap fun leg => [leg.sourceTokenID, leg.destTokenID]

/-- `transfer.latestOutcome`: the type of the last event that advances the
fold. -/
def latestOutcome (events : List TransferEvent) : Option TransferEventType :=
  (events.reverse.find? fun e => (stateByEventType e.eventType).isSome).map
    TransferEvent.eventType

/-! ### Claims -/

/-- `transfer.isClaimMarkerType`. -/
def isClaimMarkerType : TransferEventType → Bool
  | .stagingTransferStarted | .transferCommittingStarted | .cancellingStagedTransferStarted => true
  | _ => false

/-- `transfer.liveMarker`, over the stream read from its end. -/
def liveMarkerFromEnd : List (Row TransferEvent) → Option (Row TransferEvent)
  | [] => none
  | row :: rest =>
    if isClaimMarkerType row.event.eventType then some row
    else if (stateByEventType row.event.eventType).isSome then none
    else liveMarkerFromEnd rest

/-- `transfer.liveMarker`: the last claim marker, unless the saga has advanced
since. -/
def liveMarker (rows : List (Row TransferEvent)) : Option (Row TransferEvent) :=
  liveMarkerFromEnd rows.reverse

/-! ### Ledger requests -/

/-- `transfer.stagingTimeoutSeconds`. -/
def stagingTimeoutSeconds : Nat := 10 * 24 * 60 * 60

/-- The reservation of one leg. -/
def reservation (leg : TransferLeg) : LedgerTransfer where
  id := leg.ledgerTransferID
  debitAccountID := leg.sourceTokenID
  creditAccountID := leg.destTokenID
  minorUnits := leg.amount.minorUnits
  currency := leg.amount.currency
  kind := .pending
  timeout := stagingTimeoutSeconds

/-- `transfer.reservations`. -/
def reservations (legs : List TransferLeg) : List LedgerTransfer := legs.map reservation

/-- The posting or the release of one leg's reservation. -/
def settlement (kind : TransferKind) (derive : Id → Id) (leg : TransferLeg) : LedgerTransfer where
  id := derive leg.ledgerTransferID
  debitAccountID := leg.sourceTokenID
  creditAccountID := leg.destTokenID
  minorUnits := leg.amount.minorUnits
  currency := leg.amount.currency
  kind := kind
  pendingID := leg.ledgerTransferID

/-- `settlements(legs, TransferKindPostPending, ":post")`. -/
def posts (legs : List TransferLeg) : List LedgerTransfer :=
  legs.map (settlement .postPending .post)

/-- `settlements(legs, TransferKindVoidPending, ":void")`. -/
def voids (legs : List TransferLeg) : List LedgerTransfer :=
  legs.map (settlement .voidPending .void)

/-- The immediate movement of one leg. -/
def movement (leg : TransferLeg) : LedgerTransfer where
  id := leg.ledgerTransferID
  debitAccountID := leg.sourceTokenID
  creditAccountID := leg.destTokenID
  minorUnits := leg.amount.minorUnits
  currency := leg.amount.currency
  kind := .regular

/-- The batch `moveMoney` submits for a Transfer that fits one chain. -/
def movements (legs : List TransferLeg) : List LedgerTransfer := legs.map movement

/-- Link a chain: every entry but the last. -/
def link : List LedgerTransfer → List LedgerTransfer
  | [] => []
  | [t] => [{ t with linked := false }]
  | t :: rest => { t with linked := true } :: link rest

/-- Cut a batch into at most `n` chains. -/
def cut : Nat → List LedgerTransfer → List (List LedgerTransfer)
  | 0, _ => []
  | _ + 1, [] => []
  | n + 1, batch => link (batch.take batchMax) :: cut n (batch.drop batchMax)

/-- `transfer.chains`: consecutive linked chains of at most `batchMax` entries. -/
def chains (batch : List LedgerTransfer) : List (List LedgerTransfer) := cut batch.length batch

/-- `transfer.ledgerRefusal`: the ledger refusing one chain of a batch. -/
structure LedgerRefusal where
  reason : Text
  chainsApplied : Nat
  deriving DecidableEq, Repr

end MoneyFlow.Transfer
