import MoneyFlow.Transaction.Dag
import MoneyFlow.World

/-!
# MoneyFlow.Transaction.Fold

What a Transaction's stream says: the pure half of
`go/internal/transaction/saga.go`. Every decision of the saga is one of these
functions of the events loaded.
-/

namespace MoneyFlow.Transaction

/-! ### The Transaction's own state -/

/-- `transaction.transactionState`. -/
inductive State
  | unknown
  | initialized
  | started
  | rollbackStarted
  | completed
  | rolledBack
  | rollbackFailed
  | rejected
  deriving DecidableEq, Repr

/-- The top-level state an event moves a Transaction to, if it is a top-level
transition. -/
def stateOf : TransactionEvent → Option State
  | .transactionInitialized _ _ => some .initialized
  | .transactionRejected _ _ => some .rejected
  | .transactionStarted _ => some .started
  | .transactionRollbackStarted _ _ => some .rollbackStarted
  | .transactionCompleted _ => some .completed
  | .transactionRolledBack _ _ => some .rolledBack
  | .transactionRollbackFailed _ _ => some .rollbackFailed
  | _ => none

/-- `transaction.topLevelState`. -/
def topLevelState (events : List TransactionEvent) : State :=
  events.foldl (fun state e => (stateOf e).getD state) .unknown

/-- `transaction.rollbackStartedReason`. -/
def rollbackStartedReason : List TransactionEvent → Text
  | [] => []
  | .transactionRollbackStarted _ reason :: _ => reason
  | _ :: rest => rollbackStartedReason rest

/-! ### The children's states -/

/-- `transaction.childState`. -/
inductive ChildState
  | untouched
  | requested
  | completed
  | failed
  | rollbackRequested
  | rolledBack
  | rollbackFailed
  deriving DecidableEq, Repr

/-- The number of a child state, as `%d` prints it. -/
def ChildState.toNat : ChildState → Nat
  | untouched => 0
  | requested => 1
  | completed => 2
  | failed => 3
  | rollbackRequested => 4
  | rolledBack => 5
  | rollbackFailed => 6

/-- The child an event records something about, and the state it moves that
child to. -/
def childOf : TransactionEvent → Option (Id × ChildState)
  | .transferRequestedWithinTransaction _ c => some (c, .requested)
  | .transferCompletedWithinTransaction _ c => some (c, .completed)
  | .transferFailedWithinTransaction _ c _ => some (c, .failed)
  | .transferReversalRequestedWithinTransaction _ c _ => some (c, .rollbackRequested)
  | .transferRolledBackWithinTransaction _ c _ _ => some (c, .rolledBack)
  | .transferRollbackFailedWithinTransaction _ c _ => some (c, .rollbackFailed)
  | _ => none

/-- The children touched so far, each with its state. -/
abbrev Children := List (Id × ChildState)

namespace Children

/-- `states[id] = st`. -/
def set : Children → Id → ChildState → Children
  | [], id, st => [(id, st)]
  | (k, v) :: rest, id, st => if k = id then (k, st) :: rest else (k, v) :: set rest id st

/-- `states[id]`. -/
def state (children : Children) (id : Id) : ChildState := (children.lookup id).getD .untouched

/-- `transaction.touchedSet`. -/
def touched (children : Children) (id : Id) : Bool := (children.lookup id).isSome

/-- `transaction.completedSet`. -/
def completed (children : Children) (id : Id) : Bool := children.state id == .completed

end Children

/-- `transaction.foldChildStates`: last event wins, per child. -/
def foldChildStates (events : List TransactionEvent) : Children :=
  events.foldl (fun children e =>
    match childOf e with
    | some (id, st) => children.set id st
    | none => children) []

/-- `transaction.firstFailed`. While Started no more than one child is failed,
so that the source ranges the map in any order makes no difference. -/
def firstFailed (children : Children) : Option Id :=
  (children.find? fun c => c.2 == .failed).map Prod.fst

/-- `transaction.failureReason`. -/
def failureReason (transferID : Id) : List TransactionEvent → Text
  | [] => []
  | .transferFailedWithinTransaction _ c reason :: rest =>
    if c = transferID then reason else failureReason transferID rest
  | _ :: rest => failureReason transferID rest

/-- `transaction.allTerminal`. -/
def allTerminal (transfers : GoMap TransferSpec) (children : Children) : Bool :=
  transfers.keys.all fun id => children.state id == .completed

/-- `transaction.childEventTransferID`: the empty id for a top-level event. -/
def childEventTransferID (e : TransactionEvent) : Id :=
  match childOf e with
  | some (id, _) => id
  | none => Id.empty

/-- `transaction.requestedReversalID`: the empty id when none is recorded. -/
def requestedReversalID (transferID : Id) : List TransactionEvent → Id
  | [] => Id.empty
  | .transferReversalRequestedWithinTransaction _ c reversalID :: rest =>
    if c = transferID then reversalID else requestedReversalID transferID rest
  | _ :: rest => requestedReversalID transferID rest

/-! ### Decisions -/

/-- The name of the event's message. -/
def messageName : TransactionEventType → String
  | .transactionInitialized => "TransactionInitialized"
  | .transactionRejected => "TransactionRejected"
  | .transactionStarted => "TransactionStarted"
  | .transferRequestedWithinTransaction => "TransferRequestedWithinTransaction"
  | .transferCompletedWithinTransaction => "TransferCompletedWithinTransaction"
  | .transferFailedWithinTransaction => "TransferFailedWithinTransaction"
  | .transferReversalRequestedWithinTransaction => "TransferReversalRequestedWithinTransaction"
  | .transferRolledBackWithinTransaction => "TransferRolledBackWithinTransaction"
  | .transferRollbackFailedWithinTransaction => "TransferRollbackFailedWithinTransaction"
  | .transactionRollbackStarted => "TransactionRollbackStarted"
  | .transactionCompleted => "TransactionCompleted"
  | .transactionRolledBack => "TransactionRolledBack"
  | .transactionRollbackFailed => "TransactionRollbackFailed"

/-- `eventstore.EventType`. -/
def eventName (t : TransactionEventType) : String := "transaction.v1." ++ messageName t

/-- The event's Go type, as `%T` prints it. -/
def goType (t : TransactionEventType) : String := "*v1." ++ messageName t

/-- `transaction.decodeSpec`. -/
def decodeSpec : List TransactionEvent → Except Err Spec
  | .transactionInitialized _ spec :: _ => .ok spec
  | e :: _ => .error (.plain [.lit "transaction: stream starts with ", .lit (goType e.eventType),
      .lit ", want TransactionInitialized"])
  | [] => .error (.plain [.lit "transaction: empty stream"])

/-- `transaction.rollbackPlan`. -/
structure RollbackPlan where
  candidates : List Id
  inFlight : Bool
  anyFailed : Bool
  deriving DecidableEq, Repr

/-- A child that needs nothing more from a rollback: rolled back, or failed and
so moved nothing. -/
def Children.resolved (children : Children) (id : Id) : Bool :=
  children.state id == .rolledBack || children.state id == .failed

/-- `transaction.planRollback`. -/
def planRollback (order : List Id) (deps : GoMap (List Id)) (children : Children) :
    RollbackPlan where
  candidates :=
    (readyToRollback order deps children.touched children.resolved
      fun id => children.state id == .rollbackRequested).filter
        fun id => children.state id != .rollbackFailed
  inFlight := children.any fun c => c.2 == .rollbackRequested
  anyFailed := children.any fun c => c.2 == .rollbackFailed

/-- `transaction.consequence`. -/
def consequence (events : List TransactionEvent) (transactionID : Id) :
    Except Err (Option TransactionEvent) :=
  match topLevelState events with
  | .started =>
    match decodeSpec events with
    | .error e => .error e
    | .ok spec =>
      match firstFailed (foldChildStates events) with
      | some failedID => .ok (some (.transactionRollbackStarted transactionID
          ([.lit "child ", .id failedID, .lit " failed: "] ++ failureReason failedID events)))
      | none =>
        if allTerminal spec.transfers (foldChildStates events) then
          .ok (some (.transactionCompleted transactionID))
        else .ok none
  | .rollbackStarted =>
    match decodeSpec events with
    | .error e => .error e
    | .ok spec =>
      let plan := planRollback spec.transfers.keys spec.transferDependency (foldChildStates events)
      if !plan.candidates.isEmpty || plan.inFlight then .ok none
      else if plan.anyFailed then
        .ok (some (.transactionRollbackFailed transactionID
          (if (rollbackStartedReason events).isEmpty then
            [.lit ("one or more children could not be rolled back; " ++
              "see TransferRollbackFailedWithinTransaction")]
          else rollbackStartedReason events)))
      else .ok (some (.transactionRolledBack transactionID (rollbackStartedReason events)))
  | _ => .ok none

/-- The steps `events` decide one after another, each recorded before the next
is decided. A conclusion decides nothing further, so three rounds are enough
for any stream (`consequences_stable`). -/
def consequences (transactionID : Id) : Nat → List TransactionEvent →
    Except Err (List TransactionEvent)
  | 0, _ => .ok []
  | rounds + 1, events =>
    match consequence events transactionID with
    | .error e => .error e
    | .ok none => .ok []
    | .ok (some next) =>
      match consequences transactionID rounds (events ++ [next]) with
      | .error e => .error e
      | .ok rest => .ok (next :: rest)

/-- `transaction.stillDecidable`. -/
def stillDecidable (events : List TransactionEvent) (transactionID : Id)
    (event : TransactionEvent) : Except Err Bool :=
  match event with
  | .transferCompletedWithinTransaction _ c | .transferFailedWithinTransaction _ c _ =>
    .ok (topLevelState events == .started && (foldChildStates events).state c == .requested)
  | .transactionRollbackStarted _ _ =>
    .ok (topLevelState events == .initialized || topLevelState events == .started)
  | .transferReversalRequestedWithinTransaction _ _ _
  | .transferRolledBackWithinTransaction _ _ _ _
  | .transferRollbackFailedWithinTransaction _ _ _ =>
    .ok (topLevelState events == .rollbackStarted)
  | .transactionCompleted _ | .transactionRolledBack _ _ | .transactionRollbackFailed _ _ =>
    match consequence events transactionID with
    | .error e => .error e
    | .ok next => .ok (next.map TransactionEvent.eventType == some event.eventType)
  | e => .error (.plain [.lit "transaction ", .id transactionID, .lit ": ",
      .lit (eventName e.eventType), .lit " is not a step appendSagaStep records"])

/-- An event of the same type about the same child is on the stream. -/
def alreadyRecorded (events : List TransactionEvent) (event : TransactionEvent) : Bool :=
  events.any fun e =>
    e.eventType == event.eventType && childEventTransferID e == childEventTransferID event

/-- The intents of a slice, led by `TransactionStarted` when it starts the
Transaction. -/
def intentsFor (transactionID : Id) (starting : Bool) (slice : List Id) :
    List TransactionEvent :=
  (if starting then [.transactionStarted transactionID] else []) ++
    slice.map (.transferRequestedWithinTransaction transactionID)

/-! ### Checks other packages make -/

/-- `transaction.IsOpen`: the Transaction may still need to reverse a Token it
tagged. One that does not exist counts as open, and so does RollbackFailed. -/
def isOpen (transactionID : Id) : Service Bool := do
  let rows ← Service.load .transaction transactionID
  match topLevelState (eventsOf rows) with
  | .completed | .rolledBack | .rejected => pure false
  | _ => pure true

/-- `transaction.Exists`. -/
def transactionExists (transactionID : Id) : Service Bool := do
  let rows ← Service.load .transaction transactionID
  pure !rows.isEmpty

end MoneyFlow.Transaction
