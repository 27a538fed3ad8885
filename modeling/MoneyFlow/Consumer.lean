import Mathlib

/-!
# MoneyFlow.Consumer

The orchestrator's consumer (`saga.Consumer`), goroutine by goroutine.

`Run` fetches, a worker per partition handles, a committer commits, and they
share channels, a failure that is set once and a context that may be cancelled.
A state is where each goroutine stands between two of its visible actions, and
`step` is one such action. What is not the consumer's to decide is a choice of
the move: which goroutine is next, what the reader returns from `Fetch` and
`Commit`, what the handler returns, which ready branch a `select` takes, when the
context is cancelled.

* A worker and its backlog are created together and are one `Lane`.
* `Fetch` may fail at any time, so the context it is given plays no part.
* `fail` sets the failure and closes `failed` in one action, once.
* The last three fields of the state record what has happened: the messages
  fetched, those `Handle` was called with, and those it returned nil for.
-/

namespace MoneyFlow.Consumer

/-- `saga.Message`. -/
structure Message where
  topic : String
  partition : Int
  offset : Int
  key : List UInt8
  value : List UInt8
  deriving DecidableEq, Repr

/-- How many handled messages may wait for the committer. -/
def commitBacklog : Nat := 1024

/-- How many fetched messages may wait on one partition. -/
def partitionBacklog : Nat := 64

/-- The options of a `Consumer`, and which messages `ParseTrigger` accepts. -/
structure Config where
  attempts : Nat
  parses : Message → Bool

/-- What the consumer stopped on. -/
inductive Failure
  | halt (message : Message) (attempts : Nat)
  | commit (batch : List Message)
  deriving DecidableEq, Repr

/-- What `Run` returns. -/
inductive Outcome
  | failure (f : Failure)
  | shutdown
  | fetch
  deriving DecidableEq, Repr

/-- Where a worker (`consumePartition`, and `process` within it) stands. -/
inductive Worker
  /-- At the head of the loop over the backlog. -/
  | ranging
  /-- About to look at `failed`. -/
  | taken (m : Message)
  /-- About to look at the context. -/
  | unfailed (m : Message)
  /-- `Handle` is running, for the `attempt`-th time. -/
  | handling (m : Message) (attempt : Nat)
  /-- Waiting before another attempt. -/
  | sleeping (m : Message) (attempt : Nat)
  /-- `process` has returned an error. -/
  | errored (m : Message) (attempts : Nat)
  /-- About to call `fail`. -/
  | halting (m : Message) (attempts : Nat)
  /-- About to hand over what it has handled. -/
  | handing (m : Message)
  /-- The committer's backlog was full. -/
  | blocked (m : Message)
  | stopped
  deriving DecidableEq, Repr

/-- One partition's backlog and worker. -/
structure Lane where
  partition : Int
  backlog : List Message
  closed : Bool
  worker : Worker
  deriving DecidableEq, Repr

/-- Where the committer (`commitHandled`) stands. -/
inductive Committer
  | ranging
  | draining
  /-- `Commit` is running. -/
  | committing (batch : List Message)
  /-- It has returned an error. -/
  | refused (batch : List Message)
  | flushing
  /-- The last `Commit` is running. -/
  | lastCommit (batch : List Message)
  | stopped
  deriving DecidableEq, Repr

/-- Where `Run` stands. -/
inductive Main
  | fetching
  /-- At the select that puts a message on its backlog. -/
  | placing (m : Message)
  /-- Closing the backlogs. -/
  | closing
  /-- `wg.Wait()`. -/
  | joining
  /-- `<-committerDone`. -/
  | awaiting
  | returned (o : Outcome)
  deriving DecidableEq, Repr

structure State where
  ctxDone : Bool
  failure : Option Failure
  main : Main
  lanes : List Lane
  handled : List Message
  handledClosed : Bool
  committer : Committer
  pending : List Message
  fetched : List Message
  begun : List Message
  succeeded : List Message
  deriving DecidableEq, Repr

def State.init : State where
  ctxDone := false
  failure := none
  main := .fetching
  lanes := []
  handled := []
  handledClosed := false
  committer := .ranging
  pending := []
  fetched := []
  begun := []
  succeeded := []

/-- `fail`: only the first failure counts. -/
def State.fail (s : State) (f : Failure) : State := { s with failure := s.failure.or (some f) }

/-- `handled <- msg`, if there is room. -/
def State.hand (s : State) (m : Message) : Option State :=
  if s.handled.length < commitBacklog then some { s with handled := s.handled ++ [m] } else none

/-! ### The worker -/

/-- What a worker does next, with what is not its own choice. -/
inductive WorkerMove
  | receive
  | check
  /-- `Handle` returns, nil or an error. -/
  | returns (ok : Bool)
  /-- The wait before a retry ends, by the timer or because the context is done. -/
  | wakes (timer : Bool)
  | fail
  | hand
  /-- Take the branch on `failed` rather than wait for room. -/
  | giveUp
  deriving DecidableEq, Repr

/-- `process`, up to the first call of `Handle`. -/
def beginProcess (cfg : Config) (s : State) (m : Message) : State × Worker :=
  if cfg.parses m = true ∧ 0 < cfg.attempts then
    ({ s with begun := s.begun ++ [m] }, .handling m 1)
  else (s, .errored m 0)

/-- One action of a worker, on its own lane and the shared state. -/
def laneStep (cfg : Config) (s : State) (l : Lane) : WorkerMove → Option (State × Lane)
  | .receive =>
    match l.worker, l.backlog with
    | .ranging, m :: rest => some (s, { l with backlog := rest, worker := .taken m })
    | .ranging, [] => if l.closed then some (s, { l with worker := .stopped }) else none
    | _, _ => none
  | .check =>
    match l.worker with
    | .taken m =>
      some (s, { l with worker := if s.failure.isSome then .stopped else .unfailed m })
    | .unfailed m =>
      if s.ctxDone then some (s, { l with worker := .stopped })
      else some ((beginProcess cfg s m).1, { l with worker := (beginProcess cfg s m).2 })
    | .errored m n => some (s, { l with worker := if s.ctxDone then .stopped else .halting m n })
    | _ => none
  | .returns ok =>
    match l.worker with
    | .handling m n =>
      if ok then some ({ s with succeeded := s.succeeded ++ [m] }, { l with worker := .handing m })
      else if s.ctxDone then some (s, { l with worker := .errored m n })
      else if n < cfg.attempts then some (s, { l with worker := .sleeping m n })
      else some (s, { l with worker := .errored m cfg.attempts })
    | _ => none
  | .wakes timer =>
    match l.worker with
    | .sleeping m n =>
      if timer then some (s, { l with worker := .handling m (n + 1) })
      else if s.ctxDone then some (s, { l with worker := .errored m n })
      else none
    | _ => none
  | .fail =>
    match l.worker with
    | .halting m n => some (s.fail (.halt m n), { l with worker := .stopped })
    | _ => none
  | .hand =>
    match l.worker with
    | .handing m =>
      match s.hand m with
      | some s' => some (s', { l with worker := .ranging })
      | none => some (s, { l with worker := .blocked m })
    | .blocked m =>
      match s.hand m with
      | some s' => some (s', { l with worker := .ranging })
      | none => none
    | _ => none
  | .giveUp =>
    match l.worker with
    | .blocked _ => if s.failure.isSome then some (s, { l with worker := .stopped }) else none
    | _ => none

/-! ### The committer -/

inductive CommitterMove
  | receive
  /-- Nothing more is waiting: commit what is pending, as this batch. -/
  | commit (batch : List Message)
  /-- `Commit` returns, nil or an error. -/
  | returns (ok : Bool)
  | check
  deriving DecidableEq, Repr

/-- `take`: one high-water mark per partition. -/
def take (pending : List Message) (m : Message) : List Message :=
  match pending with
  | [] => [m]
  | prev :: rest =>
    if prev.partition = m.partition then (if m.offset > prev.offset then m else prev) :: rest
    else prev :: take rest m

/-- One action of the committer. -/
def committerStep (s : State) : CommitterMove → Option State
  | .receive =>
    match s.committer, s.handled with
    | .ranging, m :: rest =>
      some { s with handled := rest, pending := take s.pending m, committer := .draining }
    | .ranging, [] => if s.handledClosed then some { s with committer := .flushing } else none
    | .draining, m :: rest => some { s with handled := rest, pending := take s.pending m }
    | .flushing, m :: rest => some { s with handled := rest, pending := take s.pending m }
    | _, _ => none
  | .commit batch =>
    match s.committer, s.handled with
    | .draining, [] =>
      if s.pending = [] then some { s with committer := .ranging }
      else if batch.isPerm s.pending then some { s with committer := .committing batch }
      else none
    | .flushing, [] =>
      if s.handledClosed then
        if s.pending = [] then some { s with committer := .stopped }
        else if batch.isPerm s.pending then some { s with committer := .lastCommit batch }
        else none
      else none
    | _, _ => none
  | .returns ok =>
    match s.committer with
    | .committing batch =>
      if ok then some { s with pending := [], committer := .ranging }
      else some { s with committer := .refused batch }
    | .lastCommit _ =>
      if ok then some { s with pending := [], committer := .stopped }
      else some { s with committer := .stopped }
    | _ => none
  | .check =>
    match s.committer with
    | .refused batch =>
      if s.ctxDone then some { s with committer := .flushing }
      else some { s.fail (.commit batch) with committer := .stopped }
    | _ => none

/-! ### Run -/

inductive Move
  /-- The context is cancelled. -/
  | shutdown
  | fetch (m : Message)
  | fetchError
  | place
  /-- Take the branch on `failed` or on the context rather than place. -/
  | drop
  | close (i : Nat)
  | proceed
  | worker (i : Nat) (w : WorkerMove)
  | committer (c : CommitterMove)
  deriving DecidableEq, Repr

/-- The lane of a partition, created at its first message. -/
def openLane (lanes : List Lane) (p : Int) : List Lane :=
  if lanes.any (·.partition = p) then lanes else lanes ++ [⟨p, [], false, .ranging⟩]

/-- `backlog <- msg`. -/
def Lane.place (m : Message) (l : Lane) : Lane :=
  if l.partition = m.partition then { l with backlog := l.backlog ++ [m] } else l

/-- The backlog the message goes to has room. -/
def Lane.room (m : Message) (l : Lane) : Bool :=
  l.partition = m.partition && decide (l.backlog.length < partitionBacklog)

def State.outcome (s : State) : Outcome :=
  match s.failure with
  | some f => .failure f
  | none => if s.ctxDone then .shutdown else .fetch

/-- One action of the consumer. -/
def step (cfg : Config) (s : State) : Move → Option State
  | .shutdown => some { s with ctxDone := true }
  | .fetch m =>
    if s.main = .fetching then
      some { s with
        fetched := s.fetched ++ [m]
        lanes := openLane s.lanes m.partition
        main := .placing m }
    else none
  | .fetchError => if s.main = .fetching then some { s with main := .closing } else none
  | .place =>
    match s.main with
    | .placing m =>
      if s.lanes.any (Lane.room m) then
        some { s with lanes := s.lanes.map (Lane.place m), main := .fetching }
      else none
    | _ => none
  | .drop =>
    match s.main with
    | .placing _ =>
      if s.failure.isSome ∨ s.ctxDone then some { s with main := .fetching } else none
    | _ => none
  | .close i =>
    if s.main = .closing then
      some { s with lanes := s.lanes.modify i fun l => { l with closed := true } }
    else none
  | .proceed =>
    match s.main with
    | .closing => if s.lanes.all (·.closed) then some { s with main := .joining } else none
    | .joining =>
      if s.lanes.all (·.worker = .stopped) then
        some { s with handledClosed := true, main := .awaiting }
      else none
    | .awaiting =>
      if s.committer = .stopped then some { s with main := .returned s.outcome } else none
    | _ => none
  | .worker i w =>
    match s.lanes[i]? with
    | some l =>
      match laneStep cfg s l w with
      | some (s', l') => some { s' with lanes := s.lanes.set i l' }
      | none => none
    | none => none
  | .committer c => committerStep s c

/-- Any number of actions. -/
def run (cfg : Config) (s : State) : List Move → Option State
  | [] => some s
  | m :: moves => (step cfg s m).bind fun s' => run cfg s' moves

/-- Some run of the consumer ends in this state. -/
def Reachable (cfg : Config) (s : State) : Prop := ∃ moves, run cfg .init moves = some s

end MoneyFlow.Consumer
