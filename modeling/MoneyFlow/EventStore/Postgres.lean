import MoneyFlow.EventStore

/-!
# MoneyFlow.EventStore.Postgres

The two event stores of `go/internal/eventstore`, side by side.

`MemoryStore` keeps a list per stream and compares its length with the position
the writer expects. `PostgresStore` keeps one table and compares nothing: it
computes the sequence of each row from the position the writer expects, and the
table's `UNIQUE (aggregate_type, aggregate_id, sequence)` refuses a row whose
sequence is taken. A batch is inserted in one transaction, so what a refused row
leaves behind is the table as it was.

Both are modelled with the one step that can fail on an event itself,
`proto.Marshal`, which is a parameter. Ids are taken to be canonical UUIDs, which
the cast `$2::uuid` leaves as they are. `global_seq` is left out: nothing here
reads it.
-/

namespace MoneyFlow

/-- `proto.Marshal`: what it fails with on an event, if it does. -/
abbrev Marshal := (a : Aggregate) → a.Event → Option Text

/-- The error of the first event that does not marshal. -/
def marshalError (marshal : Marshal) (a : Aggregate) : List a.Event → Option Err
  | [] => none
  | e :: rest =>
    match marshal a e with
    | some m => some (.plain (.lit "eventstore: marshal " :: m))
    | none => marshalError marshal a rest

/-! ### MemoryStore -/

namespace MemoryStore

/-- The first loop of `AppendAtomic`: each write's position is checked, then its
events are marshalled, write by write. -/
def stageError (marshal : Marshal) (st : Store) : List StreamWrite → Option Err
  | [] => none
  | w :: rest =>
    if w.expected st = false then some .concurrencyConflict
    else
      match marshalError marshal w.aggregateType w.events with
      | some e => some e
      | none => stageError marshal st rest

/-- `MemoryStore.AppendAtomic`. -/
def appendAtomic (marshal : Marshal) (now : Nat) (st : Store) (writes : List StreamWrite) :
    Except Err Store :=
  match validateWrites (liveWrites writes) with
  | .error e => .error e
  | .ok () =>
    match stageError marshal st (liveWrites writes) with
    | some e => .error e
    | none => .ok ((liveWrites writes).foldl (fun st w => w.land now st) st)

end MemoryStore

/-! ### PostgresStore -/

/-- A row of the table `events`. -/
structure EventRow where
  aggregateType : Aggregate
  aggregateID : Id
  sequence : Nat
  event : aggregateType.Event
  occurredAt : Nat

namespace EventRow

/-- What the table's UNIQUE constraint is over. -/
def key (r : EventRow) : (Aggregate × Id) × Nat := ((r.aggregateType, r.aggregateID), r.sequence)

/-- The row as an event of this stream, if it is one. -/
def rowFor (a : Aggregate) (id : Id) (r : EventRow) : Option (Row a.Event) :=
  if h : r.aggregateType = a then
    if r.aggregateID = id then some ⟨r.sequence, h ▸ r.event, r.occurredAt⟩ else none
  else none

end EventRow

/-- The table `events`, in the order its rows were inserted. -/
abbrev Table := List EventRow

namespace PostgresStore

/-- `INSERT INTO events`: refused when the row's key is taken. -/
def insert (t : Table) (r : EventRow) : Option Table :=
  if (t.map EventRow.key).contains r.key then none else some (t ++ [r])

/-- A batch of inserts, up to the first one refused. -/
def insertAll (t : Table) : List EventRow → Option Table
  | [] => some t
  | r :: rest =>
    match insert t r with
    | none => none
    | some t' => insertAll t' rest

/-- The rows one write is inserted as. -/
def rowsOf (now : Nat) (w : StreamWrite) : List EventRow :=
  (rowsFrom now w.expectedSeq w.events).map fun r =>
    ⟨w.aggregateType, w.aggregateID, r.sequence, r.event, r.occurredAt⟩

/-- `PostgresStore.AppendAtomic`: everything is marshalled before the transaction
opens, and a refused row rolls it back. -/
def appendAtomic (marshal : Marshal) (now : Nat) (t : Table) (writes : List StreamWrite) :
    Except Err Table :=
  match validateWrites (liveWrites writes) with
  | .error e => .error e
  | .ok () =>
    match (liveWrites writes).findSome? fun w => marshalError marshal w.aggregateType w.events with
    | some e => .error e
    | none =>
      match insertAll t ((liveWrites writes).flatMap (rowsOf now)) with
      | none => .error .concurrencyConflict
      | some t' => .ok t'

/-- A stream's rows, in the order of the table. -/
def stream (t : Table) (a : Aggregate) (id : Id) : List (Row a.Event) :=
  t.filterMap (EventRow.rowFor a id)

/-- `PostgresStore.Load`: `ORDER BY sequence ASC`. -/
def load (t : Table) : Store := fun a id =>
  (stream t a id).mergeSort fun r r' => r.sequence ≤ r'.sequence

end PostgresStore

/-! ### Calls -/

/-- A call on an event store, `Append` being `AppendAtomic` with one write. The
clocks of the two stores need not agree. -/
inductive StoreCall
  | load (a : Aggregate) (id : Id)
  | appendAtomic (memoryNow postgresNow : Nat) (writes : List StreamWrite)

/-- What a row says, but for the time it was written. -/
def Row.fact {E : Type} (r : Row E) : Nat × E := (r.sequence, r.event)

/-- What a call answers, but for the times rows were written. -/
inductive StoreAnswer
  | loaded (a : Aggregate) (facts : List (Nat × a.Event))
  | appended (r : Except Err Unit)

/-- A call on a `MemoryStore`. -/
def MemoryStore.call (marshal : Marshal) (st : Store) : StoreCall → StoreAnswer × Store
  | .load a id => (.loaded a ((st a id).map Row.fact), st)
  | .appendAtomic now _ writes =>
    match MemoryStore.appendAtomic marshal now st writes with
    | .error e => (.appended (.error e), st)
    | .ok st' => (.appended (.ok ()), st')

/-- A call on a `PostgresStore`. -/
def PostgresStore.call (marshal : Marshal) (t : Table) : StoreCall → StoreAnswer × Table
  | .load a id => (.loaded a ((PostgresStore.load t a id).map Row.fact), t)
  | .appendAtomic _ now writes =>
    match PostgresStore.appendAtomic marshal now t writes with
    | .error e => (.appended (.error e), t)
    | .ok t' => (.appended (.ok ()), t')

end MoneyFlow
