import MoneyFlow.Events

/-!
# MoneyFlow.Transaction.Dag

`go/internal/transaction/dag.go`: which DAGs a Transaction may have, and which
of its children are ready to run or to be rolled back.

A function of the source that ranges a map is given the order the range takes
(`order`); where the order means nothing to the result it is the order of the
map's entries.
-/

namespace MoneyFlow.Transaction

/-- `transaction.maxTransfersPerTransaction`. -/
def maxTransfersPerTransaction : Nat := 64

/-- The parents `deps` lists for a child. -/
def parentsOf (deps : GoMap (List Id)) (childID : Id) : List Id :=
  (deps.get? childID).getD []

/-! ### Validation -/

/-- `transaction.validateChildAmount`: the amounts no Transfer would accept. -/
def validateChildAmount (key : Id) (spec : TransferSpec) : Except Err Unit :=
  match validateMoney "amount" spec.amount with
  | .ok _ => .ok ()
  | .error e => .error (.plain ([.lit "transaction: transfers[", .id key, .lit "]."] ++ e.msg))

/-- Every child is filed under its own id and has an amount. -/
def validateChildren : List (Id × TransferSpec) → Except Err Unit
  | [] => .ok ()
  | (key, spec) :: rest =>
    if spec.id ≠ key then
      .error (.plain [.lit "transaction: transfers[", .id key, .lit "].id = ", .id spec.id,
        .lit ", want it to match its own map key"])
    else
      match validateChildAmount key spec with
      | .error e => .error e
      | .ok () => validateChildren rest

/-- Every parent a child lists is a child of the Transaction. -/
def validateParents (transfers : GoMap TransferSpec) (childID : Id) :
    List Id → Except Err Unit
  | [] => .ok ()
  | parentID :: rest =>
    if parentID ∈ transfers.keys then validateParents transfers childID rest
    else .error (.plain [.lit "transaction: transfer ", .id childID,
      .lit " depends on unknown transfer ", .id parentID])

/-- Neither side of a dependency dangles. -/
def validateReferences (transfers : GoMap TransferSpec) :
    List (Id × List Id) → Except Err Unit
  | [] => .ok ()
  | (childID, parents) :: rest =>
    if childID ∈ transfers.keys then
      match validateParents transfers childID parents with
      | .error e => .error e
      | .ok () => validateReferences transfers rest
    else .error (.plain [.lit "transaction: transfer_dependency references unknown child ",
      .id childID])

/-- The edges of the DAG, a parent with the child that lists it. -/
def edges (deps : GoMap (List Id)) : List (Id × Id) :=
  deps.entries.flatMap fun d => d.2.map fun parentID => (parentID, d.1)

/-- How many edges lead into each child. -/
def inDegrees (deps : GoMap (List Id)) : Id → Nat := fun id =>
  ((edges deps).filter fun e => e.2 = id).length

/-- The children that list `id`, once for each time they do. -/
def childrenOf (deps : GoMap (List Id)) (id : Id) : List Id :=
  ((edges deps).filter fun e => e.1 = id).map Prod.snd

/-- Take one edge away from each of these children, and queue those that have
none left. -/
def release : List Id → (Id → Nat) → List Id → (Id → Nat) × List Id
  | [], degrees, queue => (degrees, queue)
  | child :: rest, degrees, queue =>
    let degrees' := Function.update degrees child (degrees child - 1)
    release rest degrees' (if degrees' child = 0 then queue ++ [child] else queue)

/-- The loop of Kahn's algorithm: how many ids it processes. Each id is queued
at most once, so a round for each is enough. -/
def processQueue (deps : GoMap (List Id)) : Nat → (Id → Nat) → List Id → Nat
  | 0, _, _ => 0
  | _ + 1, _, [] => 0
  | rounds + 1, degrees, id :: queue =>
    let released := release (childrenOf deps id) degrees queue
    processQueue deps rounds released.1 released.2 + 1

/-- `transaction.validateDAG`. -/
def validateDAG (transfers : GoMap TransferSpec) (deps : GoMap (List Id)) : Except Err Unit :=
  if transfers.size = 0 then
    .error (.plain [.lit "transaction: transfers must not be empty"])
  else if maxTransfersPerTransaction < transfers.size then
    .error (.plain [.lit "transaction: ", .num transfers.size,
      .lit " transfers exceeds the limit of ", .num maxTransfersPerTransaction,
      .lit " per Transaction"])
  else
    match validateChildren transfers.entries with
    | .error e => .error e
    | .ok () =>
      match validateReferences transfers deps.entries with
      | .error e => .error e
      | .ok () =>
        if processQueue deps transfers.size (inDegrees deps)
            (transfers.keys.filter fun id => inDegrees deps id = 0) = transfers.size then .ok ()
        else .error (.plain [.lit ("transaction: transfer_dependency contains a cycle " ++
          "(a direct self-dependency counts)")])

/-! ### Readiness -/

/-- `transaction.readyToRun`: every child not yet touched whose parents have
all completed. -/
def readyToRun (order : List Id) (deps : GoMap (List Id)) (touched completed : Id → Bool) :
    List Id :=
  order.filter fun id => !touched id && (parentsOf deps id).all completed

/-- Some child still active lists `id` as a parent. -/
def hasActiveDependent (deps : GoMap (List Id)) (touched resolved : Id → Bool) (id : Id) : Bool :=
  deps.entries.any fun d => touched d.1 && !resolved d.1 && d.2.contains id

/-- `transaction.readyToRollback`: every touched child not yet resolved, with no
Reversal running and no active dependent. -/
def readyToRollback (order : List Id) (deps : GoMap (List Id))
    (touched resolved inFlight : Id → Bool) : List Id :=
  order.filter fun id =>
    touched id && !resolved id && !inFlight id && !hasActiveDependent deps touched resolved id

end MoneyFlow.Transaction
