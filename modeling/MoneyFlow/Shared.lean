import Mathlib

/-!
# MoneyFlow.Shared

The vocabulary every package of `go/internal` shares: ids, amounts, a Wallet's
policy, and errors.

Ids are strings in the source. They are modelled symbolically, because all the
code ever does with one is compare it, check that it is a canonical UUID, and
derive further ids from it by hashing (`detid.New`). Each seed `detid.New` is
called with is a constructor of its own, so derived ids are distinct from one
another and from every id generated elsewhere: SHA-256 is taken to have no
collisions. Nothing keeps a *client* from naming a derived id in a request.

A text that quotes ids is a list of pieces (`Text`), so that a message is
recorded as the source formats it although an id has no spelling here.
-/

namespace MoneyFlow

/-- An id, or any other string a client may send in an id's place. -/
inductive Id
  /-- A UUID its owner generated. -/
  | uuid (n : Nat)
  /-- A UUID from `uuid.NewV7`. -/
  | v7 (n : Nat)
  /-- A string that is not a canonical UUID; `text ""` is the unset field. -/
  | text (s : String)
  /-- `detid.New(transactionID + ":reversal:" + childID)`. -/
  | reversal (transactionID childID : Id)
  /-- `detid.New(transferID + "/destination-token/0")`. -/
  | destinationToken (transferID : Id)
  /-- `detid.New(transferID + "/source-token")`. -/
  | sourceToken (transferID : Id)
  /-- `detid.New(ledgerTransferID + ":post")`. -/
  | post (ledgerTransferID : Id)
  /-- `detid.New(ledgerTransferID + ":void")`. -/
  | void (ledgerTransferID : Id)
  deriving DecidableEq, Repr

/-- The unset id field. -/
def Id.empty : Id := .text ""

/-- A piece of a formatted message. -/
inductive Piece
  /-- Text of the format string. -/
  | lit (s : String)
  /-- `%q` or `%v` of an id. -/
  | id (i : Id)
  /-- `%d` of a number. -/
  | num (n : Nat)
  deriving DecidableEq, Repr

/-- A formatted message. -/
abbrev Text := List Piece

/-- Whether a message is the empty string. -/
def Text.isEmpty (t : Text) : Bool := t.all (· == .lit "")

/-- `shared.v1.Money`: an integer amount in the currency's smallest unit. -/
structure Money where
  minorUnits : UInt64
  currency : String
  deriving DecidableEq, Repr

/-- `shared.v1.Allows`: what a Wallet may do at the boundary of the platform.
A proto3 enum keeps numbers it does not know, so a request may carry one. -/
inductive Allows
  | unspecified
  | onramp
  | offramp
  | onrampAndOfframp
  | none
  | unrecognized (n : Nat)
  deriving DecidableEq, Repr

/-! ### Errors -/

/-- The twirp error codes the services answer with. -/
inductive Code
  | invalidArgument
  | notFound
  | failedPrecondition
  | aborted
  | internal
  deriving DecidableEq, Repr

/-- An error, with what the callers that inspect it tell apart. -/
inductive Err
  /-- A twirp error. -/
  | twirp (code : Code) (msg : Text)
  /-- A FailedPrecondition wrapping `errAbandonedClaim`. -/
  | abandonedClaim (msg : Text)
  /-- `fmt.Errorf`. -/
  | plain (msg : Text)
  /-- `eventstore.ErrConcurrencyConflict`. -/
  | concurrencyConflict
  /-- `eventstore.ErrDuplicateStream`. -/
  | duplicateStream (aggregateType : String) (id : Id)
  /-- `ledger.ErrInvalidRequest`. -/
  | invalidRequest (msg : Text)
  deriving DecidableEq, Repr

namespace Err

/-- The message of an error. -/
def msg : Err → Text
  | twirp _ m | abandonedClaim m | plain m => m
  | concurrencyConflict => [.lit "eventstore: concurrent append"]
  | duplicateStream t i =>
    [.lit "eventstore: duplicate stream in atomic append", .lit ": ", .lit t, .lit "/", .id i]
  | invalidRequest m => .lit "ledger: invalid request" :: m

/-- The twirp code a caller finds in the error, if it is one. -/
def code : Err → Option Code
  | twirp c _ => some c
  | abandonedClaim _ => some .failedPrecondition
  | _ => .none

/-- `twirp.InternalErrorWith`. -/
def internalWith (e : Err) : Err := .twirp .internal e.msg

end Err

/-! ### Validation -/

/-- `twirp.RequiredArgumentError`. -/
def requiredArgument (field : String) : Err :=
  .twirp .invalidArgument [.lit field, .lit " is required"]

/-- `twirp.InvalidArgumentError`. -/
def invalidArgument (field : String) (msg : String) : Err :=
  .twirp .invalidArgument [.lit field, .lit " ", .lit msg]

/-- Whether a string is a UUID in its canonical form. -/
def Id.isUUID : Id → Bool
  | .text _ => false
  | _ => true

/-- `id.Validate`. -/
def validateId (field : String) (value : Id) : Except Err Unit :=
  if value = Id.empty then .error (requiredArgument field)
  else if value.isUUID then .ok ()
  else .error (invalidArgument field "must be a valid UUID")

/-- `money.Validate`: present, with a currency and an amount above zero. -/
def validateMoney (field : String) : Option Money → Except Err Money
  | .none => .error (requiredArgument field)
  | some m =>
    if m.currency = "" then .error (requiredArgument (field ++ ".currency"))
    else if m.minorUnits = 0 then
      .error (invalidArgument (field ++ ".minor_units") "must be greater than zero")
    else .ok m

theorem validateId_ok {field : String} {value : Id} (h : validateId field value = .ok ()) :
    value.isUUID = true := by
  unfold validateId at h
  split at h
  · simp at h
  · split at h
    · assumption
    · simp at h

/-- A valid amount is the one given, and not zero. -/
theorem validateMoney_ok {field : String} {m : Option Money} {a : Money}
    (h : validateMoney field m = .ok a) : m = some a ∧ a.minorUnits ≠ 0 ∧ a.currency ≠ "" := by
  unfold validateMoney at h
  split at h
  · simp at h
  · split at h
    · simp at h
    · split at h
      · simp at h
      · rename_i hc hz
        cases h
        exact ⟨rfl, hz, hc⟩

/-! ### Go maps -/

/-- A Go map keyed by ids: its entries, no key twice. The order of the entries
means nothing to the source, which ranges a map in any order. -/
structure GoMap (α : Type) where
  entries : List (Id × α)
  nodup : (entries.map Prod.fst).Nodup
  deriving DecidableEq

namespace GoMap

variable {α : Type}

/-- The keys, each once. -/
def keys (m : GoMap α) : List Id := m.entries.map Prod.fst

/-- The value stored under `k`. -/
def get? (m : GoMap α) (k : Id) : Option α := m.entries.lookup k

/-- Number of entries. -/
def size (m : GoMap α) : Nat := m.entries.length

end GoMap

end MoneyFlow
