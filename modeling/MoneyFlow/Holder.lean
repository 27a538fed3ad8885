import MoneyFlow.Wallet

/-!
# MoneyFlow.Holder

`go/internal/holder/server.go`: establishing a Holder, and opening Wallets for
it. A Holder and the Wallets provisioned with it are written in one atomic
append, each stream at the position it was read at.
-/

namespace MoneyFlow.Holder

open MoneyFlow.Service

/-- What `HolderEstablished` records. -/
structure EstablishedHolder where
  id : Id
  memos : List (String × Memo)
  deriving DecidableEq, Repr

/-- `holder.v1.EstablishRequest`. -/
structure EstablishRequest where
  id : Id
  memos : List (String × Memo)
  deriving DecidableEq, Repr

/-- `holder.v1.WalletSpec`. -/
structure WalletSpec where
  walletID : Id
  name : String
  allows : Allows
  deriving DecidableEq, Repr

/-- `holder.v1.AddWalletRequest`. -/
structure AddWalletRequest where
  id : Id
  walletID : Id
  name : String
  allows : Allows
  deriving DecidableEq, Repr

/-- `holder.v1.HolderRejectedWallet`. -/
structure RejectedWallet where
  id : Id
  walletID : Id
  reason : Text
  deriving DecidableEq, Repr

/-- `holder.v1.AddWalletResponse`. -/
inductive AddWalletResponse
  | holderAddedWallet (id walletID : Id) (name : String) (allows : Allows)
  | holderRejectedWallet (rejection : RejectedWallet)
  deriving DecidableEq, Repr

/-- `holder.v1.ProvisionRequest`. -/
structure ProvisionRequest where
  id : Id
  memos : List (String × Memo)
  wallets : List WalletSpec
  deriving DecidableEq, Repr

/-- `holder.v1.ProvisionResponse`. -/
inductive ProvisionResponse
  | holderProvisioned (id : Id) (walletIDs : List Id)
  | holderProvisionRejected (id : Id) (reason : Text)
  deriving DecidableEq, Repr

/-- `holder.decodeEstablished`, from the first event of a Holder's stream. -/
def decodeEstablished (id : Id) : HolderEvent → Except Err EstablishedHolder
  | .holderEstablished hid memos => .ok ⟨hid, memos⟩
  | .holderAddedWallet _ _ _ _ => .error (.twirp .internal [.lit "holder ", .id id,
      .lit ": stream starts with holder.v1.HolderAddedWallet, want HolderEstablished"])

/-- `holder.established`. -/
def established (id : Id) : Service (Option EstablishedHolder) := do
  match ← load .holder id with
  | [] => pure none
  | first :: _ => do
    let e ← check (decodeEstablished id first.event)
    pure (some e)

/-- `holder.Server.Establish`. -/
def establish (req : EstablishRequest) : Service EstablishedHolder := do
  check (validateId "id" req.id)
  match ← established req.id with
  | some existing => pure existing
  | none =>
    match ← append .holder req.id 0 [HolderEvent.holderEstablished req.id req.memos] with
    | .ok () => pure ⟨req.id, req.memos⟩
    | .error .concurrencyConflict =>
      -- a concurrent Establish for this id landed first
      match ← established req.id with
      | some existing => pure existing
      | none =>
        throw (.twirp .internal [.lit "holder: append conflicted but no holder was found"])
    | .error e => throw e.internalWith

/-- `holder.recordedWallets`: the Wallets already added to the Holder. -/
def recordedWallets : List HolderEvent → List Id
  | [] => []
  | .holderAddedWallet _ walletID _ _ :: rest => walletID :: recordedWallets rest
  | .holderEstablished _ _ :: rest => recordedWallets rest

/-- The write that opens a Wallet for the Holder. -/
def openingWrite (holderID : Id) (spec : WalletSpec) : StreamWrite :=
  ⟨.wallet, spec.walletID, 0,
    [WalletEvent.walletOpened spec.walletID holderID spec.name spec.allows]⟩

/-- The event that records a Wallet against the Holder. -/
def addedEvent (holderID : Id) (spec : WalletSpec) : HolderEvent :=
  .holderAddedWallet holderID spec.walletID spec.name spec.allows

/-- The loop of `walletWrites`: the Wallets still to be opened, and those still to
be recorded. -/
def walletDelta (holderID : Id) (recorded : List Id) :
    List WalletSpec → Service (Except RejectedWallet (List StreamWrite × List HolderEvent))
  | [] => pure (.ok ([], []))
  | spec :: rest => do
    let opened ← Wallet.opened spec.walletID
    let opening := if opened.isNone then [openingWrite holderID spec] else []
    let added := if recorded.contains spec.walletID then [] else [addedEvent holderID spec]
    match opened.filter fun o => o.holderID ≠ holderID with
    | some o =>
      pure (.error ⟨holderID, spec.walletID,
        [.lit "wallet already belongs to holder ", .id o.holderID]⟩)
    | none =>
      match ← walletDelta holderID recorded rest with
      | .error rejection => pure (.error rejection)
      | .ok (writes, events) => pure (.ok (opening ++ writes, added ++ events))

/-- The Holder's own part of an atomic append, when it has one. -/
def holderWrites (holderID : Id) (expectedSeq : Nat) (events : List HolderEvent) :
    List StreamWrite :=
  if events.isEmpty then [] else [⟨.holder, holderID, expectedSeq, events⟩]

/-- `holder.walletWrites`. -/
def walletWrites (holderID : Id) (holderStream : List (Row HolderEvent)) (specs : List WalletSpec) :
    Service (Except RejectedWallet (List StreamWrite)) := do
  match ← walletDelta holderID (recordedWallets (eventsOf holderStream)) specs with
  | .error rejection => pure (.error rejection)
  | .ok (writes, events) => pure (.ok (writes ++ holderWrites holderID holderStream.length events))

/-- `holder.appendConverging`: losing the append counts as having converged. -/
def appendConverging (writes : List StreamWrite) : Service Unit := do
  match ← appendWrites writes with
  | .ok () => pure ()
  | .error .concurrencyConflict => pure ()
  | .error e => throw e.internalWith

/-- `holder.Server.AddWallet`. -/
def addWallet (req : AddWalletRequest) : Service AddWalletResponse := do
  check (validateId "id" req.id)
  check (Wallet.validateWallet req.walletID req.allows)
  let rows ← load .holder req.id
  if rows.isEmpty then
    throw (.twirp .failedPrecondition
      [.lit "holder ", .id req.id, .lit " has not been established"])
  else
    match ← walletWrites req.id rows [⟨req.walletID, req.name, req.allows⟩] with
    | .error rejection => pure (.holderRejectedWallet rejection)
    | .ok writes =>
      if writes.isEmpty then pure (.holderAddedWallet req.id req.walletID req.name req.allows)
      else do
        appendConverging writes
        pure (.holderAddedWallet req.id req.walletID req.name req.allows)

/-- The checks `Provision` makes of its Wallets, `seen` the ids before. -/
def validateSpecs (seen : List Id) : List WalletSpec → Except Err Unit
  | [] => .ok ()
  | spec :: rest =>
    match Wallet.validateWallet spec.walletID spec.allows with
    | .error e => .error e
    | .ok () =>
      if seen.contains spec.walletID then
        .error (.twirp .invalidArgument [.lit "wallets", .lit " ", .lit "wallet_id ",
          .id spec.walletID, .lit " appears more than once"])
      else validateSpecs (spec.walletID :: seen) rest

/-- What a Provision that finds `rows` has still to establish. -/
def establishing (req : ProvisionRequest) :
    List (Row HolderEvent) → Except Err (List HolderEvent)
  | [] => .ok [.holderEstablished req.id req.memos]
  | first :: _ =>
    match decodeEstablished req.id first.event with
    | .error e => .error e
    | .ok _ => .ok []

/-- The Holder's events among the writes. -/
def holderEvents : StreamWrite → List HolderEvent
  | ⟨.holder, _, _, events⟩ => events
  | _ => []

/-- `holder.Server.Provision`. -/
def provision (req : ProvisionRequest) : Service ProvisionResponse := do
  check (validateId "id" req.id)
  if req.wallets.isEmpty then throw (requiredArgument "wallets")
  else do
    check (validateSpecs [] req.wallets)
    let rows ← load .holder req.id
    let origin ← check (establishing req rows)
    match ← walletWrites req.id rows req.wallets with
    | .error rejection => pure (.holderProvisionRejected req.id rejection.reason)
    | .ok ws => do
      -- one write to the Holder's stream: no stream may be named twice
      let writes := ws.filter (fun x => x.aggregateType ≠ .holder) ++
        holderWrites req.id rows.length (origin ++ ws.flatMap holderEvents)
      if writes.isEmpty then
        pure (.holderProvisioned req.id (req.wallets.map WalletSpec.walletID))
      else do
        appendConverging writes
        pure (.holderProvisioned req.id (req.wallets.map WalletSpec.walletID))

end MoneyFlow.Holder
