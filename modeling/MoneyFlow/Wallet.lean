import MoneyFlow.World

/-!
# MoneyFlow.Wallet

`go/internal/wallet`: opening a Wallet, and which of its Tokens a caller may
spend.
-/

namespace MoneyFlow.Wallet

open MoneyFlow.Service

/-- `wallet.v1.OpenRequest`. -/
structure OpenRequest where
  id : Id
  holderID : Id
  name : String
  allows : Allows
  deriving DecidableEq, Repr

/-- `wallet.v1.OpenResponse`. -/
inductive OpenResponse
  | walletOpened (id holderID : Id) (name : String) (allows : Allows)
  | walletRejected (id holderID : Id) (reason : Text)
  deriving DecidableEq, Repr

/-- What `WalletOpened` records. -/
structure OpenedWallet where
  id : Id
  holderID : Id
  name : String
  allows : Allows
  deriving DecidableEq, Repr

/-- `wallet.ValidateWallet`. -/
def validateWallet (walletID : Id) (allows : Allows) : Except Err Unit :=
  match validateId "id" walletID with
  | .error e => .error e
  | .ok () =>
    -- the caller has to state the policy: an unset field is a bug
    if allows = .unspecified then
      .error (invalidArgument "allows"
        "must be set; use ALLOWS_NONE to permit neither onramp nor offramp")
    else .ok ()

/-- `wallet.ValidateOpen`. -/
def validateOpen (walletID holderID : Id) (allows : Allows) : Except Err Unit :=
  match validateWallet walletID allows with
  | .error e => .error e
  | .ok () => validateId "holder_id" holderID

/-- The `WalletOpened` a stream begins with. -/
def openedOf (id : Id) : List (Row WalletEvent) → Except Err (Option OpenedWallet)
  | [] => .ok none
  | ⟨_, .walletOpened wid holderID name allows, _⟩ :: _ => .ok (some ⟨wid, holderID, name, allows⟩)
  | ⟨_, .tokenMintedForWallet _ _ _ _, _⟩ :: _ =>
    .error (.twirp .internal [.lit "wallet ", .id id,
      .lit ": stream starts with wallet.v1.TokenMintedForWallet, want WalletOpened"])

/-- `wallet.Opened`. -/
def opened (id : Id) : Service (Option OpenedWallet) := do
  let events ← load .wallet id
  check (openedOf id events)

/-- `wallet.replayResponse`: an already-open Wallet, refused when the caller
names a different Holder. -/
def replayResponse (existing : OpenedWallet) (holderID : Id) : OpenResponse :=
  if existing.holderID ≠ holderID then
    .walletRejected existing.id holderID
      [.lit "wallet already belongs to holder ", .id existing.holderID]
  else .walletOpened existing.id existing.holderID existing.name existing.allows

/-- `wallet.Server.Open`. -/
def openWallet (req : OpenRequest) : Service OpenResponse := do
  check (validateOpen req.id req.holderID req.allows)
  match ← opened req.id with
  | some existing => pure (replayResponse existing req.holderID)
  | none =>
    match ← append .wallet req.id 0
        [WalletEvent.walletOpened req.id req.holderID req.name req.allows] with
    | .ok () => pure (.walletOpened req.id req.holderID req.name req.allows)
    | .error .concurrencyConflict =>
      -- a concurrent Open for this id landed first
      match ← opened req.id with
      | some existing => pure (replayResponse existing req.holderID)
      | none =>
        throw (.twirp .internal [.lit "wallet: append conflicted but no wallet was found"])
    | .error e => throw e.internalWith

/-- `wallet.TokensOf`, over a loaded stream: every Token minted for the Wallet,
oldest first, each with the Transaction it is tagged with. -/
def mintedTokens : List (Row WalletEvent) → List (Id × Id)
  | [] => []
  | ⟨_, .tokenMintedForWallet _ tokenID _ transactionID, _⟩ :: rest =>
    (tokenID, transactionID) :: mintedTokens rest
  | ⟨_, .walletOpened _ _ _ _, _⟩ :: rest => mintedTokens rest

/-- The Tokens of `minted` visible to `callingTransactionID`: those untagged,
tagged with that Transaction itself, or tagged with one that has closed. -/
def visibleTo (callingTransactionID : Id) (isOpen : Id → Service Bool) :
    List (Id × Id) → Service (List Id)
  | [] => pure []
  | (tokenID, tag) :: rest =>
    if tag = Id.empty ∨ tag = callingTransactionID then do
      let visible ← visibleTo callingTransactionID isOpen rest
      pure (tokenID :: visible)
    else do
      let isTagOpen ← isOpen tag
      let visible ← visibleTo callingTransactionID isOpen rest
      pure (if isTagOpen then visible else tokenID :: visible)

/-- `wallet.TokensOfVisibleTo`. -/
def tokensOfVisibleTo (walletID callingTransactionID : Id) (isOpen : Id → Service Bool) :
    Service (List Id) := do
  let events ← load .wallet walletID
  visibleTo callingTransactionID isOpen (mintedTokens events)

end MoneyFlow.Wallet
