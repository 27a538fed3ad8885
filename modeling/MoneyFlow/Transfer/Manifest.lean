import MoneyFlow.Token
import MoneyFlow.Transaction.Fold
import MoneyFlow.Transfer.Fold

/-!
# MoneyFlow.Transfer.Manifest

`go/internal/transfer/manifest.go`: which Tokens a Transfer debits and credits.

`saga/wiring.go` gives the Transfer service `transaction.IsOpen` and
`transaction.Exists` as its two checks on Transactions; they are called here
directly.
-/

namespace MoneyFlow.Transfer

open MoneyFlow.Service

/-- `transfer.Leg`. -/
structure Leg where
  sourceTokenID : Id
  destTokenID : Id := Id.empty
  amount : Money
  deriving DecidableEq, Repr

/-- Take Tokens in order until `remaining` is covered; what is left uncovered is
handed back with the legs. -/
def takeTokens (currency : String) (bs : Id → Option Ledger.Balance) :
    List Id → UInt64 → Except Err (List Leg × UInt64)
  | [], remaining => .ok ([], remaining)
  | tokenID :: rest, remaining =>
    if remaining = 0 then .ok ([], 0)
    else
      match bs tokenID with
      | none => takeTokens currency bs rest remaining
      | some b =>
        match b.postedNet with
        | .error e => .error (.twirp .internal ([.lit "ledger: token ", .id tokenID, .lit ": "] ++
            e.msg))
        | .ok balance =>
          if balance ≤ 0 then takeTokens currency bs rest remaining
          else
            let balance := UInt64.ofNat balance.toNat
            let take := if remaining < balance then remaining else balance
            match takeTokens currency bs rest (remaining - take) with
            | .error e => .error e
            | .ok (legs, short) =>
              .ok ({ sourceTokenID := tokenID, amount := ⟨take, currency⟩ } :: legs, short)

/-- `transfer.selectSourceTokens`: oldest-minted-first, over the Tokens visible
to the calling Transaction. A rejection is handed back as its reason. -/
def selectSourceTokens (walletID : Id) (amount : Money) (callingTransactionID : Id) :
    Service (Except Text (List Leg)) := do
  let tokenIDs ← Wallet.tokensOfVisibleTo walletID callingTransactionID Transaction.isOpen
  let bs ← balances tokenIDs
  let (legs, short) ← check (takeTokens amount.currency bs tokenIDs amount.minorUnits)
  if 0 < short then
    pure (.error [.lit "wallet ", .id walletID, .lit " has insufficient Token capacity: ",
      .num short.toNat, .lit " ", .lit amount.currency, .lit " short"])
  else pure (.ok legs)

/-- `transfer.WouldAcceptTransfer`: the reason a Transfer would be rejected for
now, if it would. -/
def wouldAcceptTransfer (walletID : Id) (amount : Money) (callingTransactionID : Id) :
    Service (Option Text) := do
  match ← selectSourceTokens walletID amount callingTransactionID with
  | .error reason => pure (some reason)
  | .ok _ => pure none

/-- `transfer.planDestinations`: one destination Token for the full amount. -/
def planDestinations (transferID : Id) (amount : Money) : List Token.MintSpec :=
  [⟨.destinationToken transferID, amount⟩]

/-- `transfer.mintSourceLeg`. -/
def mintSourceLeg (transferID : Id) (amount : Money) : Token.MintSpec :=
  ⟨.sourceToken transferID, amount⟩

/-- `transfer.validateMintSource`: the reason a `mint_source` request is refused
for, if it is. -/
def validateMintSource (transactionID walletID : Id) : Service (Option Text) := do
  if ← Transaction.transactionExists transactionID then
    match ← Wallet.opened walletID with
    | none => pure (some [.lit "wallet ", .id walletID, .lit " not found"])
    | some wallet =>
      match wallet.allows with
      | .onramp | .onrampAndOfframp => pure none
      | _ => pure (some [.lit "wallet ", .id walletID, .lit (" does not allow onramp; " ++
          "mint_source requires ALLOWS_ONRAMP or ALLOWS_ONRAMP_AND_OFFRAMP")])
  else pure (some [.lit "transaction ", .id transactionID, .lit " not found"])

/-- Every leg `TransferPrepared` recorded, turned around. -/
def reversedLegs : List TransferEvent → List Leg
  | [] => []
  | .transferPrepared _ legs :: rest =>
    legs.map (fun leg => ⟨leg.destTokenID, leg.sourceTokenID, leg.amount⟩) ++ reversedLegs rest
  | _ :: rest => reversedLegs rest

/-- `transfer.reversalManifest`. A rejection is handed back as its reason. -/
def reversalManifest (originalTransferID : Id) : Service (Except Text (List Leg)) := do
  let rows ← load .transfer originalTransferID
  if rows.isEmpty then pure (.error [.lit "original transfer not found"])
  else if currentState (eventsOf rows) ≠ .committed then
    pure (.error [.lit "original transfer is ", .lit (currentState (eventsOf rows)).string,
      .lit ", not committed"])
  else if (reversedLegs (eventsOf rows)).isEmpty then
    throw (.twirp .internal [.lit "transfer ", .id originalTransferID,
      .lit ": committed but has no recorded legs"])
  else pure (.ok (reversedLegs (eventsOf rows)))

end MoneyFlow.Transfer
