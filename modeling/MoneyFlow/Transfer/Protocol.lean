import MoneyFlow.Transfer.Chains
import MoneyFlow.Transfer.Lifecycle
import MoneyFlow.Transfer.Saga

/-!
# MoneyFlow.Transfer.Protocol

What a Transfer's drivers may write, whatever else is running.

Nothing here mentions a driver: `LegalRequest` says which ledger requests may be
made and `TransferAppend` which appends may land on a Transfer's stream, each
with the evidence its writer holds at that moment. All evidence is kept as the
world grows, and that is why two drivers of one Transfer cannot record outcomes
that contradict the ledger: an outcome lands only with the ledger facts that
make it true for good (`Backed`).
-/

namespace MoneyFlow

namespace World

/-- `transfer.Outcome` of a Transfer as its stream now stands. -/
def outcome (w : World) (id : Id) : Transfer.OutcomeKind :=
  Transfer.outcome (eventsOf (w.transfer id))

/-- The legs the Transfer was prepared with. -/
def legs (w : World) (id : Id) : Except Err (List TransferLeg) :=
  Transfer.preparedLegs id (eventsOf (w.transfer id))

/-- Whether the Transfer was asked to stage. -/
def stage (w : World) (id : Id) : Except Err Bool :=
  Transfer.stageRequested (eventsOf (w.transfer id))

/-- The Token was minted into the Wallet. -/
def MintedInto (w : World) (tokenID walletID : Id) : Prop :=
  ∃ capacity, (eventsOf (w.token tokenID)).head? = some (.tokenMinted tokenID walletID capacity)

end World

namespace Transfer

/-! ### Ledger requests -/

section Ledger

variable (l : Ledger) (legs : List TransferLeg)

/-- Every leg is moved at once. -/
def Moved : Prop := ∀ leg ∈ legs, l.Applied (movement leg)

/-- Every leg is reserved. -/
def Reserved : Prop := ∀ leg ∈ legs, l.Applied (reservation leg)

/-- Every leg's reservation is posted. -/
def Posted : Prop := ∀ leg ∈ legs, l.Applied (settlement .postPending .post leg)

/-- Every leg's reservation is released. -/
def Voided : Prop := ∀ leg ∈ legs, l.Applied (settlement .voidPending .void leg)

/-- The ledger has refused an id without which no leg can ever be posted: a
leg's own, or a post of the first chain. -/
def Doomed : Prop :=
  (∃ leg ∈ legs, leg.ledgerTransferID ∈ l.refused) ∨
    (Reserved l legs ∧ ∃ leg ∈ window legs 0, .post leg.ledgerTransferID ∈ l.refused)

end Ledger

/-- A batch a driver may submit, for some prepared Transfer. -/
inductive LegalRequest (w : World) : List LedgerTransfer → Prop
  | move {id : Id} {legs : List TransferLeg} (hlegs : w.legs id = .ok legs)
      (hstage : w.stage id = .ok false) (hlen : legs.length ≤ batchMax) (hne : legs ≠ []) :
      LegalRequest w (link (movements legs))
  | reserve {id : Id} {legs : List TransferLeg} {c : Nat} (hlegs : w.legs id = .ok legs)
      (hwide : w.stage id = .ok true ∨ batchMax < legs.length) (hne : window legs c ≠ []) :
      LegalRequest w (link (reservations (window legs c)))
  | post {id : Id} {legs : List TransferLeg} {c : Nat} (hlegs : w.legs id = .ok legs)
      (hres : Reserved w.ledger legs) (hfirst : c ≠ 0 → Posted w.ledger (window legs 0))
      (hne : window legs c ≠ []) : LegalRequest w (link (posts (window legs c)))
  | void {id : Id} {legs : List TransferLeg} {c : Nat} (hlegs : w.legs id = .ok legs)
      (hres : Reserved w.ledger legs) (hne : window legs c ≠ []) :
      LegalRequest w (link (voids (window legs c)))

/-! ### Appends -/

/-- The ids of these legs were generated for this Transfer, each once. -/
def LegsOf (w : World) (id : Id) (legs : List TransferLeg) : Prop :=
  (legs.map TransferLeg.ledgerTransferID).Nodup ∧
    ∀ leg ∈ legs, ∃ n, leg.ledgerTransferID = .v7 n ∧ w.issued[n]? = some id

/-- A leg, its direction turned around and its ledger id forgotten. -/
def turned (leg : TransferLeg) : Leg := ⟨leg.destTokenID, leg.sourceTokenID, leg.amount⟩

/-- A leg, its ledger id forgotten. -/
def plain (leg : TransferLeg) : Leg := ⟨leg.sourceTokenID, leg.destTokenID, leg.amount⟩

/-- The legs planned for a Transfer whose stream opens as `es` does; `holds tok
wid` says that `tok` is a Token of Wallet `wid`. -/
def ManifestOf (holds : Id → Id → Prop) (w : World) (id : Id) (plan : List Leg) :
    List TransferEvent → Prop
  | .transferRequestAccepted a :: _ =>
    ∀ leg ∈ plan, leg.destTokenID = .destinationToken id ∧
      holds leg.destTokenID a.toWalletID ∧ holds leg.sourceTokenID a.fromWalletID ∧
      (a.mintSource = true → leg.sourceTokenID = .sourceToken id)
  | .reversalRequestAccepted a :: _ =>
    ∃ original, w.legs a.transferID = .ok original ∧ plan = original.map turned ∧
      ∀ leg ∈ plan, (∃ wid, holds leg.sourceTokenID wid) ∧ ∃ wid, holds leg.destTokenID wid
  | _ => False

/-- Nothing was ever prepared. -/
def Unprepared (w : World) (id : Id) : Prop := ∀ legs, w.legs id ≠ .ok legs

/-- What makes an event on the Transfer's stream true. -/
def Backed (w : World) (id : Id) : TransferEvent → Prop
  | .transferRequestAccepted a => a.id = id ∧ a.amount.minorUnits ≠ 0
  | .reversalRequestAccepted a => a.id = id ∧ w.outcome a.transferID = .committed
  | .transferPrepared i legs => i = id ∧ LegsOf w id legs ∧
      ManifestOf w.MintedInto w id (legs.map plain) (eventsOf (w.transfer id))
  | .transferStaged _ => ∃ legs, w.legs id = .ok legs ∧ Reserved w.ledger legs
  | .transferCommitted _ _ => ∃ legs, w.legs id = .ok legs ∧
      (Moved w.ledger legs ∨ Posted w.ledger legs)
  | .transferFailed _ _ => (∃ legs, w.legs id = .ok legs ∧ Doomed w.ledger legs) ∨ Unprepared w id
  | .transferCancelled _ _ => ∃ legs, w.legs id = .ok legs ∧ Voided w.ledger legs
  | .acceptedTransferCancelled _ _ => Unprepared w id
  | .preparedTransferCancelled _ _ => False
  | _ => True

/-- The Token is in the Wallet once the writes have landed. -/
def HeldAfter (w : World) (ws : List StreamWrite) (tokenID walletID : Id) : Prop :=
  w.MintedInto tokenID walletID ∨ ∃ capacity,
    StreamWrite.mk .token tokenID 0 [TokenEvent.tokenMinted tokenID walletID capacity] ∈ ws

/-- An append to a Transfer's stream, one of the writes `ws` that land
together. -/
inductive TransferAppend (w : World) (ws : List StreamWrite) (id : Id) : List TransferEvent → Prop
  | opening {e : TransferEvent} (hes : w.transfer id = []) (he : opensStream e.eventType = true)
      (hb : Backed w id e) (hid : id.isUUID = true) : TransferAppend w ws id [e]
  | prepared {legs : List TransferLeg} {stage : Bool}
      (hs : currentState (eventsOf (w.transfer id)) = .accepted) (hstage : w.stage id = .ok stage)
      (hlegs : LegsOf w id legs)
      (hplan : ManifestOf (HeldAfter w ws) w id (legs.map plain) (eventsOf (w.transfer id))) :
      TransferAppend w ws id [.transferPrepared id legs, nextMarker id stage]
  | outcome {e : TransferEvent}
      (ht : e.eventType ∈ transitions (currentState (eventsOf (w.transfer id))))
      (hb : Backed w id e) : TransferAppend w ws id [e]
  | claim {e : TransferEvent}
      (hs : (currentState (eventsOf (w.transfer id))).claimable = true)
      (he : isClaimMarkerType e.eventType = true)
      (hm : currentState (eventsOf (w.transfer id)) = .prepared →
        ∃ stage, w.stage id = .ok stage ∧ e = nextMarker id stage) : TransferAppend w ws id [e]
  | response {e : TransferEvent} (hne : w.transfer id ≠ []) (he : isResponse e.eventType = true) :
      TransferAppend w ws id [e]

end Transfer

end MoneyFlow
