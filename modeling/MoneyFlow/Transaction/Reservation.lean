import MoneyFlow.Transaction.Membership
import MoneyFlow.Transfer.Outcomes

/-!
# MoneyFlow.Transaction.Reservation

A Token minted within a Transaction is kept for it until it closes.

Selection keeps to that: it passes over Tokens tagged with another Transaction
that is still open. Two ways lead around it. A Reversal names its Tokens without
any selection, so a client who reverses a child takes the money back from under
an open Transaction (`reversed_under_open`); and the tag a Transfer selects with
is whatever its request says. Where requests are authorised and nobody else
reverses what an open Transaction holds, the Tokens it holds are debited by its
own children and its own rollback only (`reservation_holds`).
-/

namespace MoneyFlow.Transaction

open Concurrent Transfer

variable {R : Prop} {w w' : World} {tid id tok tag : Id}

/-! ### Reading tags off the log -/

/-- The tags recorded for a Token, in the Wallet it was minted into. -/
def tagsOf (w : World) (tok : Id) : List Id :=
  match (eventsOf (w.token tok)).head? with
  | some (.tokenMinted _ walletID _) =>
    (Wallet.mintedTokens (w.wallet walletID)).filterMap fun p =>
      if p.1 = tok then some p.2 else none
  | _ => []

theorem mem_tagsOf (hinv : Inv R w) (h : w.Tagged tok tag) : tag ∈ tagsOf w tok := by
  obtain ⟨wid, i, capacity, hm⟩ := h
  obtain ⟨capacity', hmint⟩ := (hinv.wallet wid).minted i tok capacity tag hm
  unfold tagsOf
  rw [hmint]
  exact List.mem_filterMap.mpr ⟨(tok, tag), Wallet.mem_mintedTokens_of_event hm, by simp⟩

/-! ### What is asked of clients -/

/-- No Token the Transfer credited is kept for an open Transaction, but for the
one whose saga the driver runs. -/
def Sparing (d : Driver) (w : World) (original : Id) : Prop :=
  ∀ leg ∈ (w.legs original).toOption.getD [], ∀ tag ∈ tagsOf w leg.destTokenID,
    tag = Id.empty ∨ w.isOpen tag = false ∨ runsSaga tag d = true

/-- Clients' own requests are authorised, and Reversals spare what an open
Transaction holds. -/
def Confined (d : Driver) (o : Op) (w : World) : Prop :=
  Authorised d o w ∧
    match o with
    | .appendAtomic ws => ∀ x ∈ ws, ∀ p ∈ reversedBy x, Sparing d w p.2
    | _ => True

instance : ∀ d w original, Decidable (Sparing d w original) := by
  intro d w original
  unfold Sparing
  infer_instance

instance : ∀ d o w, Decidable (Confined d o w) := by
  rintro d ⟨⟩ w <;> delta Confined <;> infer_instance

/-! ### Reversals -/

/-- The Reversal the Transaction's own rollback requested for one of its
children. -/
def OwnUndo (w : World) (tid id : Id) : Prop :=
  ∃ c a, id = .reversal tid c ∧ (childOfSpec w tid c).isSome = true ∧
    RollbackBegun (w.log tid) ∧ w.opening id = some (.reversalRequestAccepted a) ∧
    a.transferID = c

theorem OwnUndo.grow (h : OwnUndo w tid id) (hle : w ≤ w') : OwnUndo w' tid id := by
  obtain ⟨c, a, hid, hchild, hroll, hopen, hnames⟩ := h
  obtain ⟨child, hchild⟩ := Option.isSome_iff_exists.mp hchild
  refine ⟨c, a, hid, ?_, hroll.mono (World.log_grow hle tid).subset, World.opening_grow hopen hle,
    hnames⟩
  rw [childOfSpec_grow hchild hle]
  rfl

/-- A Reversal takes from Tokens no open Transaction holds, unless it is that
Transaction's own. -/
def SparingReversals (w : World) : Prop :=
  ∀ id a, w.opening id = some (.reversalRequestAccepted a) →
    ∀ legs, w.legs a.transferID = .ok legs → ∀ leg ∈ legs, ∀ tag, w.Tagged leg.destTokenID tag →
      tag = Id.empty ∨ w.isOpen tag = false ∨ OwnUndo w tag id

/-- The Tokens of recorded legs are tagged already, if they ever are. -/
theorem tagged_before {o : Op} {r : Resp o} {legs : List TransferLeg} {leg : TransferLeg}
    (hinv : Inv R w) (hlegal : Legal R o w) (hplans : (plans R).ensure o w) (hx : w.Exec o r w')
    (hlegs : w.legs id = .ok legs) (hleg : leg ∈ legs) (ht : w'.Tagged leg.destTokenID tag) :
    w.Tagged leg.destTokenID tag := by
  rcases tagged_step hlegal hplans hx ht with hold | ⟨hnil, -⟩
  · exact hold
  · obtain ⟨s, d, -, capacity, hmint⟩ := minted_of_legs hinv hlegs hleg
    rw [hnil] at hmint
    cases hmint

theorem sparingReversals_step {d : Driver} {o : Op} {r : Resp o} (hinv : Inv R w)
    (hinv' : Inv R w') (h : SparingReversals w) (hlegal : Legal R o w)
    (hopens : (opens d).ensure o w) (hplans : (plans R).ensure o w) (hg : Confined d o w)
    (hx : w.Exec o r w') : SparingReversals w' := by
  have hle : w ≤ w' := World.le_of_exec hx
  intro id a hopen legs' hlegs' leg hleg tag htag
  -- the original was committed, and so prepared, before the Reversal was accepted
  have hcommon (hcommitted : w.outcome a.transferID = .committed) :
      w.legs a.transferID = .ok legs' ∧ w.Tagged leg.destTokenID tag := by
    obtain ⟨legs, hlegs, -⟩ := moved_of_committed hinv (outcome_eq_committed.mp hcommitted).2
    obtain rfl : legs = legs' := Except.ok.inj ((World.legs_grow hle hlegs).symm.trans hlegs')
    exact ⟨hlegs, tagged_before hinv hlegal hplans hx hlegs hleg htag⟩
  rcases opening_step hlegal hopens hx hopen with hold | ⟨-, hnew, ws, happ⟩
  · have hcommitted : w.outcome a.transferID = .committed :=
      ((hinv.transfer id).backed _ (List.mem_of_head? hold)).2
    obtain ⟨hlegs, htag0⟩ := hcommon hcommitted
    refine (h id a hold legs' hlegs leg hleg tag htag0).imp_right fun hc => ?_
    exact hc.imp (fun hc => henceforth_closed hc w' hle hinv') fun hu => hu.grow hle
  · have happend : TransferAppend w ws id [.reversalRequestAccepted a] := happ.legal
    have hcommitted : w.outcome a.transferID = .committed := by
      cases happend with
      | opening _ _ hb | outcome _ hb => exact hb.2
      | claim _ he _ => simp [isClaimMarkerType, TransferEvent.eventType] at he
      | response _ he => simp [isResponse, TransferEvent.eventType] at he
    obtain ⟨hlegs, htag0⟩ := hcommon hcommitted
    obtain rfl := happ.op
    have hspared : Sparing d w a.transferID := by
      exact hg.2 _ happ.mem (id, a.transferID) (by simp [reversedBy])
    have hcase := hspared leg (by rw [hlegs]; exact hleg) tag (mem_tagsOf hinv htag0)
    refine hcase.imp_right
      fun hc => hc.imp (fun hc => henceforth_closed hc w' hle hinv') fun hd => ?_
    cases hnew with
    | reversal => simp [runsSaga] at hd
    | @undo i childID spec child legs hspec hget hroll =>
      obtain rfl : i = tag := by simpa [runsSaga] using hd
      obtain rfl := child_id hinv hspec hget
      refine ⟨child.id, _, rfl, ?_, hroll.mono (World.log_grow hle i).subset, hopen, rfl⟩
      rw [childOfSpec_grow (childOfSpec_some.mpr ⟨spec, hspec, hget⟩) hle]
      rfl

theorem confined_upheld : Upholds True (fun _ => True) Confined (dealings True)
    (fun w => PlansOk w ∧ Members w ∧ SparingReversals w) where
  init := ⟨plansOk_init, members_init, fun _ _ h => nomatch h⟩
  tick w w' ht h := by
    refine ⟨h.1.tick ht, ?_⟩
    obtain ⟨d, rfl⟩ := ht
    exact h.2
  safe d fuel w _ := Driver.dealings d fuel w
  assume d o w _ hinv _ := ⟨trivial, hinv⟩
  step d o w r w' hinv hinv' h hg hlegal hd hx :=
    ⟨plans_step hinv hinv' h.1 hlegal hd.2 hx, members_step hinv h.2.1 hlegal hd.1 hg.1 hx,
      sparingReversals_step hinv hinv' h.2.2 hlegal hd.1 hd.2 hg hx⟩

/-! ### What an open Transaction holds -/

/-- A Transfer of the Transaction: a child of its DAG, or the Reversal its own
rollback requested for one. -/
def OfTransaction (w : World) (tid id : Id) : Prop :=
  (childOfSpec w tid id).isSome = true ∨ OwnUndo w tid id

/-- Whoever was prepared to take from a Token an open Transaction holds is of that
Transaction. -/
theorem ofTransaction_of_leg (hinv : Inv R w) (hplans : PlansOk w) (hmembers : Members w)
    (hrev : SparingReversals w) (hopen : w.isOpen tid = true) (hne : tid ≠ Id.empty)
    {legs : List TransferLeg} {leg : TransferLeg} (hlegs : w.legs id = .ok legs)
    (hleg : leg ∈ legs) (htag : w.Tagged leg.sourceTokenID tid) : OfTransaction w tid id := by
  obtain ⟨i, hm⟩ := preparedLegs_mem hlegs
  obtain ⟨-, -, hman⟩ := (hinv.transfer id).backed _ hm
  have hplain : plain leg ∈ legs.map plain := List.mem_map_of_mem hleg
  cases hes : eventsOf (w.transfer id) with
  | nil =>
    rw [hes] at hman
    exact hman.elim
  | cons e es =>
    have hhead : w.opening id = some e := World.opening_of_events hes
    rw [hes] at hman
    cases e with
    | transferRequestAccepted a =>
      obtain ⟨tag, htag', hcase⟩ := (hplans.planned id a legs hhead hlegs).2 leg hleg
      obtain rfl := hplans.unique _ _ _ htag htag'
      rcases hcase with hempty | hown | hclosed
      · exact absurd hempty hne
      · obtain ⟨child, hchild, -⟩ := hmembers id a hhead (hown ▸ hne)
        left
        rw [hown, hchild]
        rfl
      · rw [hclosed] at hopen
        simp at hopen
    | reversalRequestAccepted a =>
      obtain ⟨original, horiginal, hplan, -⟩ := hman
      rw [hplan] at hplain
      obtain ⟨m, hm, hturned⟩ := List.mem_map.mp hplain
      have hdest : m.destTokenID = leg.sourceTokenID := congrArg Leg.sourceTokenID hturned
      rcases hrev id a hhead original horiginal m hm tid (hdest ▸ htag) with hempty | hclosed | hu
      · exact absurd hempty hne
      · rw [hclosed] at hopen
        simp at hopen
      · exact Or.inr hu
    | _ => exact hman.elim

/-- Every transfer the ledger holds is of a recorded leg. -/
theorem leg_of_stored (hinv : Inv R w) {i : Id} {st : StoredTransfer}
    (hm : (i, st) ∈ w.ledger.transfers) :
    ∃ id legs leg, w.legs id = .ok legs ∧ leg ∈ legs ∧ st.debitAccountID = leg.sourceTokenID ∧
      (i = leg.ledgerTransferID ∨ i = .post leg.ledgerTransferID ∨
        i = .void leg.ledgerTransferID) := by
  cases hinv.ledger.origin _ hm with
  | move he hleg hlegs | reserve he hleg hlegs =>
    cases he
    exact ⟨_, _, _, hlegs, hleg, rfl, Or.inl rfl⟩
  | post he hleg hlegs =>
    cases he
    exact ⟨_, _, _, hlegs, hleg, rfl, Or.inr (Or.inl rfl)⟩
  | void he hleg hlegs =>
    cases he
    exact ⟨_, _, _, hlegs, hleg, rfl, Or.inr (Or.inr rfl)⟩

/-- **The Tokens of an open Transaction are its own**, where requests are confined:
whatever the ledger holds against a Token tagged with a Transaction that is open
is a leg of one of its children, or of the Reversal its own rollback requested
for one. -/
theorem reservation_holds {c : System}
    (h : Pool.Reachable (freeRun Confined) .init c) {tid tok : Id}
    (hopen : c.state.isOpen tid = true) (hne : tid ≠ Id.empty) (htag : c.state.Tagged tok tid)
    {i : Id} {st : StoredTransfer} (hm : (i, st) ∈ c.state.ledger.transfers)
    (hdebit : st.debitAccountID = tok) :
    ∃ id legs leg, OfTransaction c.state tid id ∧ c.state.legs id = .ok legs ∧ leg ∈ legs ∧
      (i = leg.ledgerTransferID ∨ i = .post leg.ledgerTransferID ∨
        i = .void leg.ledgerTransferID) := by
  obtain ⟨hinv, hplans, hmembers, hrev⟩ := (reachable_upheld refusals_true confined_upheld h).1
  obtain ⟨id, legs, leg, hlegs, hleg, hsource, hid⟩ := leg_of_stored hinv hm
  rw [hdebit] at hsource
  exact ⟨id, legs, leg, ofTransaction_of_leg hinv hplans hmembers hrev hopen hne hlegs hleg
    (hsource ▸ htag), hlegs, hleg, hid⟩

/-- The deposit up to the moment its child has committed; its Transaction is
still open. -/
def openDeposit {guard : Driver → Op → World → Prop} : List (Move (freeRun guard)) :=
  inTurn 0 (deposit.take 5)

/-- The same, each step of it confined. -/
def confinedDeposit : List (Move (freeRun Confined)) := openDeposit

theorem reservation_holds_deposit :
    (playedUnder confinedDeposit).state.isOpen (.uuid 2) = true ∧
      (.v7 0, ⟨.sourceToken (.uuid 3), .destinationToken (.uuid 3), 100, "USD", .regular,
        Id.empty⟩) ∈ (playedUnder confinedDeposit).state.ledger.transfers ∧
      ∃ id legs leg, OfTransaction (playedUnder confinedDeposit).state (.uuid 2) id ∧
        (playedUnder confinedDeposit).state.legs id = .ok legs ∧ leg ∈ legs ∧
        (.v7 0 = leg.ledgerTransferID ∨ .v7 0 = Id.post leg.ledgerTransferID ∨
          .v7 0 = Id.void leg.ledgerTransferID) := by
  have hopen : (playedUnder confinedDeposit).state.isOpen (.uuid 2) = true := by decide +kernel
  have hm : (.v7 0, ⟨.sourceToken (.uuid 3), .destinationToken (.uuid 3), 100, "USD", .regular,
      Id.empty⟩) ∈ (playedUnder confinedDeposit).state.ledger.transfers := by
    decide +kernel
  have htag : (playedUnder confinedDeposit).state.Tagged (.sourceToken (.uuid 3)) (.uuid 2) :=
    ⟨.uuid 0, .uuid 0, ⟨100, "USD"⟩, by decide +kernel⟩
  exact ⟨hopen, hm, reservation_holds (playedUnder_reachable confinedDeposit) hopen (by decide) htag
    hm rfl⟩

/-- Then a client reverses the child. -/
def reverseUnderOpen : List (Move anyRun) :=
  openDeposit ++ inTurn 5 [.requestReversal ⟨.uuid 9, .uuid 3, false, Id.empty⟩,
    .resumeTransfer (.uuid 9)]

/-- **A client's Reversal takes from a Token an open Transaction holds**: the
Transaction is still open, and the ledger has debited the Token its child
produced for a leg of `uuid 9`, which is neither a child of the Transaction nor a
Reversal of its own. -/
theorem reversed_under_open :
    Pool.Reachable anyRun .init (played reverseUnderOpen) ∧
      (played reverseUnderOpen).state.isOpen (.uuid 2) = true ∧
      (played reverseUnderOpen).state.Tagged (.destinationToken (.uuid 3)) (.uuid 2) ∧
      (.v7 1, ⟨.destinationToken (.uuid 3), .sourceToken (.uuid 3), 100, "USD", .regular,
        Id.empty⟩) ∈ (played reverseUnderOpen).state.ledger.transfers ∧
      (played reverseUnderOpen).state.legs (.uuid 9) =
        .ok [⟨.destinationToken (.uuid 3), .sourceToken (.uuid 3), ⟨100, "USD"⟩, .v7 1⟩] ∧
      ¬ OfTransaction (played reverseUnderOpen).state (.uuid 2) (.uuid 9) := by
  refine ⟨played_reachable _, by decide +kernel,
    ⟨.uuid 1, .uuid 1, ⟨100, "USD"⟩, by decide +kernel⟩,
    by decide +kernel, by decide +kernel, ?_⟩
  rintro (hchild | ⟨c, a, hid, -⟩)
  · revert hchild
    decide +kernel
  · cases hid

end MoneyFlow.Transaction
