import MoneyFlow.Balances
import MoneyFlow.Transfer.Claims

/-!
# MoneyFlow.Transfer.Waiting

Whether a Transfer that waits still has its money reserved.

A reservation is settled under a claim, and a claim stays live until the step it
was taken for is over. So a staged or pending Transfer without a live claim should
have all its reservations open. `ConfirmStagedTransfer` breaks that: its
`TransferPending` advances the state over whatever claim there is, and a canceller
that holds one goes on to release the reservations of a Transfer that now waits to
be posted (`confirmed_over_cancel`). As long as no confirmation lands over a live
claim, a Transfer that waits has its money reserved (`waiting_reserved`).
-/

namespace MoneyFlow.Transfer

open Concurrent

variable {ty : TransferEventType} {o : Op}

variable {R : Prop} {w w' : World} {id : Id}

/-- A claim under which reservations are settled. -/
def settling (ty : TransferEventType) : Bool :=
  ty == .transferCommittingStarted || ty == .cancellingStagedTransferStarted

/-- The Transfer is staged or pending. -/
def Waits (w : World) (id : Id) : Prop :=
  currentState (eventsOf (w.transfer id)) = .staged ∨
    currentState (eventsOf (w.transfer id)) = .pending

/-- The write would confirm a Transfer on which a claim is live. -/
def confirmsClaimed (w : World) : StreamWrite → Bool
  | ⟨.transfer, id, _, [.transferPending _]⟩ => (liveMarker (w.transfer id)).isSome
  | _ => false

/-- No confirmation lands over a live claim. -/
def ConfirmsUnclaimed (_ : Driver) : Op → World → Prop
  | .appendAtomic ws, w =>
    (appendAtomic w.clock w.store ws).isOk = true → ∀ x ∈ ws, confirmsClaimed w x = false
  | _, _ => True

instance : ∀ d o w, Decidable (ConfirmsUnclaimed d o w) := by
  rintro d ⟨⟩ w <;> delta ConfirmsUnclaimed <;> infer_instance

/-! ### Claims on a stream -/

/-- Until it is staged only a Transfer that does not stage was claimed for a
settlement; while it waits, the live claim is of the kind of every such claim. -/
structure ClaimsOk (w : World) (id : Id) : Prop where
  early : (currentState (eventsOf (w.transfer id))).rank ≤ 2 →
    ∀ e ∈ eventsOf (w.transfer id), settling e.eventType = true → w.stage id = .ok false
  late : Waits w id → ∀ e ∈ eventsOf (w.transfer id), settling e.eventType = true →
    ∃ row, liveMarker (w.transfer id) = some row ∧ row.event.eventType = e.eventType

theorem settling_nextMarker {stage : Bool}
    (h : settling (nextMarker id stage).eventType = true) : stage = false := by
  cases stage with
  | false => rfl
  | true => exact nomatch (show false = true from h)

theorem settling_response (h : isResponse ty = true) : settling ty = false := by
  cases ty <;> simp [isResponse] at h <;> rfl

theorem settling_opens (h : opensStream ty = true) : settling ty = false := by
  cases ty <;> simp [opensStream] at h <;> rfl

theorem settling_transition {s : State} (h : ty ∈ transitions s) : settling ty = false := by
  cases s <;> cases ty <;> first | rfl | simp [transitions] at h

/-- A transition out of Accepted, Prepared, Staged or Pending goes past Prepared. -/
theorem rank_of_transition {s : State} (h : ty ∈ transitions s) :
    ∃ s', stateByEventType ty = some s' ∧ 2 < s'.rank := by
  cases s <;> cases ty <;> first
    | exact ⟨_, rfl, by decide⟩
    | simp [transitions] at h

/-- When a Transfer is staged or confirmed, no settlement was claimed yet: before it
was staged such a claim would be of a Transfer that does not stage, and after that it
would be live. -/
theorem ClaimsOk.unsettled {e : TransferEvent} (h : ClaimsOk w id)
    (ht : e.eventType ∈ transitions (currentState (eventsOf (w.transfer id))))
    (hs : stateByEventType e.eventType = some .staged ∨
      stateByEventType e.eventType = some .pending)
    (hstaging : ∀ i, e = .transferStaged i → w.stage id = .ok true)
    (hg : confirmsClaimed w ⟨.transfer, id, (w.transfer id).length, [e]⟩ = false) :
    ∀ e' ∈ eventsOf (w.transfer id), ¬ settling e'.eventType = true := by
  intro e' hm hset
  cases e with
  | transferStaged i =>
    have hprep : currentState (eventsOf (w.transfer id)) = .prepared := by
      revert ht
      cases currentState (eventsOf (w.transfer id)) <;>
        simp [transitions, TransferEvent.eventType]
    have hfalse := h.early (by rw [hprep]; decide) e' hm hset
    rw [hstaging i rfl] at hfalse
    exact absurd (Except.ok.inj hfalse) (by decide)
  | transferPending i =>
    have hstaged : currentState (eventsOf (w.transfer id)) = .staged := by
      revert ht
      cases currentState (eventsOf (w.transfer id)) <;>
        simp [transitions, TransferEvent.eventType]
    obtain ⟨row, hrow, -⟩ := h.late (Or.inl hstaged) e' hm hset
    rw [confirmsClaimed, hrow] at hg
    exact absurd hg (by simp)
  | _ => simp [stateByEventType, TransferEvent.eventType] at hs

/-- **An append keeps what is known of the claims of a Transfer.** -/
theorem ClaimsOk.append {ws : List StreamWrite} {events : List TransferEvent} {now seq : Nat}
    (h : ClaimsOk w id) (ha : TransferAppend w ws id events)
    (hc : Claiming w ⟨.transfer, id, (w.transfer id).length, events⟩)
    (hg : confirmsClaimed w ⟨.transfer, id, (w.transfer id).length, events⟩ = false)
    (hle : w ≤ w') (hw : w'.transfer id = w.transfer id ++ rowsFrom now seq events) :
    ClaimsOk w' id := by
  obtain ⟨hkind, hstaging⟩ := hc rfl
  have hes : eventsOf (w'.transfer id) = eventsOf (w.transfer id) ++ events := by
    rw [hw, eventsOf_append, eventsOf_rowsFrom]
  cases ha with
  | @opening e hnil he _ =>
    have hnone : ∀ e' ∈ eventsOf (w'.transfer id), settling e'.eventType = false := by
      rw [hes, hnil]
      intro e' hm
      rw [List.mem_singleton.mp hm]
      exact settling_opens he
    refine ⟨fun _ e' hm hs => ?_, fun _ e' hm hs => ?_⟩
    all_goals
      rw [hnone e' hm] at hs
      exact absurd hs Bool.false_ne_true
  | @prepared legs stage hs hstage _ _ =>
    have hstate : currentState (eventsOf (w'.transfer id)) = .prepared := by
      rw [hes]
      cases stage <;> simp [currentState, List.foldl_append, advance, stateByEventType,
        TransferEvent.eventType, nextMarker]
    refine ⟨fun _ e hm hset => World.stage_grow hle ?_, fun hwaits => ?_⟩
    · rw [hes] at hm
      rcases List.mem_append.mp hm with hm | hm
      · exact h.early (by rw [hs]; decide) e hm hset
      · rcases List.mem_cons.mp hm with rfl | hm
        · exact absurd hset Bool.false_ne_true
        · rw [List.mem_singleton.mp hm] at hset
          rw [hstage, settling_nextMarker hset]
    · exact absurd hwaits (by rw [Waits, hstate]; decide)
  | @outcome e ht _ =>
    obtain ⟨s, hs, hrank⟩ := rank_of_transition ht
    have hstate : currentState (eventsOf (w'.transfer id)) = s := by
      simp [hes, advance, hs]
    refine ⟨fun hlow => absurd hlow (by rw [hstate]; omega), fun hwaits e' hm hset => ?_⟩
    rw [Waits, hstate, ← Option.some_inj, ← Option.some_inj (b := State.pending), ← hs] at hwaits
    rw [hes] at hm
    rcases List.mem_append.mp hm with hm | hm
    · exact absurd hset (h.unsettled ht hwaits
        (fun i hi => hstaging i (hi ▸ List.mem_cons_self)) hg e' hm)
    · rw [List.mem_singleton.mp hm, settling_transition ht] at hset
      exact absurd hset Bool.false_ne_true
  | @claim e hs he hm =>
    have hstate : currentState (eventsOf (w'.transfer id)) =
        currentState (eventsOf (w.transfer id)) := by
      simp [hes, advance, stateByEventType_claim he]
    have hlive : liveMarker (w'.transfer id) = some ⟨seq + 1, e, now⟩ := by
      rw [hw, rowsFrom_cons, rowsFrom_nil, liveMarker_snoc, if_pos he]
    refine ⟨fun hlow e' hm' hset => World.stage_grow hle ?_, fun hwaits e' hm' hset => ?_⟩
    · rw [hstate] at hlow
      rw [hes] at hm'
      rcases List.mem_append.mp hm' with hm' | hm'
      · exact h.early hlow e' hm' hset
      · obtain rfl := List.mem_singleton.mp hm'
        have hprep : currentState (eventsOf (w.transfer id)) = .prepared := by
          revert hs hlow
          cases currentState (eventsOf (w.transfer id)) <;> simp [State.claimable, State.rank]
        obtain ⟨stage, hstage, rfl⟩ := hm hprep
        rw [hstage, settling_nextMarker hset]
    · rw [Waits, hstate] at hwaits
      refine ⟨_, hlive, ?_⟩
      rw [hes] at hm'
      rcases List.mem_append.mp hm' with hm' | hm'
      · obtain ⟨row, hrow, hty⟩ := h.late hwaits e' hm' hset
        exact (hkind e rfl he row hrow).symm.trans hty
      · rw [List.mem_singleton.mp hm']
  | @response e _ he =>
    obtain ⟨hnone, hclaim⟩ := stateByEventType_response he
    have hstate : currentState (eventsOf (w'.transfer id)) =
        currentState (eventsOf (w.transfer id)) := by
      simp [hes, advance, hnone]
    have hlive : liveMarker (w'.transfer id) = liveMarker (w.transfer id) := by
      rw [hw, rowsFrom_cons, rowsFrom_nil, liveMarker_snoc, hclaim, hnone]
      rfl
    have hold : ∀ e' ∈ eventsOf (w'.transfer id), settling e'.eventType = true →
        e' ∈ eventsOf (w.transfer id) := by
      intro e' hm hset
      rw [hes] at hm
      rcases List.mem_append.mp hm with hm | hm
      · exact hm
      · rw [List.mem_singleton.mp hm, settling_response he] at hset
        exact absurd hset Bool.false_ne_true
    refine ⟨fun hlow e' hm hset => World.stage_grow hle ?_, fun hwaits e' hm hset => ?_⟩
    · exact h.early (hstate ▸ hlow) e' (hold e' hm hset) hset
    · rw [hlive]
      rw [Waits, hstate] at hwaits
      exact h.late hwaits e' (hold e' hm hset) hset

/-! ### Runs -/

/-- What holds in every state: claims are as they should be, and nothing was settled
that was not claimed. -/
structure ClaimedOk (w : World) : Prop where
  first : FirstClaimed w
  claims : ∀ id, ClaimsOk w id
  licensed : ∀ e ∈ w.ledger.transfers, Licensed w e.2
  traced : w.ledger.Traced

theorem claimedOk_init : ClaimedOk .init where
  first _ _ _ h := nomatch h
  claims _ := ⟨fun _ _ hm => absurd hm List.not_mem_nil, fun _ _ hm => absurd hm List.not_mem_nil⟩
  licensed _ hm := absurd hm List.not_mem_nil
  traced := Ledger.traced_empty

theorem ClaimedOk.tick (h : ClaimedOk w) (ht : w.Tick w') : ClaimedOk w' := by
  obtain ⟨d, rfl⟩ := ht
  exact ⟨h.first, fun id => ⟨(h.claims id).early, (h.claims id).late⟩, h.licensed, h.traced⟩

theorem firstClaimed_step {r : Resp o} (h : FirstClaimed w) (hlegal : Legal R o w)
    (hx : w.Exec o r w') : FirstClaimed w' := by
  intro id legs stage hlegs hstage
  have hle : w ≤ w' := World.le_of_exec hx
  rcases legs_step hlegal hx hlegs with hold | ⟨ws, events, i, happ, hm, -⟩
  · have hne : eventsOf (w.transfer id) ≠ [] := by
      obtain ⟨i, hm⟩ := preparedLegs_mem hold
      exact List.ne_nil_of_mem hm
    have hsame : w.stage id = .ok stage :=
      (stageRequested_of_grow hne (World.transfer_grow hle id)).symm.trans hstage
    exact (h id legs stage hold hsame).grow hle
  · -- the claim lands with the legs
    have hlegal : TransferAppend w ws id events := happ.legal
    cases hlegal with
    | @prepared legs' stage' _ hstage' _ _ =>
      obtain rfl : stage' = stage :=
        Except.ok.inj ((World.stage_grow hle hstage').symm.trans hstage)
      refine ⟨nextMarker id stage', ?_, rfl⟩
      rw [show eventsOf (w'.transfer id) = _ from happ.events]
      exact List.mem_append_right _ (List.mem_cons_of_mem _ List.mem_cons_self)
    | opening _ he _ | claim _ he _ | response _ he =>
      rw [← List.mem_singleton.mp hm] at he
      exact nomatch (show false = true from he)
    | outcome ht _ =>
      rw [← List.mem_singleton.mp hm] at ht
      exact absurd rfl (transition_ne_prepared ht).1

theorem claimsOk_step {d : Driver} {r : Resp o} (h : ∀ id, ClaimsOk w id) (hlegal : Legal R o w)
    (hclaims : claims.ensure o w) (hg : ConfirmsUnclaimed d o w) (hx : w.Exec o r w') (id : Id) :
    ClaimsOk w' id := by
  rcases exec_stream hlegal hx .transfer id with hsame | ⟨ws, events, happ⟩
  · have hw : w'.transfer id = w.transfer id := hsame
    obtain ⟨hearly, hlate⟩ := h id
    unfold Waits at hlate
    constructor
    · unfold World.stage at hearly ⊢
      rwa [hw]
    · unfold Waits
      rwa [hw]
  · obtain rfl := happ.op
    obtain ⟨st, hst, -⟩ := happ.lands
    exact (h id).append happ.legal (hclaims _ happ.mem) (hg (by rw [hst]; rfl) _ happ.mem)
      (World.le_of_exec hx) happ.stream

theorem licensed_step {r : Resp o} (hinv : Inv R w) (h : ∀ e ∈ w.ledger.transfers, Licensed w e.2)
    (hlegal : Legal R o w) (hclaims : claims.ensure o w) (hx : w.Exec o r w') :
    ∀ e ∈ w'.ledger.transfers, Licensed w' e.2 := by
  intro e he
  refine Licensed.grow ?_ (World.le_of_exec hx)
  rcases exec_ledger hinv hlegal hx with hsame | ⟨as, -, hl⟩ | ⟨batch, rfl, -, hl⟩
  · exact h e (hsame ▸ he)
  · obtain ⟨m, hm⟩ := w.ledger.createAccounts_accounts as
    rw [hl, hm] at he
    exact h e he
  · rw [hl] at he
    rcases Ledger.createTransferRun_mem he with he | ⟨-, t, ht, rfl⟩
    · exact h e he
    · exact hclaims t ht

theorem traced_step {r : Resp o} (hinv : Inv R w) (h : w.ledger.Traced) (hlegal : Legal R o w)
    (hx : w.Exec o r w') : w'.ledger.Traced := by
  rcases exec_ledger hinv hlegal hx with hsame | ⟨as, -, hl⟩ | ⟨batch, -, -, hl⟩
  · rwa [hsame]
  · obtain ⟨m, hm⟩ := w.ledger.createAccounts_accounts as
    rw [hl, hm]
    exact h
  · rw [hl]
    exact Ledger.createTransferRun_traced h batch

theorem claimedOk_upheld : Upholds True (fun _ => True) ConfirmsUnclaimed
    (fun d => (driverContract True ConfirmsUnclaimed d).both claims) ClaimedOk where
  init := claimedOk_init
  tick _ _ ht h := h.tick ht
  safe d fuel w _ := d.claims refusals_true fuel w
  assume _ _ _ hg hinv h := ⟨⟨hg, hinv⟩, h.first⟩
  step _ _ _ _ _ hinv _ h hg hlegal hd hx :=
    ⟨firstClaimed_step h.first hlegal hx, claimsOk_step h.claims hlegal hd.2 hg hx,
      licensed_step hinv h.licensed hlegal hd.2 hx, traced_step hinv h.traced hlegal hx⟩

/-! ### Reservations -/

/-- The leg is reserved, neither posted nor released. -/
def HeldOpen (l : Ledger) (leg : TransferLeg) : Prop :=
  l.pending leg.ledgerTransferID =
    some ⟨leg.sourceTokenID, leg.destTokenID, leg.amount.minorUnits, .open⟩

/-- A settled leg was claimed for it. -/
theorem marked_of_settled {legs : List TransferLeg} {leg : TransferLeg} {rec : PendingRecord}
    (hinv : Inv R w) (h : ClaimedOk w) (hlegs : w.legs id = .ok legs) (hleg : leg ∈ legs)
    (hrec : w.ledger.pending leg.ledgerTransferID = some rec) (hst : rec.status ≠ .open) :
    ∃ e ∈ eventsOf (w.transfer id), settling e.eventType = true := by
  obtain ⟨e, he, hsettles, hp⟩ := h.traced _ rec hrec hst
  obtain ⟨ty, hty, hset⟩ : ∃ ty, claimOf e.2.kind = some ty ∧ settling ty = true := by
    revert hsettles
    cases e.2.kind <;> simp [TransferKind.settles, claimOf, settling]
  obtain ⟨id', legs', hlegs', hmem, e', hm', rfl⟩ := h.licensed e he ty hty
  obtain ⟨leg', hleg', hid⟩ := List.mem_map.mp hmem
  obtain ⟨rfl, -⟩ := leg_unique hinv.transfer hlegs hlegs' hleg hleg' (hp.symm.trans hid.symm)
  exact ⟨e', hm', hset⟩

/-- **A Transfer that waits, unclaimed, has its money reserved**: in every run in
which no confirmation lands over a live claim. -/
theorem waiting_reserved {c : System} (h : Pool.Reachable (freeRun ConfirmsUnclaimed) .init c)
    (hwaits : Waits c.state id) (hlive : liveMarker (c.state.transfer id) = none)
    {i : Id} {legs : List TransferLeg}
    (hm : .transferPrepared i legs ∈ eventsOf (c.state.transfer id)) {leg : TransferLeg}
    (hleg : leg ∈ legs) : HeldOpen c.state.ledger leg := by
  obtain ⟨hinv, hclaimed⟩ := (reachable_upheld refusals_true claimedOk_upheld h).1
  have hlegs : c.state.legs id = .ok legs := (hinv.lifecycle id).preparedLegs_of_mem hm
  have happlied := reserved_of_state hinv hlegs hwaits leg hleg
  obtain ⟨rec, hrec, hd, hcr, hu⟩ := hinv.ledger.sound.reserved _ _ happlied rfl
  have hst : rec.status = .open := by
    by_contra hst
    obtain ⟨e, he, hset⟩ := marked_of_settled hinv hclaimed hlegs hleg hrec hst
    obtain ⟨row, hrow, -⟩ := (hclaimed.claims id).late hwaits e he hset
    rw [hlive] at hrow
    cases hrow
  obtain ⟨debit, credit, units, status⟩ := rec
  obtain rfl : status = .open := hst
  obtain rfl : debit = leg.sourceTokenID := hd
  obtain rfl : credit = leg.destTokenID := hcr
  obtain rfl : units = leg.amount.minorUnits := hu
  exact hrec

/-- The deposit, and a Transfer of 40 of it that is asked to stage, up to where it
waits. -/
def stagedFromDeposit {guard : Driver → Op → World → Prop} : List (Move (freeRun guard)) :=
  inTurn 0 (deposit ++ [.openWallet ⟨.uuid 4, .uuid 100, "payee", .none⟩,
    .requestTransfer ⟨.uuid 5, .uuid 1, .uuid 4, some ⟨40, "USD"⟩, true, false, Id.empty⟩,
    .resumeTransfer (.uuid 5)])

/-- Its one leg. -/
abbrev stagedLeg : TransferLeg :=
  ⟨.destinationToken (.uuid 3), .destinationToken (.uuid 5), ⟨40, "USD"⟩, .v7 1⟩

/-- The same, under the guard. -/
abbrev stagedUnclaimed : List (Move (freeRun ConfirmsUnclaimed)) := stagedFromDeposit

theorem waiting_reserved_staged :
    let w := (playedUnder stagedUnclaimed).state
    Waits w (.uuid 5) ∧ liveMarker (w.transfer (.uuid 5)) = none ∧ HeldOpen w.ledger stagedLeg := by
  intro w
  have hwaits : Waits w (.uuid 5) := Or.inl (by decide +kernel)
  have hlive : liveMarker (w.transfer (.uuid 5)) = none := by decide +kernel
  have hm : .transferPrepared (.uuid 5) [stagedLeg] ∈ eventsOf (w.transfer (.uuid 5)) := by
    decide +kernel
  exact ⟨hwaits, hlive,
    waiting_reserved (playedUnder_reachable _) hwaits hlive hm List.mem_cons_self⟩

/-- A canceller of the staged Transfer has claimed it and released its reservation
when the Transfer is confirmed. -/
def confirmedOverCancel : List (Move anyRun) :=
  stagedFromDeposit ++ [start (.cancelStagedTransfer (.uuid 5) []) 20, .run 9 6,
    start (.confirmStagedTransfer (.uuid 5)) 20, .run 10 1000]

/-- **A confirmation erases the claim of a canceller**: the Transfer is Pending, no
claim on it is live, and its reservation is released. -/
theorem confirmed_over_cancel :
    let w := (played confirmedOverCancel).state
    Pool.Reachable anyRun .init (played confirmedOverCancel) ∧ Waits w (.uuid 5) ∧
      liveMarker (w.transfer (.uuid 5)) = none ∧
      .transferPrepared (.uuid 5) [stagedLeg] ∈ eventsOf (w.transfer (.uuid 5)) ∧
      ¬ HeldOpen w.ledger stagedLeg := by
  have hvoided : (played confirmedOverCancel).state.ledger.pending stagedLeg.ledgerTransferID =
      some ⟨.destinationToken (.uuid 3), .destinationToken (.uuid 5), 40, .voided⟩ := by
    decide +kernel
  refine ⟨played_reachable _, Or.inr (by decide +kernel), by decide +kernel, by decide +kernel, ?_⟩
  intro h
  unfold HeldOpen at h
  rw [hvoided] at h
  exact absurd h (by decide)

end MoneyFlow.Transfer
