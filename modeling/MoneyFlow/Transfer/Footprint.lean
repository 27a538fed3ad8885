import MoneyFlow.Footprint
import MoneyFlow.Transfer.Invariant

/-!
# MoneyFlow.Transfer.Footprint

What each function of the Transfer service can ever write.

The functions that take a claim or submit to the ledger are stated relative to
what the contract asks of claims and ledger requests: `Requests C batch w` says
that from `w` on every chain of `batch` may be submitted, and `OnClaim` what is
needed once a claim is taken.
-/

namespace MoneyFlow

open Concurrent Service

variable {fuel seq : Nat} {legs : List TransferLeg} {reason : Text} {e : TransferEvent}
  {pre : State} {batch : List LedgerTransfer} {posting : Bool} {rows : List (Row TransferEvent)}

variable {C : Contract World Op} {S : Scope} {w : World} {id : Id}

/-! ### Manifests -/

section

variable (hC : Reads C)
include hC

theorem Transaction.isOpen_obeys (tid : Id) (w : World) : Obeys C (isOpen tid) w := by
  refine Obeys.request (hC _ rfl) fun rows => ?_
  split <;> exact Obeys.pure

theorem Transaction.transactionExists_obeys (tid : Id) (w : World) :
    Obeys C (transactionExists tid) w :=
  Obeys.request (hC _ rfl) fun _ => Obeys.pure

end

namespace Transfer

section

variable (hC : Reads C)
include hC

theorem selectSourceTokens_obeys (walletID : Id) (amount : Money) (calling : Id) (w : World) :
    Obeys C (selectSourceTokens walletID amount calling) w := by
  refine Obeys.bind
    (Wallet.tokensOfVisibleTo_obeys hC (Transaction.isOpen_obeys hC) w) fun ids => ?_
  refine Obeys.request (hC _ rfl) fun bs => ?_
  refine check_bind_obeys fun taken _ => ?_
  obtain ⟨legs, short⟩ := taken
  dsimp only
  split <;> exact Obeys.pure

theorem wouldAcceptTransfer_obeys (walletID : Id) (amount : Money) (calling : Id) (w : World) :
    Obeys C (wouldAcceptTransfer walletID amount calling) w := by
  refine Obeys.bind (selectSourceTokens_obeys hC walletID amount calling w) fun r => ?_
  cases r <;> exact Obeys.pure

theorem validateMintSource_obeys (tid walletID : Id) (w : World) :
    Obeys C (validateMintSource tid walletID) w := by
  refine Obeys.bind_bool (Transaction.transactionExists_obeys hC tid w) Obeys.pure ?_
  refine Obeys.bind_option (Wallet.opened_obeys hC walletID w) Obeys.pure fun wallet => ?_
  dsimp only
  split <;> exact Obeys.pure

theorem acceptRejection_obeys (req : RequestTransferRequest) (amount : Money) (w : World) :
    Obeys C (acceptRejection req amount) w := by
  unfold acceptRejection
  split
  · exact validateMintSource_obeys hC _ _ w
  · exact wouldAcceptTransfer_obeys hC _ _ _ w

theorem reversalManifest_obeys (id : Id) (w : World) : Obeys C (reversalManifest id) w := by
  refine Obeys.request (hC _ rfl) fun rows => ?_
  split
  · exact Obeys.pure
  · split
    · exact Obeys.pure
    · split
      · exact Ensures.throw
      · exact Obeys.pure

/-! ### Appends and claims -/

theorem overtaken_obeys (w : World) : ∀ ws, Obeys C (overtaken ws) w
  | [] => Obeys.pure
  | x :: rest => by
    unfold overtaken
    split
    · exact overtaken_obeys w rest
    · refine Obeys.request (hC _ rfl) fun rows => ?_
      split
      · exact Obeys.pure
      · exact overtaken_obeys w rest

theorem stillHoldsClaim_obeys (seq : Nat) (w : World) : Obeys C (stillHoldsClaim id seq) w := by
  refine Obeys.request (hC _ rfl) fun rows => ?_
  split <;> exact Obeys.pure

end

/-- From `w` on, the outcome may be appended with the balances it moved, where the
transition to it was checked. -/
def MayRecord (C : Contract World Op) (id : Id) (e : TransferEvent) (legs : List TransferLeg)
    (w : World) : Prop :=
  ∀ w1, w ≤ w1 → e.eventType ∈ transitions (currentState (eventsOf (w1.transfer id))) →
    Ensures C (Token.balanceWrites (legTokens legs)) (fun ws => PermitsFrom C
      (.appendAtomic (ws ++ [⟨.transfer, id, (w1.transfer id).length, [e]⟩]))) w1

section

variable (hC : Lenient C S)
include hC

theorem tryAppend_obeys (hS : S.transfer id [e]) (w : World) : Obeys C (tryAppend id seq e) w := by
  refine hC.transfer hS fun r => ?_
  split
  · exact Obeys.pure
  · exact Obeys.pure
  · exact Ensures.throw

omit hC in
/-- Recording an outcome that may be appended with the balances it moved; once it
returns, the outcome is recorded. -/
theorem recordOutcome_records (hC : Reads C) (hp : MayRecord C id e legs w) :
    ∀ fuel, Ensures C (recordOutcome id e legs fuel)
      (fun _ w' => Recorded e.eventType (eventsOf (w'.transfer id))) w
  | 0 => Ensures.halted
  | fuel + 1 => by
    refine load_obeys (hC _ rfl) fun w1 hle1 _ => ?_
    split
    · rename_i hlatest
      exact Ensures.pure fun _ hle2 => (recorded_latest hlatest).grow (World.transfer_grow hle2 id)
    · split
      · exact Ensures.throw
      · rename_i htrans
        refine (hp w1 hle1 (not_not.mp htrans)).seq fun ws w2 hle2 hws => ?_
        refine Ensures.request fun w3 hle3 ha => ⟨hws w3 hle3 ha, fun r w4 hx => ?_⟩
        have hle := hle1.trans (hle2.trans (hle3.trans (World.le_of_exec hx)))
        rcases World.exec_append hx with ⟨st, rfl, hst, rfl⟩ | ⟨⟨err, rfl⟩, -⟩
        · obtain ⟨-, hlanded⟩ := appendAtomic_landed hst
            (List.mem_append_right _ (List.mem_singleton.mpr rfl)) (by simp)
          refine Ensures.pure fun w5 hle5 => Recorded.grow ?_ (World.transfer_grow hle5 id)
          refine ⟨e, ?_, rfl⟩
          rw [show World.transfer { w3 with store := st } id = _ from hlanded, eventsOf_append,
            eventsOf_rowsFrom]
          exact List.mem_append_right _ (List.mem_singleton.mpr rfl)
        · cases err with
          | concurrencyConflict =>
            refine (overtaken_obeys hC w4 _).seq_true (fun _ => Ensures.throw) fun w5 hle5 _ => ?_
            refine Obeys.request (hC _ rfl) fun _ => ?_
            exact (recordOutcome_records hC hp fuel).grow (hle.trans hle5)
          | _ => exact Ensures.throw

theorem recordOutcome_obeys (hS : S.transfer id [e]) (w : World) (fuel : Nat) :
    Obeys C (recordOutcome id e legs fuel) w :=
  Obeys.of_ensures (recordOutcome_records hC.reads
    (fun w1 _ _ => (hC.balances _ w1).mono fun _ _ _ h => h _ hS) fuel)

omit hC in
/-- Recording an outcome that may be appended from now on, whatever balances go with
it. -/
theorem recordOutcome_permitted (hC : Open C S)
    (hp : ∀ ws seq, (∀ x ∈ ws, x.Publishes) →
      PermitsFrom C (.appendAtomic (ws ++ [⟨.transfer, id, seq, [e]⟩])) w)
    (fuel : Nat) : Obeys C (recordOutcome id e legs fuel) w := by
  refine Obeys.of_ensures (recordOutcome_records hC.lenient.reads (fun w1 hle _ => ?_) fuel)
  refine (hC.observing.balanceWrites _ w1).mono fun ws w2 hle2 hws => ?_
  exact (hp ws _ fun x hx => (hws x hx).publishes).grow (hle.trans hle2)

omit hC in
/-- What a driver that waited for its turn knows: the stream as it read it, with no
claim on it but a stale one of the same kind. -/
theorem awaitUnclaimed_returns (hread : ∀ o : Op, o.isRead = true → Permits C o)
    {next : TransferEvent} : ∀ (fuel : Nat) {w : World},
    Ensures C (awaitUnclaimed id pre next fuel)
      (fun r w' => ∀ rows, r = some rows → rows <+: w'.transfer id ∧
        currentState (eventsOf rows) = pre ∧
        ∀ live, liveMarker rows = some live → live.event.eventType = next.eventType) w
  | 0, _ => Ensures.halted
  | fuel + 1, w => by
    refine Ensures.request fun w1 _ ha => ⟨hread _ rfl w1 ha, fun rows w2 hx => ?_⟩
    cases hx
    split
    · exact Ensures.pure fun _ _ rows h => by simp at h
    · rename_i hstate
      have hstate := not_not.mp hstate
      split
      · rename_i hnone
        refine Ensures.pure fun w3 hle rows h => ?_
        cases h
        refine ⟨hle.stream .transfer id, hstate, fun live hlive => ?_⟩
        rw [hnone] at hlive
        simp at hlive
      · rename_i live hlive
        refine Obeys.request (hread _ rfl) fun t => ?_
        split
        · split
          · exact Ensures.throw
          · rename_i hsame
            refine Ensures.pure fun w3 hle rows h => ?_
            cases h
            refine ⟨hle.stream .transfer id, hstate, fun live' hlive' => ?_⟩
            rw [hlive] at hlive'
            cases hlive'
            exact not_not.mp hsame
        · exact Obeys.request (hread _ rfl) fun _ => awaitUnclaimed_returns hread fuel

theorem awaitUnclaimed_obeys {next : TransferEvent} (w : World) (fuel : Nat) :
    Obeys C (awaitUnclaimed id pre next fuel) w :=
  Obeys.of_ensures (awaitUnclaimed_returns hC.reads fuel)

theorem claimForDispatch_obeys {marker : TransferEvent} (hS : S.transfer id [marker]) (w : World) :
    ∀ fuel, Obeys C (claimForDispatch id pre marker fuel) w
  | 0 => Ensures.halted
  | fuel + 1 => by
    refine Obeys.bind_option (awaitUnclaimed_obeys hC w fuel) Obeys.pure fun rows => ?_
    refine hC.transfer hS fun r => ?_
    split
    · exact Obeys.pure
    · exact claimForDispatch_obeys hS w fuel
    · exact Ensures.throw

theorem compensate_obeys (hS : S.transfer id [.transferFailed id reason]) (w : World) :
    Obeys C (compensate fuel id seq reason) w := by
  exact Obeys.bind_bool (stillHoldsClaim_obeys hC.reads seq w) Obeys.pure
    (recordOutcome_obeys hC hS w fuel)

end

/-! ### Ledger requests -/

/-- From `w` on, every chain of the batch may be submitted. -/
def Requests (C : Contract World Op) (batch : List LedgerTransfer) (w : World) : Prop :=
  ∀ chain ∈ chains batch, PermitsFrom C (.createTransfers chain) w

section

variable (hC : Lenient C S)
include hC

theorem submitChains_obeys {onReject : LedgerRefusal → Service Unit}
    (hon : ∀ r, Obeys C (onReject r) w) : ∀ (rest : List (List LedgerTransfer)) (c : Nat),
      (∀ chain ∈ rest, PermitsFrom C (.createTransfers chain) w) →
      Obeys C (submitChains fuel batch onReject c rest) w
  | [], _, _ => Obeys.pure
  | chain :: rest, c, h => by
    refine Obeys.bind ?_ fun r => ?_
    · refine Obeys.request_from (h chain List.mem_cons_self) fun r => ?_
      split
      · exact Obeys.pure
      · exact Ensures.throw
      · exact Obeys.pure
    · cases r with
      | none =>
        exact submitChains_obeys hon rest (c + 1) fun chain' hc =>
          h chain' (List.mem_cons_of_mem _ hc)
      | some refusal =>
        dsimp only
        split
        · refine Obeys.bind (hC.record fuel _ w) fun _ => ?_
          exact Obeys.bind (hon refusal) fun _ => Obeys.pure
        · exact Obeys.bind (hon refusal) fun _ => Obeys.pure

theorem submitBatch_obeys {onReject : LedgerRefusal → Service Unit} (hb : Requests C batch w)
    (hon : ∀ r, Obeys C (onReject r) w) : Obeys C (submitBatch fuel batch onReject) w :=
  submitChains_obeys hC hon _ 0 hb

theorem stageClaimed_obeys (hb : Requests C (reservations legs) w)
    (hf : ∀ reason, S.transfer id [.transferFailed id reason])
    (hs : Obeys C (recordOutcome id (.transferStaged id) legs fuel) w) :
    Obeys C (stageClaimed fuel id seq legs) w := by
  refine Obeys.bind_bool (stillHoldsClaim_obeys hC.reads seq w) Obeys.pure ?_
  refine Obeys.bind_bool (submitBatch_obeys hC hb fun r => compensate_obeys hC (hf _) w) Obeys.pure
    ?_
  exact Obeys.bind_bool (stillHoldsClaim_obeys hC.reads seq w) Obeys.pure hs

theorem settle_obeys (hb : Requests C batch w)
    (hf : ∀ reason, S.transfer id [.transferFailed id reason]) :
    Obeys C (settle fuel id seq batch) w := by
  refine Obeys.bind (submitBatch_obeys hC hb fun r => ?_) fun _ => Obeys.pure
  split
  · exact Ensures.throw
  · exact compensate_obeys hC (hf _) w

/-- What committing may submit. -/
def Movable (C : Contract World Op) (legs : List TransferLeg) (posting : Bool) (w : World) : Prop :=
  Requests C (posts legs) w ∧
    (posting = false → Requests C (movements legs) w ∧ Requests C (reservations legs) w)

theorem moveMoney_obeys (hb : Movable C legs posting w)
    (hf : ∀ reason, S.transfer id [.transferFailed id reason]) :
    Obeys C (moveMoney fuel id seq legs posting) w := by
  unfold moveMoney
  cases posting with
  | true => exact settle_obeys hC hb.1 hf
  | false =>
    obtain ⟨hmove, hres⟩ := hb.2 rfl
    simp only [Bool.false_eq_true, if_false]
    split
    · exact settle_obeys hC hmove hf
    · refine Obeys.bind_bool (submitBatch_obeys hC hres fun r => compensate_obeys hC (hf _) w)
        Obeys.pure ?_
      exact Obeys.bind_bool (stillHoldsClaim_obeys hC.reads seq w) Obeys.pure
        (settle_obeys hC hb.1 hf)

theorem commitClaimed_obeys (hb : Movable C legs posting w)
    (hf : ∀ reason, S.transfer id [.transferFailed id reason])
    (hc : S.transfer id [.transferCommitted id (buildDestinations legs)]) :
    Obeys C (commitClaimed fuel id seq legs posting) w := by
  refine Obeys.bind_bool (stillHoldsClaim_obeys hC.reads seq w) Obeys.pure ?_
  refine Obeys.bind_bool (moveMoney_obeys hC hb hf) ?_ Obeys.pure
  exact Obeys.bind_bool (stillHoldsClaim_obeys hC.reads seq w) Obeys.pure
    (recordOutcome_obeys hC hc w fuel)

end

/-- If the claim is taken, `Q` holds of its position. -/
def OnClaim (C : Contract World Op) (fuel : Nat) (id : Id) (pre : State) (marker : TransferEvent)
    (Q : Nat → World → Prop) (w : World) : Prop :=
  Ensures C (claimForDispatch id pre marker fuel) (fun r w' => ∀ seq, r = some seq → Q seq w') w

section

variable (hC : Lenient C S)
include hC

/-- Staging, given what is needed once the claim is taken. -/
theorem stage_obeys
    (h : ∀ w1 legs, w ≤ w1 → w1.legs id = .ok legs →
      OnClaim C fuel id .prepared (.stagingTransferStarted id)
        (fun seq => Obeys C (stageClaimed fuel id seq legs)) w1) :
    Obeys C (stage fuel id) w := by
  refine hC.load fun w1 hle _ => check_bind_obeys fun legs hlegs => ?_
  refine (h w1 legs hle hlegs).seq_some (fun _ => Obeys.pure) fun seq w2 _ hr => ?_
  exact hr seq rfl

/-- Committing, given what is needed once the claim is taken. -/
theorem commit_obeys
    (h : ∀ w1 legs pre, w ≤ w1 → w1.legs id = .ok legs →
      OnClaim C fuel id pre (.transferCommittingStarted id)
        (fun seq => Obeys C (commitClaimed fuel id seq legs (pre == .pending))) w1) :
    Obeys C (commit fuel id) w := by
  refine hC.load fun w1 hle _ => check_bind_obeys fun legs hlegs => ?_
  dsimp only
  split
  · exact Obeys.pure
  · refine (h w1 legs _ hle hlegs).seq_some (fun _ => Obeys.pure) fun seq w2 _ hr => ?_
    exact hr seq rfl

/-- Cancelling, given what is needed once the claim is taken. -/
theorem cancelStaged_obeys (hS : S.transfer id [.transferCancelled id reason])
    (h : ∀ w1 legs pre, w ≤ w1 → w1.legs id = .ok legs →
      OnClaim C fuel id pre (.cancellingStagedTransferStarted id reason)
        (fun _ => Requests C (voids legs)) w1) :
    Obeys C (cancelStaged fuel id reason) w := by
  refine hC.load fun w1 hle _ => check_bind_obeys fun legs hlegs => ?_
  dsimp only
  split
  · exact Obeys.pure
  · refine (h w1 legs _ hle hlegs).seq_some (fun _ => Obeys.pure) fun seq w2 _ hr => ?_
    have hb : Requests C (voids legs) w2 := hr seq rfl
    refine Obeys.bind_bool (stillHoldsClaim_obeys hC.reads seq w2) Obeys.pure ?_
    refine Obeys.bind_bool (submitBatch_obeys hC hb fun _ => Ensures.throw) Obeys.pure ?_
    exact Obeys.bind_bool (stillHoldsClaim_obeys hC.reads seq w2) Obeys.pure
      (recordOutcome_obeys hC hS w2 fuel)

end

/-! ### Prepare -/

/-- The writes of a plan stay in scope. -/
def PlanWithin (S : Scope)
    (r : Except Text (List Leg × List StreamWrite)) : Prop :=
  ∀ plan, r = .ok plan → ∀ x ∈ plan.2, x.Within S

section

variable (hC : Lenient C S)
include hC

/-- Generating ids changes nothing else about the legs. -/
theorem generateLegs_returns (w : World) : ∀ plan,
    Ensures C (generateLegs id plan) (fun legs _ => legs.map plain = plan) w
  | [] => Ensures.pure fun _ _ => rfl
  | leg :: rest => by
    refine Obeys.request (hC.free _ rfl) fun n => ?_
    refine (generateLegs_returns w rest).seq fun legs w1 _ hlegs => ?_
    exact Ensures.pure fun _ _ => by simp [hlegs, plain]

theorem planSources_obeys (a : TransferAccepted)
    (hm : S.Mints (.sourceToken id) a.transactionID) (w : World) :
    Ensures C (planSources id a) (fun r _ => PlanWithin S r) w := by
  unfold planSources
  split
  · refine (validateMintSource_obeys hC.reads _ _ w).seq fun r w1 _ _ => ?_
    cases r with
    | some reason => exact Ensures.throw
    | none =>
      refine Obeys.request (hC.free _ rfl) fun rows => ?_
      refine (Token.mintWrites_obeys hC hm).seq fun r w2 _ hr => ?_
      cases r with
      | error reason => exact Ensures.throw
      | ok writes =>
        refine Ensures.pure fun _ _ plan h => ?_
        cases h
        exact hr writes rfl
  · refine (selectSourceTokens_obeys hC.reads _ _ _ w).seq fun r w1 _ _ => ?_
    cases r with
    | error reason => exact Ensures.pure fun _ _ plan h => by simp at h
    | ok legs =>
      refine Ensures.pure fun _ _ plan h => ?_
      cases h
      exact fun x hx => absurd hx List.not_mem_nil

theorem planForward_obeys (a : TransferAccepted)
    (hm : S.Mints (.sourceToken id) a.transactionID)
    (hd : S.Mints (.destinationToken id) a.transactionID) (w : World) :
    Ensures C (planForward id a) (fun r _ => PlanWithin S r) w := by
  refine (planSources_obeys hC a hm w).seq fun r w1 _ hr => ?_
  cases r with
  | error reason => exact Ensures.pure fun _ _ plan h => by simp at h
  | ok sources =>
    refine Obeys.request (hC.free _ rfl) fun rows => ?_
    refine (Token.mintWrites_obeys hC hd).seq fun r w2 _ hr2 => ?_
    cases r with
    | error reason => exact Ensures.throw
    | ok writes =>
      refine Ensures.pure fun _ _ plan h => ?_
      cases h
      intro x hx
      rcases List.mem_append.mp hx with hx | hx
      · exact hr sources rfl x hx
      · exact hr2 writes rfl x hx

/-- A Reversal mints nothing. -/
theorem planReversal_returns (a : ReversalAccepted) (w : World) :
    Ensures C (planReversal id a) (fun r _ => ∀ plan, r = .ok plan → plan.2 = []) w := by
  refine (reversalManifest_obeys hC.reads _ w).seq fun r w1 _ _ => ?_
  cases r with
  | error reason => exact Ensures.throw
  | ok legs =>
    refine Ensures.pure fun _ _ plan h => ?_
    cases h
    rfl

/-- From `w` on, the plan may land on the stream read as `rows`, whatever ledger
ids its legs get. -/
def Landable (C : Contract World Op) (id : Id) (rows : List (Row TransferEvent)) (w : World)
    (r : Except Text (List Leg × List StreamWrite)) : Prop :=
  ∀ plan ws, r = .ok (plan, ws) → ∀ legs stage, legs.map plain = plan →
    PermitsFrom C (.appendAtomic (ws ++ [⟨.transfer, id, rows.length,
      [TransferEvent.transferPrepared id legs, nextMarker id stage]⟩])) w

theorem landable_of_within {r : Except Text (List Leg × List StreamWrite)} (hr : PlanWithin S r)
    (hp : ∀ ls stage, S.transfer id [.transferPrepared id ls, nextMarker id stage]) :
    Landable C id rows w r := by
  intro plan ws hplan legs stage _
  refine (hC.append _ fun x hx => ?_).from w
  rcases List.mem_append.mp hx with hx | hx
  · exact hr _ hplan x hx
  · exact List.mem_singleton.mp hx ▸ hp legs stage

theorem finishPlan_obeys {r : Except Text (List Leg × List StreamWrite)}
    (hr : Landable C id rows w r) (hf : ∀ reason, S.transfer id [.transferFailed id reason]) :
    Obeys C (finishPlan id rows r) w := by
  cases r with
  | error reason =>
    refine Obeys.bind (tryAppend_obeys hC (hf _) w) fun landed => ?_
    cases landed <;> exact Obeys.pure
  | ok plan =>
    refine (generateLegs_returns hC w plan.1).seq fun legs w1 hle hlegs => ?_
    refine check_bind_obeys fun stage _ => ?_
    refine Obeys.request_from ((hr plan.1 plan.2 rfl legs stage hlegs).grow hle) fun r => ?_
    split
    · exact Obeys.pure
    · exact Obeys.bind_bool (overtaken_obeys hC.reads w1 _) Ensures.throw Obeys.pure
    · exact Ensures.throw

/-- Planning is in scope if the plans of what the stream is found to open with
are. -/
theorem tryPrepare_obeys (hf : ∀ reason, S.transfer id [.transferFailed id reason])
    (hforward : ∀ w1 a rest, w ≤ w1 → C.assume (.load .transfer id) w1 →
      eventsOf (w1.transfer id) = .transferRequestAccepted a :: rest →
      Ensures C (planForward id a) (fun r w' => Landable C id (w1.transfer id) w' r) w1)
    (hreversal : ∀ w1 a rest, w ≤ w1 → C.assume (.load .transfer id) w1 →
      eventsOf (w1.transfer id) = .reversalRequestAccepted a :: rest →
      Ensures C (planReversal id a) (fun r w' => Landable C id (w1.transfer id) w' r) w1) :
    Obeys C (tryPrepare id) w := by
  refine hC.load fun w1 hle ha => ?_
  split
  · exact Ensures.throw
  · rename_i first rest hes
    split
    · exact Obeys.pure
    · split
      · rename_i a
        exact (hforward w1 a rest hle ha hes).seq fun r w2 _ hr => finishPlan_obeys hC hr hf
      · rename_i a
        exact (hreversal w1 a rest hle ha hes).seq fun r w2 _ hr => finishPlan_obeys hC hr hf
      · exact Ensures.throw

theorem prepare_obeys (h : Obeys C (tryPrepare id) w) : ∀ fuel, Obeys C (prepare id fuel) w
  | 0 => Ensures.halted
  | fuel + 1 => by
    refine Obeys.bind h fun r => ?_
    cases r with
    | overtaken => exact Obeys.request (hC.free _ rfl) fun _ => prepare_obeys h fuel
    | nothing | claimed step => exact Obeys.pure

/-- Preparing is in scope if every mint and every plan is. -/
theorem tryPrepare_within (hm : ∀ tok tag, S.Mints tok tag)
    (hp : ∀ ls stage, S.transfer id [.transferPrepared id ls, nextMarker id stage])
    (hf : ∀ reason, S.transfer id [.transferFailed id reason]) (w : World) :
    Obeys C (tryPrepare id) w := by
  refine tryPrepare_obeys hC hf ?_ ?_
  · intro w1 a rest _ _ _
    exact (planForward_obeys hC a (hm _ _) (hm _ _) w1).mono fun r _ _ hr =>
      landable_of_within hC hr hp
  · intro w1 a rest _ _ _
    refine (planReversal_returns hC a w1).mono fun r _ _ hr => landable_of_within hC ?_ hp
    intro plan hplan x hx
    rw [hr plan hplan] at hx
    cases hx

theorem prepare_within (hm : ∀ tok tag, S.Mints tok tag)
    (hp : ∀ ls stage, S.transfer id [.transferPrepared id ls, nextMarker id stage])
    (hf : ∀ reason, S.transfer id [.transferFailed id reason]) (w : World) (fuel : Nat) :
    Obeys C (prepare id fuel) w :=
  prepare_obeys hC (tryPrepare_within hC hm hp hf w) fuel

/-! ### Cancelling what was not staged -/

theorem cancelUnclaimed_obeys (hS : S.transfer id [.preparedTransferCancelled id reason])
    (w : World) : ∀ fuel, Obeys C (cancelUnclaimed id reason fuel) w
  | 0 => Ensures.halted
  | fuel + 1 => by
    refine Obeys.bind_option (awaitUnclaimed_obeys hC w fuel) Obeys.pure fun rows => ?_
    exact Obeys.bind_bool (tryAppend_obeys hC hS w) (cancelUnclaimed_obeys hS w fuel) Obeys.pure

theorem cancelPrepared_obeys (ha : S.transfer id [.acceptedTransferCancelled id reason])
    (hp : S.transfer id [.preparedTransferCancelled id reason]) (w : World) :
    Obeys C (cancelPrepared fuel id reason) w := by
  refine Obeys.request (hC.free _ rfl) fun rows => ?_
  split
  · exact Ensures.throw
  · split
    · exact Obeys.bind (tryAppend_obeys hC ha w) fun _ => Obeys.pure
    · exact cancelUnclaimed_obeys hC hp w fuel
    · exact Obeys.pure
    · exact Obeys.pure
    · exact Obeys.pure
    · exact Ensures.throw

omit hC in
theorem runStep_obeys {p : Service Unit} (h : Obeys C p w) : Obeys C (runStep p) w := by
  refine Obeys.bind (Obeys.outcomeOf h) fun r => ?_
  split
  · exact Obeys.pure
  · exact Ensures.throw

theorem cancelAcceptedAttempts_obeys (ha : S.transfer id [.acceptedTransferCancelled id reason])
    (hp : S.transfer id [.preparedTransferCancelled id reason]) (w : World) :
    ∀ attempts, Obeys C (cancelAcceptedAttempts fuel id reason attempts) w
  | 0 => Ensures.throw
  | attempts + 1 => by
    have hstep : Obeys C (runStep (cancelPrepared fuel id reason)) w :=
      runStep_obeys (cancelPrepared_obeys hC ha hp w)
    refine Obeys.request (hC.free _ rfl) fun rows => ?_
    split
    · exact Ensures.throw
    · split
      · exact Obeys.pure
      · refine Obeys.bind hstep fun _ => Obeys.request (hC.free _ rfl) fun rows' => ?_
        split
        · exact Obeys.pure
        · exact cancelAcceptedAttempts_obeys ha hp w attempts
      · refine Obeys.bind hstep fun _ => Obeys.request (hC.free _ rfl) fun rows' => ?_
        split
        · exact Obeys.pure
        · exact cancelAcceptedAttempts_obeys ha hp w attempts
      · exact Ensures.throw

theorem cancelAcceptedTransfer_obeys (ha : S.transfer id [.acceptedTransferCancelled id reason])
    (hp : S.transfer id [.preparedTransferCancelled id reason]) (w : World) :
    Obeys C (cancelAcceptedTransfer fuel id reason) w :=
  check_bind_obeys fun _ _ => cancelAcceptedAttempts_obeys hC ha hp w _

/-! ### Requests -/

omit hC in
/-- A request keeps a contract if what it decides may be recorded once it has
decided so. -/
theorem requestTransferAttempts_obeys {req : RequestTransferRequest} {amount : Money}
    (hload : Permits C (.load .transfer req.id))
    (ha : ∀ w, Ensures C (acceptRejection req amount) (fun r w' => r = none →
      Obeys C (tryAppend req.id 0 (.transferRequestAccepted (acceptedOf req amount))) w') w)
    (hr : ∀ reason w, Obeys C (tryAppend req.id 0 (.transferRequestRejected req.id reason)) w) :
    ∀ attempts w, Obeys C (requestTransferAttempts req amount attempts) w
  | 0, _ => Ensures.throw
  | attempts + 1, w => by
    refine Obeys.request hload fun rows => ?_
    split
    · refine (ha w).seq fun r w1 _ hr1 => ?_
      cases r with
      | none =>
        exact Obeys.bind_bool (hr1 rfl) (requestTransferAttempts_obeys hload ha hr attempts w1)
          Obeys.pure
      | some reason =>
        exact Obeys.bind_bool (hr reason w1) (requestTransferAttempts_obeys hload ha hr attempts
          w1) Obeys.pure
    · exact check_obeys _ w

theorem requestTransfer_obeys {req : RequestTransferRequest}
    (ha : ∀ amount, validateRequest req = .ok amount →
      S.transfer req.id [.transferRequestAccepted (acceptedOf req amount)])
    (hr : ∀ reason, S.transfer req.id [.transferRequestRejected req.id reason]) (w : World) :
    Obeys C (requestTransfer req) w := by
  refine check_bind_obeys fun amount h => requestTransferAttempts_obeys (hC.free _ rfl)
    (fun w1 => ?_) (fun reason => tryAppend_obeys hC (hr reason)) _ w
  exact (acceptRejection_obeys hC.reads req amount w1).mono fun _ w2 _ _ _ =>
    tryAppend_obeys hC (ha amount h) w2

theorem requestReversalAttempts_obeys {req : RequestReversalRequest}
    (ha : ∀ legs, S.transfer req.id [.reversalRequestAccepted (reversalAcceptedOf req legs)])
    (hr : ∀ reason, S.transfer req.id [.reversalRequestRejected req.id req.transferID reason])
    (w : World) :
    ∀ attempts, Obeys C (requestReversalAttempts req attempts) w
  | 0 => Ensures.throw
  | attempts + 1 => by
    refine Obeys.request (hC.free _ rfl) fun rows => ?_
    split
    · refine Obeys.bind (reversalManifest_obeys hC.reads req.transferID w) fun r => ?_
      cases r with
      | ok legs =>
        exact Obeys.bind_bool (tryAppend_obeys hC (ha legs) w)
          (requestReversalAttempts_obeys ha hr w attempts) Obeys.pure
      | error reason =>
        exact Obeys.bind_bool (tryAppend_obeys hC (hr reason) w)
          (requestReversalAttempts_obeys ha hr w attempts) Obeys.pure
    · exact check_obeys _ w

theorem requestReversal_obeys {req : RequestReversalRequest}
    (ha : ∀ legs, S.transfer req.id [.reversalRequestAccepted (reversalAcceptedOf req legs)])
    (hr : ∀ reason, S.transfer req.id [.reversalRequestRejected req.id req.transferID reason])
    (w : World) :
    Obeys C (requestReversal req) w :=
  check_bind_obeys fun _ _ => check_bind_obeys fun _ _ =>
    requestReversalAttempts_obeys hC ha hr w _

/-! ### Settling what was staged -/

theorem confirmStagedAttempts_obeys (hp : S.transfer id [.transferPending id])
    (hr : ∀ reason, S.transfer id [.confirmStagedTransferRejected id reason]) (w : World) :
    ∀ attempts, Obeys C (confirmStagedAttempts fuel id attempts) w
  | 0 => Ensures.throw
  | attempts + 1 => by
    refine Obeys.request (hC.free _ rfl) fun rows => ?_
    split
    · exact Obeys.pure
    · split
      · refine Obeys.bind (Obeys.outcomeOf (recordOutcome_obeys hC hp w fuel)) fun r => ?_
        cases r with
        | ok u => exact Obeys.pure
        | error e => exact Ensures.throw
      · exact Obeys.pure
      · exact Obeys.bind_bool (tryAppend_obeys hC (hr _) w)
          (confirmStagedAttempts_obeys hp hr w attempts) Obeys.pure

theorem confirmStagedTransfer_obeys (hp : S.transfer id [.transferPending id])
    (hr : ∀ reason, S.transfer id [.confirmStagedTransferRejected id reason]) (w : World) :
    Obeys C (confirmStagedTransfer fuel id) w :=
  check_bind_obeys fun _ _ => confirmStagedAttempts_obeys hC hp hr w _

theorem cancelStagedAttempts_obeys (hstep : Obeys C (cancelStaged fuel id reason) w)
    (hr : ∀ reason, S.transfer id [.cancelStagedTransferRejected id reason]) :
    ∀ attempts, Obeys C (cancelStagedAttempts fuel id reason attempts) w
  | 0 => Ensures.throw
  | attempts + 1 => by
    refine Obeys.request (hC.free _ rfl) fun rows => ?_
    split
    · exact Obeys.pure
    · split
      · refine Obeys.bind (runStep_obeys hstep) fun _ =>
          Obeys.request (hC.free _ rfl) fun rows' => ?_
        split
        · exact Obeys.pure
        · exact cancelStagedAttempts_obeys hstep hr attempts
      · refine Obeys.bind (runStep_obeys hstep) fun _ =>
          Obeys.request (hC.free _ rfl) fun rows' => ?_
        split
        · exact Obeys.pure
        · exact cancelStagedAttempts_obeys hstep hr attempts
      · exact Obeys.pure
      · exact Obeys.bind_bool (tryAppend_obeys hC (hr _) w)
          (cancelStagedAttempts_obeys hstep hr attempts) Obeys.pure

theorem cancelStagedTransfer_obeys (hstep : Obeys C (cancelStaged fuel id reason) w)
    (hr : ∀ reason, S.transfer id [.cancelStagedTransferRejected id reason]) :
    Obeys C (cancelStagedTransfer fuel id reason) w :=
  check_bind_obeys fun _ _ => cancelStagedAttempts_obeys hC hstep hr _

theorem postPendingAttempts_obeys (hstep : Obeys C (commit fuel id) w)
    (hr : ∀ reason, S.transfer id [.postPendingTransferRejected id reason]) :
    ∀ attempts, Obeys C (postPendingAttempts fuel id attempts) w
  | 0 => Ensures.throw
  | attempts + 1 => by
    refine Obeys.request (hC.free _ rfl) fun rows => ?_
    split
    · exact Obeys.pure
    · split
      · refine Obeys.bind (runStep_obeys hstep) fun _ =>
          Obeys.request (hC.free _ rfl) fun rows' => ?_
        split
        · exact check_obeys _ w
        · exact Ensures.throw
        · exact postPendingAttempts_obeys hstep hr attempts
      · exact check_obeys _ w
      · exact Obeys.bind_bool (tryAppend_obeys hC (hr _) w)
          (postPendingAttempts_obeys hstep hr attempts) Obeys.pure

theorem postPendingTransfer_obeys (hstep : Obeys C (commit fuel id) w)
    (hr : ∀ reason, S.transfer id [.postPendingTransferRejected id reason]) :
    Obeys C (postPendingTransfer fuel id) w :=
  check_bind_obeys fun _ _ => postPendingAttempts_obeys hC hstep hr _

end

/-! ### Resume -/

/-- The step a saga dispatches, given what is needed of the step taken. -/
theorem dispatch_obeys
    (hp : Ensures C (prepare id fuel) (fun r w' => ∀ step, r = some step →
      (step.stage = true → Obeys C (stageClaimed fuel id step.seq step.legs) w') ∧
      (step.stage = false → Obeys C (commitClaimed fuel id step.seq step.legs false) w')) w)
    (hstage : stageRequested (eventsOf rows) = .ok true → Obeys C (stage fuel id) w)
    (hcommit : stageRequested (eventsOf rows) = .ok false → Obeys C (commit fuel id) w) :
    Obeys C (dispatch fuel id rows) w := by
  unfold dispatch
  split
  · refine hp.seq_some (fun _ => Obeys.pure) fun next w1 _ hr => ?_
    obtain ⟨hstaged, hcommitted⟩ := hr next rfl
    dsimp only
    split
    · rename_i hs
      exact hstaged hs
    · rename_i hs
      exact hcommitted (Bool.eq_false_iff.mpr hs)
  · refine check_bind_obeys fun staging hreq => ?_
    split
    · rename_i hs
      exact hstage (hs ▸ hreq)
    · rename_i hs
      exact hcommit (Bool.eq_false_iff.mpr hs ▸ hreq)

/-- A saga keeps the contract if every step it may dispatch does. -/
theorem runSagaFrom_obeys (hload : Permits C (.load .transfer id))
    (hd : ∀ w1 fuel, w ≤ w1 → Obeys C (dispatch fuel id (w1.transfer id)) w1) :
    ∀ fuel w1, w ≤ w1 → Obeys C (runSagaFrom id fuel (w1.transfer id)) w1
  | 0, _, _ => Ensures.halted
  | fuel + 1, w1, hle => by
    unfold runSagaFrom
    split
    · exact Ensures.throw
    · split
      · exact Obeys.pure
      · have hstep : Obeys C (do
            dispatch fuel id (w1.transfer id)
            let rows' ← load .transfer id
            if currentState (eventsOf rows') = currentState (eventsOf (w1.transfer id)) then
              pure ()
            else runSagaFrom id fuel rows') w1 := by
          refine (hd w1 fuel hle).seq fun _ w2 hle2 _ => ?_
          refine load_obeys hload fun w3 hle3 _ => ?_
          split
          · exact Obeys.pure
          · exact runSagaFrom_obeys hload hd fuel w3 (hle.trans (hle2.trans hle3))
        split
        · exact hstep
        · exact hstep
        all_goals first | exact Obeys.pure | exact Ensures.throw

theorem resume_obeys (hload : Permits C (.load .transfer id))
    (hd : ∀ w1 fuel, w ≤ w1 → Obeys C (dispatch fuel id (w1.transfer id)) w1) :
    Obeys C (resume fuel id) w :=
  load_obeys hload fun w1 hle _ => runSagaFrom_obeys hload hd fuel w1 hle

/-! ### Contracts about other things than running a saga -/

/-- Every event that neither opens nor prepares a Transfer is in scope. -/
def Continues (S : Scope) : Prop :=
  ∀ id e, (opensStream e.eventType || e.eventType == .transferPrepared) = false →
    S.transfer id [e]

section

variable (hC : Lenient C S) (hS : Continues S) (hL : ∀ ts, Permits C (.createTransfers ts))
include hC hS hL

omit hC hS in
theorem requests_of_permits (batch : List LedgerTransfer) (w : World) : Requests C batch w :=
  fun chain _ => (hL chain).from w

theorem commitClaimed_continues (w : World) : Obeys C (commitClaimed fuel id seq legs posting) w :=
  commitClaimed_obeys hC ⟨requests_of_permits hL _ w, fun _ =>
    ⟨requests_of_permits hL _ w, requests_of_permits hL _ w⟩⟩
    (fun _ => hS id _ rfl) (hS id _ rfl)

theorem stageClaimed_continues (w : World) : Obeys C (stageClaimed fuel id seq legs) w :=
  stageClaimed_obeys hC (requests_of_permits hL _ w) (fun _ => hS id _ rfl)
    (recordOutcome_obeys hC (hS id _ rfl) w fuel)

theorem stage_continues (w : World) : Obeys C (stage fuel id) w := by
  refine stage_obeys hC fun w1 legs _ _ => ?_
  exact (claimForDispatch_obeys hC (hS id _ rfl) w1 fuel).mono fun _ w2 _ _ seq _ =>
    stageClaimed_continues hC hS hL w2

theorem commit_continues (w : World) : Obeys C (commit fuel id) w := by
  refine commit_obeys hC fun w1 legs _ _ _ => ?_
  exact (claimForDispatch_obeys hC (hS id _ rfl) w1 fuel).mono fun _ w2 _ _ seq _ =>
    commitClaimed_continues hC hS hL w2

theorem cancelStaged_continues (w : World) : Obeys C (cancelStaged fuel id reason) w := by
  refine cancelStaged_obeys hC (hS id _ rfl) fun w1 legs _ _ _ => ?_
  exact (claimForDispatch_obeys hC (hS id _ rfl) w1 fuel).mono fun _ w2 _ _ seq _ =>
    requests_of_permits hL _ w2

theorem resume_continues (hp : ∀ fuel, Obeys C (prepare id fuel) w) :
    Obeys C (resume fuel id) w := by
  refine resume_obeys (hC.free _ rfl) fun w1 fuel hle => dispatch_obeys ?_
    (fun _ => stage_continues hC hS hL w1)
    fun _ => commit_continues hC hS hL w1
  refine ((hp fuel).grow hle).mono fun r w2 _ _ step _ => ⟨fun _ => ?_, fun _ => ?_⟩
  · exact stageClaimed_continues hC hS hL w2
  · exact commitClaimed_continues hC hS hL w2

end

end Transfer

end MoneyFlow
