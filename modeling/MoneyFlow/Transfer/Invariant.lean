import MoneyFlow.Transfer.Protocol

/-!
# MoneyFlow.Transfer.Invariant

What the Transfer protocol keeps: every stream is a `Lifecycle` of backed
events, and every transfer the ledger has applied has an `Origin` among the
recorded legs.

Evidence is kept as the world grows (`Backed.grow`, `Origin.grow`), so each step
only has to account for what it adds: `TransferOk.append` for an append,
`LedgerOk.request` for a ledger request.
-/

namespace MoneyFlow

open Concurrent Transfer

variable {l l' : Ledger} {ws : List StreamWrite} {events : List TransferEvent} {e : TransferEvent}
  {ty : TransferEventType}

/-! ### Growth -/

namespace World

variable {w w' : World} {id : Id}

theorem events_grow (h : w ≤ w') (a : Aggregate) (id : Id) :
    eventsOf (w.store a id) <+: eventsOf (w'.store a id) := eventsOf_grow (h.stream a id)

theorem transfer_grow (h : w ≤ w') (id : Id) :
    eventsOf (w.transfer id) <+: eventsOf (w'.transfer id) := events_grow h .transfer id

theorem legs_grow (h : w ≤ w') {ls : List TransferLeg} (hl : w.legs id = .ok ls) :
    w'.legs id = .ok ls := preparedLegs_grow hl (transfer_grow h id)

theorem stage_grow (h : w ≤ w') {b : Bool} (hs : w.stage id = .ok b) : w'.stage id = .ok b :=
  stageRequested_grow hs (transfer_grow h id)

/-- A final outcome is found for ever. -/
theorem outcome_grow (h : w ≤ w') (hL : Lifecycle (eventsOf (w'.transfer id)))
    (hf : (w.outcome id).final = true) : w'.outcome id = w.outcome id :=
  hL.outcome_final (transfer_grow h id) hf

/-- A Token is in one Wallet. -/
theorem MintedInto.wallet_unique {tok wid wid' : Id} (h : w.MintedInto tok wid)
    (h' : w.MintedInto tok wid') : wid = wid' := by
  obtain ⟨c, hc⟩ := h
  obtain ⟨c', hc'⟩ := h'
  rw [hc] at hc'
  simp only [Option.some.injEq, TokenEvent.tokenMinted.injEq] at hc'
  exact hc'.2.1

theorem MintedInto.grow {tok wid : Id} (hm : w.MintedInto tok wid) (h : w ≤ w') :
    w'.MintedInto tok wid := by
  obtain ⟨capacity, hc⟩ := hm
  obtain ⟨t, ht⟩ := events_grow h .token tok
  refine ⟨capacity, ?_⟩
  change (eventsOf (w'.store .token tok)).head? = _
  rw [← ht]
  change (eventsOf (w.store .token tok)).head? = _ at hc
  rw [List.head?_append, hc]
  rfl

end World

namespace Transfer

variable {w w' : World} {id : Id} {legs : List TransferLeg}

theorem Moved.grow (h : Moved l legs) (hg : l.Grows l') : Moved l' legs :=
  fun leg hl => (h leg hl).grow hg

theorem Reserved.grow (h : Reserved l legs) (hg : l.Grows l') : Reserved l' legs :=
  fun leg hl => (h leg hl).grow hg

theorem Posted.grow (h : Posted l legs) (hg : l.Grows l') : Posted l' legs :=
  fun leg hl => (h leg hl).grow hg

theorem Voided.grow (h : Voided l legs) (hg : l.Grows l') : Voided l' legs :=
  fun leg hl => (h leg hl).grow hg

theorem Doomed.grow (h : Doomed l legs) (hg : l.Grows l') : Doomed l' legs := by
  rcases h with ⟨leg, hl, hr⟩ | ⟨hres, leg, hl, hr⟩
  · exact Or.inl ⟨leg, hl, hg.refused.subset hr⟩
  · exact Or.inr ⟨hres.grow hg, leg, hl, hg.refused.subset hr⟩

theorem LegsOf.grow (h : LegsOf w id legs) (hle : w ≤ w') : LegsOf w' id legs := by
  refine ⟨h.1, fun leg hl => ?_⟩
  obtain ⟨n, hn, hi⟩ := h.2 leg hl
  obtain ⟨t, ht⟩ := hle.issued
  refine ⟨n, hn, ?_⟩
  rw [← ht, List.getElem?_append_left (List.getElem?_eq_some_iff.mp hi).1]
  exact hi

/-- A manifest stays one while its Tokens stay where they are. -/
theorem ManifestOf.grow {holds holds' : Id → Id → Prop} {plan : List Leg}
    {es es' : List TransferEvent} (h : ManifestOf holds w id plan es) (hle : w ≤ w')
    (hp : es <+: es') (hh : ∀ tok wid, holds tok wid → holds' tok wid) :
    ManifestOf holds' w' id plan es' := by
  obtain ⟨t, rfl⟩ := hp
  cases es with
  | nil => exact h.elim
  | cons e es =>
    cases e with
    | transferRequestAccepted a =>
      intro leg hl
      obtain ⟨hd, hto, hfrom, hm⟩ := h leg hl
      exact ⟨hd, hh _ _ hto, hh _ _ hfrom, hm⟩
    | reversalRequestAccepted a =>
      obtain ⟨original, ho, hmap, hheld⟩ := h
      refine ⟨original, World.legs_grow hle ho, hmap, fun leg hl => ?_⟩
      obtain ⟨⟨s, hs⟩, d, hd⟩ := hheld leg hl
      exact ⟨⟨s, hh _ _ hs⟩, d, hh _ _ hd⟩
    | _ => exact h.elim

theorem HeldAfter.mono {ws' : List StreamWrite} {tok wid : Id} (h : HeldAfter w ws tok wid)
    (hle : w ≤ w') (hsub : ws ⊆ ws') : HeldAfter w' ws' tok wid :=
  h.imp (fun hm => hm.grow hle) fun ⟨capacity, hm⟩ => ⟨capacity, hsub hm⟩

/-- What was not prepared when its stream was past Accepted never is. -/
theorem Unprepared.grow (h : Unprepared w id) (hle : w ≤ w')
    (hL : Lifecycle (eventsOf (w'.transfer id)))
    (hs : 2 ≤ (currentState (eventsOf (w.transfer id))).rank) : Unprepared w' id := by
  intro legs hlegs
  obtain ⟨i, hm⟩ := preparedLegs_mem hlegs
  have hmem := hL.prepared_earlier (World.transfer_grow hle id) hs hm
  obtain ⟨ls, hls⟩ := exists_preparedLegs hmem
  exact h ls hls

/-- What backs an event backs it for ever, as long as what ended a Transfer
unprepared does. -/
theorem Backed.grow (h : Backed w id e) (hle : w ≤ w')
    (hL : ∀ i, Lifecycle (eventsOf (w'.transfer i)))
    (hun : (stateByEventType e.eventType).any State.final = true → Unprepared w id →
      Unprepared w' id) :
    Backed w' id e := by
  cases e with
  | transferRequestAccepted a => exact h
  | reversalRequestAccepted a =>
    refine ⟨h.1, ?_⟩
    rw [World.outcome_grow hle (hL _) (by rw [h.2]; rfl)]
    exact h.2
  | transferPrepared i legs =>
    obtain ⟨hi, hlegs, hman⟩ := h
    exact ⟨hi, hlegs.grow hle, hman.grow hle (World.transfer_grow hle id) fun _ _ hm => hm.grow hle⟩
  | transferStaged i =>
    obtain ⟨legs, hlegs, hres⟩ := h
    exact ⟨legs, World.legs_grow hle hlegs, hres.grow hle.ledger⟩
  | transferCommitted i ds =>
    obtain ⟨legs, hlegs, hmoved⟩ := h
    exact ⟨legs, World.legs_grow hle hlegs,
      hmoved.imp (fun hm => hm.grow hle.ledger) fun hp => hp.grow hle.ledger⟩
  | transferFailed i r =>
    rcases h with ⟨legs, hlegs, hdoomed⟩ | hnone
    · exact Or.inl ⟨legs, World.legs_grow hle hlegs, hdoomed.grow hle.ledger⟩
    · exact Or.inr (hun rfl hnone)
  | transferCancelled i r =>
    obtain ⟨legs, hlegs, hvoid⟩ := h
    exact ⟨legs, World.legs_grow hle hlegs, hvoid.grow hle.ledger⟩
  | acceptedTransferCancelled i r => exact hun rfl h
  | preparedTransferCancelled i r => exact h.elim
  | _ => trivial

/-! ### Streams -/

/-- What holds of every Transfer's stream. -/
structure TransferOk (w : World) (id : Id) : Prop where
  lifecycle : Lifecycle (eventsOf (w.transfer id))
  backed : ∀ e ∈ eventsOf (w.transfer id), Backed w id e
  /-- A prepared Transfer is never without the claim its next step needs. -/
  claimed : currentState (eventsOf (w.transfer id)) = .prepared →
    ∃ row stage, liveMarker (w.transfer id) = some row ∧ w.stage id = .ok stage ∧
      row.event = nextMarker id stage

theorem transferOk_init (id : Id) : TransferOk .init id where
  lifecycle := History.nil
  backed _ he := absurd he List.not_mem_nil
  claimed hs := nomatch hs

/-- The part of a stream that a step did not write stays backed. -/
theorem TransferOk.backed_grow (h : TransferOk w id) (hle : w ≤ w')
    (hL : ∀ i, Lifecycle (eventsOf (w'.transfer i))) (he : e ∈ eventsOf (w.transfer id)) :
    Backed w' id e := by
  refine (h.backed e he).grow hle hL fun hfin hun => hun.grow hle (hL id) ?_
  obtain ⟨s, hs, hsfin⟩ : ∃ s, stateByEventType e.eventType = some s ∧ s.final = true := by
    simpa [Option.any_eq_true] using hfin
  have hrank := h.lifecycle.rank_of_mem he hs
  rw [State.final_iff.mp hsfin] at hrank
  omega

/-- A step that leaves the stream alone keeps it. -/
theorem TransferOk.grow (h : TransferOk w id) (hle : w ≤ w')
    (hL : ∀ i, Lifecycle (eventsOf (w'.transfer i))) (hw : w'.transfer id = w.transfer id) :
    TransferOk w' id where
  lifecycle := hL id
  backed := by
    rw [hw]
    exact fun e he => h.backed_grow hle hL he
  claimed := by
    unfold World.stage
    rw [hw]
    exact h.claimed

@[simp] theorem eventsOf_rowsFrom {E : Type} (now seq : Nat) (es : List E) :
    eventsOf (rowsFrom now seq es) = es := rowsFrom_event now seq es

theorem liveMarker_snoc (rows : List (Row TransferEvent)) (row : Row TransferEvent) :
    liveMarker (rows ++ [row]) =
      if isClaimMarkerType row.event.eventType then some row
      else if (stateByEventType row.event.eventType).isSome then none
      else liveMarker rows := by
  simp [liveMarker, liveMarkerFromEnd]

theorem nextMarker_isClaim (id : Id) (stage : Bool) :
    isClaimMarkerType (nextMarker id stage).eventType = true := by
  cases stage <;> rfl

/-- A claim marker does not advance the fold. -/
theorem stateByEventType_claim (h : isClaimMarkerType ty = true) : stateByEventType ty = none := by
  cases ty <;> simp [isClaimMarkerType] at h <;> rfl

theorem stateByEventType_response (h : isResponse ty = true) :
    stateByEventType ty = none ∧ isClaimMarkerType ty = false := by
  cases ty <;> simp [isResponse] at h <;> exact ⟨rfl, rfl⟩

theorem transition_ne_prepared {s : State} (h : ty ∈ transitions s) :
    ty ≠ .transferPrepared ∧ stateByEventType ty ≠ some .prepared ∧ stateByEventType ty ≠ none := by
  cases s <;> cases ty <;> simp_all [transitions, stateByEventType]

/-- An append the protocol allows keeps the lifecycle. -/
theorem TransferAppend.lifecycle (h : TransferAppend w ws id events)
    (hL : Lifecycle (eventsOf (w.transfer id))) :
    Lifecycle (eventsOf (w.transfer id) ++ events) := by
  cases h with
  | opening hes he _ =>
    rw [hes]
    exact History.snoc History.nil (.opening rfl he)
  | @prepared legs stage hs _ _ _ =>
    have hprep := hL.snoc (.prepared (e := .transferPrepared id legs) hs rfl)
    have hstate : currentState (eventsOf (w.transfer id) ++ [.transferPrepared id legs]) =
        .prepared := by
      simp [advance, stateByEventType, TransferEvent.eventType]
    have := hprep.snoc (.claim (by rw [hstate]; rfl) (nextMarker_isClaim id stage))
    simpa using this
  | outcome ht _ => exact hL.snoc (.outcome ht)
  | claim hs he _ => exact hL.snoc (.claim hs he)
  | response hne he => exact hL.snoc (.response (by rwa [ne_eq, eventsOf_eq_nil]) he)

/-- An event other than `TransferPrepared` prepares nothing. -/
theorem Unprepared.snoc (h : Unprepared w id)
    (hw : eventsOf (w'.transfer id) = eventsOf (w.transfer id) ++ [e])
    (he : e.eventType ≠ .transferPrepared) : Unprepared w' id := by
  intro legs hlegs
  have hnone : ∀ i ls, .transferPrepared i ls ∉ eventsOf (w.transfer id) := by
    intro i ls hm
    obtain ⟨ls', hls'⟩ := exists_preparedLegs hm
    exact h ls' hls'
  unfold World.legs at hlegs
  rw [hw, preparedLegs_append_of_none hnone] at hlegs
  cases e <;> simp [preparedLegs] at hlegs
  exact he rfl

/-- What an append adds is backed once it has landed. -/
theorem TransferAppend.backed (h : TransferAppend w ws id events) (hle : w ≤ w')
    (hL : ∀ i, Lifecycle (eventsOf (w'.transfer i)))
    (hheld : ∀ tok wid, HeldAfter w ws tok wid → w'.MintedInto tok wid)
    (hw : eventsOf (w'.transfer id) = eventsOf (w.transfer id) ++ events) :
    ∀ e ∈ events, Backed w' id e := by
  intro e he
  cases h with
  | @opening e' hes hopen hb =>
    obtain rfl := List.mem_singleton.mp he
    refine hb.grow hle hL fun hfin => ?_
    cases e <;> simp [opensStream, TransferEvent.eventType] at hopen <;>
      simp [stateByEventType, TransferEvent.eventType, State.final] at hfin
  | @prepared legs stage hs hstage hlegs hplan =>
    rcases List.mem_cons.mp he with rfl | he
    · exact ⟨rfl, hlegs.grow hle, hplan.grow hle (World.transfer_grow hle id) hheld⟩
    · obtain rfl := List.mem_singleton.mp he
      cases stage <;> trivial
  | @outcome e' ht hb =>
    obtain rfl := List.mem_singleton.mp he
    exact hb.grow hle hL fun _ hun => hun.snoc hw (transition_ne_prepared ht).1
  | @claim e' hs hclaim hm =>
    obtain rfl := List.mem_singleton.mp he
    cases e <;> simp [isClaimMarkerType, TransferEvent.eventType] at hclaim <;> trivial
  | @response e' hne hresp =>
    obtain rfl := List.mem_singleton.mp he
    cases e <;> simp [isResponse, TransferEvent.eventType] at hresp <;> trivial

/-- After an append, too, a prepared Transfer has its claim. -/
theorem TransferAppend.claimed {now seq : Nat} (h : TransferAppend w ws id events)
    (hok : TransferOk w id) (hle : w ≤ w')
    (hw : w'.transfer id = w.transfer id ++ rowsFrom now seq events)
    (hs' : currentState (eventsOf (w'.transfer id)) = .prepared) :
    ∃ row stage, liveMarker (w'.transfer id) = some row ∧ w'.stage id = .ok stage ∧
      row.event = nextMarker id stage := by
  rw [hw, eventsOf_append, eventsOf_rowsFrom] at hs'
  rw [hw]
  cases h with
  | @opening e hes he _ =>
    rw [hes] at hs'
    cases e <;> simp [opensStream, TransferEvent.eventType] at he <;> cases hs'
  | @prepared legs stage hs hstage _ _ =>
    refine ⟨⟨seq + 2, nextMarker id stage, now⟩, stage, ?_, World.stage_grow hle hstage, rfl⟩
    rw [rowsFrom_cons, rowsFrom_cons, rowsFrom_nil, List.append_cons, liveMarker_snoc,
      if_pos (nextMarker_isClaim id stage)]
  | @outcome e ht _ =>
    obtain ⟨-, hne, hsome⟩ := transition_ne_prepared ht
    rw [currentState_snoc, advance] at hs'
    cases hst : stateByEventType e.eventType with
    | none => exact absurd hst hsome
    | some s =>
      rw [hst] at hs' hne
      exact absurd (congrArg some hs') hne
  | @claim e hs he hm =>
    rw [currentState_snoc, advance, stateByEventType_claim he] at hs'
    obtain ⟨stage, hstage, rfl⟩ := hm hs'
    refine ⟨⟨seq + 1, nextMarker id stage, now⟩, stage, ?_, World.stage_grow hle hstage, rfl⟩
    rw [rowsFrom_cons, rowsFrom_nil, liveMarker_snoc, if_pos he]
  | @response e hne he =>
    obtain ⟨hnone, hclaim⟩ := stateByEventType_response he
    rw [currentState_snoc, advance, hnone] at hs'
    obtain ⟨row, stage, hrow, hstage, hev⟩ := hok.claimed hs'
    refine ⟨row, stage, ?_, World.stage_grow hle hstage, hev⟩
    rw [rowsFrom_cons, rowsFrom_nil, liveMarker_snoc]
    simpa [hnone, hclaim] using hrow

/-- **An append the protocol allows keeps the stream.** -/
theorem TransferOk.append {now seq : Nat} (h : TransferOk w id) (ha : TransferAppend w ws id events)
    (hle : w ≤ w') (hL : ∀ i, Lifecycle (eventsOf (w'.transfer i)))
    (hheld : ∀ tok wid, HeldAfter w ws tok wid → w'.MintedInto tok wid)
    (hw : w'.transfer id = w.transfer id ++ rowsFrom now seq events) : TransferOk w' id where
  lifecycle := hL id
  backed := by
    have hes : eventsOf (w'.transfer id) = eventsOf (w.transfer id) ++ events := by
      rw [hw, eventsOf_append, eventsOf_rowsFrom]
    intro e he
    rw [hes] at he
    rcases List.mem_append.mp he with he | he
    · exact h.backed_grow hle hL he
    · exact ha.backed hle hL hheld hes e he
  claimed := ha.claimed h hle hw

end Transfer

end MoneyFlow
