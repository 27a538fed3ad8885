import MoneyFlow.Runs

/-!
# MoneyFlow.Transfer.Outcomes

What can be said of every Transfer and Reversal in every run.

* **The ledger and the log agree** (`ledger_agrees`): a Committed Transfer's legs
  are each posted exactly once, and of a Failed or Cancelled one no leg is posted
  or ever will be.
* **A Transfer's life is one path** through the transitions table with one end
  (`life_is_one_path`).

Both are read off the invariant of `MoneyFlow.Runs`.
-/

namespace MoneyFlow.Transfer

open Concurrent

variable {e : TransferEvent}

variable {R : Prop} {w : World} {id i : Id} {legs : List TransferLeg} {leg : TransferLeg}

/-! ### Ledger and log -/

/-- A Committed Transfer has a manifest, and its legs were moved or posted. -/
theorem moved_of_committed (h : Inv R w)
    (hs : currentState (eventsOf (w.transfer id)) = .committed) :
    ∃ legs, w.legs id = .ok legs ∧ (Moved w.ledger legs ∨ Posted w.ledger legs) := by
  obtain ⟨e, hm, he⟩ := exists_of_currentState hs (by simp)
  cases e <;> simp [stateByEventType, TransferEvent.eventType] at he
  exact (h.transfer id).backed _ hm

/-- Each leg of a Committed Transfer is posted once. -/
theorem posted_of_committed (h : Inv R w)
    (hs : currentState (eventsOf (w.transfer id)) = .committed) :
    ∃ legs, w.legs id = .ok legs ∧ ∀ leg ∈ legs, (postings w.ledger leg).length = 1 := by
  obtain ⟨legs, hlegs, hmoved | hposted⟩ := moved_of_committed h hs
  · exact ⟨legs, hlegs, fun leg hleg => by
      rw [hmoved.posted_once h.ledger h.transfer hlegs hleg, List.length_singleton]⟩
  · exact ⟨legs, hlegs, fun leg hleg => by
      rw [hposted.posted_once h.ledger h.transfer hlegs hleg, List.length_singleton]⟩

/-- No leg of a Failed or Cancelled Transfer is posted. -/
theorem unposted_of_ended (h : Inv R w)
    (hs : currentState (eventsOf (w.transfer id)) = .failed ∨
      currentState (eventsOf (w.transfer id)) = .cancelled)
    (hlegs : w.legs id = .ok legs) (hleg : leg ∈ legs) : postings w.ledger leg = [] := by
  have hsame {ls : List TransferLeg} (hls : w.legs id = .ok ls) : ls = legs :=
    Except.ok.inj (hls.symm.trans hlegs)
  rcases hs with hs | hs
  · obtain ⟨e, hm, he⟩ := exists_of_currentState hs (by simp)
    cases e <;> simp [stateByEventType, TransferEvent.eventType] at he
    rcases (h.transfer id).backed _ hm with ⟨ls, hls, hd⟩ | hun
    · exact (hsame hls ▸ hd).unposted h.ledger h.transfer hlegs hleg
    · exact absurd hlegs (hun legs)
  · obtain ⟨e, hm, he⟩ := exists_of_currentState hs (by simp)
    have hb := (h.transfer id).backed _ hm
    cases e <;> simp [stateByEventType, TransferEvent.eventType] at he
    · obtain ⟨ls, hls, hv⟩ := hb
      exact (hsame hls ▸ hv).unposted h.ledger h.transfer hlegs hleg
    · exact absurd hlegs (hb legs)
    · exact hb.elim

/-- **The ledger and the log agree on a Transfer's outcome**, in every state of
every run: each leg of a Committed Transfer is posted exactly once; no leg of a
Failed or Cancelled one is posted, then or at any later moment. -/
theorem ledger_agrees {c : System} (h : Pool.Reachable anyRun .init c) (id : Id) :
    (currentState (eventsOf (c.state.transfer id)) = .committed →
      (∃ i legs, .transferPrepared i legs ∈ eventsOf (c.state.transfer id)) ∧
        ∀ i legs, .transferPrepared i legs ∈ eventsOf (c.state.transfer id) →
          ∀ leg ∈ legs, (postings c.state.ledger leg).length = 1) ∧
    (currentState (eventsOf (c.state.transfer id)) = .failed ∨
        currentState (eventsOf (c.state.transfer id)) = .cancelled →
      ∀ c', Pool.Steps anyRun c c' →
        ∀ i legs, .transferPrepared i legs ∈ eventsOf (c'.state.transfer id) →
          ∀ leg ∈ legs, postings c'.state.ledger leg = []) := by
  have hinv : Inv True c.state := reachable_inv refusals_true h
  refine ⟨fun hs => ?_, fun hs c' hsteps i legs hm leg hleg => ?_⟩
  · obtain ⟨ls, hls, honce⟩ := posted_of_committed hinv hs
    obtain ⟨j, hj⟩ := preparedLegs_mem hls
    refine ⟨⟨j, ls, hj⟩, fun i legs hm => ?_⟩
    have hlegs : c.state.legs id = .ok legs := (hinv.lifecycle id).preparedLegs_of_mem hm
    obtain rfl : ls = legs := Except.ok.inj (hls.symm.trans hlegs)
    exact honce
  · have hinv' : Inv True c'.state := reachable_inv refusals_true (h.trans hsteps)
    -- the end is for good, so what holds of an ended Transfer holds at the later moment
    have hfinal := (hinv'.lifecycle id).state_final (World.transfer_grow (steps_le hsteps) id)
      (by rcases hs with hs | hs <;> rw [hs] <;> rfl)
    rw [← hfinal] at hs
    exact unposted_of_ended hinv' hs ((hinv'.lifecycle id).preparedLegs_of_mem hm) hleg

/-- A deposit that has committed. -/
theorem ledger_agrees_deposit :
    currentState (eventsOf ((played (inTurn 0 deposit)).state.transfer (.uuid 3))) = .committed ∧
      ∀ i legs, .transferPrepared i legs ∈
          eventsOf ((played (inTurn 0 deposit)).state.transfer (.uuid 3)) →
        ∀ leg ∈ legs, (postings (played (inTurn 0 deposit)).state.ledger leg).length = 1 := by
  have hs : currentState (eventsOf ((played (inTurn 0 deposit)).state.transfer (.uuid 3))) =
      .committed := by decide +kernel
  exact ⟨hs, ((ledger_agrees (played_reachable _) (.uuid 3)).1 hs).2⟩

/-- The ledger transfer moves, reserves, posts or voids the Transfer's leg. -/
def Serves (w : World) (t : Id × StoredTransfer) (id : Id) (leg : TransferLeg) : Prop :=
  (∃ legs, w.legs id = .ok legs ∧ leg ∈ legs) ∧
    t ∈ [movement leg, reservation leg, settlement .postPending .post leg,
      settlement .voidPending .void leg].map entry

/-- **Whatever the ledger has applied serves one leg of one Transfer**, in every
state of every run. -/
theorem serves_one_leg {c : System} (h : Pool.Reachable anyRun .init c)
    {t : Id × StoredTransfer} (ht : t ∈ c.state.ledger.transfers) :
    ∃! p : Id × TransferLeg, Serves c.state t p.1 p.2 := by
  have hinv : Inv True c.state := reachable_inv refusals_true h
  refine existsUnique_of_exists_of_unique ?_ fun p q hp hq => ?_
  · rcases hinv.ledger.origin t ht with ⟨he, hleg, hlegs⟩ | ⟨he, hleg, hlegs⟩ |
      ⟨he, hleg, hlegs⟩ | ⟨he, hleg, hlegs⟩ <;>
      exact ⟨(_, _), ⟨_, hlegs, hleg⟩, by simp [he]⟩
  · obtain ⟨⟨legs, hlegs, hleg⟩, hp⟩ := hp
    obtain ⟨⟨legs', hlegs', hleg'⟩, hq⟩ := hq
    obtain ⟨n, hn⟩ := leg_v7 hinv.transfer hlegs hleg
    obtain ⟨n', hn'⟩ := leg_v7 hinv.transfer hlegs' hleg'
    -- a generated id is not a derived one, nor a post's a void's
    have hid : p.2.ledgerTransferID = q.2.ledgerTransferID := by
      grind [entry, movement, reservation, settlement]
    obtain ⟨hone, -, htwo⟩ := leg_unique hinv.transfer hlegs hlegs' hleg hleg' hid
    exact Prod.ext hone htwo

theorem serves_one_leg_deposit : ∃ t ∈ (played (inTurn 0 deposit)).state.ledger.transfers,
    ∃! p : Id × TransferLeg, Serves (played (inTurn 0 deposit)).state t p.1 p.2 := by
  obtain ⟨t, ht⟩ := List.exists_mem_of_ne_nil
    (played (inTurn 0 deposit)).state.ledger.transfers (by decide +kernel)
  exact ⟨t, ht, serves_one_leg (played_reachable _) ht⟩

/-! ### One path, one end -/

/-- The event advances the saga. -/
def advances (e : TransferEvent) : Bool := (stateByEventType e.eventType).isSome

/-- The event ends the saga. -/
def ends (e : TransferEvent) : Bool := ((stateByEventType e.eventType).map State.final).getD false

/-- An advancing event of this type is legal in this state: a stream opens with
an acceptance; `TransferPrepared` comes at Accepted; everything else is in the
transitions table. -/
def legalStep (s : State) (ty : TransferEventType) : Prop :=
  match s with
  | .unknown => stateByEventType ty = some .accepted
  | .accepted => ty = .transferPrepared ∨ ty ∈ transitions .accepted
  | s => ty ∈ transitions s

/-- The events are legal steps one after another, from state `s`. -/
def LegalPath : State → List TransferEvent → Prop
  | _, [] => True
  | s, e :: rest => legalStep s e.eventType ∧ LegalPath (advance s e) rest

theorem legalPath_snoc : ∀ {es : List TransferEvent} {s : State},
    LegalPath s (es ++ [e]) ↔ LegalPath s es ∧ legalStep (es.foldl Transfer.advance s) e.eventType
  | [], s => by simp [LegalPath]
  | e' :: es, s => by
    rw [List.cons_append, LegalPath, LegalPath, legalPath_snoc, List.foldl_cons, and_assoc]

/-- Only the advancing events of a stream matter to its state. -/
theorem foldl_advances (es : List TransferEvent) :
    (es.filter advances).foldl Transfer.advance .unknown = currentState es := by
  induction es using List.reverseRecOn with
  | nil => rfl
  | append_singleton es e ih =>
    rw [List.filter_append, List.foldl_append, ih, currentState_snoc, List.filter_singleton]
    cases he : stateByEventType e.eventType with
    | none | some s => simp [advances, Transfer.advance, he]

/-- What follows is a legal step, or advances nothing. -/
theorem Follows.legalStep {es : List TransferEvent} (h : Follows es e) (ha : advances e = true) :
    legalStep (currentState es) e.eventType := by
  cases h with
  | opening hes he =>
    subst hes
    cases e <;> simp [opensStream, TransferEvent.eventType] at he <;>
      simp [advances, stateByEventType, TransferEvent.eventType] at ha <;> rfl
  | prepared hs he =>
    rw [hs]
    exact Or.inl he
  | outcome he =>
    revert he
    cases currentState es with
    | unknown => simp [transitions]
    | accepted => exact Or.inr
    | _ => exact fun he => he
  | claim _ he => simp [advances, stateByEventType_claim he] at ha
  | response _ he => simp [advances, stateByEventType_response he] at ha

/-- Nothing that advances a Transfer, and no claim on it, follows its end. -/
theorem Follows.after_end {es : List TransferEvent} (h : Follows es e)
    (hf : (currentState es).final = true) :
    advances e = false ∧ isClaimMarkerType e.eventType = false := by
  cases h with
  | opening hes he =>
    subst hes
    simp [State.final] at hf
  | prepared hs he =>
    rw [hs] at hf
    simp [State.final] at hf
  | outcome he =>
    revert hf he
    cases currentState es <;> simp [State.final, transitions]
  | claim hs he =>
    revert hf hs
    cases currentState es <;> simp [State.final, State.claimable]
  | response _ he =>
    refine ⟨by simp [advances, stateByEventType_response he], ?_⟩
    cases e <;> simp [isResponse, TransferEvent.eventType] at he <;> rfl

namespace Lifecycle

variable {es : List TransferEvent}

theorem legalPath (h : Lifecycle es) : LegalPath .unknown (es.filter advances) := by
  refine History.induct (P := fun es => LegalPath .unknown (es.filter advances)) trivial
    (fun es e _ hf ih => ?_) h
  rw [List.filter_append, List.filter_singleton]
  cases ha : advances e with
  | true =>
    rw [cond_true, legalPath_snoc, foldl_advances]
    exact ⟨ih, hf.legalStep ha⟩
  | false =>
    rw [cond_false, List.append_nil]
    exact ih

/-- A stream with an ending event on it has ended. -/
theorem final_of_ends (h : Lifecycle es) (hm : e ∈ es) (he : ends e = true) :
    (currentState es).final = true := by
  unfold ends at he
  cases hs : stateByEventType e.eventType with
  | none => simp [hs] at he
  | some s =>
    have hfin : s.final = true := by simpa [hs] using he
    have hrank := h.rank_of_mem hm hs
    rw [State.final_iff.mp hfin] at hrank
    rw [State.final_iff]
    have hmax : (currentState es).rank ≤ 5 := by cases currentState es <;> decide
    omega

theorem nothing_after_end (h : Lifecycle es) :
    es.Pairwise fun a b =>
      ends a = true → advances b = false ∧ isClaimMarkerType b.eventType = false :=
  History.pairwise (fun _ _ hpre hf _ ha hend =>
    hf.after_end (final_of_ends hpre ha hend)) h

theorem ends_once (h : Lifecycle es) : es.countP ends ≤ 1 := by
  refine History.countP_le_one (fun pre e hpre hf he a ha => ?_) h
  by_contra hend
  have hadv := (hf.after_end (final_of_ends hpre ha (by simpa using hend))).1
  cases hs : stateByEventType e.eventType <;> simp_all [advances, ends]

theorem prepared_once (h : Lifecycle es) :
    es.countP (fun e => e.eventType == .transferPrepared) ≤ 1 := by
  refine History.countP_le_one (fun pre e hpre hf he a ha => ?_) h
  cases e <;> simp [TransferEvent.eventType] at he
  cases a with
  | transferPrepared j ls =>
    exact absurd ha (not_prepared hpre (by rw [hf.prepared_accepted]; decide) j ls)
  | _ => rfl

/-- A rejected request never advances. -/
theorem rejected_never_advances (h : Lifecycle es) (hr : rejectedRequest es = true) :
    ∀ e ∈ es, advances e = false := by
  intro e hm
  cases hs : stateByEventType e.eventType with
  | none => simp [advances, hs]
  | some s =>
    have hrank := h.rank_of_mem hm hs
    rw [h.rejected_unknown hr] at hrank
    cases e <;> simp [stateByEventType, TransferEvent.eventType] at hs <;> subst hs <;>
      simp [State.rank] at hrank

end Lifecycle

/-- **A Transfer's life is one legal path with one end**, on every stream of
every run. -/
theorem life_is_one_path {c : System} (h : Pool.Reachable anyRun .init c) (id : Id) :
    LegalPath .unknown ((eventsOf (c.state.transfer id)).filter advances) ∧
      (eventsOf (c.state.transfer id)).countP (fun e => e.eventType == .transferPrepared) ≤ 1 ∧
      (eventsOf (c.state.transfer id)).countP ends ≤ 1 ∧
      ((eventsOf (c.state.transfer id)).Pairwise fun a b =>
        ends a = true → advances b = false ∧ isClaimMarkerType b.eventType = false) ∧
      (rejectedRequest (eventsOf (c.state.transfer id)) = true →
        ∀ e ∈ eventsOf (c.state.transfer id), advances e = false) := by
  have hinv : Inv True c.state := reachable_inv refusals_true h
  have hL := hinv.lifecycle id
  exact ⟨hL.legalPath, hL.prepared_once, hL.ends_once, hL.nothing_after_end,
    hL.rejected_never_advances⟩

/-- The deposit's: requested, prepared, claimed, committed. -/
theorem life_is_one_path_deposit :
    (eventsOf ((played (inTurn 0 deposit)).state.transfer (.uuid 3))).countP ends = 1 ∧
      LegalPath .unknown
        ((eventsOf ((played (inTurn 0 deposit)).state.transfer (.uuid 3))).filter advances) :=
  ⟨by decide +kernel, (life_is_one_path (played_reachable _) (.uuid 3)).1⟩

end MoneyFlow.Transfer
