import MoneyFlow.Transaction.DagSound
import MoneyFlow.Transaction.Footprint
import MoneyFlow.Transfer.Drivers

/-!
# MoneyFlow.Transaction.Conduct

The Transaction saga and its RPCs keep the protocol.

The saga looks at a child, decides, and records what it decided, and between any
two of these anything may happen. What it saw therefore has to be good for ever:
a step is recorded under a **license** (`Licensed`), which says that the event is
borne out, and its child clear to be undone, from now on. `appendSagaStep`'s own
checks supply the rest of `Follows` from the stream it appends to.
-/

namespace MoneyFlow.Transaction

open Concurrent Service Transfer

variable {es : List TransactionEvent} {fuel : Nat} {spec : Spec} {e : TransactionEvent}
  {transfers : GoMap TransferSpec} {deps : GoMap (List Id)} {reason : Text} {children : Children}

variable {R : Prop} {A : Op → World → Prop} {w : World} {tid c : Id}

/-! ### Reading the stream -/

/-- Every child of an accepted DAG is filed under its own id. -/
theorem specOf_id (h : validateDAG transfers deps = .ok ()) (hc : c ∈ transfers.keys) :
    (specOf transfers c).id = c := by
  obtain ⟨-, -, hchildren, -⟩ := validateDAG_ok h
  obtain ⟨spec, hspec⟩ := GoMap.exists_get? hc
  rw [specOf, hspec]
  exact validateChildren_id hchildren _ (GoMap.mem_of_get? hspec)

theorem begun_of_state (h : topLevelState es = .rollbackStarted) : RollbackBegun es := by
  induction es using List.reverseRecOn with
  | nil => simp [topLevelState] at h
  | append_singleton es e ih =>
    rw [topLevelState_snoc] at h
    cases hs : stateOf e with
    | none =>
      rw [hs] at h
      exact (ih h).mono fun _ hm => List.mem_append_left _ hm
    | some s =>
      rw [hs] at h
      obtain rfl : s = .rollbackStarted := h
      cases e <;> simp [stateOf] at hs
      exact ⟨_, _, List.mem_append_right _ List.mem_cons_self⟩

theorem WellFormed.requested_of_touched (h : WellFormed tid es)
    (hc : (foldChildStates es).touched c = true) : Requested es c := by
  obtain ⟨e, hm, st, he⟩ := touched_iff.mp hc
  exact h.requested_of_child hm he

theorem Requested.touched (h : Requested es c) : (foldChildStates es).touched c = true := by
  obtain ⟨i, hm⟩ := h
  exact touched_iff.mpr ⟨_, hm, _, rfl⟩

/-- A requested child is one of the spec's, and the Transaction had started. -/
theorem WellFormed.requested_mem (h : WellFormed tid es) (hr : Requested es c) :
    (∃ spec, decodeSpec es = .ok spec ∧ c ∈ spec.transfers.keys) ∧
      2 ≤ (topLevelState es).rank := by
  obtain ⟨i, hm⟩ := hr
  obtain ⟨pre, hp, hf⟩ := h.of_mem hm
  have hpre : pre <+: es := (List.prefix_append _ _).trans hp
  cases hf with
  | requested htop hspec hc =>
    have hrank := h.rank_le hpre
    rw [htop] at hrank
    exact ⟨⟨_, decodeSpec_grow hspec hpre, hc⟩, hrank⟩
  | concluded _ _ he => simp [isConclusion, TransactionEvent.eventType] at he

/-- A Transaction that has not started has touched no child. -/
theorem WellFormed.children_of_initialized (h : WellFormed tid es)
    (htop : topLevelState es = .initialized) : foldChildStates es = [] := by
  cases hcs : foldChildStates es with
  | nil => rfl
  | cons p rest =>
    have ht : (foldChildStates es).touched p.1 = true := by
      rw [← Children.mem_keys_iff, hcs]
      exact List.mem_cons_self
    have hrank := (h.requested_mem (h.requested_of_touched ht)).2
    rw [htop] at hrank
    exact absurd hrank (by decide)

theorem resolved_of_children (h : (foldChildStates es).resolved c = true) : Resolved es c := by
  unfold Children.resolved at h
  rcases Bool.or_eq_true _ _ ▸ h with h | h
  · obtain ⟨e, hm, he⟩ := exists_of_state (eq_of_beq h) (by simp)
    cases e <;> simp [childOf] at he
    subst he
    exact Or.inl ⟨_, _, _, hm⟩
  · obtain ⟨e, hm, he⟩ := exists_of_state (eq_of_beq h) (by simp)
    cases e <;> simp [childOf] at he
    subst he
    exact Or.inr ⟨_, _, hm⟩

/-- The parents a DAG lists, as `hasActiveDependent` finds them. -/
theorem mem_entries_of_parentsOf {d : Id} (h : c ∈ parentsOf deps d) :
    ∃ parents, (d, parents) ∈ deps.entries ∧ c ∈ parents :=
  mem_edges.mp (mem_edges_of_parentsOf h)

/-- What a rollback plan offers may be undone. -/
theorem WellFormed.cleared_of_candidate {order : List Id} (h : WellFormed tid es)
    (hspec : decodeSpec es = .ok spec) (horder : order.Perm spec.transfers.keys)
    (hc : c ∈ (planRollback order spec.transferDependency (foldChildStates es)).candidates) :
    Cleared es c := by
  have hc := (List.mem_filter.mp hc).1
  unfold readyToRollback at hc
  obtain ⟨hmem, hready⟩ := List.mem_filter.mp hc
  simp only [Bool.and_eq_true, Bool.not_eq_true'] at hready
  obtain ⟨⟨⟨htouched, -⟩, -⟩, hactive⟩ := hready
  refine ⟨spec, hspec, horder.mem_iff.mp hmem, h.requested_of_touched htouched, fun d hd hr => ?_⟩
  obtain ⟨parents, hentry, hp⟩ := mem_entries_of_parentsOf hd
  have hidle := List.any_eq_false.mp hactive _ hentry
  refine resolved_of_children (by_contra fun hres => hidle ?_)
  simp [hr.touched, hres, hp]

/-- A Reversal recorded as awaited is the one the saga derives, and its child's
undoing was cleared. -/
theorem WellFormed.reversal_requested {i rid : Id} (h : WellFormed tid es)
    (hm : .transferReversalRequestedWithinTransaction i c rid ∈ es) :
    rid = .reversal tid c ∧ RollbackBegun es ∧ Cleared es c := by
  obtain ⟨pre, hp, hf⟩ := h.of_mem hm
  have hpre : pre <+: es := (List.prefix_append _ _).trans hp
  cases hf with
  | reversalRequested htop hc =>
    have hb := begun_of_state htop
    exact ⟨rfl, hb.mono hpre.subset, h.cleared_mono hpre hb hc⟩
  | concluded _ _ he => simp [isConclusion, TransactionEvent.eventType] at he

/-- The id `requestedReversalID` finds is one the stream records. -/
theorem requestedReversalID_mem : ∀ {es : List TransactionEvent},
    requestedReversalID c es ≠ Id.empty →
      ∃ i, .transferReversalRequestedWithinTransaction i c (requestedReversalID c es) ∈ es
  | [], h => absurd rfl h
  | e :: es, h => by
    have hrest (heq : requestedReversalID c (e :: es) = requestedReversalID c es) :
        ∃ i, .transferReversalRequestedWithinTransaction i c
          (requestedReversalID c (e :: es)) ∈ e :: es := by
      rw [heq] at h ⊢
      obtain ⟨i, hm⟩ := requestedReversalID_mem h
      exact ⟨i, List.mem_cons_of_mem _ hm⟩
    cases e with
    | transferReversalRequestedWithinTransaction i d r =>
      by_cases hd : d = c
      · subst hd
        exact ⟨i, by simp [requestedReversalID]⟩
      · exact hrest (by simp [requestedReversalID, hd])
    | _ => exact hrest rfl

/-! ### Recording a step -/

/-- What the saga has to know of an event before it hands it to
`appendSagaStep`: it is about this Transaction, and an event of the rollback is
about a child that may be undone. -/
def StepOf (w : World) (tid : Id) : TransactionEvent → Prop
  | .transferCompletedWithinTransaction i _ => i = tid
  | .transferFailedWithinTransaction i _ _ => i = tid
  | .transactionRollbackStarted i _ => i = tid
  | .transferReversalRequestedWithinTransaction i c rid =>
    i = tid ∧ rid = .reversal tid c ∧ MayUndo w tid c
  | .transferRolledBackWithinTransaction i c _ _ => i = tid ∧ MayUndo w tid c
  | .transferRollbackFailedWithinTransaction i c _ => i = tid ∧ MayUndo w tid c
  | _ => True

/-- The event may be recorded at any moment from `w` on at which it is still
decidable. -/
def Licensed (R : Prop) (w : World) (tid : Id) (e : TransactionEvent) : Prop :=
  Henceforth R (fun w' => Backed R w' tid e ∧ StepOf w' tid e) w

theorem Licensed.grow {w' : World} (h : Licensed R w tid e) (hle : w ≤ w') :
    Licensed R w' tid e := Henceforth.grow h hle

theorem recorded_of_mem {e' : TransactionEvent} (hm : e' ∈ es) (htype : e'.eventType = e.eventType)
    (hid : childEventTransferID e' = childEventTransferID e) : alreadyRecorded es e = true :=
  List.any_eq_true.mpr ⟨e', hm, by simp [htype, hid]⟩

/-- What `appendSagaStep` checks of the stream makes the event one that
follows. -/
theorem follows_of_decidable (hstep : StepOf w tid e) (hnew : alreadyRecorded (w.log tid) e = false)
    (hdec : stillDecidable (w.log tid) tid e = .ok true) : Follows tid (w.log tid) e := by
  cases e with
  | transferCompletedWithinTransaction i c =>
    obtain rfl : i = tid := hstep
    simp [stillDecidable] at hdec
    exact .completed hdec.1 hdec.2
  | transferFailedWithinTransaction i c r =>
    obtain rfl : i = tid := hstep
    simp [stillDecidable] at hdec
    exact .failed hdec.1 hdec.2
  | transactionRollbackStarted i r =>
    obtain rfl : i = tid := hstep
    simp [stillDecidable] at hdec
    exact .rollbackStarted hdec
  | transferReversalRequestedWithinTransaction i c rid =>
    obtain ⟨rfl, rfl, hmay⟩ := hstep
    simp [stillDecidable] at hdec
    refine .reversalRequested hdec hmay.2 ?_
    rintro ⟨j, r, hm⟩
    exact Bool.false_ne_true (hnew.symm.trans (recorded_of_mem hm rfl rfl))
  | transferRolledBackWithinTransaction i c m d =>
    obtain ⟨rfl, hmay⟩ := hstep
    simp [stillDecidable] at hdec
    refine .rolledBack hdec hmay.2 ?_
    rintro ⟨j, m', d', hm⟩
    exact Bool.false_ne_true (hnew.symm.trans (recorded_of_mem hm rfl rfl))
  | transferRollbackFailedWithinTransaction i c r =>
    obtain ⟨rfl, hmay⟩ := hstep
    simp [stillDecidable] at hdec
    refine .rollbackFailed hdec hmay.2 ?_
    rintro ⟨j, r', hm⟩
    exact Bool.false_ne_true (hnew.symm.trans (recorded_of_mem hm rfl rfl))
  | transactionCompleted | transactionRolledBack | transactionRollbackFailed =>
    cases hc : consequence (w.log tid) tid with
    | error err => simp [stillDecidable, hc] at hdec
    | ok next =>
      cases next with
      | none => simp [stillDecidable, hc] at hdec
      | some e' =>
        have htype := by simpa [stillDecidable, hc] using hdec
        exact .concluded hc htype.symm rfl
  | _ => simp [stillDecidable] at hdec

/-- What is appended is the event with nothing, or with what it decides. -/
theorem withConsequences_cases {pending : List TransactionEvent}
    (h : withConsequences es tid e = .ok pending) :
    ∃ rest, pending = e :: rest ∧ (childEventTransferID e = Id.empty ∧ rest = [] ∨
      consequences tid 3 (es ++ [e]) = .ok rest) := by
  unfold withConsequences at h
  split at h
  · rename_i hid
    exact ⟨[], (Except.ok.inj h).symm, Or.inl ⟨hid, rfl⟩⟩
  · split at h
    · simp at h
    · rename_i rest hrest
      exact ⟨rest, (Except.ok.inj h).symm, Or.inr hrest⟩

section

variable (hA : Assumes R A)
include hA

theorem appendSagaStep_conducts : ∀ (fuel : Nat) {w : World},
    Licensed R w tid e → Conducts R A (appendSagaStep tid e fuel) (fun _ _ => True) w
  | 0, _, _ => Ensures.halted
  | fuel + 1, w, hlic => by
    refine Conducts.load_transaction hA fun w1 hle1 _ => ?_
    split
    · exact Obeys.pure
    · rename_i hnew
      refine Conducts.check_bind fun decidable hdec => ?_
      split
      · rename_i hyes
        refine Conducts.check_bind fun pending hpending => ?_
        obtain ⟨rest, rfl, hrest⟩ := withConsequences_cases hpending
        refine Conducts.append_at hA (a := .transaction)
          (List.prefix_refl (w1.transaction tid)) (by simp) (fun w2 hle2 _ hinv heq => ?_)
            fun err w2 hle2 => ?_
        · have hlog : w2.log tid = eventsOf (w1.transaction tid) := congrArg eventsOf heq
          obtain ⟨hback, hstep⟩ := hlic w2 (hle1.trans hle2) hinv
          refine ⟨.step (follows_of_decidable hstep ?_ ?_) hback (hlog ▸ hrest),
            fun w3 _ _ => Obeys.pure⟩
          · rw [hlog]
            simpa using hnew
          · rw [hlog, hdec, hyes]
        · split
          · exact Obeys.pure
          · exact appendSagaStep_conducts fuel (hlic.grow (hle1.trans hle2))
          · exact Ensures.throw
      · exact Obeys.pure

/-! ### Forward -/

theorem loadOutcome_conducts {β : Type} {f : OutcomeKind → Service β} {Q : β → World → Prop}
    (h : ∀ w1, w ≤ w1 → Inv R w1 → Conducts R A (f (w1.outcome c)) Q w1) :
    Conducts R A (loadOutcome c >>= f) Q w :=
  Ensures.bind (Conducts.load_transfer hA fun w1 hle hinv =>
    Ensures.pure fun _ hle2 => (h w1 hle hinv).grow hle2)

omit hA in
/-- A child whose Transfer has ended may be recorded as failed. -/
theorem licensed_failed (h : (w.outcome c).ended = true) :
    Licensed R w tid (.transferFailedWithinTransaction tid c reason) := fun _ hle hinv =>
  ⟨ended_grow hle hinv.lifecycle h, rfl⟩

omit hA in
theorem licensed_completed (h : w.outcome c = .committed) :
    Licensed R w tid (.transferCompletedWithinTransaction tid c) := fun _ hle hinv =>
  ⟨committed_grow hle hinv.lifecycle h, rfl⟩

theorem requestChildTransfer_conducts {spec : TransferSpec} (hr : Requested (w.log tid) spec.id) :
    Conducts R A (requestChildTransfer fuel tid spec) (fun _ _ => True) w := by
  refine Conducts.call hA fun w1 hle _ =>
    ⟨hr.mono (World.log_grow hle tid).subset, ?_⟩
  refine (requestTransfer_conducts hA).seq fun r w2 _ hrej => ?_
  cases r with
  | accepted i => exact Obeys.pure
  | rejected i reason =>
    have hended : (w2.outcome spec.id).ended = true := by
      rw [show w2.outcome spec.id = .rejected from hrej i reason rfl]
      rfl
    exact (appendSagaStep_conducts hA fuel (licensed_failed hended)).seq fun _ _ _ _ =>
      Obeys.pure

theorem requestEach_conducts : ∀ {slice : List Id} {w : World},
      (∀ c ∈ slice, Requested (w.log tid) (specOf transfers c).id) →
      Conducts R A (requestEach fuel tid transfers slice) (fun _ _ => True) w
  | [], _, _ => Obeys.pure
  | c :: rest, w, h => by
    refine (requestChildTransfer_conducts hA (h c List.mem_cons_self)).seq fun _ w1 hle _ => ?_
    exact requestEach_conducts fun d hd =>
      (h d (List.mem_cons_of_mem _ hd)).mono (World.log_grow hle tid).subset

omit hA in
/-- What `readyToRun` offers may be requested. -/
theorem readyToRun_mem {order : List Id}
    (hc : c ∈ readyToRun order deps (foldChildStates es).touched (foldChildStates es).completed) :
    c ∈ order ∧ (foldChildStates es).state c = .untouched ∧
      ∀ p ∈ parentsOf deps c, (foldChildStates es).state p = .completed := by
  obtain ⟨hmem, hready⟩ := List.mem_filter.mp hc
  simp only [Bool.and_eq_true, Bool.not_eq_true', List.all_eq_true] at hready
  refine ⟨hmem, by_contra fun hne => ?_, fun p hp => eq_of_beq (hready.2 p hp)⟩
  simp [touched_iff_state.mpr hne] at hready

/-- The intents are recorded on the stream they were decided from. -/
theorem recordIntents_conducts {rows : List (Row TransactionEvent)} {starting : Bool}
    {slice : List Id} (hrows : rows <+: w.transaction tid)
    (htop : topLevelState (eventsOf rows) = if starting then .initialized else .started)
    (hspec : decodeSpec (eventsOf rows) = .ok spec) (hnd : slice.Nodup)
    (hslice : ∀ c ∈ slice, Dispatchable spec (eventsOf rows) c)
    (hne : intentsFor tid starting slice ≠ []) :
    Conducts R A (recordIntents tid rows.length (intentsFor tid starting slice))
      (fun landed w' => landed = true → ∀ c ∈ slice, Requested (w'.log tid) c) w := by
  refine Conducts.append_at hA (a := .transaction) hrows hne (fun w1 _ _ _ heq => ?_)
    fun err w1 _ => ?_
  · have hlog : w1.log tid = eventsOf rows := congrArg eventsOf heq
    refine ⟨.intents (by rw [hlog]; exact htop) (by rw [hlog]; exact hspec) hnd
      (by rw [hlog]; exact hslice), fun w2 _ hland => ?_⟩
    refine Ensures.pure fun w3 hle3 _ c hc => ⟨tid, (World.log_grow hle3 tid).subset ?_⟩
    have hlog2 : w2.log tid = eventsOf rows ++ intentsFor tid starting slice := by
      rw [World.log, show w2.transaction tid = _ from hland, eventsOf_append, eventsOf_rowsFrom]
    rw [hlog2]
    exact List.mem_append_right _ (List.mem_append_right _ (List.mem_map.mpr ⟨c, hc, rfl⟩))
  · split
    · rename_i h
      simp at h
    · exact Ensures.pure fun _ _ h => by simp at h
    · exact Ensures.throw

theorem dispatchReady_conducts {rows : List (Row TransactionEvent)} (starting : Bool)
    (hrows : rows <+: w.transaction tid) (hwf : WellFormed tid (eventsOf rows))
    (htop : topLevelState (eventsOf rows) = if starting then .initialized else .started)
    (hspec : decodeSpec (eventsOf rows) = .ok spec) :
    Conducts R A
      (dispatchReady fuel tid rows.length spec (foldChildStates (eventsOf rows)) starting)
      (fun _ _ => True) w := by
  refine Conducts.rangeMap fun order w1 hle1 hperm => ?_
  dsimp only
  split
  · exact Obeys.pure
  · rename_i hgo
    have hsub := List.take_subset maxDispatchPerStep (readyToRun order spec.transferDependency
      (foldChildStates (eventsOf rows)).touched (foldChildStates (eventsOf rows)).completed)
    have hkeys (c : Id) (hc : c ∈ (readyToRun order spec.transferDependency
        (foldChildStates (eventsOf rows)).touched
        (foldChildStates (eventsOf rows)).completed).take maxDispatchPerStep) :
        c ∈ spec.transfers.keys := hperm.mem_iff.mp (readyToRun_mem (hsub hc)).1
    refine (recordIntents_conducts hA (hrows.trans (hle1.stream .transaction tid)) htop hspec ?_
      (fun c hc => ⟨hkeys c hc, (readyToRun_mem (hsub hc)).2⟩) ?_).seq fun landed w2 hle2 hreq => ?_
    · exact ((hperm.nodup_iff.mpr spec.transfers.nodup_keys).filter _).sublist
        (List.take_sublist _ _)
    · -- a slice that starts nothing is not empty
      intro hnil
      apply hgo
      cases starting with
      | true => simp [intentsFor] at hnil
      | false => simpa [intentsFor, maxDispatchPerStep] using hnil
    · cases landed with
      | false => exact Obeys.pure
      | true =>
        refine (requestEach_conducts hA fun c hc => ?_).seq fun _ _ _ _ =>
          Obeys.pure
        rw [specOf_id (hwf.spec_valid hspec) (hkeys c hc)]
        exact hreq rfl c hc

theorem reconcileChild_conducts (hid : (specOf transfers c).id = c) (hr : Requested (w.log tid) c) :
    Conducts R A (reconcileChild fuel tid transfers c) (fun _ _ => True) w := by
  refine loadOutcome_conducts hA fun w1 hle _ => ?_
  have hrequest : Conducts R A (requestChildTransfer fuel tid (specOf transfers c))
      (fun _ _ => True) w1 :=
    requestChildTransfer_conducts hA (hid.symm ▸ hr.mono (World.log_grow hle tid).subset)
  have hrecord {e : TransactionEvent} (hlic : Licensed R w1 tid e) : Conducts R A (do
      appendSagaStep tid e fuel
      pure true) (fun _ _ => True) w1 :=
    (appendSagaStep_conducts hA fuel hlic).seq fun _ _ _ _ => Obeys.pure
  cases hk : w1.outcome c with
  | notFound | rejected => exact hrequest
  | committed => exact hrecord (licensed_completed hk)
  | failed | cancelled => exact hrecord (licensed_failed (by rw [hk]; rfl))
  | inFlight | staged | pending => exact Obeys.pure

omit hA in
/-- A child in the requested state was requested, and is one of the spec's. -/
theorem WellFormed.of_requested (h : WellFormed tid es) (hspec : decodeSpec es = .ok spec)
    (hc : (foldChildStates es).state c ≠ .untouched) :
    Requested es c ∧ (specOf spec.transfers c).id = c := by
  have hr := h.requested_of_touched (touched_iff_state.mpr hc)
  obtain ⟨⟨spec', hspec', hk⟩, -⟩ := h.requested_mem hr
  obtain rfl : spec = spec' := Except.ok.inj (hspec.symm.trans hspec')
  exact ⟨hr, specOf_id (h.spec_valid hspec) hk⟩

theorem reconcileInFlight_conducts (hes : es <+: w.log tid) (hwf : WellFormed tid es)
    (hspec : decodeSpec es = .ok spec) :
    Conducts R A (reconcileInFlight fuel tid spec.transfers (foldChildStates es))
      (fun _ _ => True) w := by
  refine Conducts.rangeMap fun order w1 hle1 _ => sweep_obeys fun c hc w2 hle2 => ?_
  obtain ⟨hr, hid⟩ := WellFormed.of_requested hwf hspec (c := c) (by rw [hc]; simp)
  exact reconcileChild_conducts hA hid
    (hr.mono (hes.trans (World.log_grow (hle1.trans hle2) tid)).subset)

/-! ### Rollback -/

omit hA in
theorem MayUndo.henceforth (h : MayUndo w tid c) :
    Henceforth R (fun w' => MayUndo w' tid c) w := fun _ hle hinv =>
  h.grow hle (hinv.transaction tid).wellFormed

omit hA in
/-- A child that came to nothing, or was moved back, may be recorded as rolled
back. -/
theorem licensed_rolledBack {m : RollbackMethod} {d : Id} (hmay : MayUndo w tid c)
    (h : Henceforth R (fun w' => Undone w' tid c) w) :
    Licensed R w tid (.transferRolledBackWithinTransaction tid c m d) := fun w' hle hinv =>
  ⟨h w' hle hinv, rfl, hmay.henceforth w' hle hinv⟩

omit hA in
theorem licensed_rollbackFailed (hmay : MayUndo w tid c) (h : Stuck w tid c) :
    Licensed R w tid (.transferRollbackFailedWithinTransaction tid c reason) := fun w' hle hinv =>
  ⟨.inl (h.grow hle hinv.lifecycle), rfl, hmay.henceforth w' hle hinv⟩

omit hA in
theorem henceforth_undone (h : Undone w tid c) : Henceforth R (fun w' => Undone w' tid c) w :=
  fun _ hle hinv => h.grow hle hinv.lifecycle

theorem reconcileReversal_conducts (hes : es <+: w.log tid) :
    Conducts R A (reconcileReversal fuel tid es c) (fun _ _ => True) w := by
  unfold reconcileReversal
  dsimp only
  split
  · exact Ensures.throw
  · rename_i hne
    obtain ⟨i, hm⟩ := requestedReversalID_mem hne
    refine loadOutcome_conducts hA fun w1 hle hinv => ?_
    have hm1 := (hes.trans (World.log_grow hle tid)).subset hm
    obtain ⟨hrid, hbegun, hcl⟩ := (hinv.transaction tid).wellFormed.reversal_requested hm1
    have hmay : MayUndo w1 tid c := ⟨hbegun, hcl⟩
    have hcommitted : w1.outcome c = .committed := (hinv.transaction tid).backed _ hm1
    rw [hrid]
    have hfail {reason : Text} (hend : (w1.outcome (.reversal tid c)).ended = true) :
        Conducts R A (do
          appendSagaStep tid (.transferRollbackFailedWithinTransaction tid c reason) fuel
          pure true) (fun _ _ => True) w1 :=
      (appendSagaStep_conducts hA fuel (licensed_rollbackFailed hmay
        ⟨hcommitted, hend⟩)).seq fun _ _ _ _ => Obeys.pure
    cases hk : w1.outcome (.reversal tid c) with
    | committed =>
      exact (appendSagaStep_conducts hA fuel (licensed_rolledBack hmay
        (henceforth_undone (Or.inr ⟨hcommitted, hk⟩)))).seq fun _ _ _ _ =>
          Obeys.pure
    | failed | cancelled | rejected => exact hfail (by rw [hk]; rfl)
    | notFound | inFlight | staged | pending => exact Obeys.pure

theorem reconcileRollbacks_conducts (hes : es <+: w.log tid) :
    Conducts R A (reconcileRollbacks fuel tid es children) (fun _ _ => True) w :=
  Conducts.rangeMap fun _ _ hle1 _ => sweep_obeys fun _ _ _ hle2 =>
    reconcileReversal_conducts hA (hes.trans (World.log_grow (hle1.trans hle2) tid))

theorem reverseChild_conducts {spec : TransferSpec} (hmay : MayUndo w tid spec.id)
    (hc : w.outcome spec.id = .committed) :
    Conducts R A (reverseChild fuel tid spec) (fun _ _ => True) w := by
  refine Conducts.call hA fun w1 hle1 hinv => ?_
  have hmay1 := hmay.henceforth w1 hle1 hinv
  have hc1 := committed_grow hle1 hinv.lifecycle hc
  refine ⟨⟨rfl, hmay1, hc1⟩, (requestReversal_conducts hA).seq fun r w2 hle2 hrej => ?_⟩
  cases r with
  | accepted i =>
    refine appendSagaStep_conducts hA fuel fun w3 hle3 hinv3 => ?_
    exact ⟨committed_grow (hle2.trans hle3) hinv3.lifecycle hc1, rfl, rfl,
      hmay1.henceforth w3 (hle2.trans hle3) hinv3⟩
  | rejected i o reason =>
    have hended : (w2.outcome (.reversal tid spec.id)).ended = true := by
      rw [show w2.outcome (.reversal tid spec.id) = .rejected from hrej i o reason rfl]
      rfl
    refine appendSagaStep_conducts hA fuel fun w3 hle3 hinv3 => ?_
    exact ⟨Or.inl ⟨committed_grow (hle2.trans hle3) hinv3.lifecycle hc1,
      ended_grow hle3 hinv3.lifecycle hended⟩, rfl,
      hmay1.henceforth w3 (hle2.trans hle3) hinv3⟩

end

/-! The rest of the saga may have a cancel refused, and `R` says that one was. -/

section

variable (hA : Assumes R A)
  (hR : ∀ ws w, Lands A ws w → (∃ x ∈ ws, refusesCancel x = true) → R)
include hA hR

theorem cancelStagedChild_conducts {spec : TransferSpec} (hmay : MayUndo w tid spec.id)
    (hne : w.transfer spec.id ≠ []) :
    Conducts R A (cancelStagedChild fuel tid spec) (fun _ _ => True) w := by
  refine Conducts.call hA fun w1 hle1 hinv => ?_
  have hmay1 := hmay.henceforth w1 hle1 hinv
  refine ⟨hmay1, (cancelStagedTransfer_conducts hA hR).seq fun r w2 hle2 hans => ?_⟩
  cases r with
  | transferCancelled i reason =>
    refine appendSagaStep_conducts hA fuel fun w3 hle3 hinv3 => ?_
    have hcancelled : w3.outcome spec.id = .cancelled := hans w3 hle3 hinv3
    exact ⟨Or.inl (by rw [hcancelled]; rfl), rfl,
      hmay1.henceforth w3 (hle2.trans hle3) hinv3⟩
  | rejected i reason =>
    have hne1 := World.transfer_ne_nil hle1 hne
    refine appendSagaStep_conducts hA fuel fun w3 hle3 hinv3 => ?_
    exact ⟨Or.inr ⟨hans.resolve_left hne1, World.transfer_ne_nil (hle2.trans hle3) hne1⟩, rfl,
      hmay1.henceforth w3 (hle2.trans hle3) hinv3⟩

theorem rollbackChild_conducts {spec : TransferSpec} {state : ChildState} :
    ∀ (fuel : Nat) {w : World}, Henceforth R (fun w' => MayUndo w' tid spec.id) w →
      Conducts R A (rollbackChild tid spec state fuel) (fun _ _ => True) w
  | 0, _, _ => Ensures.halted
  | fuel + 1, w, hmay => by
    unfold rollbackChild
    split
    · exact Ensures.throw
    · refine loadOutcome_conducts hA fun w1 hle1 hinv => ?_
      have hmay1 := hmay w1 hle1 hinv
      have habandon (hend : (w1.outcome spec.id).ended = true) : Conducts R A
          (appendSagaStep tid (.transferRolledBackWithinTransaction tid spec.id .abandoned Id.empty)
            fuel) (fun _ _ => True) w1 :=
        appendSagaStep_conducts hA fuel
          (licensed_rolledBack hmay1 (henceforth_undone (Or.inl hend)))
      have hcancel (hk : w1.outcome spec.id = .staged ∨ w1.outcome spec.id = .pending) :
          Conducts R A (cancelStagedChild fuel tid spec) (fun _ _ => True) w1 := by
        refine cancelStagedChild_conducts hA hR hmay1 fun hnil => ?_
        rcases hk with hk | hk <;> simp [World.outcome, hnil, outcome] at hk
      cases hk : w1.outcome spec.id with
      | notFound =>
        obtain ⟨-, -, -, hr, -⟩ := hmay1.2
        refine Conducts.call hA fun w2 hle2 _ =>
          ⟨hr.mono (World.log_grow hle2 tid).subset, ?_⟩
        refine (requestTransfer_conducts hA).seq fun _ w3 hle3 _ => ?_
        exact rollbackChild_conducts fuel (hmay.grow (hle1.trans (hle2.trans hle3)))
      | committed => exact reverseChild_conducts hA hmay1 hk
      | staged => exact hcancel (Or.inl hk)
      | pending => exact hcancel (Or.inr hk)
      | inFlight =>
        refine Conducts.call hA fun w2 hle2 hinv2 =>
          ⟨hmay w2 (hle1.trans hle2) hinv2, ?_⟩
        refine (Ensures.outcomeOf (cancelAcceptedTransfer_conducts hA)).seq
          fun r w3 hle3 hok => ?_
        have hmay3 := hmay.grow (hle1.trans (hle2.trans hle3))
        cases r with
        | ok a =>
          refine appendSagaStep_conducts hA fuel fun w4 hle4 hinv4 => ?_
          have hcancelled : w4.outcome spec.id = .cancelled := hok a rfl w4 hle4 hinv4
          exact ⟨Or.inl (by rw [hcancelled]; rfl), rfl, hmay3 w4 hle4 hinv4⟩
        | error e =>
          dsimp only
          split
          · exact rollbackChild_conducts fuel hmay3
          · exact Ensures.throw
      | failed | cancelled | rejected => exact habandon (by rw [hk]; rfl)

theorem rollbackEach_conducts : ∀ {slice : List Id} {w : World},
      (∀ c ∈ slice, Henceforth R (fun w' => MayUndo w' tid (specOf transfers c).id) w) →
      Conducts R A (rollbackEach fuel tid transfers children slice) (fun _ _ => True) w
  | [], _, _ => Obeys.pure
  | c :: _, _, h =>
    (rollbackChild_conducts hA hR fuel (h c List.mem_cons_self)).seq fun _ _ hle _ =>
      rollbackEach_conducts fun d hd => (h d (List.mem_cons_of_mem _ hd)).grow hle

theorem rollbackNext_conducts (hes : es <+: w.log tid) (hwf : WellFormed tid es)
    (htop : topLevelState es = .rollbackStarted) (hspec : decodeSpec es = .ok spec) :
    Conducts R A (rollbackNext fuel tid spec (foldChildStates es)) (fun _ _ => True) w := by
  refine Conducts.rangeMap fun order w1 hle1 hperm => ?_
  dsimp only
  split
  · exact Obeys.pure
  · refine (rollbackEach_conducts hA hR fun c hc w2 hle2 hinv => ?_).seq fun _ _ _ _ =>
      Obeys.pure
    have hcl := hwf.cleared_of_candidate hspec hperm (List.take_subset _ _ hc)
    obtain ⟨spec', hspec', hk, -⟩ := id hcl
    obtain rfl : spec = spec' := Except.ok.inj (hspec.symm.trans hspec')
    rw [specOf_id (hwf.spec_valid hspec) hk]
    have hlog := hes.trans (World.log_grow (hle1.trans hle2) tid)
    have hbegun := begun_of_state htop
    exact ⟨hbegun.mono hlog.subset,
      (hinv.transaction tid).wellFormed.cleared_mono hlog hbegun hcl⟩

/-! ### Resume -/

omit hA hR in
/-- What a stream decides may be recorded. -/
theorem licensed_consequence (h : consequence es tid = .ok (some e)) : Licensed R w tid e := by
  intro w' _ _
  rcases consequence_cases h with
    ⟨-, ⟨r, rfl⟩ | ⟨rfl, -⟩⟩ | ⟨-, _, -, -, -, ⟨r, rfl, -⟩ | ⟨r, rfl, -⟩⟩
  · exact ⟨trivial, rfl⟩
  · exact ⟨trivial, trivial⟩
  · exact ⟨trivial, trivial⟩
  · exact ⟨trivial, trivial⟩

theorem runSaga_conducts : ∀ (fuel : Nat) {w : World},
    Conducts R A (runSaga tid fuel) (fun _ _ => True) w
  | 0, _ => Ensures.halted
  | fuel + 1, w => by
    refine Conducts.load_transaction hA fun w1 _ hinv => ?_
    have hwf : WellFormed tid (eventsOf (w1.transaction tid)) := (hinv.transaction tid).wellFormed
    have hlog : eventsOf (w1.transaction tid) <+: w1.log tid := List.prefix_rfl
    split
    · exact Ensures.throw
    · split
      · rename_i htop
        refine Conducts.check_bind fun spec hspec => ?_
        rw [← hwf.children_of_initialized htop]
        refine (dispatchReady_conducts hA true List.prefix_rfl hwf htop hspec).seq
          fun r _ _ _ => ?_
        dsimp only
        split
        · exact Obeys.pure
        · exact runSaga_conducts fuel
      · rename_i htop
        refine Conducts.check_bind fun spec hspec => ?_
        refine (reconcileInFlight_conducts hA hlog hwf hspec).seq fun progressed w2 hle2 _ => ?_
        split
        · exact runSaga_conducts fuel
        · refine Conducts.check_bind fun next hnext => ?_
          cases next with
          | some e =>
            exact (appendSagaStep_conducts hA fuel (licensed_consequence hnext)).seq
              fun _ _ _ _ => runSaga_conducts fuel
          | none =>
            refine (dispatchReady_conducts hA false (hle2.stream .transaction tid) hwf
              htop hspec).seq fun r _ _ _ => ?_
            dsimp only
            split
            · exact Obeys.pure
            · split
              · exact runSaga_conducts fuel
              · exact Obeys.pure
      · rename_i htop
        refine Conducts.check_bind fun spec hspec => ?_
        refine (reconcileRollbacks_conducts hA hlog).seq fun progressed w2 hle2 _ => ?_
        split
        · exact runSaga_conducts fuel
        · refine (rollbackNext_conducts hA hR (hlog.trans (World.log_grow hle2 tid)) hwf htop
            hspec).seq fun progress _ _ _ => ?_
          cases progress with
          | more | waiting => exact Obeys.pure
          | progressed => exact runSaga_conducts fuel
          | done blocked =>
            refine Conducts.check_bind fun next hnext => ?_
            cases next with
            | none => exact Ensures.throw
            | some e =>
              exact (appendSagaStep_conducts hA fuel (licensed_consequence hnext)).seq
                fun _ _ _ _ => runSaga_conducts fuel
      · exact Obeys.pure
      · exact Obeys.pure
      · exact Obeys.pure
      · exact Obeys.pure
      · exact Ensures.throw

theorem resume_conducts : Conducts R A (resume fuel tid) (fun _ _ => True) w :=
  runSaga_conducts hA hR fuel

end

/-! ### The RPCs -/

/-- The decision a request to initialize is answered with. -/
def StartInitializingTransactionResponse.event :
    StartInitializingTransactionResponse → TransactionEvent
  | .initialized id spec => .transactionInitialized id spec
  | .rejected id reason => .transactionRejected id reason

theorem decidedStartInitializingTransaction_opens {r : StartInitializingTransactionResponse}
    (h : decidedStartInitializingTransaction tid es = .ok r) : [r.event] <+: es := by
  cases es with
  | nil => simp [decidedStartInitializingTransaction] at h
  | cons e es =>
    cases e <;> simp [decidedStartInitializingTransaction] at h
    all_goals (subst h; exact ⟨es, rfl⟩)

section

variable (hA : Assumes R A)
include hA

theorem startInitializingAttempts_opens : ∀ (attempts : Nat) {w : World},
    Conducts R A (startInitializingAttempts tid spec attempts)
      (fun r w' => [r.event] <+: eventsOf (w'.transaction tid)) w
  | 0, _ => Ensures.throw
  | attempts + 1, w => by
    refine Conducts.load_transaction hA fun w1 _ _ => ?_
    split
    · refine (initialRejection_returns contract_reads _ _).seq fun r w2 _ hdag => ?_
      have hopened (reply : StartInitializingTransactionResponse) {now : Nat} {w4 : World}
          (hw4 : w4.store .transaction tid = rowsFrom now 0 [reply.event]) :
          Conducts R A (pure reply)
            (fun r w' => [r.event] <+: eventsOf (w'.transaction tid)) w4 := by
        refine Ensures.pure fun w5 hle => ?_
        have hgrow := World.events_grow hle .transaction tid
        rw [hw4, eventsOf_rowsFrom] at hgrow
        exact hgrow
      cases r with
      | none =>
        refine Conducts.append_new hA (a := .transaction) (by simp)
          (fun w3 _ _ hnil => ⟨.initialized hnil (hdag rfl), fun _ _ hw4 =>
            hopened (.initialized tid spec) hw4⟩) fun e w3 _ => ?_
        cases e with
        | concurrencyConflict => exact startInitializingAttempts_opens attempts
        | _ => exact Ensures.throw
      | some reason =>
        refine Conducts.append_new hA (a := .transaction) (by simp)
          (fun w3 _ _ hnil => ⟨.rejected hnil, fun _ _ hw4 =>
            hopened (.rejected tid reason) hw4⟩) fun e w3 _ => ?_
        cases e with
        | concurrencyConflict => exact startInitializingAttempts_opens attempts
        | _ => exact Ensures.throw
    · exact Conducts.check fun r hr _ hle =>
        (decidedStartInitializingTransaction_opens hr).trans
          (World.events_grow hle .transaction tid)

/-- The answer to a request to initialize is what the stream opens with. -/
theorem startInitializingTransaction_opens : Conducts R A (startInitializingTransaction tid spec)
      (fun r w' => [r.event] <+: eventsOf (w'.transaction tid)) w :=
  Conducts.check_bind fun _ _ => startInitializingAttempts_opens hA _

theorem startTransactionRollback_conducts :
    Conducts R A (startTransactionRollback fuel tid reason) (fun _ _ => True) w := by
  have hlic (w1 : World) : Licensed R w1 tid (.transactionRollbackStarted tid reason) :=
    fun _ _ _ => ⟨trivial, rfl⟩
  exact startTransactionRollback_obeys contract_reads
    (fun w1 => appendSagaStep_conducts hA fuel (hlic w1)) w

end

end MoneyFlow.Transaction
