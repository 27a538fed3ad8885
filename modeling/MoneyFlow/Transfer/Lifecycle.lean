import MoneyFlow.Concurrent.History
import MoneyFlow.Transfer.Fold

/-!
# MoneyFlow.Transfer.Lifecycle

The lifecycle of a Transfer's stream, stated over the events alone.

`Follows es e` says which event may come after `es`; a stream all of whose
events follow is a `Lifecycle`. Every transition either leaves the folded state
alone or moves it strictly up in `State.rank`, so a later reading of the stream
finds the same state or a higher one, and a final state is found for ever
(`Lifecycle.state_final`, `Lifecycle.outcome_final`).
-/

namespace MoneyFlow.Transfer

open Concurrent

variable {es es' : List TransferEvent} {legs : List TransferLeg} {id i : Id} {E : Type} {s : State}
  {ty : TransferEventType}

/-! ### Folding one more event -/

@[simp] theorem eventsOf_nil : eventsOf ([] : List (Row E)) = [] := rfl

@[simp] theorem eventsOf_append (xs ys : List (Row E)) :
    eventsOf (xs ++ ys) = eventsOf xs ++ eventsOf ys := List.map_append

@[simp] theorem eventsOf_isEmpty (xs : List (Row E)) :
    (eventsOf xs).isEmpty = xs.isEmpty := by cases xs <;> rfl

theorem eventsOf_eq_nil {xs : List (Row E)} : eventsOf xs = [] ↔ xs = [] := by
  cases xs <;> simp [eventsOf]

theorem eventsOf_grow {xs ys : List (Row E)} (h : xs <+: ys) : eventsOf xs <+: eventsOf ys := by
  obtain ⟨t, rfl⟩ := h
  simp

@[simp] theorem currentState_nil : currentState [] = .unknown := rfl

@[simp] theorem currentState_snoc (es : List TransferEvent) (e : TransferEvent) :
    currentState (es ++ [e]) = advance (currentState es) e := by
  simp [currentState, List.foldl_append]

theorem preparedLegs_append (h : preparedLegs id es = .ok legs) :
    preparedLegs id (es ++ es') = .ok legs := by
  induction es with
  | nil => simp [preparedLegs] at h
  | cons e es ih =>
    cases e <;> simp_all [preparedLegs]

theorem preparedLegs_grow (h : preparedLegs id es = .ok legs) (hp : es <+: es') :
    preparedLegs id es' = .ok legs := by
  obtain ⟨t, rfl⟩ := hp
  exact preparedLegs_append h

/-- The manifest `preparedLegs` answers is one some `TransferPrepared` recorded. -/
theorem preparedLegs_mem (h : preparedLegs id es = .ok legs) :
    ∃ i, .transferPrepared i legs ∈ es := by
  induction es with
  | nil => simp [preparedLegs] at h
  | cons e es ih =>
    cases e with
    | transferPrepared i legs' =>
      obtain rfl : legs' = legs := by simpa [preparedLegs] using h
      exact ⟨i, List.mem_cons_self⟩
    | _ =>
      obtain ⟨i, hi⟩ := ih (by simpa [preparedLegs] using h)
      exact ⟨i, List.mem_cons_of_mem _ hi⟩

theorem exists_preparedLegs (h : .transferPrepared i legs ∈ es) :
    ∃ ls, preparedLegs id es = .ok ls := by
  induction es with
  | nil => simp at h
  | cons e es ih =>
    cases e with
    | transferPrepared j ls => exact ⟨ls, rfl⟩
    | _ => exact ih (by simpa using h)

/-- Without a `TransferPrepared` there is no manifest, and the first one to come
is it. -/
theorem preparedLegs_append_of_none (h : ∀ i legs, .transferPrepared i legs ∉ es) :
    preparedLegs id (es ++ es') = preparedLegs id es' := by
  induction es with
  | nil => rfl
  | cons e es ih =>
    have ih' := ih fun i legs hm => h i legs (List.mem_cons_of_mem _ hm)
    cases e with
    | transferPrepared i legs => exact absurd List.mem_cons_self (h i legs)
    | _ => simpa [preparedLegs] using ih'

theorem stageRequested_grow {b : Bool} (h : stageRequested es = .ok b) (hp : es <+: es') :
    stageRequested es' = .ok b := by
  obtain ⟨t, rfl⟩ := hp
  cases es with
  | nil => simp [stageRequested] at h
  | cons e es => cases e <;> simp_all [stageRequested]

/-- Only the opening event counts. -/
theorem stageRequested_of_grow (hne : es ≠ []) (hp : es <+: es') :
    stageRequested es' = stageRequested es := by
  obtain ⟨t, rfl⟩ := hp
  cases es with
  | nil => exact absurd rfl hne
  | cons e es => cases e <;> rfl

theorem rejectedRequest_grow (hne : es ≠ []) (hp : es <+: es') :
    rejectedRequest es' = rejectedRequest es := by
  obtain ⟨t, rfl⟩ := hp
  cases es with
  | nil => exact absurd rfl hne
  | cons e es => cases e <;> rfl

/-! ### What may follow what -/

/-- The events that open a stream. -/
def opensStream : TransferEventType → Bool
  | .transferRequestAccepted | .transferRequestRejected
  | .reversalRequestAccepted | .reversalRequestRejected => true
  | _ => false

/-- A client's recorded refusal: it changes nothing. -/
def isResponse : TransferEventType → Bool
  | .confirmStagedTransferRejected | .cancelStagedTransferRejected
  | .postPendingTransferRejected => true
  | _ => false

/-- The states a claim is taken in. -/
def State.claimable : State → Bool
  | .prepared | .staged | .pending => true
  | _ => false

/-- The event `e` may come after the events `es`. -/
inductive Follows (es : List TransferEvent) (e : TransferEvent) : Prop
  | opening (hes : es = []) (he : opensStream e.eventType = true)
  | prepared (hs : currentState es = .accepted) (he : e.eventType = .transferPrepared)
  | outcome (he : e.eventType ∈ transitions (currentState es))
  | claim (hs : (currentState es).claimable = true) (he : isClaimMarkerType e.eventType = true)
  | response (hes : es ≠ []) (he : isResponse e.eventType = true)

/-- A stream every event of which follows. -/
abbrev Lifecycle : List TransferEvent → Prop := History Follows

/-- How far a state is along. -/
def State.rank : State → Nat
  | .unknown => 0
  | .accepted => 1
  | .prepared => 2
  | .staged => 3
  | .pending => 4
  | .committed | .failed | .cancelled => 5

/-- The states a Transfer never leaves. -/
def State.final : State → Bool
  | .committed | .failed | .cancelled => true
  | _ => false

theorem State.final_iff : s.final = true ↔ s.rank = 5 := by
  cases s <;> decide

/-- The transitions table only ever moves a Transfer up. -/
theorem rank_lt_of_transition (h : ty ∈ transitions s) :
    ∃ s', stateByEventType ty = some s' ∧ s.rank < s'.rank := by
  cases s <;> cases ty <;> first
    | exact ⟨_, rfl, by decide⟩
    | simp [transitions] at h

/-- An event leaves the folded state alone or moves it up. -/
theorem Follows.stays_or_rises {e : TransferEvent} (h : Follows es e) :
    currentState (es ++ [e]) = currentState es ∨
      (currentState es).rank < (currentState (es ++ [e])).rank := by
  rw [currentState_snoc]
  cases h with
  | opening hes he =>
    subst hes
    cases e <;> simp [opensStream, TransferEvent.eventType] at he <;>
      simp [advance, stateByEventType, TransferEvent.eventType, State.rank]
  | prepared hs he =>
    right
    simp [hs, advance, he, stateByEventType, State.rank]
  | outcome he =>
    obtain ⟨s', hs', hlt⟩ := rank_lt_of_transition he
    right
    simpa [advance, hs'] using hlt
  | claim hs he =>
    left
    cases e <;> simp [isClaimMarkerType, TransferEvent.eventType] at he <;> rfl
  | response hes he =>
    left
    cases e <;> simp [isResponse, TransferEvent.eventType] at he <;> rfl

/-- `TransferPrepared` comes at Accepted. -/
theorem Follows.prepared_accepted (h : Follows es (.transferPrepared i legs)) :
    currentState es = .accepted := by
  cases h with
  | prepared hs _ => exact hs
  | opening _ he => simp [opensStream, TransferEvent.eventType] at he
  | outcome he =>
    revert he
    cases currentState es <;> simp [transitions, TransferEvent.eventType]
  | claim _ he => simp [isClaimMarkerType, TransferEvent.eventType] at he
  | response _ he => simp [isResponse, TransferEvent.eventType] at he

/-- A stream's state is the one its last advancing event produced. -/
theorem exists_of_currentState (h : currentState es = s) (hs : s ≠ .unknown) :
    ∃ e ∈ es, stateByEventType e.eventType = some s := by
  induction es using List.reverseRecOn with
  | nil => exact absurd h.symm hs
  | append_singleton es e ih =>
    rw [currentState_snoc, advance] at h
    cases he : stateByEventType e.eventType with
    | none =>
      rw [he] at h
      obtain ⟨e', hm, he'⟩ := ih h
      exact ⟨e', List.mem_append_left _ hm, he'⟩
    | some s' =>
      rw [he] at h
      obtain rfl : s' = s := h
      exact ⟨e, List.mem_append_right _ List.mem_cons_self, he⟩

namespace Lifecycle

variable {es es' : List TransferEvent}

/-- A later reading finds the same state or a higher one. -/
theorem state_le (h : Lifecycle es') (hp : es <+: es') :
    currentState es' = currentState es ∨ (currentState es).rank < (currentState es').rank :=
  History.stays_or_rises currentState State.rank (fun _ _ _ hf => hf.stays_or_rises) h hp

theorem rank_le (h : Lifecycle es') (hp : es <+: es') :
    (currentState es).rank ≤ (currentState es').rank := by
  rcases h.state_le hp with heq | hlt
  · rw [heq]
  · exact hlt.le

/-- A final state is found for ever. -/
theorem state_final (h : Lifecycle es') (hp : es <+: es') (hf : (currentState es).final = true) :
    currentState es' = currentState es := by
  rcases h.state_le hp with heq | hlt
  · exact heq
  · have h5 := State.final_iff.mp hf
    have : (currentState es').rank ≤ 5 := by cases currentState es' <;> decide
    omega

/-- A stream that opened with a rejection never enters the lifecycle. -/
theorem rejected_unknown (h : Lifecycle es) (hr : rejectedRequest es = true) :
    currentState es = .unknown := by
  refine History.induct (P := fun es => rejectedRequest es = true → currentState es = .unknown)
    (fun _ => rfl) ?_ h hr
  intro es e _ hf ih hr
  -- whatever is not the opening event comes after one, and finds the state unknown
  have hunknown (hne : es ≠ []) : currentState es = .unknown :=
    ih ((rejectedRequest_grow hne (List.prefix_append _ _)).symm.trans hr)
  rw [currentState_snoc]
  cases hf with
  | opening hes he =>
    subst hes
    cases e <;> simp [rejectedRequest] at hr <;> rfl
  | prepared hs he =>
    have hne : es ≠ [] := by rintro rfl; simp at hs
    simp [hunknown hne] at hs
  | outcome he =>
    have hne : es ≠ [] := by rintro rfl; simp [transitions] at he
    simp [hunknown hne, transitions] at he
  | claim hs he =>
    have hne : es ≠ [] := by rintro rfl; simp [State.claimable] at hs
    simp [hunknown hne, State.claimable] at hs
  | response hes he =>
    rw [hunknown hes]
    cases e <;> simp [isResponse, TransferEvent.eventType] at he <;> rfl

/-- A state-advancing event on the stream leaves it at least as far along. -/
theorem rank_of_mem (h : Lifecycle es) {e : TransferEvent} (hm : e ∈ es)
    (hs : stateByEventType e.eventType = some s) : s.rank ≤ (currentState es).rank := by
  obtain ⟨pre, hp, -⟩ := h.of_mem hm
  have hrank := h.rank_le hp
  rw [currentState_snoc, advance, hs] at hrank
  exact hrank

/-- A staged or pending Transfer was staged. -/
theorem staged_mem (h : Lifecycle es)
    (hs : currentState es = .staged ∨ currentState es = .pending) :
    ∃ i, .transferStaged i ∈ es := by
  refine History.induct (P := fun es => currentState es = .staged ∨ currentState es = .pending →
    ∃ i, .transferStaged i ∈ es) (fun hs => by simp at hs) ?_ h hs
  intro es e _ hf ih hs
  have hold (hs' : currentState es = .staged ∨ currentState es = .pending) :
      ∃ i, .transferStaged i ∈ es ++ [e] := by
    obtain ⟨i, hm⟩ := ih hs'
    exact ⟨i, List.mem_append_left _ hm⟩
  rw [currentState_snoc] at hs
  cases e with
  | transferStaged i => exact ⟨i, List.mem_append_right _ List.mem_cons_self⟩
  | transferPending i =>
    -- only a staged Transfer is confirmed
    refine hold (Or.inl ?_)
    cases hf with
    | opening _ he => simp [opensStream, TransferEvent.eventType] at he
    | prepared _ he => simp [TransferEvent.eventType] at he
    | outcome he =>
      revert he
      cases currentState es <;> simp [transitions, TransferEvent.eventType]
    | claim _ he => simp [isClaimMarkerType, TransferEvent.eventType] at he
    | response _ he => simp [isResponse, TransferEvent.eventType] at he
  | _ =>
    first
      | exact hold hs
      | simp [advance, stateByEventType, TransferEvent.eventType] at hs

/-- Past Accepted, whatever manifest a stream will have it has already. -/
theorem prepared_earlier (h : Lifecycle es') (hp : es <+: es') (hs : 2 ≤ (currentState es).rank)
    (hm : .transferPrepared i legs ∈ es') : .transferPrepared i legs ∈ es := by
  obtain ⟨pre, hpre, hf⟩ := h.of_mem hm
  have hacc := hf.prepared_accepted
  rcases List.prefix_or_prefix_of_prefix hpre hp with hle | hle
  · exact hle.subset (List.mem_append_right _ List.mem_cons_self)
  · rcases List.prefix_concat_iff.mp hle with rfl | hle
    · exact List.mem_append_right _ List.mem_cons_self
    · -- the manifest would come after a reading past Accepted
      have hrank := rank_le (h.earlier ((List.prefix_append _ _).trans hpre)) hle
      rw [hacc] at hrank
      exact absurd (hs.trans hrank) (by decide)

/-- Before Prepared there is no manifest. -/
theorem not_prepared (h : Lifecycle es) (hs : (currentState es).rank < 2) (i : Id)
    (legs : List TransferLeg) : .transferPrepared i legs ∉ es :=
  fun hm => absurd (h.rank_of_mem hm rfl) (Nat.not_le_of_lt hs)

/-- A stream has one manifest, the one `preparedLegs` finds. -/
theorem preparedLegs_of_mem (h : Lifecycle es) (hm : .transferPrepared i legs ∈ es) :
    preparedLegs id es = .ok legs := by
  obtain ⟨pre, hpre, hf⟩ := h.of_mem hm
  have hpreL : Lifecycle pre := h.earlier ((List.prefix_append _ _).trans hpre)
  refine preparedLegs_grow ?_ hpre
  rw [preparedLegs_append_of_none fun j ls =>
    hpreL.not_prepared (by rw [hf.prepared_accepted]; decide) j ls]
  rfl

end Lifecycle

/-! ### Outcomes -/

/-- The stream holds an event of type `ty`. -/
def Recorded (ty : TransferEventType) (es : List TransferEvent) : Prop :=
  ∃ e ∈ es, e.eventType = ty

theorem Recorded.grow (h : Recorded ty es) (hp : es <+: es') : Recorded ty es' := by
  obtain ⟨e, hm, hty⟩ := h
  exact ⟨e, hp.subset hm, hty⟩

theorem recorded_latest (h : latestOutcome es = some ty) : Recorded ty es := by
  obtain ⟨e, hfind, hty⟩ := Option.map_eq_some_iff.mp h
  exact ⟨e, List.mem_reverse.mp (List.mem_of_find?_eq_some hfind), hty⟩

/-- A Transfer found pending was confirmed. -/
theorem recorded_pending (h : currentState es = .pending) : Recorded .transferPending es := by
  obtain ⟨e, hm, he⟩ := exists_of_currentState h (by decide)
  refine ⟨e, hm, ?_⟩
  revert he
  cases e.eventType <;> simp [stateByEventType]

/-- The outcomes a Transfer keeps for good. -/
def OutcomeKind.final : OutcomeKind → Bool
  | .rejected | .committed | .failed | .cancelled => true
  | _ => false

theorem outcome_eq_committed :
    outcome es = .committed ↔ rejectedRequest es = false ∧ currentState es = .committed := by
  unfold outcome
  cases es with
  | nil => simp [rejectedRequest]
  | cons e es =>
    simp only [List.isEmpty_cons, Bool.false_eq_true, if_false]
    split
    · simp_all
    · cases currentState (e :: es) <;> simp_all

/-- A final outcome is found for ever. -/
theorem Lifecycle.outcome_final (h : Lifecycle es') (hp : es <+: es')
    (hf : (outcome es).final = true) : outcome es' = outcome es := by
  have hne : es ≠ [] := by
    rintro rfl
    simp [outcome, OutcomeKind.final] at hf
  have hne' : es' ≠ [] := by
    rintro rfl
    exact hne (List.prefix_nil.mp hp)
  have hrej := rejectedRequest_grow hne hp
  unfold outcome at hf ⊢
  simp only [List.isEmpty_iff, hne, hne', if_false] at hf ⊢
  rw [hrej]
  split
  · rfl
  · rename_i hnr
    rw [if_neg hnr] at hf
    have hstate : (currentState es).final = true := by
      revert hf
      cases currentState es <;> simp [OutcomeKind.final, State.final]
    rw [h.state_final hp hstate]

end MoneyFlow.Transfer
