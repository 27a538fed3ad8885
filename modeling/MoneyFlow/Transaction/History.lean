import MoneyFlow.Concurrent.History
import MoneyFlow.Transaction.Fold

/-!
# MoneyFlow.Transaction.History

The history of a Transaction's stream, stated over the events alone.

Four kinds of append write one stream: the opening RPC, the dispatch intents,
`appendSagaStep`'s step with its consequences, and the rollback RPC.
`Follows tid es e` says, whoever writes it, which event may come after `es`.
Everything said about a Transaction's own stream is read off that relation.
-/

namespace MoneyFlow.Transaction

open Concurrent

variable {es es' : List TransactionEvent} {c tid : Id} {e : TransactionEvent} {spec : Spec}
  {st : ChildState}

/-! ### What a stream mentions -/

/-- The child was requested. -/
def Requested (es : List TransactionEvent) (c : Id) : Prop :=
  ∃ i, .transferRequestedWithinTransaction i c ∈ es

/-- The child's completion is on the stream. -/
def CompletedChild (es : List TransactionEvent) (c : Id) : Prop :=
  ∃ i, .transferCompletedWithinTransaction i c ∈ es

/-- The child's failure is on the stream. -/
def FailedChild (es : List TransactionEvent) (c : Id) : Prop :=
  ∃ i r, .transferFailedWithinTransaction i c r ∈ es

/-- A Reversal of the child was requested. -/
def ReversalRequested (es : List TransactionEvent) (c : Id) : Prop :=
  ∃ i r, .transferReversalRequestedWithinTransaction i c r ∈ es

/-- The child is recorded as rolled back. -/
def RolledBackChild (es : List TransactionEvent) (c : Id) : Prop :=
  ∃ i m d, .transferRolledBackWithinTransaction i c m d ∈ es

/-- The child is recorded as impossible to roll back. -/
def RollbackFailedChild (es : List TransactionEvent) (c : Id) : Prop :=
  ∃ i r, .transferRollbackFailedWithinTransaction i c r ∈ es

/-- The rollback needs nothing more of the child. -/
def Resolved (es : List TransactionEvent) (c : Id) : Prop :=
  RolledBackChild es c ∨ FailedChild es c

/-- The rollback has begun. -/
def RollbackBegun (es : List TransactionEvent) : Prop :=
  ∃ i r, .transactionRollbackStarted i r ∈ es

theorem Requested.mono (h : Requested es c) (hs : es ⊆ es') :
    Requested es' c := h.imp fun _ hm => hs hm

theorem Resolved.mono (h : Resolved es c) (hs : es ⊆ es') : Resolved es' c := by
  rcases h with ⟨i, m, d, hm⟩ | ⟨i, r, hm⟩
  · exact Or.inl ⟨i, m, d, hs hm⟩
  · exact Or.inr ⟨i, r, hs hm⟩

theorem CompletedChild.mono (h : CompletedChild es c) (hs : es ⊆ es') :
    CompletedChild es' c := h.imp fun _ hm => hs hm

theorem RollbackBegun.mono (h : RollbackBegun es) (hs : es ⊆ es') : RollbackBegun es' := by
  obtain ⟨i, r, hm⟩ := h
  exact ⟨i, r, hs hm⟩

/-! ### Folding one more event -/

@[simp] theorem topLevelState_snoc (es : List TransactionEvent) (e : TransactionEvent) :
    topLevelState (es ++ [e]) = (stateOf e).getD (topLevelState es) := by
  simp [topLevelState, List.foldl_append]

theorem foldChildStates_snoc (es : List TransactionEvent) (e : TransactionEvent) :
    foldChildStates (es ++ [e]) =
      match childOf e with
      | some (id, st) => (foldChildStates es).set id st
      | none => foldChildStates es := by
  unfold foldChildStates
  exact List.foldl_append

namespace Children

theorem lookup_set : ∀ (cs : Children) (id : Id) (st : ChildState) (c : Id),
    (cs.set id st).lookup c = if c = id then some st else cs.lookup c
  | [], id, st, c => by
    by_cases h : c = id
    · simp [set, h]
    · simp [set, List.lookup_cons, beq_false_of_ne h, h]
  | (k, v) :: rest, id, st, c => by
    by_cases hk : k = id
    · subst hk
      by_cases hc : c = k
      · simp [set, hc]
      · simp [set, List.lookup_cons, beq_false_of_ne hc, hc]
    · have ih := lookup_set rest id st c
      by_cases hc : c = k
      · subst hc
        simp [set, hk]
      · simp [set, hk, List.lookup_cons, beq_false_of_ne hc, ih]

@[simp] theorem state_set (cs : Children) (id : Id) (st : ChildState) (c : Id) :
    (cs.set id st).state c = if c = id then st else cs.state c := by
  unfold state
  rw [lookup_set]
  split <;> rfl

theorem touched_set (cs : Children) (id : Id) (st : ChildState) (c : Id) :
    (cs.set id st).touched c = true ↔ c = id ∨ cs.touched c = true := by
  unfold touched
  rw [lookup_set]
  split <;> simp_all

theorem mem_keys_iff {cs : Children} : c ∈ cs.map Prod.fst ↔ cs.touched c = true := by
  unfold touched
  induction cs with
  | nil => simp
  | cons e rest ih =>
    rw [List.lookup_cons]
    by_cases h : c = e.1
    · simp [h]
    · simp only [List.map_cons, List.mem_cons, h, false_or, ih, beq_false_of_ne h]

theorem mem_of_state {cs : Children} (h : cs.state c = st) (hne : st ≠ .untouched) :
    (c, st) ∈ cs := by
  unfold state at h
  cases hl : cs.lookup c with
  | none => exact absurd (by simpa [hl] using h.symm) hne
  | some v =>
    obtain rfl : v = st := by simpa [hl] using h
    clear h
    induction cs with
    | nil => simp at hl
    | cons e rest ih =>
      rw [List.lookup_cons] at hl
      by_cases hc : c = e.1
      · obtain rfl : e.2 = v := by simpa [hc] using hl
        rw [hc]
        exact List.mem_cons_self
      · rw [beq_false_of_ne hc] at hl
        exact List.mem_cons_of_mem _ (ih hl)

end Children

/-- A child's state once `e` is recorded. -/
theorem state_snoc (es : List TransactionEvent) (e : TransactionEvent) (c : Id) :
    (foldChildStates (es ++ [e])).state c =
      match childOf e with
      | some (id, st) => if c = id then st else (foldChildStates es).state c
      | none => (foldChildStates es).state c := by
  rw [foldChildStates_snoc]
  cases childOf e with
  | none => rfl
  | some p => simp

theorem childOf_ne_untouched (h : childOf e = some (c, st)) : st ≠ .untouched := by
  cases e <;> simp [childOf] at h <;> simp [← h.2]

/-- A child's state is the one its last event moved it to. -/
theorem exists_of_state (h : (foldChildStates es).state c = st) (hne : st ≠ .untouched) :
    ∃ e ∈ es, childOf e = some (c, st) := by
  induction es using List.reverseRecOn with
  | nil => exact absurd (by simpa [foldChildStates, Children.state] using h.symm) hne
  | append_singleton es e ih =>
    rw [state_snoc] at h
    have hpre (h' : (foldChildStates es).state c = st) :
        ∃ e' ∈ es ++ [e], childOf e' = some (c, st) := by
      obtain ⟨e', hm, he'⟩ := ih h'
      exact ⟨e', List.mem_append_left _ hm, he'⟩
    cases hc : childOf e with
    | none =>
      rw [hc] at h
      exact hpre h
    | some p =>
      rw [hc] at h
      simp only at h
      split at h
      · rename_i hcp
        subst hcp h
        exact ⟨e, List.mem_append_right _ List.mem_cons_self, hc⟩
      · exact hpre h

/-- A child is untouched as long as no event is about it. -/
theorem state_untouched_iff :
    (foldChildStates es).state c = .untouched ↔ ∀ e ∈ es, ∀ st, childOf e ≠ some (c, st) := by
  induction es using List.reverseRecOn with
  | nil => simp [foldChildStates, Children.state]
  | append_singleton es e ih =>
    rw [state_snoc]
    cases hc : childOf e with
    | none =>
      simp only [ih, List.mem_append, List.mem_singleton, or_imp, forall_and, forall_eq, hc,
        ne_eq, reduceCtorEq, not_false_eq_true, implies_true, and_true]
    | some p =>
      simp only [List.mem_append, List.mem_singleton, or_imp, forall_and, forall_eq, hc]
      split
      · rename_i hcp
        subst hcp
        exact ⟨fun h => absurd h (childOf_ne_untouched hc), fun h => absurd rfl (h.2 p.2)⟩
      · rename_i hcp
        rw [ih]
        refine ⟨fun h => ⟨h, fun st heq => hcp ?_⟩, fun h => h.1⟩
        rw [Option.some.inj heq]

/-- A child is touched once some event is about it. -/
theorem touched_iff :
    (foldChildStates es).touched c = true ↔ ∃ e ∈ es, ∃ st, childOf e = some (c, st) := by
  induction es using List.reverseRecOn with
  | nil => simp [foldChildStates, Children.touched]
  | append_singleton es e ih =>
    rw [foldChildStates_snoc]
    cases hc : childOf e with
    | none => simp [ih, List.mem_append, or_and_right, exists_or, hc]
    | some p =>
      simp only [Children.touched_set, ih, List.mem_append, List.mem_singleton,
        or_and_right, exists_or, exists_eq_left, hc, Option.some.injEq]
      constructor
      · rintro (rfl | h)
        · exact Or.inr ⟨p.2, rfl⟩
        · exact Or.inl h
      · rintro (h | ⟨st, heq⟩)
        · exact Or.inr h
        · left
          rw [heq]

theorem touched_iff_state :
    (foldChildStates es).touched c = true ↔ (foldChildStates es).state c ≠ .untouched := by
  rw [touched_iff, ne_eq, state_untouched_iff]
  push Not
  rfl

/-! ### What may follow what -/

/-- The events that end a Transaction once it has run. -/
def isConclusion : TransactionEventType → Bool
  | .transactionCompleted | .transactionRolledBack | .transactionRollbackFailed => true
  | _ => false

/-- The rollback may undo `c`: it was requested, and every child that lists it
as a parent was never requested or is resolved. -/
def Cleared (es : List TransactionEvent) (c : Id) : Prop :=
  ∃ spec, decodeSpec es = .ok spec ∧ c ∈ spec.transfers.keys ∧ Requested es c ∧
    ∀ d, c ∈ parentsOf spec.transferDependency d → Requested es d → Resolved es d

/-- The child may be requested: nothing is recorded about it, and its parents have
completed. -/
def Dispatchable (spec : Spec) (es : List TransactionEvent) (c : Id) : Prop :=
  c ∈ spec.transfers.keys ∧ (foldChildStates es).state c = .untouched ∧
    ∀ p ∈ parentsOf spec.transferDependency c, (foldChildStates es).state p = .completed

/-- The event may come after the events `es` of Transaction `tid`. -/
inductive Follows (tid : Id) (es : List TransactionEvent) : TransactionEvent → Prop
  | initialized {spec : Spec} (hes : es = [])
      (hdag : validateDAG spec.transfers spec.transferDependency = .ok ()) :
      Follows tid es (.transactionInitialized tid spec)
  | rejected {reason : Text} (hes : es = []) : Follows tid es (.transactionRejected tid reason)
  | started (htop : topLevelState es = .initialized) : Follows tid es (.transactionStarted tid)
  | requested {spec : Spec} {c : Id} (htop : topLevelState es = .started)
      (hspec : decodeSpec es = .ok spec) (hc : c ∈ spec.transfers.keys)
      (hnew : (foldChildStates es).state c = .untouched)
      (hparents : ∀ p ∈ parentsOf spec.transferDependency c,
        (foldChildStates es).state p = .completed) :
      Follows tid es (.transferRequestedWithinTransaction tid c)
  | completed {c : Id} (htop : topLevelState es = .started)
      (hc : (foldChildStates es).state c = .requested) :
      Follows tid es (.transferCompletedWithinTransaction tid c)
  | failed {c : Id} {reason : Text} (htop : topLevelState es = .started)
      (hc : (foldChildStates es).state c = .requested) :
      Follows tid es (.transferFailedWithinTransaction tid c reason)
  | rollbackStarted {reason : Text}
      (htop : topLevelState es = .initialized ∨ topLevelState es = .started) :
      Follows tid es (.transactionRollbackStarted tid reason)
  | reversalRequested {c : Id} (htop : topLevelState es = .rollbackStarted) (hc : Cleared es c)
      (hnew : ¬ ReversalRequested es c) :
      Follows tid es (.transferReversalRequestedWithinTransaction tid c (.reversal tid c))
  | rolledBack {c : Id} {method : RollbackMethod} {detailID : Id}
      (htop : topLevelState es = .rollbackStarted) (hc : Cleared es c)
      (hnew : ¬ RolledBackChild es c) :
      Follows tid es (.transferRolledBackWithinTransaction tid c method detailID)
  | rollbackFailed {c : Id} {reason : Text} (htop : topLevelState es = .rollbackStarted)
      (hc : Cleared es c) (hnew : ¬ RollbackFailedChild es c) :
      Follows tid es (.transferRollbackFailedWithinTransaction tid c reason)
  | concluded {e e' : TransactionEvent} (hdec : consequence es tid = .ok (some e'))
      (htype : e.eventType = e'.eventType) (he : isConclusion e.eventType = true) :
      Follows tid es e

/-- How far a Transaction's state is along. -/
def State.rank : State → Nat
  | .unknown => 0
  | .initialized => 1
  | .started => 2
  | .rollbackStarted => 3
  | .completed | .rolledBack | .rollbackFailed | .rejected => 4

/-- The states a Transaction never leaves. -/
def State.final : State → Bool
  | .completed | .rolledBack | .rollbackFailed | .rejected => true
  | _ => false

/-- A decided step is one that follows, and only an open Transaction has one. -/
theorem consequence_cases (h : consequence es tid = .ok (some e)) :
    (topLevelState es = .started ∧ ((∃ r, e = .transactionRollbackStarted tid r) ∨
        (e = .transactionCompleted tid ∧ ∃ spec, decodeSpec es = .ok spec ∧
          allTerminal spec.transfers (foldChildStates es) = true))) ∨
      (topLevelState es = .rollbackStarted ∧ ∃ spec, decodeSpec es = .ok spec ∧
        (planRollback spec.transfers.keys spec.transferDependency
          (foldChildStates es)).candidates = [] ∧
        (planRollback spec.transfers.keys spec.transferDependency
          (foldChildStates es)).inFlight = false ∧
        ((∃ r, e = .transactionRollbackFailed tid r ∧
            (planRollback spec.transfers.keys spec.transferDependency
              (foldChildStates es)).anyFailed = true) ∨
          (∃ r, e = .transactionRolledBack tid r ∧
            (planRollback spec.transfers.keys spec.transferDependency
              (foldChildStates es)).anyFailed = false))) := by
  unfold consequence at h
  split at h
  · rename_i htop
    left
    refine ⟨htop, ?_⟩
    split at h
    · simp at h
    · rename_i spec hspec
      split at h
      · left
        exact ⟨_, (Option.some.inj (Except.ok.inj h)).symm⟩
      · split at h
        · rename_i hall
          exact Or.inr ⟨(Option.some.inj (Except.ok.inj h)).symm, spec, hspec, hall⟩
        · simp at h
  · rename_i htop
    right
    refine ⟨htop, ?_⟩
    split at h
    · simp at h
    · rename_i spec hspec
      refine ⟨spec, hspec, ?_⟩
      dsimp only at h
      split at h
      · simp at h
      · rename_i hplan
        simp only [Bool.or_eq_true, not_or, Bool.not_eq_true', Bool.not_eq_true,
          Bool.not_eq_false] at hplan
        refine ⟨by simpa using hplan.1, hplan.2, ?_⟩
        split at h
        · rename_i hany
          exact Or.inl ⟨_, (Option.some.inj (Except.ok.inj h)).symm, hany⟩
        · rename_i hany
          exact Or.inr ⟨_, (Option.some.inj (Except.ok.inj h)).symm, by simpa using hany⟩
  · simp at h

theorem Follows.of_consequence (h : consequence es tid = .ok (some e)) : Follows tid es e := by
  rcases consequence_cases h with
    ⟨htop, ⟨r, rfl⟩ | ⟨rfl, -⟩⟩ | ⟨-, _, -, -, -, ⟨r, rfl, -⟩ | ⟨r, rfl, -⟩⟩
  · exact .rollbackStarted (Or.inr htop)
  · exact .concluded h rfl rfl
  · exact .concluded h rfl rfl
  · exact .concluded h rfl rfl

/-- The state a concluded Transaction was in, and the one it moves to. -/
theorem stateOf_conclusion {e' : TransactionEvent} (hdec : consequence es tid = .ok (some e'))
    (htype : e.eventType = e'.eventType) (he : isConclusion e.eventType = true) :
    (topLevelState es = .started ∨ topLevelState es = .rollbackStarted) ∧
      ∃ s, stateOf e = some s ∧ s.final = true := by
  refine ⟨?_, ?_⟩
  · rcases consequence_cases hdec with ⟨htop, -⟩ | ⟨htop, -⟩
    · exact Or.inl htop
    · exact Or.inr htop
  · cases e <;> simp [isConclusion, TransactionEvent.eventType] at he <;> exact ⟨_, rfl, rfl⟩

/-- An event leaves the top-level state alone or moves it up. -/
theorem Follows.stays_or_rises (h : Follows tid es e) :
    topLevelState (es ++ [e]) = topLevelState es ∨
      (topLevelState es).rank < (topLevelState (es ++ [e])).rank := by
  rw [topLevelState_snoc]
  cases h with
  | initialized hes _ | rejected hes =>
    subst hes
    right
    simp [stateOf, State.rank, topLevelState]
  | started htop =>
    right
    simp [htop, stateOf, State.rank]
  | rollbackStarted htop =>
    right
    rcases htop with htop | htop <;> simp [htop, stateOf, State.rank]
  | concluded hdec htype he =>
    right
    obtain ⟨htop, s, hs, hfin⟩ := stateOf_conclusion hdec htype he
    have h4 : s.rank = 4 := by cases s <;> simp [State.final] at hfin <;> rfl
    rw [hs, Option.getD_some, h4]
    rcases htop with htop | htop <;> rw [htop] <;> decide
  | _ => exact Or.inl rfl

/-- An event follows only a Transaction that is still open. -/
theorem Follows.not_final (h : Follows tid es e) : (topLevelState es).final = false := by
  cases h with
  | initialized hes _ =>
    subst hes
    rfl
  | rejected hes =>
    subst hes
    rfl
  | rollbackStarted htop => rcases htop with htop | htop <;> rw [htop] <;> rfl
  | concluded hdec htype he =>
    obtain ⟨htop, -⟩ := stateOf_conclusion hdec htype he
    rcases htop with htop | htop <;> rw [htop] <;> rfl
  | started htop => rw [htop]; rfl
  | requested htop => rw [htop]; rfl
  | completed htop => rw [htop]; rfl
  | failed htop | reversalRequested htop | rolledBack htop | rollbackFailed htop => rw [htop]; rfl

/-! ### Histories -/

/-- A stream of Transaction `tid` every event of which follows. -/
abbrev WellFormed (tid : Id) : List TransactionEvent → Prop := History (Follows tid)

theorem decodeSpec_grow (h : decodeSpec es = .ok spec) (hp : es <+: es') :
    decodeSpec es' = .ok spec := by
  obtain ⟨t, rfl⟩ := hp
  cases es with
  | nil => simp [decodeSpec] at h
  | cons e es => cases e <;> simp_all [decodeSpec]

theorem decodeSpec_mem (h : decodeSpec es = .ok spec) :
    ∃ i rest, es = .transactionInitialized i spec :: rest := by
  cases es with
  | nil => simp [decodeSpec] at h
  | cons e es =>
    cases e <;> simp [decodeSpec] at h
    exact ⟨_, es, by rw [h]⟩

namespace WellFormed

variable {tid : Id} {es es' : List TransactionEvent}

/-- A later reading finds the same top-level state or a higher one. -/
theorem state_le (h : WellFormed tid es') (hp : es <+: es') :
    topLevelState es' = topLevelState es ∨
      (topLevelState es).rank < (topLevelState es').rank :=
  History.stays_or_rises topLevelState State.rank (fun _ _ _ hf => hf.stays_or_rises) h hp

theorem rank_le (h : WellFormed tid es') (hp : es <+: es') :
    (topLevelState es).rank ≤ (topLevelState es').rank := by
  rcases h.state_le hp with heq | hlt
  · rw [heq]
  · exact hlt.le

/-- Nothing follows a final state. -/
theorem final_stays (h : WellFormed tid es') (hp : es <+: es')
    (hf : (topLevelState es).final = true) : es' = es := by
  obtain ⟨t, rfl⟩ := hp
  cases t with
  | nil => simp
  | cons e t =>
    have hfol : Follows tid es e := h es e ⟨t, by simp⟩
    rw [hfol.not_final] at hf
    simp at hf

/-- A top-level event on the stream leaves the state at least as far along. -/
theorem rank_of_mem (h : WellFormed tid es) (hm : e ∈ es) {s : State} (hs : stateOf e = some s) :
    s.rank ≤ (topLevelState es).rank := by
  obtain ⟨pre, hp, -⟩ := h.of_mem hm
  have hrank := h.rank_le hp
  rw [topLevelState_snoc, hs] at hrank
  exact hrank

theorem begun_rank (h : WellFormed tid es) (hb : RollbackBegun es) :
    3 ≤ (topLevelState es).rank := by
  obtain ⟨i, r, hm⟩ := hb
  exact h.rank_of_mem hm rfl

/-- Once the rollback has begun no further child is requested. -/
theorem requested_before_rollback (h : WellFormed tid es') (hp : es <+: es') (hb : RollbackBegun es)
    (hr : Requested es' c) : Requested es c := by
  obtain ⟨i, hm⟩ := hr
  obtain ⟨pre, hpre, hf⟩ := h.of_mem hm
  rcases List.prefix_or_prefix_of_prefix hpre hp with hle | hle
  · exact ⟨i, hle.subset (List.mem_append_right _ List.mem_cons_self)⟩
  · rcases List.prefix_concat_iff.mp hle with rfl | hle
    · exact ⟨i, List.mem_append_right _ List.mem_cons_self⟩
    · -- the request would come after the rollback had begun
      have hpreWF : WellFormed tid pre := h.earlier ((List.prefix_append _ _).trans hpre)
      have hrank := hpreWF.begun_rank (hb.mono hle.subset)
      cases hf with
      | requested htop => rw [htop] at hrank; simp [State.rank] at hrank
      | concluded _ _ he => simp [isConclusion, TransactionEvent.eventType] at he

/-- Whatever is recorded about a child is recorded after its request. -/
theorem requested_of_child (h : WellFormed tid es) (hm : e ∈ es) (hc : childOf e = some (c, st)) :
    Requested es c := by
  obtain ⟨pre, hp, hf⟩ := h.of_mem hm
  have hsub : pre ⊆ es := fun a ha => hp.subset (List.mem_append_left _ ha)
  have hreq (hs : (foldChildStates pre).state c = .requested) : Requested es c := by
    obtain ⟨e', he', hce'⟩ := exists_of_state hs (by simp)
    cases e' <;> simp [childOf] at hce'
    subst hce'
    exact ⟨_, hsub he'⟩
  have hclear (hcl : Cleared pre c) : Requested es c := by
    obtain ⟨-, -, -, hr, -⟩ := hcl
    exact hr.mono hsub
  cases hf with
  | requested => simp [childOf] at hc; exact hc.1 ▸ ⟨_, hm⟩
  | completed htop hs | failed htop hs => simp [childOf] at hc; exact hc.1 ▸ hreq (hc.1 ▸ hs)
  | reversalRequested htop hcl | rolledBack htop hcl | rollbackFailed htop hcl =>
    simp [childOf] at hc; exact hc.1 ▸ hclear (hc.1 ▸ hcl)
  | concluded _ _ he =>
    cases e <;> simp [isConclusion, TransactionEvent.eventType] at he <;> simp [childOf] at hc
  | initialized | rejected | started | rollbackStarted => simp [childOf] at hc

/-- A child once cleared for undoing stays cleared. -/
theorem cleared_mono (h : WellFormed tid es') (hp : es <+: es') (hb : RollbackBegun es)
    (hc : Cleared es c) : Cleared es' c := by
  obtain ⟨spec, hspec, hk, hr, hdeps⟩ := hc
  refine ⟨spec, decodeSpec_grow hspec hp, hk, hr.mono hp.subset, fun d hd hrd => ?_⟩
  exact (hdeps d hd (h.requested_before_rollback hp hb hrd)).mono hp.subset

/-- The DAG a stream opened with is one `validateDAG` accepted. -/
theorem spec_valid (h : WellFormed tid es) (hs : decodeSpec es = .ok spec) :
    validateDAG spec.transfers spec.transferDependency = .ok () := by
  obtain ⟨i, rest, rfl⟩ := decodeSpec_mem hs
  have hf : Follows tid [] (.transactionInitialized i spec) := h [] _ ⟨rest, rfl⟩
  cases hf with
  | initialized _ hdag => exact hdag
  | concluded _ _ he => simp [isConclusion, TransactionEvent.eventType] at he

/-- Recording what a stream decides keeps it well formed. -/
theorem append_consequences {n : Nat} {rest : List TransactionEvent} (h : WellFormed tid es)
    (hc : consequences tid n es = .ok rest) : WellFormed tid (es ++ rest) := by
  induction n generalizing es rest with
  | zero =>
    obtain rfl : [] = rest := Except.ok.inj hc
    simpa using h
  | succ n ih =>
    unfold consequences at hc
    split at hc
    · simp at hc
    · obtain rfl : [] = rest := Except.ok.inj hc
      simpa using h
    · rename_i next hnext
      split at hc
      · simp at hc
      · rename_i rest' hrest
        obtain rfl : next :: rest' = rest := Except.ok.inj hc
        have := ih (h.snoc (.of_consequence hnext)) hrest
        simpa using this

/-- Recording the intents of a slice keeps a stream well formed. -/
theorem append_requests {slice : List Id} (h : WellFormed tid es)
    (htop : topLevelState es = .started) (hspec : decodeSpec es = .ok spec) (hnd : slice.Nodup)
    (hslice : ∀ c ∈ slice, Dispatchable spec es c) :
    WellFormed tid (es ++ slice.map (.transferRequestedWithinTransaction tid)) := by
  induction slice generalizing es with
  | nil => simpa using h
  | cons c rest ih =>
    obtain ⟨hc, hrest⟩ := List.nodup_cons.mp hnd
    obtain ⟨hk, hnew, hpar⟩ := hslice c List.mem_cons_self
    have hstep : WellFormed tid (es ++ [.transferRequestedWithinTransaction tid c]) :=
      h.snoc (.requested htop hspec hk hnew hpar)
    -- the intent just recorded touches `c` alone, which is no parent of a ready child
    have hother (d : Id) (hd : d ≠ c) :
        (foldChildStates (es ++ [.transferRequestedWithinTransaction tid c])).state d =
          (foldChildStates es).state d := by
      simp [state_snoc, childOf, hd]
    have := ih hstep (by simp [stateOf, htop]) (decodeSpec_grow hspec (List.prefix_append _ _))
      hrest fun d hd => by
        obtain ⟨hkd, hnewd, hpard⟩ := hslice d (List.mem_cons_of_mem _ hd)
        refine ⟨hkd, ?_, fun p hp => ?_⟩
        · rw [hother d fun heq => hc (heq ▸ hd)]
          exact hnewd
        · have hcompleted := hpard p hp
          rw [hother p fun heq => by simp [heq, hnew] at hcompleted]
          exact hcompleted
    simpa using this

/-- So does recording them together with the start of the Transaction. -/
theorem append_intents {starting : Bool} {slice : List Id} (h : WellFormed tid es)
    (htop : topLevelState es = if starting then .initialized else .started)
    (hspec : decodeSpec es = .ok spec) (hnd : slice.Nodup)
    (hslice : ∀ c ∈ slice, Dispatchable spec es c) :
    WellFormed tid (es ++ intentsFor tid starting slice) := by
  cases starting with
  | false => exact h.append_requests htop hspec hnd hslice
  | true =>
    have hstart : WellFormed tid (es ++ [.transactionStarted tid]) := h.snoc (.started htop)
    have hsame (c : Id) : (foldChildStates (es ++ [.transactionStarted tid])).state c =
        (foldChildStates es).state c := by
      simp [state_snoc, childOf]
    have := append_requests hstart (by simp [stateOf])
      (decodeSpec_grow hspec (List.prefix_append _ _)) hnd
        (by simpa only [Dispatchable, hsame] using hslice)
    simpa [intentsFor] using this

end WellFormed

/-! ### Consequences -/

/-- A consequence is about the Transaction, not about a child. -/
theorem consequences_childless : ∀ {n : Nat} {es rest : List TransactionEvent},
    consequences tid n es = .ok rest → ∀ e ∈ rest, childOf e = none
  | 0, es, rest, h => by
    obtain rfl : [] = rest := Except.ok.inj h
    simp
  | n + 1, es, rest, h => by
    unfold consequences at h
    split at h
    · simp at h
    · obtain rfl : [] = rest := Except.ok.inj h
      simp
    · rename_i next hnext
      split at h
      · simp at h
      · rename_i rest' hrest
        obtain rfl : next :: rest' = rest := Except.ok.inj h
        intro e he
        rcases List.mem_cons.mp he with rfl | he
        · rcases consequence_cases hnext with
            ⟨-, ⟨r, rfl⟩ | ⟨rfl, -⟩⟩ | ⟨-, _, -, -, -, ⟨r, rfl, -⟩ | ⟨r, rfl, -⟩⟩ <;> rfl
        · exact consequences_childless hrest e he

/-- Nothing follows from a stream that has concluded, or has not started. -/
theorem consequence_none (h1 : topLevelState es ≠ .started)
    (h2 : topLevelState es ≠ .rollbackStarted) : consequence es tid = .ok none := by
  unfold consequence
  split
  · rename_i h
    exact absurd h h1
  · rename_i h
    exact absurd h h2
  · rfl

/-- What a stream decides moves it up. -/
theorem consequence_rises (h : consequence es tid = .ok (some e)) :
    2 ≤ (topLevelState es).rank ∧
      (topLevelState es).rank < (topLevelState (es ++ [e])).rank ∧ (topLevelState es).rank ≤ 3 := by
  rcases consequence_cases h with
    ⟨htop, ⟨r, rfl⟩ | ⟨rfl, -⟩⟩ | ⟨htop, _, -, -, -, ⟨r, rfl, -⟩ | ⟨r, rfl, -⟩⟩ <;>
    simp [stateOf, htop, State.rank]

/-- More rounds than the ones left find nothing more: a started Transaction has
at most two steps to decide, one that is rolling back at most one. -/
theorem consequences_rounds : ∀ {n m : Nat} {es : List TransactionEvent},
    4 ≤ n + (topLevelState es).rank → 4 ≤ m + (topLevelState es).rank →
      consequences tid (n + 1) es = consequences tid (m + 1) es
  | n, m, es, hn, hm => by
    have hstep (next : TransactionEvent) (hnext : consequence es tid = .ok (some next)) :
        consequences tid n (es ++ [next]) = consequences tid m (es ++ [next]) := by
      obtain ⟨-, hrise, hbound⟩ := consequence_rises hnext
      obtain ⟨n', rfl⟩ : ∃ n', n = n' + 1 := ⟨n - 1, by omega⟩
      obtain ⟨m', rfl⟩ : ∃ m', m = m' + 1 := ⟨m - 1, by omega⟩
      exact consequences_rounds (by omega) (by omega)
    unfold consequences
    split
    · rfl
    · rfl
    · rename_i next hnext
      rw [hstep next hnext]

/-- Three rounds decide everything a stream decides. -/
theorem consequences_stable {n : Nat} (hn : 3 ≤ n) :
    consequences tid n es = consequences tid 3 es := by
  obtain ⟨n, rfl⟩ : ∃ n', n = n' + 1 := ⟨n - 1, by omega⟩
  by_cases h : 2 ≤ (topLevelState es).rank
  · exact consequences_rounds (by omega) (by omega)
  · have hnone : consequence es tid = .ok none := by
      apply consequence_none <;> (intro htop; rw [htop] at h; simp [State.rank] at h)
    simp [consequences, hnone]

/-- At most two steps are decided after one another. -/
theorem consequences_length : ∀ {n : Nat} {es rest : List TransactionEvent},
    consequences tid n es = .ok rest →
      rest = [] ∨ 2 ≤ (topLevelState es).rank ∧ rest.length + (topLevelState es).rank ≤ 4
  | 0, es, rest, h => Or.inl (Except.ok.inj h).symm
  | n + 1, es, rest, h => by
    unfold consequences at h
    split at h
    · simp at h
    · exact Or.inl (Except.ok.inj h).symm
    · rename_i next hnext
      split at h
      · simp at h
      · rename_i rest' hrest
        obtain rfl : next :: rest' = rest := Except.ok.inj h
        obtain ⟨hstarted, hrise, hbound⟩ := consequence_rises hnext
        refine Or.inr ⟨hstarted, ?_⟩
        rcases consequences_length hrest with rfl | ⟨-, hlen⟩
        · rw [List.length_singleton]
          omega
        · rw [List.length_cons]
          omega

/-- Nothing is left to decide once they are all recorded. -/
theorem consequences_closed : ∀ {n : Nat} {es rest : List TransactionEvent},
    4 ≤ n + (topLevelState es).rank → consequences tid (n + 1) es = .ok rest →
      consequence (es ++ rest) tid = .ok none
  | n, es, rest, hn, h => by
    unfold consequences at h
    split at h
    · simp at h
    · rename_i hnone
      obtain rfl : [] = rest := Except.ok.inj h
      simpa using hnone
    · rename_i next hnext
      obtain ⟨-, hrise, hbound⟩ := consequence_rises hnext
      obtain ⟨n', rfl⟩ : ∃ n', n = n' + 1 := ⟨n - 1, by omega⟩
      split at h
      · simp at h
      · rename_i rest' hrest
        obtain rfl : next :: rest' = rest := Except.ok.inj h
        have hclosed := consequences_closed (by omega) hrest
        simpa using hclosed

end MoneyFlow.Transaction
