import MoneyFlow.Openings
import MoneyFlow.Transaction.Planning

/-!
# MoneyFlow.Transaction.Outcomes

What can be said of every Transaction in every run.

* **All or nothing** (`all_or_nothing`): a Completed Transaction's children have
  all Committed, and a RolledBack one's have all come to nothing or been moved
  back.
* **A history is well formed and final** (`history_is_final`).
* **Dispatch follows the DAG** (`dispatch_follows_dag`), and **rollback runs
  against it** (`rollback_reverses_dag`).
* **A rollback failure is a real one** (`rollback_failures_are_real`), in runs in
  which no cancel of the saga's is refused; otherwise it need not be
  (`false_rollback_failure`).
-/

namespace MoneyFlow.Transaction

open Concurrent

variable {spec : Spec} {s : State}

variable {R : Prop} {w : World} {tid c : Id} {es : List TransactionEvent}

/-! ### How a Transaction ends -/

/-- A concluded Transaction's stream ends with its conclusion, decided by the
events before it. -/
theorem WellFormed.concluded (h : WellFormed tid es) (hs : topLevelState es = s)
    (hne : s = .completed ∨ s = .rolledBack ∨ s = .rollbackFailed) :
    ∃ pre e e', es = pre ++ [e] ∧ stateOf e = some s ∧ consequence pre tid = .ok (some e') ∧
      e.eventType = e'.eventType := by
  have hfinal : s.final = true := by rcases hne with rfl | rfl | rfl <;> rfl
  obtain ⟨e, hm, he⟩ : ∃ e ∈ es, stateOf e = some s := by
    clear hfinal h
    induction es using List.reverseRecOn with
    | nil => rcases hne with rfl | rfl | rfl <;> simp [topLevelState] at hs
    | append_singleton es e ih =>
      rw [topLevelState_snoc] at hs
      cases he : stateOf e with
      | none =>
        rw [he] at hs
        obtain ⟨e', hm, he'⟩ := ih hs
        exact ⟨e', List.mem_append_left _ hm, he'⟩
      | some s' =>
        rw [he] at hs
        obtain rfl : s' = s := hs
        exact ⟨e, List.mem_append_right _ List.mem_cons_self, he⟩
  obtain ⟨pre, hp, hf⟩ := h.of_mem hm
  have hend : es = pre ++ [e] := h.final_stays hp (by rw [topLevelState_snoc, he]; exact hfinal)
  refine ⟨pre, e, ?_⟩
  cases hf with
  | concluded hdec htype _ => exact ⟨_, hend, he, hdec, htype⟩
  | _ => rcases hne with rfl | rfl | rfl <;> simp [stateOf] at he

/-- Every child of a Completed Transaction is recorded as completed. -/
theorem WellFormed.completed_children (h : WellFormed tid es) (hs : topLevelState es = .completed) :
    ∃ spec, decodeSpec es = .ok spec ∧ ∀ c ∈ spec.transfers.keys, CompletedChild es c := by
  obtain ⟨pre, e, e', rfl, he, hdec, htype⟩ := h.concluded hs (Or.inl rfl)
  have hpre : pre <+: pre ++ [e] := List.prefix_append _ _
  cases e <;> simp [stateOf] at he
  rcases consequence_cases hdec with
    ⟨-, ⟨r, rfl⟩ | ⟨rfl, spec, hspec, hall⟩⟩ | ⟨-, _, -, -, -, ⟨r, rfl, -⟩ | ⟨r, rfl, -⟩⟩
  · simp [TransactionEvent.eventType] at htype
  · refine ⟨spec, decodeSpec_grow hspec hpre, fun c hc => ?_⟩
    obtain ⟨e, hm, he⟩ := exists_of_state (eq_of_beq (List.all_eq_true.mp hall c hc)) (by simp)
    cases e <;> simp [childOf] at he
    subst he
    exact ⟨_, hpre.subset hm⟩
  · simp [TransactionEvent.eventType] at htype
  · simp [TransactionEvent.eventType] at htype

/-- When nothing is left to undo, nothing waits and nothing failed, everything
touched is resolved. -/
theorem WellFormed.all_resolved (h : WellFormed tid es) (hspec : decodeSpec es = .ok spec)
    {plan : RollbackPlan}
    (hplan : planRollback spec.transfers.keys spec.transferDependency (foldChildStates es) = plan)
    (hcand : plan.candidates = []) (hwait : plan.inFlight = false) (hfail : plan.anyFailed = false)
    (hr : Requested es c) : Resolved es c := by
  subst hplan
  obtain ⟨⟨spec', hspec', hk⟩, -⟩ := h.requested_mem hr
  obtain rfl : spec = spec' := Except.ok.inj (hspec.symm.trans hspec')
  cases hres : (foldChildStates es).resolved c with
  | true => exact resolved_of_children hres
  | false =>
    rcases unresolved_failed (.of_ok (h.spec_valid hspec)) (.refl _) hcand hwait c hk hr.touched
      hres with hf | ⟨d, -, ht, hf⟩
    · exact absurd hf (not_rollbackFailed hfail hr.touched)
    · exact absurd hf (not_rollbackFailed hfail ht)

/-- Every child a RolledBack Transaction ever requested is resolved. -/
theorem WellFormed.rolledBack_children (h : WellFormed tid es)
    (hs : topLevelState es = .rolledBack) (hr : Requested es c) : Resolved es c := by
  obtain ⟨pre, e, e', rfl, he, hdec, htype⟩ := h.concluded hs (Or.inr (Or.inl rfl))
  have hpre : pre <+: pre ++ [e] := List.prefix_append _ _
  cases e <;> simp [stateOf] at he
  rcases consequence_cases hdec with
    ⟨-, ⟨r, rfl⟩ | ⟨rfl, -⟩⟩ | ⟨htop, spec, hspec, hcand, hwait, ⟨r, rfl, -⟩ | ⟨r, rfl, hfail⟩⟩
  · simp [TransactionEvent.eventType] at htype
  · simp [TransactionEvent.eventType] at htype
  · simp [TransactionEvent.eventType] at htype
  · have hreq := h.requested_before_rollback hpre (begun_of_state htop) hr
    have hwf : WellFormed tid pre := h.earlier hpre
    exact (hwf.all_resolved hspec rfl hcand hwait hfail hreq).mono hpre.subset

/-- A resolved child moved no money, or was moved back. -/
theorem undone_of_resolved (h : Inv R w) (hc : Resolved (w.log tid) c) : Undone w tid c := by
  rcases hc with ⟨i, m, d, hm⟩ | ⟨i, r, hm⟩
  · exact (h.transaction tid).backed _ hm
  · exact Or.inl ((h.transaction tid).backed _ hm)

/-! ### All or nothing -/

/-- **A Transaction is all or nothing**, in every state of every run. Completed:
every child of its DAG is Committed. RolledBack: every child ever requested was
Rejected, Failed or Cancelled, or is Committed with its Reversal Committed; and
no other child is requested after that, by an intent or by a call. The stream
under the id derived for a child's Reversal is that Reversal, if nobody else takes
the id. -/
theorem all_or_nothing {c : System} (h : Pool.Reachable anyRun .init c) (tid : Id) :
    (topLevelState (c.state.log tid) = .completed →
      ∃ spec, decodeSpec (c.state.log tid) = .ok spec ∧
        ∀ child ∈ spec.transfers.keys, c.state.outcome child = .committed) ∧
    (topLevelState (c.state.log tid) = .rolledBack →
      (∀ child, Requested (c.state.log tid) child →
        (c.state.outcome child = .rejected ∨ c.state.outcome child = .failed ∨
          c.state.outcome child = .cancelled) ∨
        (c.state.outcome child = .committed ∧
          c.state.outcome (.reversal tid child) = .committed)) ∧
      ∀ c', Pool.Steps anyRun c c' → ∀ child,
        Requested (c'.state.log tid) child ∨
          (∃ d k, (d, .op (.call (.requestTransfer tid child)) k) ∈ c'.threads) →
        Requested (c.state.log tid) child) ∧
    ∀ child, Untaken c (.reversal tid child) → c.state.Reverses (.reversal tid child) child := by
  have hinv : Inv True c.state := reachable_inv refusals_true h
  have hwf := (hinv.transaction tid).wellFormed
  refine ⟨fun hs => ?_, fun hs => ⟨fun child hr => ?_, fun c' hsteps child hr => ?_⟩,
    fun _ => reverses_of_untaken⟩
  · obtain ⟨spec, hspec, hall⟩ := hwf.completed_children hs
    refine ⟨spec, hspec, fun child hchild => ?_⟩
    obtain ⟨i, hm⟩ := hall child hchild
    exact (hinv.transaction tid).backed _ hm
  · refine (undone_of_resolved hinv (hwf.rolledBack_children hs hr)).imp_left fun hend => ?_
    revert hend
    cases c.state.outcome child <;> simp [Transfer.OutcomeKind.ended]
  · have hinv' : Inv True c'.state := reachable_inv refusals_true (h.trans hsteps)
    have hsame : c'.state.log tid = c.state.log tid :=
      (hinv'.transaction tid).wellFormed.final_stays (World.log_grow (steps_le hsteps) tid)
        (by rw [hs]; rfl)
    rw [← hsame]
    rcases hr with hr | ⟨d, k, hm⟩
    · exact hr
    · exact reachable_legal refusals_true (h.trans hsteps) hm trivial

/-- A Transaction of two children: `uuid 6` brings 100 in from Wallet `uuid 0` to
`uuid 1`, and then `uuid 7` is to move 200 on to `uuid 4`, which there is not. -/
def overdraftSpec : Spec where
  transfers := ⟨[(.uuid 6, ⟨.uuid 6, some ⟨100, "USD"⟩, .uuid 0, .uuid 1, false, true⟩),
    (.uuid 7, ⟨.uuid 7, some ⟨200, "USD"⟩, .uuid 1, .uuid 4, false, false⟩)], by decide⟩
  transferDependency := ⟨[(.uuid 7, [.uuid 6])], by decide⟩

/-- Transaction `uuid 5` runs until its first child has Committed, and then for
`n` operations more. -/
def overdraft {guard : Driver → Op → World → Prop} (n : Nat) : List (Move (freeRun guard)) :=
  inTurn 0 [.openWallet ⟨.uuid 0, .uuid 100, "bank", .onramp⟩,
    .openWallet ⟨.uuid 1, .uuid 100, "payer", .none⟩,
    .openWallet ⟨.uuid 4, .uuid 100, "payee", .none⟩,
    .startInitializingTransaction (.uuid 5) overdraftSpec,
    .resumeTransaction (.uuid 5), .resumeTransfer (.uuid 6)] ++
  [start (.resumeTransaction (.uuid 5)) 20, .run 6 n]

/-- The first child is moved back, and the Transaction concludes. -/
def movedBack : List (Move anyRun) :=
  overdraft 1000 ++
    inTurn 7 [.resumeTransfer (.reversal (.uuid 5) (.uuid 6)), .resumeTransaction (.uuid 5)]

/-- The deposit's Transaction is Completed, and the overdrawn one RolledBack with
one child moved back and the other Rejected. -/
theorem all_or_nothing_movedBack :
    topLevelState ((played (inTurn 0 deposit)).state.log (.uuid 2)) = .completed ∧
      (∃ spec, decodeSpec ((played (inTurn 0 deposit)).state.log (.uuid 2)) = .ok spec ∧
        ∀ child ∈ spec.transfers.keys,
          (played (inTurn 0 deposit)).state.outcome child = .committed) ∧
      topLevelState ((played movedBack).state.log (.uuid 5)) = .rolledBack ∧
      (played movedBack).state.outcome (.uuid 7) = .rejected ∧
      (played movedBack).state.outcome (.uuid 6) = .committed ∧
      (played movedBack).state.outcome (.reversal (.uuid 5) (.uuid 6)) = .committed := by
  have hs : topLevelState ((played (inTurn 0 deposit)).state.log (.uuid 2)) = .completed := by
    decide +kernel
  have hback : topLevelState ((played movedBack).state.log (.uuid 5)) = .rolledBack := by
    decide +kernel
  have hr : Requested ((played movedBack).state.log (.uuid 5)) (.uuid 6) :=
    ⟨.uuid 5, by decide +kernel⟩
  have hundone := ((all_or_nothing (played_reachable movedBack) (.uuid 5)).2.1 hback).1 _ hr
  exact ⟨hs, (all_or_nothing (played_reachable _) (.uuid 2)).1 hs, hback, by decide +kernel,
    hundone.resolve_left (by decide +kernel)⟩

/-! ### A well-formed, final history -/

/-- A top-level event moves the Transaction up. -/
theorem Follows.rank_lt {e : TransactionEvent} (h : Follows tid es e) (hs : stateOf e = some s) :
    (topLevelState es).rank < s.rank := by
  rcases h.stays_or_rises with hstay | hrise
  · rw [topLevelState_snoc, hs, Option.getD_some] at hstay
    -- an event that left the state alone would have to follow the state it leads to
    subst hstay
    cases h with
    | initialized hes | rejected hes => subst hes; simp [stateOf, topLevelState] at hs
    | started htop => simp [stateOf, htop] at hs
    | rollbackStarted htop => rcases htop with htop | htop <;> simp [stateOf, htop] at hs
    | concluded hdec htype he =>
      obtain ⟨htop, s', hs', hfin⟩ := stateOf_conclusion hdec htype he
      rw [hs] at hs'
      cases hs'
      rcases htop with htop | htop <;> rw [htop] at hfin <;> simp [State.final] at hfin
    | _ => simp [stateOf] at hs
  · rw [topLevelState_snoc, hs, Option.getD_some] at hrise
    exact hrise

/-- A top-level event occurs at most once. -/
theorem WellFormed.top_level_once (h : WellFormed tid es) :
    es.countP (fun e => stateOf e == some s) ≤ 1 := by
  refine History.countP_le_one (fun pre e hpre hf he a ha => ?_) h
  by_contra hsame
  have hrank := WellFormed.rank_of_mem hpre ha (s := s) (by simpa using hsame)
  exact absurd hrank (Nat.not_le_of_lt (hf.rank_lt (eq_of_beq he)))

/-- The events that end a Transaction. -/
def endsTransaction (e : TransactionEvent) : Bool := ((stateOf e).map State.final).getD false

/-- What may only be recorded before the rollback begins. -/
def isForward : TransactionEventType → Bool
  | .transactionStarted | .transferRequestedWithinTransaction
  | .transferCompletedWithinTransaction | .transferFailedWithinTransaction => true
  | _ => false

theorem WellFormed.nothing_after_end (h : WellFormed tid es) :
    es.Pairwise fun a _ => endsTransaction a = false := by
  refine History.pairwise (fun pre e hpre hf a ha => ?_) h
  cases hs : stateOf a with
  | none => simp [endsTransaction, hs]
  | some s =>
    have hrank := WellFormed.rank_of_mem hpre ha hs
    have hopen := hf.not_final
    simp only [endsTransaction, hs, Option.map_some, Option.getD_some]
    revert hrank hopen
    cases s <;> cases topLevelState pre <;> simp [State.rank, State.final]

theorem WellFormed.nothing_forward_in_rollback (h : WellFormed tid es) :
    es.Pairwise fun a b =>
      a.eventType = .transactionRollbackStarted → isForward b.eventType = false := by
  refine History.pairwise (fun pre e hpre hf a ha htype => ?_) h
  have hbegun : RollbackBegun pre := by
    cases a <;> simp [TransactionEvent.eventType] at htype
    exact ⟨_, _, ha⟩
  have hrank := WellFormed.begun_rank hpre hbegun
  cases hf with
  | started htop | requested htop | completed htop | failed htop =>
    rw [htop] at hrank; simp [State.rank] at hrank
  | concluded _ _ he => cases e <;> simp [isConclusion, TransactionEvent.eventType] at he <;> rfl
  | _ => rfl

/-- **A Transaction's history is well formed and final**, on every stream of
every run: nothing follows a rejection or a conclusion; the start, the start of
the rollback and each conclusion occur at most once; and once the rollback has
begun the Transaction neither starts nor requests, completes or fails a child. -/
theorem history_is_final {c : System} (h : Pool.Reachable anyRun .init c) (tid : Id) :
    ((c.state.log tid).Pairwise fun a _ => endsTransaction a = false) ∧
      (∀ s ∈ [State.started, .rollbackStarted, .completed, .rolledBack, .rollbackFailed],
        (c.state.log tid).countP (fun e => stateOf e == some s) ≤ 1) ∧
      (c.state.log tid).Pairwise fun a b =>
        a.eventType = .transactionRollbackStarted → isForward b.eventType = false := by
  have hinv : Inv True c.state := reachable_inv refusals_true h
  have hwf := (hinv.transaction tid).wellFormed
  exact ⟨hwf.nothing_after_end, fun _ _ => hwf.top_level_once, hwf.nothing_forward_in_rollback⟩

theorem history_is_final_deposit :
    (((played (inTurn 0 deposit)).state.log (.uuid 2)).map TransactionEvent.eventType =
        [.transactionInitialized, .transactionStarted, .transferRequestedWithinTransaction,
          .transferCompletedWithinTransaction, .transactionCompleted]) ∧
      ((played (inTurn 0 deposit)).state.log (.uuid 2)).Pairwise
        fun a _ => endsTransaction a = false :=
  ⟨by decide +kernel, (history_is_final (played_reachable _) (.uuid 2)).1⟩

/-- `transaction.TerminalEventTypes`. -/
def terminalEventTypes : List TransactionEventType :=
  [.transactionCompleted, .transactionRolledBack, .transactionRollbackFailed, .transactionRejected]

/-- **A Transaction is over exactly when its stream holds a terminal event**, which
is what `cmd/resume -open` goes by. -/
theorem final_iff_terminal {c : System} (h : Pool.Reachable anyRun .init c) (tid : Id) :
    (topLevelState (c.state.log tid)).final = true ↔
      ∃ e ∈ c.state.log tid, e.eventType ∈ terminalEventTypes := by
  have hwf := ((reachable_inv refusals_true h).transaction tid).wellFormed
  constructor
  · induction c.state.log tid using List.reverseRecOn with
    | nil => nofun
    | append_singleton es e ih => cases e <;> simp_all [terminalEventTypes,
        TransactionEvent.eventType, stateOf, State.final, or_and_right, exists_or]
  · rintro ⟨e, hm, he⟩
    cases e <;> simp [terminalEventTypes, TransactionEvent.eventType] at he <;>
    · have hrank := hwf.rank_of_mem hm rfl
      revert hrank
      cases topLevelState (c.state.log tid) <;> decide

theorem final_iff_terminal_deposit :
    ∃ e ∈ (played (inTurn 0 deposit)).state.log (.uuid 2), e.eventType ∈ terminalEventTypes :=
  (final_iff_terminal (played_reachable _) _).mp (by decide +kernel)

/-! ### Dispatch order -/

/-- `p` is listed as a parent of `c`. -/
def ParentOf (spec : Spec) (p c : Id) : Prop := p ∈ parentsOf spec.transferDependency c

/-- `p` is an ancestor of `c`. -/
def AncestorOf (spec : Spec) : Id → Id → Prop := Relation.TransGen (ParentOf spec)

/-- The events recorded about a child at most once. -/
def isOncePerChild : TransactionEventType → Bool
  | .transferRequestedWithinTransaction | .transferRolledBackWithinTransaction
  | .transferRollbackFailedWithinTransaction => true
  | _ => false

theorem Follows.not_recorded {e : TransactionEvent} (h : Follows tid es e)
    (he : isOncePerChild e.eventType = true) : alreadyRecorded es e = false := by
  refine List.any_eq_false.mpr fun a ha => ?_
  cases h with
  | requested _ _ _ hnew =>
    cases a with
    | transferRequestedWithinTransaction j d =>
      have hother := state_untouched_iff.mp hnew _ ha .requested
      simpa [childEventTransferID, childOf, TransactionEvent.eventType] using hother
    | _ => simp [TransactionEvent.eventType]
  | rolledBack _ _ hnew =>
    cases a with
    | transferRolledBackWithinTransaction j d m r =>
      simp only [TransactionEvent.eventType, childEventTransferID, childOf, beq_self_eq_true,
        Bool.true_and, beq_iff_eq]
      rintro rfl
      exact hnew ⟨_, _, _, ha⟩
    | _ => simp [TransactionEvent.eventType]
  | rollbackFailed _ _ hnew =>
    cases a with
    | transferRollbackFailedWithinTransaction j d r =>
      simp only [TransactionEvent.eventType, childEventTransferID, childOf, beq_self_eq_true,
        Bool.true_and, beq_iff_eq]
      rintro rfl
      exact hnew ⟨_, _, ha⟩
    | _ => simp [TransactionEvent.eventType]
  | concluded _ _ hc =>
    cases e <;> simp [isConclusion, TransactionEvent.eventType] at hc <;>
      simp [isOncePerChild, TransactionEvent.eventType] at he
  | _ => simp [isOncePerChild, TransactionEvent.eventType] at he

/-- How often an event of this type is recorded about a child. -/
def countOf (ty : TransactionEventType) (c : Id) (es : List TransactionEvent) : Nat :=
  es.countP fun e => e.eventType == ty && childEventTransferID e == c

theorem WellFormed.once_per_child (h : WellFormed tid es) (c : Id) (ty : TransactionEventType)
    (hty : isOncePerChild ty = true) : countOf ty c es ≤ 1 := by
  refine History.countP_le_one (fun pre e hpre hf he a ha => ?_) h
  simp only [Bool.and_eq_true, beq_iff_eq] at he
  obtain ⟨rfl, rfl⟩ := he
  by_contra hsame
  simp only [Bool.not_eq_false, Bool.and_eq_true, beq_iff_eq] at hsame
  have hrec := recorded_of_mem ha hsame.1 hsame.2
  rw [hf.not_recorded hty] at hrec
  simp at hrec

/-- An intent is recorded after the completion of every parent. -/
theorem WellFormed.parents_completed (h : WellFormed tid es) {i : Id} {pre : List TransactionEvent}
    (hspec : decodeSpec es = .ok spec)
    (hp : pre ++ [.transferRequestedWithinTransaction i c] <+: es) {p : Id}
    (hpar : ParentOf spec p c) : CompletedChild pre p := by
  have hf : Follows tid pre (.transferRequestedWithinTransaction i c) := h pre _ hp
  cases hf with
  | requested _ hspec' _ _ hparents =>
    have heq := decodeSpec_grow hspec' ((List.prefix_append _ _).trans hp)
    obtain rfl := Except.ok.inj (hspec.symm.trans heq)
    obtain ⟨e, hm, he⟩ := exists_of_state (hparents p hpar) (by simp)
    cases e <;> simp [childOf] at he
    subst he
    exact ⟨_, hm⟩
  | concluded _ _ he => simp [isConclusion, TransactionEvent.eventType] at he

/-- Once a child is requested all its ancestors are completed. -/
theorem WellFormed.ancestors_completed (h : WellFormed tid es) (hspec : decodeSpec es = .ok spec)
    {a : Id} (ha : AncestorOf spec a c) (hr : Requested es c) : CompletedChild es a := by
  have hparent {p d : Id} (hpd : ParentOf spec p d) (hd : Requested es d) :
      CompletedChild es p := by
    obtain ⟨i, hm⟩ := hd
    obtain ⟨pre, hp, -⟩ := h.of_mem hm
    exact (h.parents_completed hspec hp hpd).mono ((List.prefix_append _ _).trans hp).subset
  -- up the chain: a completed child was requested, so its own parents are completed
  induction ha using Relation.TransGen.head_induction_on with
  | single hpc => exact hparent hpc hr
  | head hpd _ ih =>
    obtain ⟨i, hm⟩ := ih
    exact hparent hpd (h.requested_of_child hm rfl)

/-- **Dispatch follows the DAG**, in every run: each child is requested at most
once, after the completion of every parent it lists is recorded; and whenever the
saga calls RequestTransfer for a child, the Transfers of all its ancestors are
Committed. -/
theorem dispatch_follows_dag {c : System} (h : Pool.Reachable anyRun .init c) (tid : Id)
    {spec : Spec} (hspec : decodeSpec (c.state.log tid) = .ok spec) (child : Id) :
    countOf .transferRequestedWithinTransaction child (c.state.log tid) ≤ 1 ∧
      (∀ pre i, pre ++ [.transferRequestedWithinTransaction i child] <+: c.state.log tid →
        ∀ p, ParentOf spec p child → CompletedChild pre p) ∧
      ∀ d k, (d, .op (.call (.requestTransfer tid child)) k) ∈ c.threads →
        ∀ a, AncestorOf spec a child → c.state.outcome a = .committed := by
  have hinv : Inv True c.state := reachable_inv refusals_true h
  have hwf := (hinv.transaction tid).wellFormed
  refine ⟨hwf.once_per_child child _ rfl,
    fun pre i hp p hpar => hwf.parents_completed hspec hp hpar,
    fun d k hm a ha => ?_⟩
  have hr : Requested (c.state.log tid) child := reachable_legal refusals_true h hm trivial
  obtain ⟨i, hcompleted⟩ := hwf.ancestors_completed hspec ha hr
  exact (hinv.transaction tid).backed _ hcompleted

theorem decodeSpec_of_head {i : Id} (h : es.head? = some (.transactionInitialized i spec)) :
    decodeSpec es = .ok spec := by
  cases es with
  | nil => simp at h
  | cons e es =>
    obtain rfl : e = .transactionInitialized i spec := by simpa using h
    rfl

/-- The second child is about to be requested. -/
theorem dispatch_follows_dag_overdraft :
    callAt (played (overdraft 9)) 6 = some (.requestTransfer (.uuid 5) (.uuid 7)) ∧
      (played (overdraft 9)).state.outcome (.uuid 6) = .committed := by
  have hcall : callAt (played (overdraft 9)) 6 = some (.requestTransfer (.uuid 5) (.uuid 7)) := by
    decide +kernel
  have hspec : decodeSpec ((played (overdraft 9)).state.log (.uuid 5)) = .ok overdraftSpec :=
    decodeSpec_of_head (i := .uuid 5) (by decide +kernel)
  obtain ⟨d, k, hm⟩ := mem_of_callAt hcall
  exact ⟨hcall, (dispatch_follows_dag (played_reachable _) (.uuid 5) hspec (.uuid 7)).2.2 d k hm
    (.uuid 6) (.single (by unfold ParentOf; decide))⟩

/-! ### Rollback order -/

/-- The calls by which the rollback of `tid` undoes `c`. -/
def undoes (tid c : Id) : Call → Prop
  | .requestReversal t d _ | .cancelStagedTransfer t d | .cancelAcceptedTransfer t d =>
    t = tid ∧ d = c
  | .requestTransfer _ _ => False

theorem mayUndo_of_undoes {call : Call} (hu : undoes tid c call) (hl : LegalCall w call) :
    MayUndo w tid c := by
  cases call with
  | requestReversal t d r =>
    obtain ⟨rfl, rfl⟩ := hu
    exact hl.2.1
  | cancelStagedTransfer t d | cancelAcceptedTransfer t d =>
    obtain ⟨rfl, rfl⟩ := hu
    exact hl
  | requestTransfer t d => exact hu.elim

/-- **Rollback runs in reverse dependency order**, in every run: whenever the saga
calls RequestReversal, CancelStagedTransfer or CancelAcceptedTransfer for a
child, every child that lists it as a parent and was ever requested is resolved
on the stream, and does not hold committed money that was not moved back; the
Reversal that moved it is its own, if nobody else takes the id. -/
theorem rollback_reverses_dag {c : System} (h : Pool.Reachable anyRun .init c) {d : Driver}
    {call : Call} {k : Resp (.call call) → Prog Op Resp (Except Err Reply)}
    (hm : (d, .op (.call call) k) ∈ c.threads) {tid child : Id} (hu : undoes tid child call)
    {spec : Spec} (hspec : decodeSpec (c.state.log tid) = .ok spec) {dependent : Id}
    (hdep : ParentOf spec child dependent) (hr : Requested (c.state.log tid) dependent) :
    (RolledBackChild (c.state.log tid) dependent ∨ FailedChild (c.state.log tid) dependent) ∧
      ¬ (c.state.outcome dependent = .committed ∧
        c.state.outcome (.reversal tid dependent) ≠ .committed) ∧
      (Untaken c (.reversal tid dependent) →
        c.state.Reverses (.reversal tid dependent) dependent) := by
  have hinv : Inv True c.state := reachable_inv refusals_true h
  obtain ⟨-, spec', hspec', -, -, hcleared⟩ :=
    mayUndo_of_undoes hu (reachable_legal refusals_true h hm trivial)
  obtain rfl := Except.ok.inj (hspec.symm.trans hspec')
  have hres := hcleared dependent hdep hr
  refine ⟨hres, fun hheld => ?_, reverses_of_untaken⟩
  rcases undone_of_resolved hinv hres with hend | hback
  · rw [hheld.1] at hend
    simp [Transfer.OutcomeKind.ended] at hend
  · exact hheld.2 hback.2

/-- The second child has failed, and the first is about to be reversed. -/
theorem rollback_reverses_dag_overdraft :
    callAt (played (overdraft 20)) 6 = some (.requestReversal (.uuid 5) (.uuid 6)
        (.reversal (.uuid 5) (.uuid 6))) ∧
      (RolledBackChild ((played (overdraft 20)).state.log (.uuid 5)) (.uuid 7) ∨
        FailedChild ((played (overdraft 20)).state.log (.uuid 5)) (.uuid 7)) := by
  have hcall : callAt (played (overdraft 20)) 6 = some (.requestReversal (.uuid 5) (.uuid 6)
      (.reversal (.uuid 5) (.uuid 6))) := by
    decide +kernel
  have hspec : decodeSpec ((played (overdraft 20)).state.log (.uuid 5)) = .ok overdraftSpec :=
    decodeSpec_of_head (i := .uuid 5) (by decide +kernel)
  obtain ⟨d, k, hm⟩ := mem_of_callAt hcall
  have hr : Requested ((played (overdraft 20)).state.log (.uuid 5)) (.uuid 7) :=
    ⟨.uuid 5, by decide +kernel⟩
  exact ⟨hcall, (rollback_reverses_dag (played_reachable _) hm ⟨rfl, rfl⟩ hspec
    (by unfold ParentOf; decide) hr).1⟩

/-! ### Rollback failures -/

/-- Once a child's Reversal is awaited, its state is one of the rollback's. -/
theorem WellFormed.state_of_reversal (h : WellFormed tid es) (hr : ReversalRequested es c) :
    (foldChildStates es).state c = .rollbackRequested ∨
      RolledBackChild es c ∨ RollbackFailedChild es c := by
  refine History.induct (P := fun es => ReversalRequested es c →
    (foldChildStates es).state c = .rollbackRequested ∨
      RolledBackChild es c ∨ RollbackFailedChild es c) (fun hr => ?_) ?_ h hr
  · obtain ⟨i, r, hm⟩ := hr
    simp at hm
  intro es e hwf hf ih hr
  have hmem {a : TransactionEvent} (ha : a ∈ es) : a ∈ es ++ [e] := List.mem_append_left _ ha
  -- what was so before `e` still is, unless `e` is about `c`
  have hold (hes : ReversalRequested es c)
      (hstate : (foldChildStates (es ++ [e])).state c = (foldChildStates es).state c) :
      (foldChildStates (es ++ [e])).state c = .rollbackRequested ∨
        RolledBackChild (es ++ [e]) c ∨ RollbackFailedChild (es ++ [e]) c := by
    rw [hstate]
    rcases ih hes with hs | ⟨i, m, d, hm⟩ | ⟨i, r, hm⟩
    · exact Or.inl hs
    · exact Or.inr (Or.inl ⟨i, m, d, hmem hm⟩)
    · exact Or.inr (Or.inr ⟨i, r, hmem hm⟩)
  obtain ⟨i, r, hm⟩ := hr
  rcases List.mem_append.mp hm with hm | hm
  · have hes : ReversalRequested es c := ⟨i, r, hm⟩
    have hrank := WellFormed.begun_rank hwf (WellFormed.reversal_requested hwf hm).2.1
    have hforward {d : Id} (htop : topLevelState es = .started) : d ≠ c := by
      rw [htop] at hrank
      simp [State.rank] at hrank
    cases hf with
    | requested htop | completed htop | failed htop =>
      exact hold hes (by simp [state_snoc, childOf, (hforward htop).symm])
    | @reversalRequested d _ _ hnew =>
      by_cases hd : c = d
      · exact absurd (hd ▸ hes) hnew
      · exact hold hes (by simp [state_snoc, childOf, hd])
    | @rolledBack d m x =>
      by_cases hd : c = d
      · exact Or.inr (Or.inl ⟨tid, m, x, by simp [hd]⟩)
      · exact hold hes (by simp [state_snoc, childOf, hd])
    | @rollbackFailed d r =>
      by_cases hd : c = d
      · exact Or.inr (Or.inr ⟨tid, r, by simp [hd]⟩)
      · exact hold hes (by simp [state_snoc, childOf, hd])
    | initialized | rejected | started | rollbackStarted =>
      exact hold hes (by simp [state_snoc, childOf])
    | concluded _ _ he =>
      refine hold hes ?_
      cases e <;> simp [isConclusion, TransactionEvent.eventType] at he <;>
        simp [state_snoc, childOf]
  · obtain rfl := List.mem_singleton.mp hm
    left
    simp [state_snoc, childOf]

/-- A rollback that has concluded awaits no Reversal. -/
theorem WellFormed.concluded_reversals (h : WellFormed tid es)
    (hs : topLevelState es = .rolledBack ∨ topLevelState es = .rollbackFailed)
    (hr : ReversalRequested es c) : RolledBackChild es c ∨ RollbackFailedChild es c := by
  obtain ⟨pre, e, e', rfl, he, hdec, htype⟩ : ∃ pre e e', es = pre ++ [e] ∧
      (stateOf e = some .rolledBack ∨ stateOf e = some .rollbackFailed) ∧
      consequence pre tid = .ok (some e') ∧ e.eventType = e'.eventType := by
    rcases hs with hs | hs
    · obtain ⟨pre, e, e', heq, he, hrest⟩ := h.concluded hs (by simp)
      exact ⟨pre, e, e', heq, Or.inl he, hrest⟩
    · obtain ⟨pre, e, e', heq, he, hrest⟩ := h.concluded hs (by simp)
      exact ⟨pre, e, e', heq, Or.inr he, hrest⟩
  have hidle : ∃ spec : Spec, (planRollback spec.transfers.keys spec.transferDependency
      (foldChildStates pre)).inFlight = false := by
    rcases consequence_cases hdec with
      ⟨-, ⟨r, rfl⟩ | ⟨rfl, -⟩⟩ | ⟨-, spec, -, -, hwait, -⟩
    · rcases he with he | he <;> cases e <;> simp [stateOf] at he <;>
        simp [TransactionEvent.eventType] at htype
    · rcases he with he | he <;> cases e <;> simp [stateOf] at he <;>
        simp [TransactionEvent.eventType] at htype
    · exact ⟨spec, hwait⟩
  obtain ⟨spec, hidle⟩ := hidle
  refine (h.state_of_reversal hr).resolve_left fun hstate => ?_
  rw [state_snoc] at hstate
  have hchildless : childOf e = none := by
    rcases he with he | he <;> cases e <;> simp [stateOf] at he <;> rfl
  rw [hchildless] at hstate
  exact absurd (List.any_eq_false.mp hidle _ (Children.mem_of_state hstate (by simp))) (by simp)

/-- Without a refused cancel, a failed rollback is a Committed child whose
Reversal came to nothing. -/
theorem stuck_of_rollbackFailed (h : Inv False w) (hc : RollbackFailedChild (w.log tid) c) :
    Stuck w tid c := by
  obtain ⟨i, r, hm⟩ := hc
  exact ((h.transaction tid).backed _ hm).resolve_right (·.1)

theorem undone_not_stuck (hu : Undone w tid c) : ¬ Stuck w tid c := by
  rintro ⟨hcommitted, hended⟩
  rcases hu with hu | ⟨-, hu⟩
  · rw [hcommitted] at hu
    simp [Transfer.OutcomeKind.ended] at hu
  · rw [hu] at hended
    simp [Transfer.OutcomeKind.ended] at hended

theorem countOf_pos {ty : TransactionEventType} (h : 0 < countOf ty c es) :
    ∃ e ∈ es, e.eventType = ty ∧ childEventTransferID e = c := by
  obtain ⟨e, hm, he⟩ := List.countP_pos_iff.mp h
  simp only [Bool.and_eq_true, beq_iff_eq] at he
  exact ⟨e, hm, he⟩

theorem rolledBack_of_countOf (h : 0 < countOf .transferRolledBackWithinTransaction c es) :
    RolledBackChild es c := by
  obtain ⟨e, hm, hty, hid⟩ := countOf_pos h
  cases e <;> simp [TransactionEvent.eventType] at hty
  simp only [childEventTransferID, childOf] at hid
  subst hid
  exact ⟨_, _, _, hm⟩

theorem rollbackFailed_of_countOf (h : 0 < countOf .transferRollbackFailedWithinTransaction c es) :
    RollbackFailedChild es c := by
  obtain ⟨e, hm, hty, hid⟩ := countOf_pos h
  cases e <;> simp [TransactionEvent.eventType] at hty
  simp only [childEventTransferID, childOf] at hid
  subst hid
  exact ⟨_, _, hm⟩

/-- **A rollback failure is a real one**, in every run in which no cancel a
Transaction's saga asks for is refused: it is recorded only of a child that is
Committed and whose Reversal was Rejected, Failed or Cancelled; a child has one
record of being rolled back or of failing to be, at most; and a Transaction that
is RolledBack or RollbackFailed awaits no Reversal. The Reversal is the child's
own, if nobody else takes the id. -/
theorem rollback_failures_are_real {c : System}
    (h : Pool.Reachable (freeRun NoRefusal) .init c) (tid child : Id) :
    (∀ i reason, .transferRollbackFailedWithinTransaction i child reason ∈ c.state.log tid →
      c.state.outcome child = .committed ∧
        (c.state.outcome (.reversal tid child) = .rejected ∨
          c.state.outcome (.reversal tid child) = .failed ∨
          c.state.outcome (.reversal tid child) = .cancelled)) ∧
    countOf .transferRolledBackWithinTransaction child (c.state.log tid) +
      countOf .transferRollbackFailedWithinTransaction child (c.state.log tid) ≤ 1 ∧
    (topLevelState (c.state.log tid) = .rolledBack ∨
        topLevelState (c.state.log tid) = .rollbackFailed →
      ReversalRequested (c.state.log tid) child →
        c.state.outcome (.reversal tid child) = .committed ∨
          c.state.outcome (.reversal tid child) = .rejected ∨
          c.state.outcome (.reversal tid child) = .failed ∨
          c.state.outcome (.reversal tid child) = .cancelled) ∧
    (Untaken c (.reversal tid child) → c.state.Reverses (.reversal tid child) child) := by
  have hinv : Inv False c.state := reachable_inv refusals_false h
  have hwf := (hinv.transaction tid).wellFormed
  have hended {k : Transfer.OutcomeKind} (hk : k.ended = true) :
      k = .rejected ∨ k = .failed ∨ k = .cancelled := by
    cases k <;> simp [Transfer.OutcomeKind.ended] at hk <;> simp
  refine ⟨fun i reason hm => ?_, ?_, fun hs hr => ?_, reverses_of_untaken⟩
  · obtain ⟨hcommitted, hend⟩ := stuck_of_rollbackFailed hinv ⟨i, reason, hm⟩
    exact ⟨hcommitted, hended hend⟩
  · have hone := hwf.once_per_child child .transferRolledBackWithinTransaction rfl
    have hother := hwf.once_per_child child .transferRollbackFailedWithinTransaction rfl
    by_contra hmany
    have hrolled : RolledBackChild (c.state.log tid) child := rolledBack_of_countOf (by omega)
    have hfailed : RollbackFailedChild (c.state.log tid) child :=
      rollbackFailed_of_countOf (by omega)
    exact undone_not_stuck (undone_of_resolved hinv (Or.inl hrolled))
      (stuck_of_rollbackFailed hinv hfailed)
  · rcases hwf.concluded_reversals hs hr with hrolled | hfailed
    · left
      obtain ⟨i, r, hm⟩ := hr
      have hcommitted : c.state.outcome child = .committed := (hinv.transaction tid).backed _ hm
      rcases undone_of_resolved hinv (Or.inl hrolled) with hend | hback
      · rw [hcommitted] at hend
        simp [Transfer.OutcomeKind.ended] at hend
      · exact hback.2
    · exact Or.inr (hended (stuck_of_rollbackFailed hinv hfailed).2)

/-- The overdrawn Transaction's Reversal is awaited, a client cancels it, and the
Transaction is resumed. -/
def cancelledReversal : List (Move (freeRun NoRefusal)) :=
  overdraft 1000 ++
    inTurn 7 [.cancelAcceptedTransfer (.reversal (.uuid 5) (.uuid 6)) [.lit "operator"],
      .resumeTransaction (.uuid 5)]

/-- A rollback failure that is real. -/
theorem rollback_failures_are_real_cancelledReversal :
    RollbackFailedChild ((playedUnder cancelledReversal).state.log (.uuid 5)) (.uuid 6) ∧
      (playedUnder cancelledReversal).state.outcome (.uuid 6) = .committed := by
  have hm : .transferRollbackFailedWithinTransaction (.uuid 5) (.uuid 6)
      [.lit "reversal ", .id (.reversal (.uuid 5) (.uuid 6)), .lit " reached ", .lit "cancelled",
        .lit " instead of committing"] ∈ (playedUnder cancelledReversal).state.log (.uuid 5) := by
    decide +kernel
  exact ⟨⟨_, _, hm⟩,
    ((rollback_failures_are_real (playedUnder_reachable _) (.uuid 5) (.uuid 6)).1 _ _ hm).1⟩

/-- A Transaction of one child, staged. -/
def stagedSpec : Spec where
  transfers := ⟨[(.uuid 6, ⟨.uuid 6, some ⟨100, "USD"⟩, .uuid 0, .uuid 1, true, true⟩)], by decide⟩
  transferDependency := ⟨[], by decide⟩

/-- Its child is Pending when its rollback begins. The saga has read that outcome
and entered CancelStagedTransfer when a client posts the child. -/
def latePost : List (Move anyRun) :=
  inTurn 0 [.openWallet ⟨.uuid 0, .uuid 100, "bank", .onramp⟩,
    .openWallet ⟨.uuid 1, .uuid 100, "payer", .none⟩,
    .startInitializingTransaction (.uuid 5) stagedSpec,
    .resumeTransaction (.uuid 5), .resumeTransfer (.uuid 6), .confirmStagedTransfer (.uuid 6),
    .startTransactionRollback (.uuid 5) [.lit "stop"]] ++
  [start (.resumeTransaction (.uuid 5)) 20, .run 7 5] ++
  inTurn 8 [.postPendingTransfer (.uuid 6)] ++ [.run 7 1000]

/-- **A rollback failure need not be real**: the cancel is refused because the
child is Committed by then, the refusal is recorded as a failure to roll back, and
the Transaction concludes RollbackFailed although no Reversal was ever asked
for. -/
theorem false_rollback_failure :
    Pool.Reachable anyRun .init (played latePost) ∧
      (∃ reason, .transferRollbackFailedWithinTransaction (.uuid 5) (.uuid 6) reason ∈
        (played latePost).state.log (.uuid 5)) ∧
      topLevelState ((played latePost).state.log (.uuid 5)) = .rollbackFailed ∧
      (played latePost).state.outcome (.uuid 6) = .committed ∧
      (played latePost).state.outcome (.reversal (.uuid 5) (.uuid 6)) = .notFound :=
  ⟨played_reachable _,
    ⟨[.lit "transfer is ", .lit "committed", .lit ", cannot be cancelled from there"],
      by decide +kernel⟩, by decide +kernel, by decide +kernel, by decide +kernel⟩

end MoneyFlow.Transaction
