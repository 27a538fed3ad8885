import MoneyFlow.Drivers
import MoneyFlow.Runs
import MoneyFlow.Transaction.Planning

/-!
# MoneyFlow.Transaction.Consequences

Consequences are recorded with their cause.

What a child's outcome decides for the Transaction is appended together with the outcome
(`appendSagaStep`), so a stream that can be read decides nothing that is not on it. The
one exception is a rollback somebody asked for: `StartTransactionRollback` records its
decision alone and leaves the rest to the saga.

A child whose id is empty would be another: `appendSagaStep` takes the empty id for an
event that is about no child, and records it alone. No Transfer has that id, since
`RequestTransfer` and `RequestReversal` refuse it, so nothing is ever recorded about such
a child but that it was requested.
-/

namespace MoneyFlow.Transaction

open Concurrent

variable {w w' : World} {tid : Id} {es events : List TransactionEvent} {e : TransactionEvent}
  {spec : Spec} {c : Id} {st : ChildState}

/-! ### What a started stream decides -/

/-- Some child is still to complete. -/
def Unfinished (spec : Spec) (es : List TransactionEvent) : Prop :=
  ∃ c ∈ spec.transfers.keys, (foldChildStates es).state c ≠ .completed

/-- A started stream decides nothing when no child has failed and some child is still to
complete. -/
theorem consequence_started (htop : topLevelState es = .started)
    (hspec : decodeSpec es = .ok spec) (hfailed : ∀ p ∈ foldChildStates es, p.2 ≠ .failed)
    (hopen : Unfinished spec es) : consequence es tid = .ok none := by
  have hfirst : firstFailed (foldChildStates es) = none := by
    rw [firstFailed, List.find?_eq_none.mpr]
    · rfl
    · intro p hp
      simpa using hfailed p hp
  have hall : allTerminal spec.transfers (foldChildStates es) = false := by
    obtain ⟨c, hc, hne⟩ := hopen
    rw [allTerminal, List.all_eq_false]
    exact ⟨c, hc, by simpa using hne⟩
  simp [consequence, htop, hspec, hfirst, hall]

/-- And only then. -/
theorem of_consequence_started (htop : topLevelState es = .started)
    (h : consequence es tid = .ok none) : ∃ spec, decodeSpec es = .ok spec ∧
      (∀ p ∈ foldChildStates es, p.2 ≠ .failed) ∧ Unfinished spec es := by
  unfold consequence at h
  rw [htop] at h
  dsimp only at h
  split at h
  · cases h
  · rename_i spec hspec
    refine ⟨spec, hspec, ?_⟩
    split at h
    · cases h
    · rename_i hfirst
      split at h
      · cases h
      · rename_i hall
        constructor
        · intro p hp hfailed
          have hnone := List.find?_eq_none.mp (Option.map_eq_none_iff.mp hfirst) p hp
          simp [hfailed] at hnone
        · rw [allTerminal, Bool.not_eq_true, List.all_eq_false] at hall
          obtain ⟨c, hc, hne⟩ := hall
          exact ⟨c, hc, by simpa using hne⟩

theorem Children.mem_set {cs : Children} {p : Id × ChildState} (h : p ∈ cs.set c st) :
    p ∈ cs ∨ p.2 = st := by
  induction cs with
  | nil =>
    obtain rfl := List.mem_singleton.mp h
    exact Or.inr rfl
  | cons q rest ih =>
    unfold Children.set at h
    split at h
    · rcases List.mem_cons.mp h with rfl | h
      · exact Or.inr rfl
      · exact Or.inl (List.mem_cons_of_mem _ h)
    · rcases List.mem_cons.mp h with rfl | h
      · exact Or.inl List.mem_cons_self
      · exact (ih h).imp_left (List.mem_cons_of_mem _)

/-- Requesting children fails none and completes none. -/
theorem undecided_append (hreq : ∀ e ∈ events, ∀ c st, childOf e = some (c, st) → st = .requested)
    (hfailed : ∀ p ∈ foldChildStates es, p.2 ≠ .failed) (hopen : Unfinished spec es) :
    (∀ p ∈ foldChildStates (es ++ events), p.2 ≠ .failed) ∧ Unfinished spec (es ++ events) := by
  induction events using List.reverseRecOn with
  | nil =>
    rw [List.append_nil]
    exact ⟨hfailed, hopen⟩
  | append_singleton events e ih =>
    obtain ⟨hf, c, hc, hne⟩ := ih fun e' he' => hreq e' (List.mem_append_left _ he')
    rw [← List.append_assoc]
    cases hchild : childOf e with
    | none =>
      refine ⟨by rwa [foldChildStates_snoc, hchild], c, hc, ?_⟩
      rwa [state_snoc, hchild]
    | some p =>
      obtain ⟨d, st⟩ := p
      obtain rfl := hreq e (List.mem_append_right _ List.mem_cons_self) d st hchild
      constructor
      · intro q hq
        rw [foldChildStates_snoc, hchild] at hq
        rcases Children.mem_set hq with hq | hq
        · exact hf q hq
        · simp [hq]
      · refine ⟨c, hc, ?_⟩
        rw [state_snoc, hchild]
        dsimp only
        split
        · simp
        · exact hne

/-! ### What is appended closes the stream -/

/-- A started stream decides nothing, and no Transfer has the empty id. -/
structure Quiet (w : World) : Prop where
  decided : ∀ tid, topLevelState (w.log tid) = .started → consequence (w.log tid) tid = .ok none
  unnamed : w.transfer Id.empty = []

/-- A Transaction that is under way has its spec. -/
theorem WellFormed.exists_spec (h : WellFormed tid es) (hne : es ≠ [])
    (htop : topLevelState es ≠ .rejected) : ∃ spec, decodeSpec es = .ok spec := by
  cases es with
  | nil => exact absurd rfl hne
  | cons e rest =>
    have hf : Follows tid [] e := h [] e ⟨rest, rfl⟩
    cases hf with
    | initialized _ _ => exact ⟨_, rfl⟩
    | rejected _ =>
      have hend : _ = [_] := h.final_stays ⟨rest, rfl⟩ rfl
      rw [hend] at htop
      exact absurd rfl htop
    | started htop' | requested htop' | completed htop' | failed htop' | reversalRequested htop'
    | rolledBack htop' | rollbackFailed htop' => simp [topLevelState] at htop'
    | rollbackStarted htop' => rcases htop' with htop' | htop' <;> simp [topLevelState] at htop'
    | concluded hdec => simp [consequence, topLevelState] at hdec

/-- Requests close a stream that decides nothing, and so does the start of one. -/
theorem consequence_requests (hwf : WellFormed tid es) (hspec : decodeSpec es = .ok spec)
    (hreq : ∀ e ∈ events, ∀ c st, childOf e = some (c, st) → st = .requested)
    (hbefore : topLevelState es = .initialized ∨
      topLevelState es = .started ∧ consequence es tid = .ok none)
    (htop : topLevelState (es ++ events) = .started) :
    consequence (es ++ events) tid = .ok none := by
  have hquiet : (∀ p ∈ foldChildStates es, p.2 ≠ .failed) ∧ Unfinished spec es := by
    rcases hbefore with hinit | ⟨hstarted, hnone⟩
    · have hnil := hwf.children_of_initialized hinit
      constructor
      · rw [hnil]
        exact nofun
      · have hpos : 1 ≤ spec.transfers.keys.length := by
          simpa [GoMap.keys, GoMap.size] using
            (WellFormedSpec.of_ok (hwf.spec_valid hspec)).size_pos
        obtain ⟨c, hc⟩ := List.exists_mem_of_length_pos hpos
        exact ⟨c, hc, by simp [hnil, Children.state]⟩
    · obtain ⟨spec', hspec', hfailed, hopen⟩ := of_consequence_started hstarted hnone
      obtain rfl := Except.ok.inj (hspec.symm.trans hspec')
      exact ⟨hfailed, hopen⟩
  obtain ⟨hfailed, hopen⟩ := undecided_append hreq hquiet.1 hquiet.2
  exact consequence_started htop (decodeSpec_grow hspec (List.prefix_append _ _)) hfailed hopen

/-- Nothing is recorded about a child with the empty id but that it was requested. -/
theorem Quiet.unbacked {R : Prop} (h : Quiet w) (hb : Backed R w tid e)
    (hc : childOf e = some (Id.empty, st)) : st = .requested := by
  have hnone : w.outcome Id.empty = .notFound := by
    rw [World.outcome, h.unnamed]
    rfl
  cases e <;> simp only [childOf, Option.some.injEq, Prod.mk.injEq, reduceCtorEq] at hc <;>
    obtain ⟨rfl, rfl⟩ := hc <;>
    simp [Backed, Undone, Stuck, Transfer.OutcomeKind.ended, hnone, h.unnamed] at hb ⊢

theorem topLevelState_requests (es : List TransactionEvent) (slice : List Id) :
    topLevelState (es ++ slice.map (.transferRequestedWithinTransaction tid)) =
      topLevelState es := by
  induction slice using List.reverseRecOn with
  | nil => simp
  | append_singleton slice c ih =>
    rw [List.map_append, ← List.append_assoc, List.map_singleton, topLevelState_snoc, ih]
    rfl

/-- Recording an event about no child, or about one with the empty id, by itself. -/
theorem Quiet.closes_alone {R : Prop} (h : Quiet w) (hwf : WellFormed tid (w.log tid))
    (hf : Follows tid (w.log tid) e) (hb : Backed R w tid e)
    (hid : childEventTransferID e = Id.empty) :
    consequence (w.log tid ++ [e]) tid = .ok none ∨
      ∃ reason, e = .transactionRollbackStarted tid reason := by
  have hunbacked {st : ChildState} (hc : childOf e = some (childEventTransferID e, st)) :
      st = .requested := h.unbacked hb (hid ▸ hc)
  cases hf with
  | initialized | rejected =>
    exact Or.inl (consequence_none (by simp [stateOf]) (by simp [stateOf]))
  | started htop =>
    have hne : w.log tid ≠ [] := by
      intro hnil
      rw [hnil] at htop
      cases htop
    obtain ⟨spec, hspec⟩ := hwf.exists_spec hne (by simp [htop])
    exact Or.inl
      (consequence_requests hwf hspec (by simp [childOf]) (Or.inl htop) (by simp [stateOf]))
  | requested htop hspec =>
    refine Or.inl (consequence_requests hwf hspec ?_ (Or.inr ⟨htop, h.decided tid htop⟩) ?_)
    · simp [childOf]
    · simpa [stateOf] using htop
  | completed | failed | reversalRequested | rolledBack | rollbackFailed =>
    exact absurd (hunbacked rfl) (by decide)
  | rollbackStarted => exact Or.inr ⟨_, rfl⟩
  | concluded hdec htype he =>
    obtain ⟨-, s, hs, hfinal⟩ := stateOf_conclusion hdec htype he
    left
    apply consequence_none <;>
    · rw [topLevelState_snoc, hs]
      rintro rfl
      cases hfinal

/-- Whatever is appended leaves nothing to decide, but for a rollback that is started
alone. -/
theorem Quiet.closes {R : Prop} (h : Quiet w) (hwf : WellFormed tid (w.log tid))
    (ha : TransactionAppend R w tid events) :
    consequence (w.log tid ++ events) tid = .ok none ∨
      ∃ reason, events = [.transactionRollbackStarted tid reason] := by
  cases ha with
  | initialized | rejected =>
    exact Or.inl (consequence_none (by simp [stateOf]) (by simp [stateOf]))
  | @intents spec starting slice htop hspec _ _ =>
    refine Or.inl (consequence_requests hwf hspec ?_ ?_ ?_)
    · intro e he
      rcases List.mem_append.mp he with he | he
      · cases starting <;> simp at he
        simp [he, childOf]
      · obtain ⟨c, -, rfl⟩ := List.mem_map.mp he
        simp [childOf]
    · cases starting with
      | true => exact Or.inl htop
      | false => exact Or.inr ⟨htop, h.decided tid htop⟩
    · rw [intentsFor, ← List.append_assoc, topLevelState_requests]
      cases starting with
      | true => simp [stateOf]
      | false => simpa using htop
  | @step e rest hf hb hrest =>
    rcases hrest with ⟨hid, rfl⟩ | hrest
    · rcases h.closes_alone hwf hf hb hid with hclosed | ⟨reason, rfl⟩
      · exact Or.inl hclosed
      · exact Or.inr ⟨reason, rfl⟩
    · left
      by_cases hrank : 2 ≤ (topLevelState (w.log tid ++ [e])).rank
      · simpa using consequences_closed (by omega) hrest
      · have hnone : consequence (w.log tid ++ [e]) tid = .ok none := by
          apply consequence_none <;> (intro htop; rw [htop] at hrank; simp [State.rank] at hrank)
        obtain rfl : [] = rest := by simpa [consequences, hnone] using hrest
        exact hnone

/-! ### Who starts a rollback alone -/

/-- Only `StartTransactionRollback` records the start of a rollback by itself. -/
def asks (d : Driver) : Contract World Op where
  assume _ w := Quiet w
  ensure
    | .appendAtomic ws, _ => ∀ tid seq i reason,
      StreamWrite.mk .transaction tid seq [.transactionRollbackStarted i reason] ∈ ws →
        d = .startTransactionRollback tid reason
    | _, _ => True

variable {d : Driver}

theorem asks_lenient : Lenient (asks d) elsewhere := by
  refine Open.lenient ⟨fun o ho w1 _ => by cases o <;> trivial, fun ws hws w1 _ => ?_⟩
  intro tid seq i reason hx
  exact (hws _ hx).elim False.elim False.elim

theorem asks_ledger (ts : List LedgerTransfer) : Permits (asks d) (.createTransfers ts) :=
  fun _ _ => trivial

theorem asks_regular : Regular (asks d) elsewhere := asks_lenient.regular asks_ledger

/-- An append that starts no rollback alone is nobody's concern. -/
theorem asks_permits {seq : Nat}
    (h : ∀ i reason, events ≠ [.transactionRollbackStarted i reason]) :
    Permits (asks d) (.appendAtomic [⟨.transaction, tid, seq, events⟩]) := by
  intro w _ tid' seq' i reason hx
  cases List.mem_singleton.mp hx
  exact absurd rfl (h i reason)

/-- The saga starts no rollback alone: a started stream decides nothing by itself. -/
theorem asks_steps (tid : Id) : OwnSteps (asks d) tid := by
  have hstep : ∀ e w fuel, stateOf e ≠ some .rollbackStarted →
      Obeys (asks d) (appendSagaStep tid e fuel) w := by
    intro e w fuel he
    refine appendSagaStep_obeys asks_lenient (fun seq es pending hp => asks_permits ?_) w fuel
    rintro i reason rfl
    obtain ⟨rest, heq, -⟩ := withConsequences_cases hp
    rw [← (List.cons.inj heq).1] at he
    exact he rfl
  refine ⟨fun seq starting slice => asks_permits ?_, hstep, fun e w fuel hq hdec => ?_⟩
  · intro i reason heq
    cases starting <;> cases slice <;> simp [intentsFor] at heq
  · refine hstep e w fuel ?_
    rcases consequence_cases hdec with ⟨htop, -⟩ | ⟨-, _, -, -, -, ⟨r, rfl, -⟩ | ⟨r, rfl, -⟩⟩
    · cases hdec.symm.trans (hq.decided tid htop)
    · simp [stateOf]
    · simp [stateOf]

theorem Driver.asks (d : Driver) (fuel : Nat) (w : World) :
    Safe (asks d) (fun _ _ => True) (d.service fuel).run w := by
  refine asks_lenient.driver asks_ledger d fun _ hd => ?_
  have hC := asks_lenient (d := d)
  cases d with
  | startInitializingTransaction id spec =>
    exact (startInitializingTransaction_obeys hC (asks_permits (by simp))
      (fun _ => asks_permits (by simp)) w).map
  | startTransactionRollback id reason =>
    refine (startTransactionRollback_obeys hC.reads (fun w => ?_) w).map
    refine appendSagaStep_obeys hC (fun seq es pending hp => ?_) w fuel
    intro w1 _ tid' seq' i reason' hx
    cases List.mem_singleton.mp hx
    obtain ⟨rest, heq, -⟩ := withConsequences_cases hp
    cases heq
    rfl
  | resumeTransaction id =>
    refine (runSaga_obeys hC (asks_steps id) ?_ ?_ fuel (le_refl w)).map
    · exact fun w1 spec _ _ _ => asks_regular.mayRequest id spec.transfers w1
    · exact fun w1 spec _ _ _ _ => asks_regular.mayUnwind id spec.transfers w1
  | _ => cases hd

/-! ### In every state -/

/-- A step leaves a stream alone, leaves nothing on it to decide, or starts its rollback
alone. -/
theorem Quiet.log_step {o : Op} {r : Resp o} (h : Quiet w) (hinv : Inv True w)
    (hlegal : Legal True o w) (hx : w.Exec o r w') (tid : Id) : w'.log tid = w.log tid ∨
      consequence (w'.log tid) tid = .ok none ∨ ∃ ws seq reason, o = .appendAtomic ws ∧
        StreamWrite.mk .transaction tid seq [.transactionRollbackStarted tid reason] ∈ ws ∧
        w'.log tid = w.log tid ++ [.transactionRollbackStarted tid reason] := by
  rcases exec_stream hlegal hx .transaction tid with hsame | ⟨ws, events, happ⟩
  · exact Or.inl (congrArg eventsOf hsame)
  · have hlog : w'.log tid = w.log tid ++ events := happ.events
    have ha : TransactionAppend True w tid events := happ.legal
    rcases h.closes (hinv.transaction tid).wellFormed ha with hclosed | ⟨reason, rfl⟩
    · exact Or.inr (Or.inl (hlog ▸ hclosed))
    · exact Or.inr (Or.inr ⟨ws, _, reason, happ.op, happ.mem, hlog⟩)

theorem quiet_upheld : Upholds True (fun _ => True) (fun _ _ _ => True) asks Quiet where
  init := ⟨fun _ h => (nomatch h), rfl⟩
  tick w w' ht h := by
    obtain ⟨d, rfl⟩ := ht
    exact ⟨h.decided, h.unnamed⟩
  safe d fuel w _ := Driver.asks d fuel w
  assume _ _ _ _ _ h := h
  step d o w r w' hinv _ h _ hlegal _ hx := by
    constructor
    · intro tid htop
      rcases h.log_step hinv hlegal hx tid with hsame | hclosed | ⟨-, -, reason, -, -, hlog⟩
      · rw [hsame] at htop ⊢
        exact h.decided tid htop
      · exact hclosed
      · rw [hlog, topLevelState_snoc] at htop
        cases htop
    · rcases exec_stream hlegal hx .transfer Id.empty with hsame | ⟨ws, events, happ⟩
      · exact hsame.trans h.unnamed
      · have ha : Transfer.TransferAppend w ws Id.empty events := happ.legal
        cases ha with
        | opening _ _ _ hid => cases hid
        | prepared hs => simp [h.unnamed, eventsOf] at hs
        | outcome ht => simp [h.unnamed, eventsOf, Transfer.transitions] at ht
        | claim hs => simp [h.unnamed, eventsOf, Transfer.State.claimable] at hs
        | response hne => exact absurd h.unnamed hne

/-- The stream ends with a rollback's start that `StartTransactionRollback` recorded. -/
def RollbackAsked (c : System) (tid : Id) : Prop :=
  ∃ c1 c2 i reason ws next r, Pool.Reachable anyRun .init c1 ∧
    Pool.Performs anyRun c1 c2 i (.startTransactionRollback tid reason) (.appendAtomic ws) next r ∧
    c2.state.log tid = c1.state.log tid ++ [.transactionRollbackStarted tid reason] ∧
    Pool.Steps anyRun c2 c ∧ c.state.log tid = c2.state.log tid

theorem RollbackAsked.step {c c' : System} (h : RollbackAsked c tid) (hs : Pool.Step anyRun c c')
    (hlog : c'.state.log tid = c.state.log tid) : RollbackAsked c' tid := by
  obtain ⟨c1, c2, i, reason, ws, next, r, hreach, hperf, hstart, hsteps, hsame⟩ := h
  exact ⟨c1, c2, i, reason, ws, next, r, hreach, hperf, hstart, hsteps.tail hs, hlog.trans hsame⟩

/-- Every stream is closed, or ends with a rollback that was asked for. -/
theorem reachable_closed {c : System} (h : Pool.Reachable anyRun .init c) (tid : Id) :
    consequence (c.state.log tid) tid = .ok none ∨ RollbackAsked c tid := by
  induction h with
  | refl => exact Or.inl rfl
  | @tail c c' hreach hstep ih =>
    have hcarry (hlog : c'.state.log tid = c.state.log tid) :
        consequence (c'.state.log tid) tid = .ok none ∨ RollbackAsked c' tid :=
      ih.imp (fun hc => hlog ▸ hc) fun ha => ha.step hstep hlog
    obtain ⟨⟨hinv, hquiet⟩, hthreads⟩ := reachable_upheld refusals_true quiet_upheld hreach
    rcases hstep.performs with ⟨hsame, -⟩ | ⟨i, d, o, next, r, hp⟩ | ⟨henv, -⟩
    · exact hcarry (by rw [hsame])
    · obtain ⟨hi, hg, hx, hset⟩ := id hp
      obtain ⟨hlegal, hasks⟩ := hthreads.ensure (List.mem_of_getElem? hi) ⟨⟨hg, hinv⟩, hquiet⟩
      rcases hquiet.log_step hinv hlegal hx tid with
        hlog | hclosed | ⟨ws, seq, reason, rfl, hmem, hlog⟩
      · exact hcarry hlog
      · exact Or.inl hclosed
      · obtain rfl := hasks tid seq tid reason hmem
        exact Or.inr ⟨c, c', i, reason, ws, next, r, hreach, hp, hlog, .refl, rfl⟩
    · obtain ⟨ms, hms⟩ := henv
      exact hcarry (by rw [hms]; rfl)

/-- **Consequences are recorded with their cause.** Every stream whose last event is not
a rollback's start that was asked for decides nothing; a started one has no failed child
and a child that is still to complete; and however many rounds are left, no more than two
consequences follow from an event. -/
theorem consequences_recorded {c : System} (h : Pool.Reachable anyRun .init c) (tid : Id) :
    (consequence (c.state.log tid) tid = .ok none ∨ RollbackAsked c tid) ∧
    (topLevelState (c.state.log tid) = .started →
      (∀ child, (foldChildStates (c.state.log tid)).state child ≠ .failed) ∧
      ∃ spec, decodeSpec (c.state.log tid) = .ok spec ∧ ∃ child ∈ spec.transfers.keys,
        (foldChildStates (c.state.log tid)).state child ≠ .completed) ∧
    ∀ rounds event rest, 3 ≤ rounds →
      consequences tid rounds (c.state.log tid ++ [event]) = .ok rest →
        consequences tid 3 (c.state.log tid ++ [event]) = .ok rest ∧ rest.length ≤ 2 := by
  refine ⟨reachable_closed h tid, fun htop => ?_, fun rounds event rest hrounds hrest => ?_⟩
  · have hquiet : Quiet c.state := (reachable_upheld refusals_true quiet_upheld h).1.2
    obtain ⟨spec, hspec, hfailed, hopen⟩ := of_consequence_started htop (hquiet.decided tid htop)
    refine ⟨fun child hchild => ?_, spec, hspec, hopen⟩
    exact hfailed _ (Children.mem_of_state hchild (by simp)) rfl
  · refine ⟨consequences_stable hrounds ▸ hrest, ?_⟩
    rcases consequences_length hrest with rfl | ⟨hrank, hlen⟩
    · exact Nat.zero_le 2
    · omega

/-- The deposit is started, and its child not run yet. -/
def depositStarted : System := played (inTurn 0 (deposit.take 4))

theorem depositStarted_recorded :
    topLevelState (depositStarted.state.log (.uuid 2)) = .started ∧
      (consequence (depositStarted.state.log (.uuid 2)) (.uuid 2) = .ok none ∨
        RollbackAsked depositStarted (.uuid 2)) ∧
      ∀ child, (foldChildStates (depositStarted.state.log (.uuid 2))).state child ≠ .failed := by
  have hstarted : topLevelState (depositStarted.state.log (.uuid 2)) = .started := by decide +kernel
  have h := consequences_recorded (played_reachable (inTurn 0 (deposit.take 4))) (.uuid 2)
  exact ⟨hstarted, h.1, (h.2.1 hstarted).1⟩

end MoneyFlow.Transaction
