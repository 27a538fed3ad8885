import MoneyFlow.Alone
import MoneyFlow.Transfer.Conduct

/-!
# MoneyFlow.Transfer.Alone

The steps of a Transfer's saga, each run with nothing else going on.

A driver that finds a claim live waits until it is stale, and then takes over one of
its own kind (`claimForDispatch_alone`); a claim it took it still holds
(`stillHoldsClaim_alone`); and an outcome the state allows is recorded, as long as the
balances recorded with it fit (`recordOutcome_alone`). What the ledger answers is left
open: `rule` is any.
-/

namespace MoneyFlow.Transfer

open Concurrent Service

variable {rule : LedgerRule} {w w' : World} {id : Id}

/-! ### What was written -/

/-- `events` were appended to the Transfer's stream and balances of `toks` may have
been recorded; nothing else was written, and the ledger is as it was. -/
structure Wrote (w : World) (id : Id) (events : List TransferEvent) (toks : List Id)
    (w' : World) : Prop where
  transfer : ∃ t, w'.transfer id = w.transfer id ++ rowsFrom t (w.transfer id).length events
  others : ∀ i, i ≠ id → w'.transfer i = w.transfer i
  transaction : ∀ i, w'.transaction i = w.transaction i
  wallet : ∀ i, w'.wallet i = w.wallet i
  token : ∀ tok, tok ∉ toks → w'.token tok = w.token tok
  ledger : w'.ledger = w.ledger

variable {es : List TransferEvent} {toks : List Id}

theorem Wrote.events (h : Wrote w id es toks w') :
    eventsOf (w'.transfer id) = eventsOf (w.transfer id) ++ es := by
  obtain ⟨t, ht⟩ := h.transfer
  rw [ht, eventsOf_append, eventsOf_rowsFrom]

/-- Time that passed before makes no difference. -/
theorem Wrote.of_tick {w1 : World} (ht : w.Tick w1) (h : Wrote w1 id es toks w') :
    Wrote w id es toks w' := by
  obtain ⟨d, rfl⟩ := ht
  exact ⟨h.transfer, h.others, h.transaction, h.wallet, h.token, h.ledger⟩

/-- A landed append of events on a Transfer, with balances. -/
theorem wrote_of_landed {ws : List StreamWrite} {st : Store} (hne : es ≠ [])
    (hkeys : ∀ x ∈ ws, ∃ tok ∈ toks, x.key = (.token, tok))
    (hst : appendAtomic w.clock w.store
      (ws ++ [⟨.transfer, id, (w.transfer id).length, es⟩]) = .ok st) :
    Wrote w id es toks { w with store := st } := by
  -- a stream no write names is as it was
  have hsame (a : Aggregate) (i : Id) (hw : ∀ x ∈ ws, x.key ≠ (a, i))
      (ht : (Aggregate.transfer, id) ≠ (a, i)) : st a i = w.store a i := by
    rcases appendAtomic_stream hst a i with hsame | ⟨events, hm, -⟩
    · exact hsame
    · rcases List.mem_append.mp hm with hm | hm
      · exact absurd rfl (hw _ hm)
      · exact absurd (congrArg StreamWrite.key (List.mem_singleton.mp hm)).symm ht
  have htoken (a : Aggregate) (i : Id) (ha : a ≠ .token ∨ i ∉ toks) :
      ∀ x ∈ ws, x.key ≠ (a, i) := by
    intro x hx hk
    obtain ⟨tok, htok, hkey⟩ := hkeys x hx
    obtain ⟨rfl, rfl⟩ := Prod.mk.inj (hk.symm.trans hkey)
    exact ha.elim (fun h => h rfl) fun h => h htok
  obtain ⟨-, hland⟩ := appendAtomic_landed hst
    (List.mem_append_right _ (List.mem_singleton.mpr rfl)) hne
  refine ⟨⟨w.clock, hland⟩, fun i hi => ?_, fun i => ?_, fun i => ?_, fun tok htok => ?_, rfl⟩
  · exact hsame .transfer i (htoken _ _ (Or.inl (by decide)))
      fun h => hi (Prod.mk.inj h).2.symm
  · exact hsame .transaction i (htoken _ _ (Or.inl (by decide))) (by simp)
  · exact hsame .wallet i (htoken _ _ (Or.inl (by decide))) (by simp)
  · exact hsame .token tok (htoken _ _ (Or.inr htok)) (by simp)

/-! ### Claims -/

/-- How long the live claim stays fresh. -/
def patience (w : World) (id : Id) : Nat :=
  match liveMarker (w.transfer id) with
  | none => 0
  | some row => row.occurredAt + claimStaleAfter - w.clock

theorem patience_tick (w : World) (id : Id) (d : Nat) :
    patience { w with clock := w.clock + d } id = patience w id - d := by
  unfold patience
  change (match liveMarker (w.transfer id) with
    | none => 0
    | some row => row.occurredAt + claimStaleAfter - (w.clock + d)) = _
  cases liveMarker (w.transfer id) with
  | none => exact (Nat.zero_sub d).symm
  | some row => exact (Nat.sub_sub _ _ _).symm

theorem awaitUnclaimed_alone {pre : State} {next : TransferEvent} :
    ∀ {fuel : Nat} {w : World}, patience w id < fuel →
      currentState (eventsOf (w.transfer id)) = pre →
      (∀ row, liveMarker (w.transfer id) = some row → row.event.eventType = next.eventType) →
      Returns (World.ExecBy rule) (awaitUnclaimed id pre next fuel)
        (fun r w' => r = some (w.transfer id) ∧ w.Tick w') w
  | 0, _, hfuel, _, _ => absurd hfuel (Nat.not_lt_zero _)
  | fuel + 1, w, hfuel, hs, hlive => by
    refine Yields.load_transfer ?_
    rw [if_neg (not_not.mpr hs)]
    cases hl : liveMarker (w.transfer id) with
    | none => exact Returns.pure ⟨rfl, 0, rfl⟩
    | some row =>
      refine Yields.now ?_
      by_cases hstale : row.occurredAt + claimStaleAfter ≤ w.clock
      · rw [if_pos hstale, if_neg (not_not.mpr (hlive row hl))]
        exact Returns.pure ⟨rfl, 0, rfl⟩
      · rw [if_neg hstale]
        refine Yields.wait fun d hd => ?_
        -- what is left to wait gets less
        have hless : patience { w with clock := w.clock + d } id < fuel := by
          have hfresh : patience w id = row.occurredAt + claimStaleAfter - w.clock := by
            rw [patience, hl]
          rw [patience_tick]
          simp only [claimPollInterval] at hd
          omega
        refine (awaitUnclaimed_alone hless hs hlive).mono fun r w' hr => ?_
        obtain ⟨hr, d', rfl⟩ := hr
        exact ⟨hr, d + d', by simp [Nat.add_assoc]⟩

/-- One write to one Transfer's stream, where it stands. -/
theorem due_transfer {events : List TransferEvent} (hid : id ≠ Id.empty) :
    Due w.store [⟨.transfer, id, (w.transfer id).length, events⟩] where
  named x hx := by
    obtain rfl := List.mem_singleton.mp hx
    exact hid
  distinct := List.nodup_singleton _
  expected x hx := by
    obtain rfl := List.mem_singleton.mp hx
    exact beq_self_eq_true _

variable {fuel : Nat} {marker e : TransferEvent}

/-- A claim nobody else holds is taken. -/
theorem claimForDispatch_alone {pre : State} (hid : id ≠ Id.empty) (hfuel : patience w id < fuel)
    (hs : currentState (eventsOf (w.transfer id)) = pre)
    (hlive : ∀ row, liveMarker (w.transfer id) = some row →
      row.event.eventType = marker.eventType) :
    Returns (World.ExecBy rule) (claimForDispatch id pre marker (fuel + 1))
      (fun r w' => r = some ((w.transfer id).length + 1) ∧ Wrote w id [marker] [] w') w := by
  refine Yields.seq (awaitUnclaimed_alone hfuel hs hlive) fun r w1 hr => ?_
  obtain ⟨rfl, htick⟩ := hr
  have hsame : w1.transfer id = w.transfer id := by
    obtain ⟨d, rfl⟩ := htick
    rfl
  rw [← hsame]
  refine Yields.appendWrites (due_transfer hid) fun st hst => ?_
  refine Returns.pure ⟨rfl, Wrote.of_tick htick ?_⟩
  have hst' : appendAtomic w1.clock w1.store
      ([] ++ [⟨.transfer, id, (w1.transfer id).length, [marker]⟩]) = .ok st := hst
  exact wrote_of_landed (by simp) (by simp) hst'

/-- The claim just taken is held. -/
def Holds (w : World) (id : Id) (seq : Nat) : Prop :=
  ∃ row, liveMarker (w.transfer id) = some row ∧ row.sequence = seq

theorem Wrote.holds (hm : isClaimMarkerType marker.eventType = true)
    (h : Wrote w id [marker] toks w') : Holds w' id ((w.transfer id).length + 1) := by
  obtain ⟨t, ht⟩ := h.transfer
  refine ⟨⟨(w.transfer id).length + 1, marker, t⟩, ?_, rfl⟩
  rw [ht, rowsFrom_cons, rowsFrom_nil, liveMarker_snoc, if_pos hm]

theorem Wrote.state_of_claim (hm : isClaimMarkerType marker.eventType = true)
    (h : Wrote w id [marker] toks w') :
    currentState (eventsOf (w'.transfer id)) = currentState (eventsOf (w.transfer id)) := by
  simp [h.events, advance, stateByEventType_claim hm]

theorem stillHoldsClaim_alone {seq : Nat} (h : Holds w id seq) :
    Returns (World.ExecBy rule) (stillHoldsClaim id seq) (fun r w' => r = true ∧ w' = w) w := by
  obtain ⟨row, hrow, hseq⟩ := h
  refine Yields.load_transfer ?_
  rw [hrow]
  exact Returns.pure ⟨beq_iff_eq.mpr hseq, rfl⟩

/-! ### Recording an outcome -/

/-- The latest outcome is the one that set the state. -/
theorem stateOf_latestOutcome {events : List TransferEvent} {ty : TransferEventType}
    (h : latestOutcome events = some ty) : stateByEventType ty = some (currentState events) := by
  induction events using List.reverseRecOn with
  | nil => cases h
  | append_singleton events e ih =>
    rw [currentState_snoc, advance]
    rw [latestOutcome, List.reverse_append, List.reverse_singleton, List.singleton_append,
      List.find?_cons] at h
    cases he : stateByEventType e.eventType with
    | none =>
      rw [he] at h
      exact ih h
    | some s =>
      rw [he] at h
      obtain rfl : e.eventType = ty := Option.some.inj h
      exact he

/-- An outcome the state allows is not the one recorded last. -/
theorem latestOutcome_ne {events : List TransferEvent} {ty : TransferEventType}
    (h : ty ∈ transitions (currentState events)) : latestOutcome events ≠ some ty := by
  intro hlast
  obtain ⟨s, hs, hlt⟩ := rank_lt_of_transition h
  rw [stateOf_latestOutcome hlast] at hs
  cases hs
  exact absurd hlt (Nat.lt_irrefl _)

theorem due_outcome {ws : List StreamWrite} (hid : id ≠ Id.empty)
    (hnamed : ∀ tok ∈ toks, tok ≠ Id.empty) (hws : Token.BalancesDue w (Token.distinct toks) ws) :
    Due w.store (ws ++ [⟨.transfer, id, (w.transfer id).length, [e]⟩]) ∧
      ∀ x ∈ ws, ∃ tok ∈ toks, x.key = (.token, tok) := by
  have hkeys : ∀ x ∈ ws, ∃ tok ∈ toks, x.key = (.token, tok) := by
    intro x hx
    obtain ⟨tok, htok, hk⟩ := List.mem_map.mp (hws.keys.subset (List.mem_map_of_mem hx))
    exact ⟨tok, Token.mem_distinct.mp htok, hk.symm⟩
  have hone : Due w.store [⟨.transfer, id, (w.transfer id).length, [e]⟩] := due_transfer hid
  refine ⟨⟨fun x hx => ?_, ?_, fun x hx => ?_⟩, hkeys⟩
  · rcases List.mem_append.mp hx with hx | hx
    · obtain ⟨tok, htok, hk⟩ := hkeys x hx
      rw [show x.aggregateID = tok from (Prod.mk.inj hk).2]
      exact hnamed tok htok
    · exact hone.named x hx
  · rw [List.map_append, List.nodup_append]
    refine ⟨?_, hone.distinct, fun k hk k' hk' heq => ?_⟩
    · exact ((Token.distinct_nodup toks).map fun _ _ h => (Prod.mk.inj h).2).sublist hws.keys
    · obtain ⟨x, hx, rfl⟩ := List.mem_map.mp hk
      obtain ⟨tok, -, hkey⟩ := hkeys x hx
      obtain rfl := List.mem_singleton.mp hk'
      exact absurd (hkey.symm.trans heq) (by simp [StreamWrite.key])
  · rcases List.mem_append.mp hx with hx | hx
    · exact hws.expected x hx
    · exact hone.expected x hx

/-- An outcome the state allows is recorded. -/
theorem recordOutcome_alone {legs : List TransferLeg} (hid : id ≠ Id.empty)
    (ht : e.eventType ∈ transitions (currentState (eventsOf (w.transfer id))))
    (hkept : ∀ tok ∈ legTokens legs, Token.Kept w tok)
    (hfits : ∀ tok ∈ legTokens legs, Token.Fits w tok) :
    Returns (World.ExecBy rule) (recordOutcome id e legs (fuel + 1))
      (fun _ w' => Wrote w id [e] (legTokens legs) w') w := by
  refine Yields.load_transfer ?_
  rw [if_neg (latestOutcome_ne ht), if_neg (not_not.mpr ht)]
  refine Yields.seq (Token.balanceWrites_alone hkept hfits) fun ws w1 hws => ?_
  obtain ⟨hw, hdue⟩ := hws
  rw [hw]
  obtain ⟨hdue, hkeys⟩ := due_outcome (e := e) hid (fun tok h => (hkept tok h).named) hdue
  exact Yields.appendWrites hdue fun st hst =>
    Returns.pure (wrote_of_landed (by simp) hkeys hst)

/-- An outcome whose balances do not fit is not recorded. -/
theorem recordOutcome_unfit {legs : List TransferLeg} {tok : Id}
    (ht : e.eventType ∈ transitions (currentState (eventsOf (w.transfer id))))
    (hkept : ∀ tok ∈ legTokens legs, Token.Kept w tok) (hm : tok ∈ legTokens legs)
    (hfits : ¬ Token.Fits w tok) : Yields (World.ExecBy rule) (recordOutcome id e legs (fuel + 1))
      (fun r w' => w' = w ∧ ∃ e, r = .error e) w := by
  refine Yields.load_transfer ?_
  rw [if_neg (latestOutcome_ne ht), if_neg (not_not.mpr ht)]
  refine Yields.bind ((Token.balanceWrites_unfit hkept hm hfits).mono fun r w1 hr => ?_)
  obtain ⟨rfl, err, rfl⟩ := hr
  exact ⟨rfl, err, rfl⟩

/-- A Transfer is failed by the driver that holds its claim. -/
theorem compensate_alone {reason : Text} {seq : Nat} (hid : id ≠ Id.empty) (hholds : Holds w id seq)
    (ht : .transferFailed ∈ transitions (currentState (eventsOf (w.transfer id)))) :
    Returns (World.ExecBy rule) (compensate (fuel + 1) id seq reason)
      (fun _ w' => Wrote w id [.transferFailed id reason] [] w') w := by
  refine Yields.seq (stillHoldsClaim_alone hholds) fun r w1 hr => ?_
  obtain ⟨rfl, hw⟩ := hr
  rw [hw]
  exact recordOutcome_alone hid ht nofun nofun

/-! ### Ledger requests -/

theorem chains_of_ne_nil {batch : List LedgerTransfer} (h : batch ≠ []) :
    ∃ rest, chains batch = link (window batch 0) :: rest := by
  obtain ⟨n, hn⟩ := Nat.exists_eq_succ_of_ne_zero (mt List.length_eq_zero_iff.mp h)
  refine ⟨cut n (batch.drop batchMax), ?_⟩
  rw [chains, hn, cut_cons h]
  simp [window]

theorem chains_of_le {batch : List LedgerTransfer} (h : batch ≠ [])
    (hlen : batch.length ≤ batchMax) :
    chains batch = [link batch] := by
  obtain ⟨n, hn⟩ := Nat.exists_eq_succ_of_ne_zero (mt List.length_eq_zero_iff.mp h)
  have hnil : cut n [] = [] := by cases n <;> rfl
  rw [chains, hn, cut_cons h, List.take_of_length_le hlen, List.drop_of_length_le hlen, hnil]

section

variable {batch : List LedgerTransfer} {results : List TransferResultCode} {l : Ledger}
  {fuel : Nat} {onReject : LedgerRefusal → Service Unit} {Q : Except Err Bool → World → Prop}

/-- A batch of one chain, accepted. -/
theorem submitBatch_accepted (hne : batch ≠ []) (hlen : batch.length ≤ batchMax)
    (hans : rule w.ledger (link batch) = (.ok results, l))
    (hacc : results.all TransferResultCode.accepted = true)
    (h : Q (.ok true) { w with ledger := l }) :
    Yields (World.ExecBy rule) (submitBatch fuel batch onReject) Q w := by
  have hnone : firstRefusal 0 0 results = none := by
    cases hr : firstRefusal 0 0 results with
    | none => rfl
    | some refusal =>
      rw [(firstRefusal_some hr).2] at hacc
      exact absurd hacc Bool.false_ne_true
  unfold submitBatch
  rw [chains_of_le hne hlen]
  have hchain : Returns (World.ExecBy rule) (submitChain (link batch) 0)
      (fun r w' => r = none ∧ w' = { w with ledger := l }) w := by
    refine Yields.createTransfers ?_
    rw [hans]
    exact ⟨_, rfl, hnone, rfl⟩
  refine Yields.seq hchain fun r w1 hr => ?_
  obtain ⟨rfl, rfl⟩ := hr
  exact h

/-- A batch whose first chain is refused. -/
theorem submitBatch_refused {refusal : LedgerRefusal} (hne : batch ≠ [])
    (hans : rule w.ledger (link (window batch 0)) = (.ok results, l))
    (href : firstRefusal 0 0 results = some refusal)
    (h : Yields (World.ExecBy rule) (onReject refusal)
      (fun r w' => match r with
        | .ok _ => Q (.ok false) w'
        | .error e => Q (.error e) w') { w with ledger := l }) :
    Yields (World.ExecBy rule) (submitBatch fuel batch onReject) Q w := by
  obtain ⟨rest, hrest⟩ := chains_of_ne_nil hne
  unfold submitBatch
  rw [hrest]
  have hchain : Returns (World.ExecBy rule) (submitChain (link (window batch 0)) 0)
      (fun r w' => r = some refusal ∧ w' = { w with ledger := l }) w := by
    refine Yields.createTransfers ?_
    rw [hans]
    exact ⟨_, rfl, href, rfl⟩
  refine Yields.seq hchain fun r w1 hr => ?_
  obtain ⟨rfl, rfl⟩ := hr
  refine Yields.bind (h.mono fun r w2 hr => ?_)
  cases r with
  | ok u | error e => exact hr

end

end MoneyFlow.Transfer
