import MoneyFlow.Runs
import MoneyFlow.Transfer.Alone

/-!
# MoneyFlow.Transfer.Retry

Whether a step that crashed can be taken again.

A driver that crashes between the ledger applying its request and its outcome
landing leaves its claim and the applied transfers behind, and the driver that takes
the claim over submits the same chains. A leg that answers `exists` is taken as a
success, anything else as a refusal of the chain. The ledger that `RealClient` talks
to answers `exists` for one transfer of the chain at most: any answer but `ok` breaks
a linked chain, and every other transfer of it answers `linked_event_failed`
(`BreaksChains`). So a step of one leg is recorded by the retry, and a step of two or
more never is (`retry_records_iff`): a Transfer whose money has moved is recorded as
failed (`posted_then_failed`).
-/

namespace MoneyFlow.Transfer

open Concurrent Service

variable {l : Ledger} {e : TransferEvent} {Q : Except Err Unit → World → Prop}

/-! ### The ledger's rule for linked chains -/

/-- The transfer is applied, with the same fields. -/
def Present (l : Ledger) (t : LedgerTransfer) : Prop := l.transfers.lookup t.id = some (.of t)

instance (l : Ledger) (t : LedgerTransfer) : Decidable (Present l t) :=
  inferInstanceAs (Decidable (_ = _))

/-- The rule for a linked chain that holds a transfer already applied: one of its
transfers answers for itself (`exists`, if it is one already applied) and breaks the
chain, every other one answers `linked_event_failed`, and nothing is applied. -/
structure BreaksChains (rule : LedgerRule) : Prop where
  broken : ∀ l ts, ts.length ≤ batchMax → (∃ t ∈ ts, Present l t) →
    ∃ results l' i t, rule l (link ts) = (.ok results, l') ∧
      l'.accounts = l.accounts ∧ l'.transfers = l.transfers ∧ results.length = ts.length ∧
      ts[i]? = some t ∧ results[i]? ≠ some .ok ∧
      (Present l t → results[i]? = some .existsAlready) ∧
      ∀ j, j ≠ i → j < ts.length → results[j]? = some .linkedEventFailed

/-- One chain under that rule: the transfers are judged in order, up to the first that
is not `ok`. -/
def createChain (l : Ledger) (run : List LedgerTransfer) :
    List TransferResultCode × Ledger :=
  let judged := l.judgeRun l.shadow run
  match judged.1.findIdx? (· != .ok) with
  | none => (judged.1, { run.foldl Ledger.commit l with accounts := judged.2.accounts })
  | some i =>
    (judged.1.mapIdx fun j r => if j = i then r else .linkedEventFailed,
      { l with refused := l.refused ++
          Ledger.refusedIDs ((run.drop i).take 1) ((judged.1.drop i).take 1) })

/-- Chain after chain. -/
def createChains (l : Ledger) : List (List LedgerTransfer) → List TransferResultCode × Ledger
  | [] => ([], l)
  | run :: rest =>
    ((createChain l run).1 ++ (createChains (createChain l run).2 rest).1,
      (createChains (createChain l run).2 rest).2)

/-- A ledger that follows the rule. -/
def chainBreaking : LedgerRule := fun l transfers =>
  match Ledger.checkBatchSize transfers.length with
  | .error e => (.error e, l)
  | .ok () =>
    match Ledger.linkedRuns (·.linked) transfers with
    | .error e => (.error e, l)
    | .ok runs => ((.ok (createChains l runs).1), (createChains l runs).2)

theorem chainBreaking_link {ts : List LedgerTransfer} (hne : ts ≠ [])
    (hlen : ts.length ≤ batchMax) :
    chainBreaking l (link ts) = (.ok (createChain l (link ts)).1, (createChain l (link ts)).2) := by
  have hsize : Ledger.checkBatchSize ts.length = .ok () := by
    simp [Ledger.checkBatchSize, hlen]
  simp [chainBreaking, hsize, Ledger.linkedRuns, splitRuns_link hne, createChains]

/-- Linking a chain changes nothing about what is applied. -/
theorem present_link {ts : List LedgerTransfer} {i : Nat} {t : LedgerTransfer}
    (ht : ts[i]? = some t) (h : Present l t) : ∃ u, (link ts)[i]? = some u ∧ Present l u := by
  have hentry : ((link ts).map entry)[i]? = some (entry t) := by
    rw [link_entries, List.getElem?_map, ht]
    rfl
  rw [List.getElem?_map, Option.map_eq_some_iff] at hentry
  obtain ⟨u, hu, he⟩ := hentry
  refine ⟨u, hu, ?_⟩
  unfold Present
  rw [show u.id = t.id from congrArg Prod.fst he, show StoredTransfer.of u = .of t from
    congrArg Prod.snd he]
  exact h

/-- A transfer already applied is judged so, wherever in a chain it stands. -/
theorem judgeRun_present : ∀ {run : List LedgerTransfer} {sh : Ledger.Shadow} {i : Nat}
    {t : LedgerTransfer}, run[i]? = some t → Present l t →
      (l.judgeRun sh run).1[i]? = some .existsAlready
  | t' :: run, sh, 0, t, ht, h => by
    obtain rfl : t' = t := by simpa using ht
    simp [Ledger.judgeRun, Ledger.judge, show l.transfers.lookup t'.id = some (.of t') from h]
  | t' :: run, sh, i + 1, t, ht, h => by
    simp only [List.getElem?_cons_succ] at ht
    simpa [Ledger.judgeRun] using judgeRun_present ht h

/-- A chain broken at `i`. -/
theorem createChain_broken {run : List LedgerTransfer} {i : Nat}
    (h : (l.judgeRun l.shadow run).1.findIdx? (· != .ok) = some i) : (createChain l run).1 =
        (l.judgeRun l.shadow run).1.mapIdx (fun j r => if j = i then r else .linkedEventFailed) ∧
      (createChain l run).2.accounts = l.accounts ∧
      (createChain l run).2.transfers = l.transfers := by
  simp only [createChain, h, and_self]

theorem chainBreaking_breaks : BreaksChains chainBreaking where
  broken l ts hlen hex := by
    obtain ⟨t0, hm, hpresent⟩ := hex
    obtain ⟨k, hk⟩ := List.mem_iff_getElem?.mp hm
    have hjudged {j : Nat} {t : LedgerTransfer} (ht : ts[j]? = some t) (h : Present l t) :
        (l.judgeRun l.shadow (link ts)).1[j]? = some .existsAlready := by
      obtain ⟨u, hu, hpu⟩ := present_link ht h
      exact judgeRun_present hu hpu
    have hcount : (l.judgeRun l.shadow (link ts)).1.length = ts.length := by simp
    -- the transfer already applied breaks the chain, or one before it does
    have hbreaks : ∃ i, (l.judgeRun l.shadow (link ts)).1.findIdx? (· != .ok) = some i := by
      rw [← Option.isSome_iff_exists, List.findIdx?_isSome, List.any_eq_true]
      exact ⟨_, List.mem_of_getElem? (hjudged hk hpresent), rfl⟩
    obtain ⟨i, hi⟩ := hbreaks
    obtain ⟨hlt, hne, -⟩ := List.findIdx?_eq_some_iff_getElem.mp hi
    obtain ⟨t, ht⟩ : ∃ t, ts[i]? = some t := ⟨_, List.getElem?_eq_getElem (hcount ▸ hlt)⟩
    obtain ⟨hres, hacc, htr⟩ := createChain_broken hi
    refine ⟨_, _, i, t, chainBreaking_link (List.ne_nil_of_mem hm) hlen, hacc, htr, ?_, ht, ?_, ?_,
      ?_⟩
    · rw [hres, List.length_mapIdx, hcount]
    · rw [hres, List.getElem?_mapIdx, List.getElem?_eq_getElem hlt]
      simpa using hne
    · intro h
      rw [hres, List.getElem?_mapIdx, hjudged ht h]
      simp
    · intro j hj hjlt
      rw [hres, List.getElem?_mapIdx, List.getElem?_eq_getElem (hcount.symm ▸ hjlt)]
      simp [hj]

/-! ### What a retry is told -/

variable {rule : LedgerRule} {w w' : World} {id : Id}

section

variable (hrule : BreaksChains rule) {l : Ledger} {ts : List LedgerTransfer}
include hrule

/-- One transfer, submitted again, answers `exists`. -/
theorem BreaksChains.alone {t : LedgerTransfer} (h : Present l t) :
    ∃ l', rule l (link [t]) = (.ok [.existsAlready], l') ∧ l'.accounts = l.accounts := by
  obtain ⟨results, l', i, u, hans, hacc, -, hlen, hu, -, hexists, -⟩ :=
    hrule.broken l [t] (by simp [batchMax]) ⟨t, List.mem_cons_self, h⟩
  obtain ⟨rfl, rfl⟩ : i = 0 ∧ t = u := by
    rcases i with _ | i
    · exact ⟨rfl, by simpa using hu⟩
    · simp at hu
  obtain ⟨r, rfl⟩ := List.length_eq_one_iff.mp hlen
  have hr : r = .existsAlready := by simpa using hexists h
  exact ⟨l', hr ▸ hans, hacc⟩

/-- A chain of two or more, submitted again, is refused. -/
theorem BreaksChains.refused (hts : 2 ≤ ts.length) (hlen : ts.length ≤ batchMax)
    (h : ∃ t ∈ ts, Present l t) :
    ∃ results l' refusal, rule l (link ts) = (.ok results, l') ∧
      firstRefusal 0 0 results = some refusal ∧ refusal.chainsApplied = 0 := by
  obtain ⟨results, l', i, -, hans, -, -, -, -, -, -, hothers⟩ := hrule.broken l ts hlen h
  obtain ⟨j, hj, hjlt⟩ : ∃ j, j ≠ i ∧ j < ts.length := by
    by_cases hi : i = 0
    · exact ⟨1, by omega, by omega⟩
    · exact ⟨0, by omega, by omega⟩
  have hfailed : .linkedEventFailed ∈ results := List.mem_of_getElem? (hothers j hj hjlt)
  cases hr : firstRefusal 0 0 results with
  | none =>
    have hacc := List.all_eq_true.mp (firstRefusal_none hr) _ hfailed
    exact absurd hacc (by decide)
  | some refusal => exact ⟨results, l', refusal, hans, hr, (firstRefusal_some hr).1⟩

end

/-! ### The steps -/

/-- A step of the saga that asks the ledger for something. -/
inductive Dispatched
  | stage
  | commit
  | cancelStaged (reason : Text)

variable {step : Dispatched}

namespace Dispatched

/-- The code of the step. -/
def run (fuel : Nat) (id : Id) : Dispatched → Service Unit
  | stage => Transfer.stage fuel id
  | commit => Transfer.commit fuel id
  | cancelStaged reason => Transfer.cancelStaged fuel id reason

/-- The claim it takes. -/
def marker (id : Id) : Dispatched → TransferEvent
  | stage => .stagingTransferStarted id
  | commit => .transferCommittingStarted id
  | cancelStaged reason => .cancellingStagedTransferStarted id reason

/-- The states it is taken in. -/
def starts (s : State) : Dispatched → Bool
  | stage => s == .prepared
  | commit => s == .prepared || s == .pending
  | cancelStaged _ => s == .staged || s == .pending

/-- What it asks the ledger for first. -/
def batch (s : State) (legs : List TransferLeg) : Dispatched → List LedgerTransfer
  | stage => reservations legs
  | commit =>
    if s == .pending then posts legs
    else if legs.length ≤ batchMax then movements legs else reservations legs
  | cancelStaged _ => voids legs

/-- What it records once the ledger has done what it was asked. -/
def outcome (id : Id) (legs : List TransferLeg) : Dispatched → TransferEvent
  | stage => .transferStaged id
  | commit => .transferCommitted id (buildDestinations legs)
  | cancelStaged reason => .transferCancelled id reason

end Dispatched

/-- A driver crashed in the step: it had claimed it, and the first chain it submitted
is applied. -/
structure Crashed (step : Dispatched) (w : World) (id : Id) (legs : List TransferLeg) : Prop where
  named : id ≠ Id.empty
  prepared : w.legs id = .ok legs
  nonempty : legs ≠ []
  kept : ∀ tok ∈ legTokens legs, Token.Kept w tok
  state : step.starts (currentState (eventsOf (w.transfer id))) = true
  claimed : ∃ row, liveMarker (w.transfer id) = some row ∧
    row.event.eventType = (step.marker id).eventType
  landed : ∀ t ∈ window (step.batch (currentState (eventsOf (w.transfer id))) legs) 0,
    Present w.ledger t

/-- The step, taken again with nothing else going on, ends without an error and
records its outcome, if only it has the fuel to wait for the claim. -/
def Records (rule : LedgerRule) (step : Dispatched) (w : World) (id : Id)
    (legs : List TransferLeg) : Prop :=
  ∃ n, ∀ fuel, n ≤ fuel → Yields (World.ExecBy rule) (step.run fuel id)
    (fun r w' => r = .ok () ∧ (eventsOf (w'.transfer id)).getLast? = some (step.outcome id legs)) w

/-! ### Taking a step again -/

variable {legs : List TransferLeg} {seq fuel : Nat}

/-- The balances recorded with the outcome fit. -/
def BalancesFit (w : World) (legs : List TransferLeg) : Prop :=
  ∀ tok ∈ legTokens legs, Token.Fits w tok

/-- The step ended in an error, or with the Transfer failed. -/
def Lost (id : Id) (r : Except Err Unit) (w' : World) : Prop :=
  (∃ e, r = .error e) ∨
    ∃ reason, (eventsOf (w'.transfer id)).getLast? = some (.transferFailed id reason)

theorem Wrote.getLast? {toks : List Id} (h : Wrote w id [e] toks w') :
    (eventsOf (w'.transfer id)).getLast? = some e := by
  rw [h.events, List.getLast?_append]
  rfl

/-- What is known once the step is claimed again. -/
structure Reclaimed (w : World) (id : Id) (seq : Nat) (e : TransferEvent)
    (legs : List TransferLeg) : Prop where
  named : id ≠ Id.empty
  holds : Holds w id seq
  allowed : e.eventType ∈ transitions (currentState (eventsOf (w.transfer id)))
  kept : ∀ tok ∈ legTokens legs, Token.Kept w tok

/-- A ledger with the same accounts makes no difference to it. -/
theorem Reclaimed.ledger (h : Reclaimed w id seq e legs) (hl : l.accounts = w.ledger.accounts) :
    Reclaimed { w with ledger := l } id seq e legs where
  named := h.named
  holds := h.holds
  allowed := h.allowed
  kept tok htok := by
    obtain ⟨hnamed, hstream, hacc⟩ := h.kept tok htok
    exact ⟨hnamed, hstream, by rw [← hl] at hacc; exact hacc⟩

/-- The outcome is recorded if its balances fit, and an error if they do not. -/
theorem Reclaimed.record (h : Reclaimed w id seq e legs)
    (hfit : BalancesFit w legs → ∀ w', Wrote w id [e] (legTokens legs) w' → Q (.ok ()) w')
    (hunfit : ¬ BalancesFit w legs → ∀ err, Q (.error err) w) : Yields (World.ExecBy rule) (do
      if ← stillHoldsClaim id seq then recordOutcome id e legs (fuel + 1) else pure ()) Q w := by
  refine Yields.seq (stillHoldsClaim_alone h.holds) fun r w1 hr => ?_
  obtain ⟨rfl, hw⟩ := hr
  rw [hw]
  by_cases hall : BalancesFit w legs
  · refine Ends.mono (recordOutcome_alone h.named h.allowed h.kept hall) fun r w2 hr => ?_
    obtain ⟨a, rfl, hwrote⟩ := hr
    exact hfit hall w2 hwrote
  · obtain ⟨tok, hm, htok⟩ : ∃ tok, tok ∈ legTokens legs ∧ ¬ Token.Fits w tok := by
      simpa [BalancesFit] using hall
    refine Ends.mono (recordOutcome_unfit h.allowed h.kept hm htok) fun r w2 hr => ?_
    obtain ⟨rfl, err, rfl⟩ := hr
    exact hunfit hall err

/-- What the batch is answered when it is submitted again. -/
theorem submit_again (hrule : BreaksChains rule) {batch : List LedgerTransfer}
    {onReject : LedgerRefusal → Service Unit} {Q : Except Err Bool → World → Prop}
    (hne : batch ≠ []) (hlanded : ∀ t ∈ window batch 0, Present w.ledger t)
    (hone : batch.length = 1 → ∀ l, l.accounts = w.ledger.accounts →
      Q (.ok true) { w with ledger := l })
    (hmany : 2 ≤ batch.length → ∀ refusal l, refusal.chainsApplied = 0 →
      Yields (World.ExecBy rule) (onReject refusal) (fun r w' => match r with
        | .ok _ => Q (.ok false) w'
        | .error e => Q (.error e) w') { w with ledger := l }) :
    Yields (World.ExecBy rule) (submitBatch fuel batch onReject) Q w := by
  by_cases hlen : batch.length = 1
  · obtain ⟨t, rfl⟩ := List.length_eq_one_iff.mp hlen
    obtain ⟨l, hans, hacc⟩ := hrule.alone (hlanded t (by simp [window, batchMax]))
    exact submitBatch_accepted hne (by simp [batchMax]) hans rfl (hone hlen l hacc)
  · have hmore : 2 ≤ batch.length := by
      have := List.length_pos_iff.mpr hne
      omega
    have hwindow : 2 ≤ (window batch 0).length := by
      simp only [window, Nat.zero_mul, List.drop_zero, List.length_take, batchMax]
      omega
    have hex : ∃ t ∈ window batch 0, Present w.ledger t := by
      obtain ⟨t, ht⟩ := List.exists_mem_of_length_pos (by omega : 0 < (window batch 0).length)
      exact ⟨t, ht, hlanded t ht⟩
    obtain ⟨results, l, refusal, hans, href, hzero⟩ :=
      hrule.refused hwindow (window_length_le batch 0) hex
    exact submitBatch_refused hne hans href (hmany hmore refusal l hzero)

/-- How a step taken again ends: recorded if there is one leg and its balances fit, and
lost if not. -/
structure EndsAs (w : World) (id : Id) (e : TransferEvent) (legs : List TransferLeg)
    (Q : Except Err Unit → World → Prop) : Prop where
  recorded : legs.length = 1 → BalancesFit w legs → ∀ w',
    (eventsOf (w'.transfer id)).getLast? = some e → Q (.ok ()) w'
  lost : ¬ (legs.length = 1 ∧ BalancesFit w legs) → ∀ r w', Lost id r w' → Q r w'

theorem EndsAs.ledger (h : EndsAs w id e legs Q) (hl : l.accounts = w.ledger.accounts) :
    EndsAs { w with ledger := l } id e legs Q := by
  have hfit : BalancesFit { w with ledger := l } legs ↔ BalancesFit w legs := by
    unfold BalancesFit Token.Fits
    rw [← hl]
  exact ⟨fun hlen hf => h.recorded hlen (hfit.mp hf), fun hn => h.lost fun hh =>
    hn ⟨hh.1, hfit.mpr hh.2⟩⟩

section

variable {e : TransferEvent} {Q : Except Err Unit → World → Prop}
  (h : Reclaimed w id seq e legs) (hQ : EndsAs w id e legs Q)
include h hQ

/-- The outcome of a step of one leg, submitted and answered. -/
theorem record_again (hone : legs.length = 1) (hl : l.accounts = w.ledger.accounts) :
    Yields (World.ExecBy rule) (do
      if ← stillHoldsClaim id seq then recordOutcome id e legs (fuel + 1) else pure ()) Q
      { w with ledger := l } :=
  (h.ledger hl).record (fun hfit _ hw => (hQ.ledger hl).recorded hone hfit _ hw.getLast?)
    fun hun err => (hQ.ledger hl).lost (fun hh => hun hh.2) _ _ (Or.inl ⟨err, rfl⟩)

/-- A refusal that fails the Transfer. -/
theorem compensate_again {reason : Text} (hmany : 2 ≤ legs.length)
    (ht : .transferFailed ∈ transitions (currentState (eventsOf (w.transfer id)))) :
    Returns (World.ExecBy rule) (compensate (fuel + 1) id seq reason)
      (fun _ w' => Q (.ok ()) w') { w with ledger := l } := by
  have hholds : Holds { w with ledger := l } id seq := h.holds
  refine (compensate_alone h.named hholds ht).mono fun _ w' hw => ?_
  exact hQ.lost (fun hh => by omega) _ _ (Or.inr ⟨reason, hw.getLast?⟩)

variable (hrule : BreaksChains rule) (hne : legs ≠ [])
include hrule hne

theorem stageClaimed_again (he : e = .transferStaged id)
    (ht : .transferFailed ∈ transitions (currentState (eventsOf (w.transfer id))))
    (hlanded : ∀ t ∈ window (reservations legs) 0, Present w.ledger t) :
    Yields (World.ExecBy rule) (stageClaimed (fuel + 1) id seq legs) Q w := by
  subst he
  refine Yields.seq (stillHoldsClaim_alone h.holds) fun r w1 hr => ?_
  obtain ⟨rfl, hw⟩ := hr
  rw [hw]
  refine Yields.bind (submit_again hrule (by simpa [reservations] using hne) hlanded ?_ ?_)
  · intro hone l hl
    exact record_again h hQ (by simpa [reservations] using hone) hl
  · intro hmany refusal l _
    refine Ends.mono (compensate_again h hQ (by simpa [reservations] using hmany) ht) ?_
    intro r w2 hr
    obtain ⟨a, rfl, hq⟩ := hr
    exact hq

/-- `moveMoney` of a settlement in one batch. -/
theorem settle_again {batch : List LedgerTransfer} {R : Except Err Bool → World → Prop}
    (hlen : batch.length = legs.length)
    (ht : .transferFailed ∈ transitions (currentState (eventsOf (w.transfer id))))
    (hlanded : ∀ t ∈ window batch 0, Present w.ledger t)
    (hone : legs.length = 1 → ∀ l, l.accounts = w.ledger.accounts →
      R (.ok false) { w with ledger := l })
    (hmany : ∀ w', Q (.ok ()) w' → R (.ok true) w') :
    Yields (World.ExecBy rule) (settle (fuel + 1) id seq batch) R w := by
  have hb : batch ≠ [] := by
    rintro rfl
    exact hne (List.length_eq_zero_iff.mp hlen.symm)
  refine Yields.bind (submit_again hrule hb hlanded ?_ ?_)
  · intro h1 l hl
    exact hone (hlen ▸ h1) l hl
  · intro h2 refusal l hzero
    rw [if_neg (by omega)]
    refine Ends.mono (compensate_again h hQ (hlen ▸ h2) ht) fun r w2 hr => ?_
    obtain ⟨a, rfl, hq⟩ := hr
    exact hmany w2 hq

theorem commitClaimed_again {posting : Bool}
    (he : e = .transferCommitted id (buildDestinations legs))
    (ht : .transferFailed ∈ transitions (currentState (eventsOf (w.transfer id))))
    (hlanded : ∀ t ∈ window (if posting then posts legs
      else if legs.length ≤ batchMax then movements legs else reservations legs) 0,
      Present w.ledger t) :
    Yields (World.ExecBy rule) (commitClaimed (fuel + 1) id seq legs posting) Q w := by
  subst he
  refine Yields.seq (stillHoldsClaim_alone h.holds) fun r w1 hr => ?_
  obtain ⟨rfl, hw⟩ := hr
  rw [hw]
  refine Yields.bind ?_
  cases posting with
  | true =>
    exact settle_again h hQ hrule hne (by simp [posts]) ht hlanded
      (fun hone l hl => record_again h hQ hone hl) fun w2 hq => hq
  | false =>
    simp only [Bool.false_eq_true, if_false] at hlanded
    unfold moveMoney
    simp only [Bool.false_eq_true, if_false]
    by_cases hwide : legs.length ≤ batchMax
    · rw [if_pos hwide] at hlanded ⊢
      exact settle_again h hQ hrule hne (by simp [movements]) ht hlanded
        (fun hone l hl => record_again h hQ hone hl) fun w2 hq => hq
    · rw [if_neg hwide] at hlanded ⊢
      -- more legs than one chain holds are reserved first, and that is refused
      refine Yields.bind (submit_again hrule (by simpa [reservations] using hne) hlanded ?_ ?_)
      · intro hone
        exact absurd hone (by simp [reservations, batchMax] at hwide ⊢; omega)
      · intro hmany refusal l _
        refine Ends.mono (compensate_again h hQ (by simpa [reservations] using hmany) ht) ?_
        intro r w2 hr
        obtain ⟨a, rfl, hq⟩ := hr
        exact hq

theorem cancelClaimed_again {reason : Text} (he : e = .transferCancelled id reason)
    (hlanded : ∀ t ∈ window (voids legs) 0, Present w.ledger t) :
    Yields (World.ExecBy rule) (do
      if ← stillHoldsClaim id seq then
        if ← submitBatch (fuel + 1) (voids legs) (fun r => throw (.twirp .internal
            ([.lit "transfer ", .id id, .lit ": void rejected: "] ++ r.reason))) then
          if ← stillHoldsClaim id seq then
            recordOutcome id (.transferCancelled id reason) legs (fuel + 1)
          else pure ()
        else pure ()
      else pure ()) Q w := by
  subst he
  refine Yields.seq (stillHoldsClaim_alone h.holds) fun r w1 hr => ?_
  obtain ⟨rfl, hw⟩ := hr
  rw [hw]
  refine Yields.bind (submit_again hrule (by simpa [voids] using hne) hlanded ?_ ?_)
  · intro hone l hl
    exact record_again h hQ (by simpa [voids] using hone) hl
  · intro hmany refusal l _
    -- a refused void is an error, and nothing is recorded
    have hlen : legs.length ≠ 1 := by
      rw [voids, List.length_map] at hmany
      omega
    exact Yields.throw (hQ.lost (fun hh => hlen hh.1) _ _ (Or.inl ⟨_, rfl⟩))

end

/-- The claim of a crashed driver is taken over. -/
theorem Crashed.reclaim (h : Crashed step w id legs) (hfuel : patience w id < fuel) :
    Returns (World.ExecBy rule)
      (claimForDispatch id (currentState (eventsOf (w.transfer id))) (step.marker id) (fuel + 1))
      (fun r w' => r = some ((w.transfer id).length + 1) ∧
        Wrote w id [step.marker id] [] w') w := by
  refine claimForDispatch_alone h.named hfuel rfl fun row hrow => ?_
  obtain ⟨row', hrow', hty⟩ := h.claimed
  obtain rfl := Option.some.inj (hrow'.symm.trans hrow)
  exact hty

theorem Dispatched.marker_isClaim (step : Dispatched) (id : Id) :
    isClaimMarkerType (step.marker id).eventType = true := by
  cases step <;> rfl

theorem Dispatched.outcome_allowed {s : State} (h : step.starts s = true) (id : Id)
    (legs : List TransferLeg) : (step.outcome id legs).eventType ∈ transitions s := by
  cases step <;> cases s <;> simp [starts] at h <;>
    simp [outcome, transitions, TransferEvent.eventType]

theorem Crashed.reclaimed (h : Crashed step w id legs) (hw : Wrote w id [step.marker id] [] w') :
    Reclaimed w' id ((w.transfer id).length + 1) (step.outcome id legs) legs where
  named := h.named
  holds := hw.holds (step.marker_isClaim id)
  allowed := by
    rw [hw.state_of_claim (step.marker_isClaim id)]
    exact Dispatched.outcome_allowed h.state id legs
  kept tok htok := by
    obtain ⟨hnamed, hstream, hacc⟩ := h.kept tok htok
    refine ⟨hnamed, ?_, by rwa [hw.ledger]⟩
    rwa [hw.token tok List.not_mem_nil]

/-- **How a step taken again ends.** -/
theorem Crashed.retry (hrule : BreaksChains rule) (h : Crashed step w id legs)
    (hfuel : patience w id < fuel) (hQ : EndsAs w id (step.outcome id legs) legs Q) :
    Yields (World.ExecBy rule) (step.run (fuel + 1) id) Q w := by
  have hafter {w1 : World} (hw : Wrote w id [step.marker id] [] w1) :
      EndsAs w1 id (step.outcome id legs) legs Q := by
    have hfit : BalancesFit w1 legs ↔ BalancesFit w legs := by
      unfold BalancesFit Token.Fits
      rw [hw.ledger]
    exact ⟨fun hone hf => hQ.recorded hone (hfit.mp hf), fun hn => hQ.lost fun hh =>
      hn ⟨hh.1, hfit.mpr hh.2⟩⟩
  have hlanded {w1 : World} (hw : Wrote w id [step.marker id] [] w1) :
      ∀ t ∈ window (step.batch (currentState (eventsOf (w.transfer id))) legs) 0,
        Present w1.ledger t := by
    rw [hw.ledger]
    exact h.landed
  have hstate := h.state
  cases step with
  | stage =>
    have hs : currentState (eventsOf (w.transfer id)) = .prepared := by
      simpa [Dispatched.starts] using hstate
    refine Yields.load_transfer (Yields.check h.prepared ?_)
    rw [← hs]
    refine Yields.seq (h.reclaim hfuel) fun r w1 hr => ?_
    obtain ⟨rfl, hw⟩ := hr
    refine stageClaimed_again (h.reclaimed hw) (hafter hw) hrule h.nonempty rfl ?_ (hlanded hw)
    rw [hw.state_of_claim rfl, hs]
    decide
  | commit =>
    have hs : currentState (eventsOf (w.transfer id)) = .prepared ∨
        currentState (eventsOf (w.transfer id)) = .pending := by
      simpa [Dispatched.starts] using hstate
    refine Yields.load_transfer (Yields.check h.prepared ?_)
    rw [if_neg (by rcases hs with hs | hs <;> simp [hs])]
    refine Yields.seq (h.reclaim hfuel) fun r w1 hr => ?_
    obtain ⟨rfl, hw⟩ := hr
    refine commitClaimed_again (h.reclaimed hw) (hafter hw) hrule h.nonempty rfl ?_ (hlanded hw)
    rw [hw.state_of_claim rfl]
    rcases hs with hs | hs <;> rw [hs] <;> decide
  | cancelStaged reason =>
    have hs : currentState (eventsOf (w.transfer id)) = .staged ∨
        currentState (eventsOf (w.transfer id)) = .pending := by
      simpa [Dispatched.starts] using hstate
    refine Yields.load_transfer (Yields.check h.prepared ?_)
    rw [if_neg (by rcases hs with hs | hs <;> simp [hs])]
    refine Yields.seq (h.reclaim hfuel) fun r w1 hr => ?_
    obtain ⟨rfl, hw⟩ := hr
    exact cancelClaimed_again (h.reclaimed hw) (hafter hw) hrule h.nonempty rfl (hlanded hw)

theorem Lost.not_recorded {r : Except Err Unit} (h : Lost id r w') :
    ¬ (r = .ok () ∧ (eventsOf (w'.transfer id)).getLast? = some (step.outcome id legs)) := by
  rintro ⟨rfl, hlast⟩
  rcases h with ⟨e, he⟩ | ⟨reason, hfailed⟩
  · cases he
  · rw [hlast] at hfailed
    cases step <;> cases hfailed

/-- **A retry records what the ledger holds for one leg, and for no more**: under a
ledger that breaks its chains, a step that crashed once its first chain was applied is
recorded by the driver that takes it again if and only if it has one leg, and the
balances to be recorded with it fit. -/
theorem retry_records_iff (hrule : BreaksChains rule) {step : Dispatched}
    (h : Crashed step w id legs) :
    Records rule step w id legs ↔ legs.length = 1 ∧ BalancesFit w legs := by
  constructor
  · rintro ⟨n, hn⟩
    by_contra hnot
    -- with enough fuel it would both record the outcome and lose it
    have hlost : Yields (World.ExecBy rule) (step.run (max n (patience w id + 1) + 1) id)
        (fun r w' => ¬ (r = .ok () ∧
          (eventsOf (w'.transfer id)).getLast? = some (step.outcome id legs))) w :=
      h.retry hrule (by omega) ⟨fun hone hfit => absurd ⟨hone, hfit⟩ hnot,
        fun _ r w' hl => hl.not_recorded⟩
    obtain ⟨r, w', hrec, hnrec⟩ := (Ends.and (hn _ (by omega)) hlost).result
    exact hnrec hrec
  · rintro ⟨hone, hfit⟩
    refine ⟨patience w id + 2, fun fuel hfuel => ?_⟩
    obtain ⟨f, rfl⟩ : ∃ f, fuel = f + 1 := ⟨fuel - 1, by omega⟩
    exact h.retry hrule (by omega) ⟨fun _ _ w' hlast => ⟨rfl, hlast⟩,
      fun hnot => absurd ⟨hone, hfit⟩ hnot⟩

/-! ### Runs over such a ledger -/

/-- The state of a system whose ledger follows the rule. -/
structure Under (rule : LedgerRule) where
  world : World

instance : Preorder (Under rule) where
  le _ _ := True
  le_refl _ := trivial
  le_trans _ _ _ _ _ := trivial

/-- The operation's answer and the state after it. -/
def performBy (rule : LedgerRule) (w : World) : (o : Op) → Resp o × World
  | .createTransfers ts => ((rule w.ledger ts).1, { w with ledger := (rule w.ledger ts).2 })
  | o => w.perform o

theorem execBy_performBy (rule : LedgerRule) (w : World) (o : Op) :
    w.ExecBy rule o (performBy rule w o).1 (performBy rule w o).2 := by
  cases o with
  | createTransfers ts => rfl
  | wait ms => exact w.exec_perform (.wait ms)
  | rangeMap keys => exact w.exec_perform (.rangeMap keys)
  | _ => rfl

instance : Atomic (Under rule) Op Resp where
  exec s o r s' := s.world.ExecBy rule o r s'.world
  le_of_exec _ := trivial
  run s o := ((performBy rule s.world o).1, ⟨(performBy rule s.world o).2⟩)
  run_exec s o := execBy_performBy rule s.world o

/-- Every run there is over a ledger that follows the rule. -/
abbrev runUnder (rule : LedgerRule) : Scheduler (Under rule) Driver Op Resp (Except Err Reply) where
  start d p := ∃ fuel, p = (d.service fuel).run
  guard _ _ _ := True
  env s s' := s.world.Tick s'.world

/-- These drivers, each started once the one before it has ended. -/
def inTurnUnder (rule : LedgerRule) (n : Nat) (ds : List Driver) : List (Move (runUnder rule)) :=
  (ds.zipIdx n).flatMap fun d => [.spawn d.1 (d.1.service 20).run ⟨20, rfl⟩, .run d.2 1000]

/-- The state a schedule leads to. -/
def playedBy (moves : List (Move (runUnder rule))) :
    Pool (Under rule) Driver Op Resp (Except Err Reply) := play moves ⟨⟨.init⟩, []⟩

theorem playedBy_reachable (moves : List (Move (runUnder rule))) :
    Pool.Reachable (runUnder rule) ⟨.init⟩ (playedBy moves) :=
  play_steps moves _

/-- 100 are brought in to Wallet `uuid 1` twice, and a Transfer of `amount` out of it is
resumed; its driver stops when the ledger has applied what it asked for. -/
def crashed (amount : UInt64) : List (Move (runUnder chainBreaking)) :=
  inTurnUnder chainBreaking 0 (deposit ++
    [.startInitializingTransaction (.uuid 6)
      (depositSpec (.uuid 7) (.uuid 0) (.uuid 1) ⟨100, "USD"⟩),
    .resumeTransaction (.uuid 6), .resumeTransfer (.uuid 7), .resumeTransaction (.uuid 6),
    .openWallet ⟨.uuid 4, .uuid 100, "payee", .none⟩,
    .requestTransfer ⟨.uuid 5, .uuid 1, .uuid 4, some ⟨amount, "USD"⟩, false, false, Id.empty⟩]) ++
  [.spawn (.resumeTransfer (.uuid 5)) _ ⟨20, rfl⟩, .run 12 13]

/-- The leg of a Transfer of 40. -/
abbrev oneLeg : List TransferLeg :=
  [⟨.destinationToken (.uuid 3), .destinationToken (.uuid 5), ⟨40, "USD"⟩, .v7 2⟩]

theorem ok_of_toOption {ε α : Type} {x : Except ε α} {a : α} (h : x.toOption = some a) :
    x = .ok a := by
  cases x with
  | ok b => exact congrArg _ (Option.some.inj h)
  | error e => cases h

theorem retry_records_one :
    let w := (playedBy (crashed 40)).state.world
    Crashed .commit w (.uuid 5) oneLeg ∧ Records chainBreaking .commit w (.uuid 5) oneLeg := by
  intro w
  have hkept (tok : Id) (hne : tok ≠ Id.empty)
      (hs : (Token.tokenStreamOf tok (w.token tok)).toOption.isSome = true)
      (ha : (w.ledger.accounts tok).isSome = true) : Token.Kept w tok := by
    obtain ⟨s, hs⟩ := Option.isSome_iff_exists.mp hs
    exact ⟨hne, ⟨s, ok_of_toOption hs⟩, ha⟩
  have hcrashed : Crashed .commit w (.uuid 5) oneLeg := by
    refine ⟨by decide, ok_of_toOption (by decide +kernel), by simp, ?_, by decide +kernel, ?_,
      by decide +kernel⟩
    · intro tok htok
      simp only [legTokens, List.flatMap_cons, List.flatMap_nil, List.append_nil, List.mem_cons,
        List.not_mem_nil, or_false] at htok
      rcases htok with rfl | rfl
      · exact hkept _ (by decide) (by decide +kernel) (by decide +kernel)
      · exact hkept _ (by decide) (by decide +kernel) (by decide +kernel)
    · have hlive : (liveMarker (w.transfer (.uuid 5))).map (·.event.eventType) =
          some .transferCommittingStarted := by decide +kernel
      exact Option.map_eq_some_iff.mp hlive
  refine ⟨hcrashed, (retry_records_iff chainBreaking_breaks hcrashed).mpr ⟨rfl, ?_⟩⟩
  unfold BalancesFit Token.Fits
  decide +kernel

/-- The legs of a Transfer of 150. -/
abbrev twoLegs : List TransferLeg :=
  [⟨.destinationToken (.uuid 3), .destinationToken (.uuid 5), ⟨100, "USD"⟩, .v7 2⟩,
    ⟨.destinationToken (.uuid 7), .destinationToken (.uuid 5), ⟨50, "USD"⟩, .v7 3⟩]

/-- The Transfer of 150 is resumed again once the claim left behind is stale. -/
def crashedThenRetried : List (Move (runUnder chainBreaking)) :=
  crashed 150 ++
    [.env (fun s => ⟨{ s.world with clock := s.world.clock + claimStaleAfter }⟩) fun _ => ⟨_, rfl⟩,
      .spawn (.resumeTransfer (.uuid 5)) _ ⟨20, rfl⟩, .run 13 1000]

/-- **Money that moved is recorded as failed**: both legs are applied, and the retry
records `TransferFailed`. -/
theorem posted_then_failed :
    let w := (playedBy crashedThenRetried).state.world
    Pool.Reachable (runUnder chainBreaking) ⟨.init⟩ (playedBy crashedThenRetried) ∧
      BreaksChains chainBreaking ∧
      .transferPrepared (.uuid 5) twoLegs ∈ eventsOf (w.transfer (.uuid 5)) ∧
      (∀ leg ∈ twoLegs, Present w.ledger (movement leg)) ∧
      currentState (eventsOf (w.transfer (.uuid 5))) = .failed := by
  refine ⟨playedBy_reachable _, chainBreaking_breaks, ?_, ?_, ?_⟩ <;> decide +kernel

end MoneyFlow.Transfer
