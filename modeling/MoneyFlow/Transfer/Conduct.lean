import MoneyFlow.Token.Conduct
import MoneyFlow.Transfer.Footprint

/-!
# MoneyFlow.Transfer.Conduct

The Transfer saga keeps the protocol: one lemma for each function of
`MoneyFlow.Transfer.Saga`, stating what its caller must know and what it may
conclude from the answer.

The claims play no part here. Whether a driver still holds its claim decides
whether it goes on, not whether going on is safe: what it submits and what it
records is legal by the evidence it has gathered, which no other driver can take
away.
-/

namespace MoneyFlow

open Concurrent Service

variable {fuel seq c : Nat} {legs : List TransferLeg} {reason : Text} {e : TransferEvent}
  {f : TransferLeg → LedgerTransfer}

variable {R : Prop} {A : Op → World → Prop} {w w' : World} {id : Id}

/-! ### Checks on Transactions -/

namespace Transfer

section

variable (hA : Assumes R A)
include hA

/-! ### Appends -/

/-- An append that lands leaves what was loaded, and the event after it. -/
theorem tryAppend_conducts {rows : List (Row TransferEvent)} {P : Prop}
    (hrows : rows <+: w.transfer id)
    (h : ∀ w1, w ≤ w1 → Lands A [⟨.transfer, id, rows.length, [e]⟩] w1 → Inv R w1 →
      w1.transfer id = rows → TransferAppend w1 [⟨.transfer, id, rows.length, [e]⟩] id [e] ∧ P) :
    Conducts R A (tryAppend id rows.length e)
      (fun landed w' => landed = true → P ∧ eventsOf rows ++ [e] <+: eventsOf (w'.transfer id))
      w := by
  refine Conducts.append_at hA hrows (by simp) (fun w1 hle ha hinv heq => ?_) ?_
  · obtain ⟨happ, hP⟩ := h w1 hle ha hinv heq
    refine ⟨happ, fun w2 _ hw2 => Ensures.pure fun w3 hle3 _ => ⟨hP, ?_⟩⟩
    have hgrow := World.transfer_grow hle3 id
    rw [show w2.transfer id = _ from hw2, eventsOf_append, eventsOf_rowsFrom] at hgrow
    exact hgrow
  · intro err w1 _
    cases err with
    | concurrencyConflict => exact Ensures.pure fun _ _ hfalse => by simp at hfalse
    | _ => exact Ensures.throw

/-- Recording an outcome the world bears out; once it returns, it is recorded. -/
theorem recordOutcome_recorded (fuel : Nat) (hb : Henceforth R (fun w1 => Backed w1 id e) w) :
    Conducts R A (recordOutcome id e legs fuel)
      (fun _ w' => Recorded e.eventType (eventsOf (w'.transfer id))) w := by
  refine recordOutcome_records contract_reads (fun w1 hle htrans => ?_) fuel
  refine (Token.contract_observing.balanceWrites _ w1).mono
    fun ws w2 hle2 hws w3 hle3 ha st hst x hx _ => ?_
  rcases List.mem_append.mp hx with hx | hx
  · exact (hws x hx).legal hle3
  · obtain rfl := List.mem_singleton.mp hx
    -- the outcome lands where the transition was checked
    obtain ⟨hlen, -⟩ := appendAtomic_landed hst
      (List.mem_append_right _ (List.mem_singleton.mpr rfl)) (by simp)
    have heq : w3.store .transfer id = w1.store .transfer id :=
      (((hle2.trans hle3).stream .transfer id).eq_of_length hlen.symm).symm
    refine TransferAppend.outcome ?_ (hb w3 (hle.trans (hle2.trans hle3)) (hA _ _ ha))
    rw [show w3.transfer id = _ from heq]
    exact htrans

theorem recordOutcome_conducts (fuel : Nat) (hb : Henceforth R (fun w1 => Backed w1 id e) w) :
    Conducts R A (recordOutcome id e legs fuel) (fun _ _ => True) w :=
  (recordOutcome_recorded hA fuel hb).mono fun _ _ _ _ => trivial

/-! ### Claims -/

omit hA in
/-- What is handed back unclaimed is a reading in the state asked for, under no
claim but one of the kind asked for. -/
theorem awaitUnclaimed_conducts {pre : State} {next : TransferEvent} (fuel : Nat) :
    Conducts R A (awaitUnclaimed id pre next fuel)
      (fun r w' => ∀ rows, r = some rows → rows <+: w'.transfer id ∧
        currentState (eventsOf rows) = pre ∧
        ∀ live, liveMarker rows = some live → live.event.eventType = next.eventType) w := by
  refine awaitUnclaimed_returns (fun o ho w _ => ?_) fuel
  cases o <;> trivial

/-- Taking a claim. -/
theorem claimForDispatch_conducts {pre : State} {marker : TransferEvent}
    (hclaim : isClaimMarkerType marker.eventType = true) (hpre : pre.claimable = true) :
    ∀ (fuel : Nat) {w : World},
      (pre = .prepared → ∃ stage, w.stage id = .ok stage ∧ marker = nextMarker id stage) →
      Conducts R A (claimForDispatch id pre marker fuel) (fun _ _ => True) w
  | 0, _, _ => Ensures.halted
  | fuel + 1, w, hm => by
    have hm' {w1 : World} (hle : w ≤ w1) (hp : pre = .prepared) :
        ∃ stage, w1.stage id = .ok stage ∧ marker = nextMarker id stage := by
      obtain ⟨stage, hstage, hmark⟩ := hm hp
      exact ⟨stage, World.stage_grow hle hstage, hmark⟩
    refine (awaitUnclaimed_conducts fuel).seq_some (fun _ => Obeys.pure) fun rows w1 hle hr => ?_
    obtain ⟨hrows, hstate, -⟩ := hr rows rfl
    refine Conducts.append_at hA hrows (by simp) (fun w2 hle2 _ _ heq => ⟨?_, ?_⟩) ?_
    · have hst : currentState (eventsOf (w2.transfer id)) = pre := by
        rw [show w2.transfer id = rows from heq]
        exact hstate
      refine TransferAppend.claim (by rw [hst]; exact hpre) hclaim fun hp => ?_
      exact hm' (hle.trans hle2) (hst.symm.trans hp)
    · exact fun _ _ _ => Obeys.pure
    · intro err w2 hle2
      cases err with
      | concurrencyConflict =>
        exact claimForDispatch_conducts hclaim hpre fuel (hm' (hle.trans hle2))
      | _ => exact Ensures.throw

/-! ### Ledger requests -/

omit hA in
theorem firstRefusal_none : ∀ {i : Nat} {results : List TransferResultCode},
    firstRefusal c i results = none → results.all TransferResultCode.accepted = true
  | _, [], _ => rfl
  | i, r :: rest, h => by
    unfold firstRefusal at h
    split at h
    · rename_i hr
      simp [hr, firstRefusal_none h]
    · simp at h

omit hA in
theorem firstRefusal_some {refusal : LedgerRefusal} :
    ∀ {i : Nat} {results : List TransferResultCode}, firstRefusal c i results = some refusal →
      refusal.chainsApplied = c ∧ results.all TransferResultCode.accepted = false
  | _, [], h => by simp [firstRefusal] at h
  | i, r :: rest, h => by
    unfold firstRefusal at h
    split at h
    · obtain ⟨hc, hall⟩ := firstRefusal_some h
      exact ⟨hc, by simp [hall]⟩
    · rename_i hr
      cases h
      exact ⟨rfl, by simp [hr]⟩

/-- A chain the ledger accepts is applied; one it refuses leaves one of its ids
refused. -/
theorem submitChain_conducts {chain : List LedgerTransfer}
    (h : ∀ w1, w ≤ w1 → Inv R w1 → LegalRequest w1 chain) : Conducts R A (submitChain chain c)
      (fun r w' => (r = none → ∀ t ∈ chain, w'.ledger.Applied t) ∧
        ∀ refusal, r = some refusal → refusal.chainsApplied = c ∧
          ∃ t ∈ chain, t.id ∈ w'.ledger.refused) w := by
  refine Conducts.createTransfers hA fun w1 hle hinv => ⟨h w1 hle hinv, ?_⟩
  refine Ensures.pure fun w2 hle2 => ⟨fun hnone t ht => ?_, fun refusal hsome => ?_⟩
  · exact (Ledger.createTransferRun_applied (firstRefusal_none hnone) t ht).grow hle2.ledger
  · obtain ⟨hc, hall⟩ := firstRefusal_some hsome
    obtain ⟨t, ht, href⟩ := hinv.ledger.refused hinv.transfer (h w1 hle hinv) hall
    exact ⟨hc, t, ht, hle2.ledger.refused.subset href⟩

omit hA in
theorem recordTouched_conducts (fuel : Nat) (batch : List LedgerTransfer) :
    Conducts R A (recordTouched fuel batch) (fun _ _ => True) w :=
  Token.contract_observing.recordBalances fuel _ w

/-- From `w` on, a chain of the batch may be submitted once the first is applied. -/
def LegalChains (R : Prop) (legs : List TransferLeg) (f : TransferLeg → LedgerTransfer)
    (w : World) : Prop :=
  ∀ w1 c, w ≤ w1 → Inv R w1 → window legs c ≠ [] →
    (c ≠ 0 → ∀ leg ∈ window legs 0, w1.ledger.Applied (f leg)) →
    LegalRequest w1 (link ((window legs c).map f))

/-- From `w` on, `onReject` may be called for a chain of the batch that was refused. -/
def MayReject (R : Prop) (A : Op → World → Prop) (legs : List TransferLeg)
    (f : TransferLeg → LedgerTransfer) (onReject : LedgerRefusal → Service Unit) (w : World) :
    Prop :=
  ∀ w1 refusal leg, w ≤ w1 → leg ∈ window legs refusal.chainsApplied →
    (f leg).id ∈ w1.ledger.refused → Conducts R A (onReject refusal) (fun _ _ => True) w1

/-- Chain after chain: accepted, the whole batch is applied; refused, `onReject`
is called with the chain that was. -/
theorem submitChains_conducts {batch : List LedgerTransfer}
    {onReject : LedgerRefusal → Service Unit} (hlegal : LegalChains R legs f w)
    (hreject : MayReject R A legs f onReject w) :
    ∀ (rest : List (List LedgerTransfer)) (c : Nat) {w0 : World}, w ≤ w0 →
      (chains (legs.map f)).drop c = rest →
      (∀ c' < c, ∀ leg ∈ window legs c', w0.ledger.Applied (f leg)) →
      Conducts R A (submitChains fuel batch onReject c rest)
        (fun ok w' => ok = true → ∀ leg ∈ legs, w'.ledger.Applied (f leg)) w0
  | [], c, w0, _, hrest, hdone => by
    refine Ensures.pure fun w1 hle _ leg hleg => ?_
    obtain ⟨c', hc'⟩ := exists_mem_window hleg
    have hlt : c' < (chains (legs.map f)).length := by
      refine cut_length le_rfl ?_
      rw [window_map]
      exact List.ne_nil_of_mem (List.mem_map_of_mem hc')
    have hlen : (chains (legs.map f)).length ≤ c := List.drop_eq_nil_iff.mp hrest
    exact (hdone c' (by omega) leg hc').grow hle.ledger
  | chain :: rest, c, w0, hle0, hrest, hdone => by
    have hget : (chains (legs.map f))[c]? = some chain := by
      have h0 := congrArg List.head? hrest
      rwa [List.head?_drop, List.head?_cons] at h0
    have hnext : (chains (legs.map f)).drop (c + 1) = rest := by
      rw [← List.drop_drop, hrest]
      rfl
    obtain ⟨hchain, hne⟩ := chains_get hget
    rw [window_map] at hchain hne
    refine (submitChain_conducts hA fun w1 hle1 hinv => ?_).seq fun r w1 hle1 hr => ?_
    · rw [hchain]
      refine hlegal w1 c (hle0.trans hle1) hinv (by simpa using hne) fun hc leg hleg => ?_
      exact (hdone 0 (Nat.pos_of_ne_zero hc) leg hleg).grow hle1.ledger
    · cases r with
      | none =>
        refine submitChains_conducts hlegal hreject rest (c + 1) (hle0.trans hle1) hnext ?_
        intro c' hc' leg hleg
        rcases Nat.lt_succ_iff_lt_or_eq.mp hc' with hlt | rfl
        · exact (hdone c' hlt leg hleg).grow hle1.ledger
        · have happ := hr.1 rfl
          rw [hchain] at happ
          exact applied_of_link happ _ (List.mem_map_of_mem hleg)
      | some refusal =>
        obtain ⟨hc, t, ht, href⟩ := hr.2 refusal rfl
        rw [hchain] at ht
        obtain ⟨leg, hleg, hid, -⟩ := mem_link_map ht
        have hon {w2 : World} (hle2 : w1 ≤ w2) :
            Conducts R A (onReject refusal) (fun _ _ => True) w2 :=
          hreject w2 refusal leg (hle0.trans (hle1.trans hle2)) (hc ▸ hleg)
            (hle2.ledger.refused.subset (hid ▸ href))
        dsimp only
        split
        · refine (recordTouched_conducts fuel _).seq fun _ w2 hle2 _ => ?_
          exact (hon hle2).seq fun _ _ _ _ => Ensures.pure fun _ _ hfalse => by simp at hfalse
        · exact (hon le_rfl).seq fun _ _ _ _ => Ensures.pure fun _ _ hfalse => by simp at hfalse

theorem submitBatch_conducts {onReject : LedgerRefusal → Service Unit}
    (hlegal : LegalChains R legs f w) (hreject : MayReject R A legs f onReject w) :
    Conducts R A (submitBatch fuel (legs.map f) onReject)
      (fun ok w' => ok = true → ∀ leg ∈ legs, w'.ledger.Applied (f leg)) w :=
  submitChains_conducts hA hlegal hreject _ 0 le_rfl rfl fun _ hc => absurd hc (Nat.not_lt_zero _)

/-- Failing a Transfer the ledger has doomed. -/
theorem compensate_conducts (hlegs : w.legs id = .ok legs) (hd : Doomed w.ledger legs) :
    Conducts R A (compensate fuel id seq reason) (fun _ _ => True) w := by
  refine (stillHoldsClaim_obeys contract_reads seq _).seq_true (fun _ => Obeys.pure) fun w1 hle _ =>
    ?_
  refine recordOutcome_conducts hA fuel fun w2 hle2 _ => Or.inl ⟨legs, ?_, ?_⟩
  · exact World.legs_grow (hle.trans hle2) hlegs
  · exact hd.grow (hle.trans hle2).ledger

/-! ### Stage and commit -/

/-- Reserving every leg of a Transfer that stages, or is too wide to move at
once. -/
theorem reserve_conducts {what : Text → Text} (hlegs : w.legs id = .ok legs)
    (hwide : w.stage id = .ok true ∨ batchMax < legs.length) :
    Conducts R A (submitBatch fuel (reservations legs) fun r =>
        compensate fuel id seq (what r.reason))
      (fun ok w' => ok = true → Reserved w'.ledger legs) w := by
  refine submitBatch_conducts hA (fun w1 c hle _ hne _ => ?_) fun w1 r leg hle hleg href => ?_
  · exact .reserve (World.legs_grow hle hlegs) (hwide.imp_left (World.stage_grow hle)) hne
  · exact compensate_conducts hA (World.legs_grow hle hlegs)
      (Or.inl ⟨leg, mem_of_mem_window hleg, href⟩)

theorem stageClaimed_conducts (hlegs : w.legs id = .ok legs) (hstage : w.stage id = .ok true) :
    Conducts R A (stageClaimed fuel id seq legs) (fun _ _ => True) w := by
  refine (stillHoldsClaim_obeys contract_reads seq _).seq_true (fun _ => Obeys.pure) fun w1 hle _ =>
    ?_
  refine (reserve_conducts hA (World.legs_grow hle hlegs)
    (Or.inl (World.stage_grow hle hstage))).seq_true (fun _ => Obeys.pure) fun w2 hle2 hres => ?_
  refine (stillHoldsClaim_obeys contract_reads seq _).seq_true (fun _ => Obeys.pure) fun w3 hle3 _
    => ?_
  refine recordOutcome_conducts hA fuel fun w4 hle4 _ => ⟨legs, ?_, ?_⟩
  · exact World.legs_grow (hle.trans (hle2.trans (hle3.trans hle4))) hlegs
  · exact (hres rfl).grow (hle3.trans hle4).ledger

/-- The batch that moves money. -/
theorem settle_conducts (hlegs : w.legs id = .ok legs)
    (hlegal : LegalChains R legs f w)
    (hdoom : ∀ w1 leg, w ≤ w1 → leg ∈ window legs 0 → (f leg).id ∈ w1.ledger.refused →
      Doomed w1.ledger legs) :
    Conducts R A (settle fuel id seq (legs.map f))
      (fun handled w' => handled = false → ∀ leg ∈ legs, w'.ledger.Applied (f leg)) w := by
  refine (submitBatch_conducts hA hlegal fun w1 r leg hle hleg href => ?_).seq fun ok w1 _ hok => ?_
  · split
    · exact Ensures.throw
    · rename_i hc
      obtain hzero : r.chainsApplied = 0 := by omega
      rw [hzero] at hleg
      exact compensate_conducts hA (World.legs_grow hle hlegs) (hdoom w1 leg hle hleg href)
  · refine Ensures.pure fun w2 hle2 hhandled leg hleg => ?_
    exact (hok (by simpa using hhandled) leg hleg).grow hle2.ledger

/-- Posting reserved legs. -/
theorem settle_posts_conducts (hlegs : w.legs id = .ok legs) (hres : Reserved w.ledger legs) :
    Conducts R A (settle fuel id seq (posts legs))
      (fun handled w' => handled = false → Posted w'.ledger legs) w := by
  refine settle_conducts hA hlegs (fun w1 c hle _ hne hfirst => ?_) fun w1 leg hle hleg href => ?_
  · exact .post (World.legs_grow hle hlegs) (hres.grow hle.ledger) hfirst hne
  · exact Or.inr ⟨hres.grow hle.ledger, leg, hleg, href⟩

/-- Moving legs that fit one chain. -/
theorem settle_movements_conducts (hlegs : w.legs id = .ok legs) (hstage : w.stage id = .ok false)
    (hlen : legs.length ≤ batchMax) : Conducts R A (settle fuel id seq (movements legs))
      (fun handled w' => handled = false → Moved w'.ledger legs) w := by
  refine settle_conducts hA hlegs (fun w1 c hle _ hne _ => ?_) fun w1 leg hle hleg href => ?_
  · -- a batch that fits one chain has no second one
    obtain rfl : c = 0 := by
      by_contra hc
      refine hne (List.take_eq_nil_iff.mpr (Or.inr (List.drop_eq_nil_iff.mpr ?_)))
      exact hlen.trans (Nat.le_mul_of_pos_left _ (Nat.pos_of_ne_zero hc))
    rw [window_zero_of_le hlen] at hne ⊢
    exact .move (World.legs_grow hle hlegs) (World.stage_grow hle hstage) hlen hne
  · exact Or.inl ⟨leg, mem_of_mem_window hleg, href⟩

theorem moveMoney_conducts {posting : Bool} (hlegs : w.legs id = .ok legs)
    (hpost : posting = true → Reserved w.ledger legs)
    (hmove : posting = false → w.stage id = .ok false) :
    Conducts R A (moveMoney fuel id seq legs posting)
      (fun handled w' => handled = false → Moved w'.ledger legs ∨ Posted w'.ledger legs) w := by
  unfold moveMoney
  split
  · rename_i hposting
    exact (settle_posts_conducts hA hlegs (hpost hposting)).mono fun _ _ _ h hh => Or.inr (h hh)
  · rename_i hposting
    split
    · rename_i hlen
      exact (settle_movements_conducts hA hlegs (hmove (by simpa using hposting)) hlen).mono
        fun _ _ _ h hh => Or.inl (h hh)
    · rename_i hlen
      refine (reserve_conducts hA hlegs (Or.inr (by omega))).seq_true
        (fun _ => Ensures.pure fun _ _ h => by simp at h) fun w1 hle hres => ?_
      refine (stillHoldsClaim_obeys contract_reads seq _).seq fun holds w2 hle2 _ => ?_
      cases holds with
      | false => exact Ensures.pure fun _ _ h => by simp at h
      | true =>
        refine (settle_posts_conducts hA (World.legs_grow (hle.trans hle2) hlegs)
          ((hres rfl).grow hle2.ledger)).mono fun _ _ _ h hh => Or.inr (h hh)

theorem commitClaimed_conducts {posting : Bool} (hlegs : w.legs id = .ok legs)
    (hpost : posting = true → Reserved w.ledger legs)
    (hmove : posting = false → w.stage id = .ok false) :
    Conducts R A (commitClaimed fuel id seq legs posting) (fun _ _ => True) w := by
  refine (stillHoldsClaim_obeys contract_reads seq _).seq_true (fun _ => Obeys.pure) fun w1 hle _ =>
    ?_
  refine (moveMoney_conducts hA (World.legs_grow hle hlegs)
    (fun h => (hpost h).grow hle.ledger) fun h => World.stage_grow hle (hmove h)).seq ?_
  intro handled w2 hle2 hdone
  cases handled with
  | true => exact Obeys.pure
  | false =>
    refine (stillHoldsClaim_obeys contract_reads seq _).seq_true (fun _ => Obeys.pure) fun w3 hle3 _
      => ?_
    refine recordOutcome_conducts hA fuel fun w4 hle4 _ => ⟨legs, ?_, ?_⟩
    · exact World.legs_grow (hle.trans (hle2.trans (hle3.trans hle4))) hlegs
    · have hle' := (hle3.trans hle4).ledger
      exact (hdone rfl).imp (fun h => h.grow hle') fun h => h.grow hle'

omit hA in
/-- A staged or pending Transfer has every leg reserved. -/
theorem reserved_of_state (hinv : Inv R w) (hlegs : w.legs id = .ok legs)
    (hs : currentState (eventsOf (w.transfer id)) = .staged ∨
      currentState (eventsOf (w.transfer id)) = .pending) :
    Reserved w.ledger legs := by
  obtain ⟨i, hm⟩ := (hinv.lifecycle id).staged_mem hs
  obtain ⟨legs', hlegs', hres⟩ := (hinv.transfer id).backed _ hm
  obtain rfl : legs = legs' := Except.ok.inj (hlegs.symm.trans hlegs')
  exact hres

theorem stage_conducts (hstage : w.stage id = .ok true) :
    Conducts R A (stage fuel id) (fun _ _ => True) w := by
  refine Conducts.load_transfer hA fun w1 hle _ => Conducts.check_bind fun legs hlegs => ?_
  have hstage1 := World.stage_grow hle hstage
  refine (claimForDispatch_conducts hA rfl rfl fuel fun _ => ⟨true, hstage1, rfl⟩).seq_some
    (fun _ => Obeys.pure) fun seq w2 hle2 _ => ?_
  exact stageClaimed_conducts hA (World.legs_grow hle2 hlegs) (World.stage_grow hle2 hstage1)

/-- A commit from Prepared is of a Transfer that does not stage. -/
theorem commit_conducts
    (h : ∀ w1, w ≤ w1 → Inv R w1 →  currentState (eventsOf (w1.transfer id)) = .prepared →
      w1.stage id = .ok false) :
    Conducts R A (commit fuel id) (fun _ _ => True) w := by
  refine Conducts.load_transfer hA fun w1 hle hinv => Conducts.check_bind fun legs hlegs => ?_
  dsimp only
  split
  · exact Obeys.pure
  · rename_i hpre
    have hstate : currentState (eventsOf (w1.transfer id)) = .prepared ∨
        currentState (eventsOf (w1.transfer id)) = .pending := by
      exact (not_and_or.mp hpre).imp not_not.mp not_not.mp
    refine (claimForDispatch_conducts hA rfl ?_ fuel fun hp => ?_).seq fun claimed w2 hle2 _ => ?_
    · rcases hstate with hs | hs <;> (rw [hs]; rfl)
    · exact ⟨false, h w1 hle hinv hp, rfl⟩
    · cases claimed with
      | none => exact Obeys.pure
      | some seq =>
        refine commitClaimed_conducts hA (World.legs_grow hle2 hlegs) (fun hp => ?_) fun hp => ?_
        · exact (reserved_of_state hinv hlegs (Or.inr (by simpa using hp))).grow hle2.ledger
        · rcases hstate with hs | hs
          · exact World.stage_grow hle2 (h w1 hle hinv hs)
          · simp [hs] at hp

theorem confirmStaged_conducts : Conducts R A (confirmStaged fuel id)
    (fun _ w' => Recorded .transferPending (eventsOf (w'.transfer id))) w :=
  recordOutcome_recorded hA fuel fun _ _ _ => trivial

/-! ### Cancel -/

theorem cancelStaged_conducts : Conducts R A (cancelStaged fuel id reason) (fun _ _ => True) w := by
  refine Conducts.load_transfer hA fun w1 hle hinv => Conducts.check_bind fun legs hlegs => ?_
  dsimp only
  split
  · exact Obeys.pure
  · rename_i hpre
    have hstate : currentState (eventsOf (w1.transfer id)) = .staged ∨
        currentState (eventsOf (w1.transfer id)) = .pending := by
      exact (not_and_or.mp hpre).imp not_not.mp not_not.mp
    have hres := reserved_of_state hinv hlegs hstate
    refine (claimForDispatch_conducts hA rfl ?_ fuel fun hp => ?_).seq fun claimed w2 hle2 _ => ?_
    · rcases hstate with hs | hs <;> (rw [hs]; rfl)
    · rcases hstate with hs | hs <;> exact absurd (hs.symm.trans hp) (by simp)
    · cases claimed with
      | none => exact Obeys.pure
      | some seq =>
        refine (stillHoldsClaim_obeys contract_reads seq _).seq_true (fun _ => Obeys.pure) fun w3
          hle3 _ => ?_
        have hle13 := hle2.trans hle3
        have hvoid : Conducts R A (submitBatch fuel (voids legs) fun r =>
              throw (.twirp .internal ([.lit "transfer ", .id id, .lit ": void rejected: "] ++
                r.reason)))
            (fun ok w' => ok = true → Voided w'.ledger legs) w3 := by
          refine submitBatch_conducts hA (fun w4 c hle4 _ hne _ => ?_)
            fun _ _ _ _ _ _ => Ensures.throw
          exact .void (World.legs_grow (hle13.trans hle4) hlegs)
            (hres.grow (hle13.trans hle4).ledger) hne
        refine hvoid.seq_true (fun _ => Obeys.pure) fun w4 hle4 hvoided => ?_
        refine (stillHoldsClaim_obeys contract_reads seq _).seq_true (fun _ => Obeys.pure) fun w5
          hle5 _ => ?_
        refine recordOutcome_conducts hA fuel fun w6 hle6 _ => ⟨legs, ?_, ?_⟩
        · exact World.legs_grow
            (hle13.trans (hle4.trans (hle5.trans hle6))) hlegs
        · exact (hvoided rfl).grow (hle5.trans hle6).ledger

omit hA in
theorem liveMarker_isClaim {rows : List (Row TransferEvent)} {live : Row TransferEvent}
    (h : liveMarker rows = some live) : isClaimMarkerType live.event.eventType = true := by
  induction rows using List.reverseRecOn with
  | nil => simp [liveMarker, liveMarkerFromEnd] at h
  | append_singleton rows row ih =>
    rw [liveMarker_snoc] at h
    split at h
    · rename_i hc
      cases h
      exact hc
    · split at h
      · simp at h
      · exact ih h

/-- A prepared Transfer is never unclaimed, so this never lands. -/
theorem cancelUnclaimed_conducts : ∀ (fuel : Nat) {w : World},
    Conducts R A (cancelUnclaimed id reason fuel) (fun _ _ => True) w
  | 0, _ => Ensures.halted
  | fuel + 1, w => by
    refine (awaitUnclaimed_conducts fuel).seq_some (fun _ => Obeys.pure) fun rows w1 hle hr => ?_
    obtain ⟨hrows, hstate, hlive⟩ := hr rows rfl
    refine (tryAppend_conducts hA (P := True) hrows fun w2 hle2 _ hinv heq => ?_).seq ?_
    · exfalso
      obtain ⟨row, stage, hrow, -, -⟩ :=
        (hinv.transfer id).claimed (by rw [heq]; exact hstate)
      have hclaim := liveMarker_isClaim hrow
      rw [heq] at hrow
      rw [hlive row hrow] at hclaim
      simp [isClaimMarkerType, TransferEvent.eventType] at hclaim
    · intro landed w2 _ _
      cases landed with
      | true => exact Obeys.pure
      | false => exact cancelUnclaimed_conducts fuel

omit hA in
/-- What is still at Accepted was never prepared. -/
theorem unprepared_of_accepted (hinv : Inv R w)
    (hs : currentState (eventsOf (w.transfer id)) = .accepted) : Unprepared w id := by
  intro legs hlegs
  obtain ⟨i, hm⟩ := preparedLegs_mem hlegs
  exact (hinv.lifecycle id).not_prepared (by rw [hs]; decide) i legs hm

theorem cancelPrepared_conducts :
    Conducts R A (cancelPrepared fuel id reason) (fun _ _ => True) w := by
  refine Conducts.load_transfer hA fun w1 _ _ => ?_
  split
  · exact Ensures.throw
  · split
    · rename_i hacc
      refine (tryAppend_conducts hA (P := True) List.prefix_rfl
        fun w2 _ _ hinv heq => ⟨?_, trivial⟩).seq fun _ _ _ _ => Obeys.pure
      have hacc2 : currentState (eventsOf (w2.transfer id)) = .accepted := by
        rw [heq]
        exact hacc
      exact .outcome (by rw [hacc2]; simp [transitions, TransferEvent.eventType])
        (unprepared_of_accepted hinv hacc2)
    · exact cancelUnclaimed_conducts hA fuel
    · exact Obeys.pure
    · exact Obeys.pure
    · exact Obeys.pure
    · exact Ensures.throw

end

end Transfer

end MoneyFlow
