import MoneyFlow.Plans
import MoneyFlow.Transfer.Outcomes

/-!
# MoneyFlow.Transfer.Claims

What claims are good for.

A driver takes a claim before it settles a reservation, and the claim says which
way: a reservation is posted under `TransferCommittingStarted` and released under
`CancellingStagedTransferStarted`. A claim is only ever taken over by the same
transition (`Claiming`), and what the ledger is asked for was claimed first
(`Licensed`). That is the contract `claims`, which every driver keeps
(`Driver.claims`).
-/

namespace MoneyFlow.Transfer

open Concurrent Service

variable {fuel seq : Nat}

variable {w w' : World} {id : Id} {legs : List TransferLeg}

/-! ### The contract -/

/-- The claim under which a transfer of this kind is submitted, if it settles a
reservation. -/
def claimOf : TransferKind → Option TransferEventType
  | .postPending => some .transferCommittingStarted
  | .voidPending => some .cancellingStagedTransferStarted
  | _ => none

/-- An event of this type is on the Transfer's stream. -/
def Marked (w : World) (id : Id) (ty : TransferEventType) : Prop :=
  ∃ e ∈ eventsOf (w.transfer id), e.eventType = ty

theorem Marked.grow {ty : TransferEventType} (h : Marked w id ty) (hle : w ≤ w') :
    Marked w' id ty := by
  obtain ⟨e, hm, he⟩ := h
  exact ⟨e, (World.transfer_grow hle id).subset hm, he⟩

/-- A settlement is of a leg whose Transfer was claimed for it. -/
def Licensed (w : World) (st : StoredTransfer) : Prop :=
  ∀ ty, claimOf st.kind = some ty → ∃ id legs, w.legs id = .ok legs ∧
    st.pendingID ∈ legs.map TransferLeg.ledgerTransferID ∧ Marked w id ty

theorem Licensed.grow {st : StoredTransfer} (h : Licensed w st) (hle : w ≤ w') :
    Licensed w' st := by
  intro ty hty
  obtain ⟨id, legs, hlegs, hp, hmark⟩ := h ty hty
  exact ⟨id, legs, World.legs_grow hle hlegs, hp, hmark.grow hle⟩

/-- A claim lands where there is none, or takes over one of its own kind; and only
a Transfer that was asked to stage is staged. -/
def Claiming (w : World) : StreamWrite → Prop
  | ⟨.transfer, id, seq, events⟩ => seq = (w.transfer id).length →
      (∀ e, events = [e] → isClaimMarkerType e.eventType = true →
        ∀ row, liveMarker (w.transfer id) = some row → row.event.eventType = e.eventType) ∧
      ∀ i, .transferStaged i ∈ events → w.stage id = .ok true
  | _ => True

/-- A prepared Transfer carries the claim its first step needs. -/
def FirstClaimed (w : World) : Prop :=
  ∀ id legs stage, w.legs id = .ok legs → w.stage id = .ok stage →
    Marked w id (nextMarker id stage).eventType

/-- What claims are taken over and what is settled is as it should be. -/
def claims : Contract World Op where
  assume _ w := FirstClaimed w
  ensure
    | .appendAtomic ws, w => ∀ x ∈ ws, Claiming w x
    | .createTransfers batch, w => ∀ t ∈ batch, Licensed w (.of t)
    | _, _ => True

/-- Writes that claim nothing and stage nothing. -/
def unclaiming : Scope where
  transfer _ events := (∀ e, events = [e] → isClaimMarkerType e.eventType = false) ∧
    ∀ i, .transferStaged i ∉ events
  wallet _ _ := True

theorem claiming_of_within {x : StreamWrite} (h : x.Within unclaiming) (w : World) :
    Claiming w x := by
  obtain ⟨a, id, seq, events⟩ := x
  cases a with
  | transfer =>
    obtain ⟨hclaim, hstaged⟩ := (show unclaiming.transfer id events from h)
    refine fun _ => ⟨fun e he hmark => ?_, fun i hm => absurd hm (hstaged i)⟩
    rw [hclaim e he] at hmark
    exact absurd hmark Bool.false_ne_true
  | _ => trivial

theorem claiming_of_publishes {x : StreamWrite} (h : x.Publishes) (w : World) : Claiming w x := by
  obtain ⟨a, id, seq, events⟩ := x
  cases a with
  | transfer => exact h.elim
  | _ => trivial

theorem claims_open : Open claims unclaiming where
  free o ho w _ := by cases o <;> trivial
  append ws hws w _ x hx :=
    (hws x hx).elim (fun h => claiming_of_within h w) fun h => claiming_of_publishes h w

theorem claims_lenient : Lenient claims unclaiming := claims_open.lenient

theorem unclaiming_of_quiet {e : TransferEvent} (h : quiet e.eventType = true) :
    unclaiming.transfer id [e] := by
  rw [quiet, Bool.not_eq_true', Bool.or_eq_false_iff, Bool.or_eq_false_iff] at h
  refine ⟨fun e' he => ?_, fun i hm => ?_⟩
  · obtain rfl := List.singleton_inj.mp he
    exact h.2
  · obtain rfl := List.mem_singleton.mp hm
    cases h.1.2

/-! ### Settlements -/

/-- The chains of a batch are made of its entries. -/
theorem entry_of_chain {batch chain : List LedgerTransfer} (hc : chain ∈ chains batch)
    {t : LedgerTransfer} (ht : t ∈ chain) : ∃ u ∈ batch, entry u = entry t := by
  obtain ⟨c, hget⟩ := List.mem_iff_getElem?.mp hc
  obtain ⟨rfl, -⟩ := chains_get hget
  obtain ⟨u, hu, he⟩ := mem_link ht
  exact ⟨u, mem_of_mem_window hu, he⟩

/-- A batch of settlements may be submitted once it was claimed. -/
theorem requests_of_marked {kind : TransferKind} {derive : Id → Id} {ty : TransferEventType}
    (hlegs : w.legs id = .ok legs) (hkind : claimOf kind = some ty)
    (hmark : ∀ w1, w ≤ w1 → FirstClaimed w1 → Marked w1 id ty) :
    Requests claims (legs.map (settlement kind derive)) w := by
  intro chain hchain w1 hle hfirst t ht ty' hty
  obtain ⟨u, hu, he⟩ := entry_of_chain hchain ht
  obtain ⟨leg, hleg, rfl⟩ := List.mem_map.mp hu
  have hof : StoredTransfer.of (settlement kind derive leg) = .of t := congrArg Prod.snd he
  rw [← hof] at hty ⊢
  obtain rfl : ty = ty' := Option.some.inj (hkind.symm.trans hty)
  exact ⟨id, legs, World.legs_grow hle hlegs, List.mem_map_of_mem hleg, hmark w1 hle hfirst⟩

/-- A batch that settles nothing may be submitted at any time. -/
theorem requests_unclaimed {f : TransferLeg → LedgerTransfer}
    (hf : ∀ leg, claimOf (f leg).kind = none) (legs : List TransferLeg) (w : World) :
    Requests claims (legs.map f) w := by
  intro chain hchain w1 _ _ t ht ty hty
  obtain ⟨u, hu, he⟩ := entry_of_chain hchain ht
  obtain ⟨leg, -, rfl⟩ := List.mem_map.mp hu
  have hof : StoredTransfer.of (f leg) = .of t := congrArg Prod.snd he
  rw [← hof] at hty
  exact nomatch (hf leg).symm.trans hty

theorem movable_of_posts {posting : Bool} (h : Requests claims (posts legs) w) :
    Movable claims legs posting w :=
  ⟨h, fun _ => ⟨requests_unclaimed (fun _ => rfl) legs w, requests_unclaimed (fun _ => rfl) legs w⟩⟩

theorem commitClaimed_claims {posting : Bool} (h : Requests claims (posts legs) w) :
    Obeys claims (commitClaimed fuel id seq legs posting) w :=
  commitClaimed_obeys claims_lenient (movable_of_posts h) (fun _ => unclaiming_of_quiet rfl)
    (unclaiming_of_quiet rfl)

theorem stageClaimed_claims (hstage : w.stage id = .ok true) :
    Obeys claims (stageClaimed fuel id seq legs) w := by
  refine stageClaimed_obeys claims_lenient (requests_unclaimed (fun _ => rfl) legs w)
    (fun _ => unclaiming_of_quiet rfl) ?_
  refine recordOutcome_permitted claims_open (fun ws seq hws w1 hle _ x hx => ?_) fuel
  rcases List.mem_append.mp hx with hx | hx
  · exact claiming_of_publishes (hws x hx) w1
  · obtain rfl := List.mem_singleton.mp hx
    refine fun _ => ⟨fun e he hmark => ?_, fun _ _ => World.stage_grow hle hstage⟩
    obtain rfl := List.singleton_inj.mp he
    exact absurd hmark Bool.false_ne_true

/-! ### Taking a claim -/

theorem marked_of_landed {e : TransferEvent}
    (hx : w.Exec (.appendAtomic [⟨.transfer, id, seq, [e]⟩]) (.ok ()) w') :
    Marked w' id e.eventType := by
  have hx' : (Except.ok (), w') = w.append [⟨.transfer, id, seq, [e]⟩] := hx
  unfold World.append at hx'
  split at hx'
  · exact nomatch (Prod.mk.inj hx').1
  · rename_i st hst
    obtain ⟨-, rfl⟩ := Prod.mk.inj hx'
    obtain ⟨-, hland⟩ := appendAtomic_landed hst (List.mem_singleton.mpr rfl) (by simp)
    refine ⟨e, ?_, rfl⟩
    change e ∈ eventsOf (st .transfer id)
    rw [show st .transfer id = _ from hland, eventsOf_append, eventsOf_rowsFrom]
    exact List.mem_append_right _ List.mem_cons_self

theorem claimForDispatch_claims {pre : State} {marker : TransferEvent}
    (hmarker : (marker.eventType == .transferStaged) = false) : ∀ (fuel : Nat) {w : World},
    Ensures claims (claimForDispatch id pre marker fuel)
      (fun r w' => ∀ seq, r = some seq → Marked w' id marker.eventType) w
  | 0, _ => Ensures.halted
  | fuel + 1, w => by
    refine (awaitUnclaimed_returns claims_lenient.reads fuel).seq fun r w1 _ hr => ?_
    cases r with
    | none => exact Ensures.pure fun _ _ seq h => by simp at h
    | some rows =>
      obtain ⟨hrows, -, hlive⟩ := hr rows rfl
      refine Ensures.request fun w2 hle2 _ => ⟨fun x hx => ?_, fun r w3 hx => ?_⟩
      · -- where it lands, the stream is as it was read
        obtain rfl := List.mem_singleton.mp hx
        intro hlen
        have heq : rows = w2.transfer id :=
          (hrows.trans (hle2.stream .transfer id)).eq_of_length hlen
        refine ⟨fun e he _ row hrow => ?_, fun i hm => ?_⟩
        · obtain rfl := List.singleton_inj.mp he
          exact hlive row (heq ▸ hrow)
        · rw [← List.mem_singleton.mp hm] at hmarker
          exact nomatch (show true = false from hmarker)
      · cases r with
        | ok u =>
          exact Ensures.pure fun w4 hle4 seq _ => (marked_of_landed hx).grow hle4
        | error e =>
          cases e with
          | concurrencyConflict => exact claimForDispatch_claims hmarker fuel
          | _ => exact Ensures.throw

theorem stage_claims (hstage : w.stage id = .ok true) : Obeys claims (stage fuel id) w := by
  refine stage_obeys claims_lenient fun w1 legs hle _ => ?_
  exact (claimForDispatch_claims rfl fuel).mono fun r w2 hle2 _ seq _ =>
    stageClaimed_claims (World.stage_grow (hle.trans hle2) hstage)

theorem commit_claims (fuel : Nat) (id : Id) (w : World) : Obeys claims (commit fuel id) w := by
  refine commit_obeys claims_lenient fun w1 legs _ _ hlegs => ?_
  exact (claimForDispatch_claims rfl fuel).mono fun r w2 hle2 hr seq hseq =>
    commitClaimed_claims (requests_of_marked (World.legs_grow hle2 hlegs) rfl
      fun _ hle _ => (hr seq hseq).grow hle)

theorem cancelStaged_claims (fuel : Nat) (id : Id) (reason : Text) (w : World) :
    Obeys claims (cancelStaged fuel id reason) w := by
  refine cancelStaged_obeys claims_lenient (unclaiming_of_quiet rfl) fun w1 legs _ _ hlegs => ?_
  exact (claimForDispatch_claims rfl fuel).mono fun r w2 hle2 hr seq hseq =>
    requests_of_marked (World.legs_grow hle2 hlegs) rfl fun _ hle _ => (hr seq hseq).grow hle

theorem claims_routine : Routine claims unclaiming where
  lenient := claims_lenient
  transfer _ _ he := unclaiming_of_quiet he
  opened _ _ _ _ := trivial
  untagged _ _ _ := trivial
  transaction _ _ _ _ _ x hx := by
    obtain rfl := List.mem_singleton.mp hx
    trivial
  commit := commit_claims
  cancelStaged := cancelStaged_claims

/-! ### Running a saga -/

theorem prepare_claims (id : Id) (fuel : Nat) (w : World) : Obeys claims (prepare id fuel) w := by
  refine prepare_within claims_lenient (fun _ _ _ _ => trivial) (fun ls stage => ⟨?_, ?_⟩)
    (fun _ => unclaiming_of_quiet rfl) w fuel
  · intro e he
    simp at he
  · intro i hm
    cases stage <;> simp [nextMarker] at hm

/-- What is settled was claimed as it was prepared. -/
theorem claims_settling : Settling claims where
  prepare := prepare_claims
  stage _ _ _ hstage := stage_claims hstage
  stageClaimed _ _ _ _ _ _ hstage := stageClaimed_claims hstage
  commitClaimed _ id _ legs _ hlegs hstage := commitClaimed_claims <|
    requests_of_marked hlegs rfl fun _ hle hfirst =>
      hfirst id legs false (World.legs_grow hle hlegs) (World.stage_grow hle hstage)

end MoneyFlow.Transfer

namespace MoneyFlow

open Concurrent Transfer

/-- **Every driver settles only what was claimed, and takes over only claims of
its own kind.** -/
theorem Driver.claims {R : Prop} {guard : Driver → Op → World → Prop} (hR : Refusals R guard)
    (d : Driver) (fuel : Nat) (w : World) :
    Safe ((driverContract R guard d).both claims) (fun _ _ => True) (d.service fuel).run w :=
  claims_settling.driver claims_routine.regular hR claims_routine.transaction d fuel w

end MoneyFlow
