import MoneyFlow.Securities.Splitting

/-!
# MoneyFlow.Securities.Holdings

What the holders of a Security are repaid, against what they bought.

A Repayment is split in proportion to what is outstanding, and a Disbursement that the
read model has not seen complete does not count as repaid. So two Repayments split over
the same Positions may both give their odd unit to the same holder
(`same_holder_favoured`). Where every row was seen complete when the Positions were
read, nobody is repaid more than they bought, and once all was repaid, everybody exactly
that.
-/

namespace MoneyFlow.Securities

open Concurrent
open Books (Uuid TransactionState StartRequest Upto Security mayComplete)

variable {shares : List Share} {run : Run} {p : Service} {r : Repayment}

/-- The sweep reads `principal_repaid` next. -/
def Service.reading : Service → Bool
  | .sweep w =>
    match w.phase with
    | .unsplit _ => true
    | _ => false
  | .record _ => false

/-- Positions are read for a split only when every row was seen complete, and a split is
committed only when no other sweep is splitting. -/
def SplitsSettled (run : Run) : RunMove → Prop
  | .step i _ =>
    ((run.procs[i]?.any Service.reading) = true →
      ∀ row ∈ run.shared.disbursements, run.shared.seen row.id = true) ∧
    ((run.procs[i]?.bind Service.committing).isSome = true →
      ∀ q ∈ run.procs.eraseIdx i, q.splitting = none)
  | _ => True

instance (run : Run) : ∀ m, Decidable (SplitsSettled run m)
  | .step _ _ => inferInstanceAs (Decidable (_ ∧ _))
  | .spawn _ => inferInstanceAs (Decidable True)
  | .world _ => inferInstanceAs (Decidable True)

theorem SplitsSettled.alone {m : RunMove} (h : SplitsSettled run m) : SplitsAlone run m := by
  cases m with
  | spawn p | world w => trivial
  | step i e =>
    intro id hid q hq hsplitting
    have hnone := h.2 (by rw [Option.mem_def.mp hid]; rfl) q hq
    rw [hnone] at hsplitting
    cases hsplitting

section

variable {security : Security} {s t : Register} {e : Answer}

/-! ### What a holder's rows add up to -/

theorem disbursed_eq (s : Register) (k : Nat) : s.disbursed k =
    ((s.disbursements.filter fun row => row.investorEntityID = k).map (·.principal)).sum := by
  simp [Register.disbursed, Register.disbursedWhere]

theorem disbursed_create (s : Register) (rows : List Disbursement) (k : Nat) :
    ({ s with disbursements := s.disbursements ++ rows } : Register).disbursed k =
      s.disbursed k +
        ((rows.filter fun row => row.investorEntityID = k).map (·.principal)).sum := by
  rw [disbursed_eq, disbursed_eq, List.filter_append, List.map_append, List.sum_append]

theorem disbursed_congr (h : t.disbursements = s.disbursements) (k : Nat) :
    t.disbursed k = s.disbursed k := by
  rw [disbursed_eq, disbursed_eq, h]

/-- What was seen repaid is among the rows. -/
theorem Register.Kept.repaid_le (h : s.Kept security) (k : Nat) :
    s.principalRepaid k ≤ s.disbursed k := by
  rw [disbursed_eq]
  unfold Register.principalRepaid Register.disbursedWhere
  rw [List.filter_filter]
  refine sum_filter_le h.nonneg ?_
  intro row _ hrow
  simp only [Bool.and_eq_true] at hrow
  exact hrow.1

/-- And is all of them, when they were all seen complete. -/
theorem principalRepaid_eq (h : ∀ row ∈ s.disbursements, s.seen row.id = true) (k : Nat) :
    s.principalRepaid k = s.disbursed k := by
  unfold Register.principalRepaid Register.disbursed Register.disbursedWhere
  rw [List.filter_eq_self.mpr h, List.filter_true]

theorem Register.Later.disbursed_le (h : s.Later t) (ht : t.Kept security) (k : Nat) :
    s.disbursed k ≤ t.disbursed k := by
  rw [disbursed_eq, disbursed_eq]
  apply ((h.disbursements.filter _).map _).sum_le_sum
  intro n hn
  obtain ⟨row, hrow, rfl⟩ := List.mem_map.mp hn
  exact ht.nonneg row (List.mem_of_mem_filter hrow)

/-- Of shares of distinct holders, a holder has one or none. -/
theorem filter_investor (h : (shares.map (·.investorEntityID)).Nodup) (k : Nat) :
    shares.filter (fun share => share.investorEntityID = k) = [] ∨
      ∃ share ∈ shares, share.investorEntityID = k ∧
        shares.filter (fun share => share.investorEntityID = k) = [share] := by
  induction shares with
  | nil => exact .inl rfl
  | cons share shares ih =>
    obtain ⟨hnot, hnodup⟩ := List.nodup_cons.mp h
    by_cases hk : share.investorEntityID = k
    · right
      refine ⟨share, List.mem_cons_self, hk, ?_⟩
      rw [List.filter_cons_of_pos (by simpa using hk), List.filter_eq_nil_iff.mpr]
      intro x hx
      rw [decide_eq_true_eq, ← hk]
      intro heq
      exact hnot (List.mem_map.mpr ⟨x, hx, heq⟩)
    · rw [List.filter_cons_of_neg (by simpa using hk)]
      rcases ih hnodup with hnil | ⟨x, hx, hxk, hone⟩
      · exact .inl hnil
      · exact .inr ⟨x, List.mem_cons_of_mem _ hx, hxk, hone⟩

/-! ### What a sweep may still record -/

/-- Nobody's share, added to their rows, is more than they bought. -/
def Covers (s : Register) (shares : List Share) : Prop :=
  ∀ share ∈ shares, s.disbursed share.investorEntityID + share.principal ≤
    boughtBy s.projected s.subscriptions share.investorEntityID

def Phase.Covered (s : Register) : Phase → Prop
  | .settled _ repaid => ∀ k, s.disbursed k ≤ repaid k
  | .recording _ shares _ _ => Covers s shares
  | .creating _ shares _ _ _ => Covers s shares
  | _ => True

def Service.Covered (s : Register) : Service → Prop
  | .record _ => True
  | .sweep w => w.phase.Covered s

theorem Register.Later.boughtBy_le (h : s.Later t) (ht : t.Kept security) (k : Nat) :
    boughtBy s.projected s.subscriptions k ≤ boughtBy t.projected t.subscriptions k :=
  Securities.boughtBy_le h.subscriptions h.projected ht.amounts k

theorem Covers.later (hc : Covers s shares) (h : s.Later t) (ht : t.Kept security)
    (hrows : t.disbursements = s.disbursements) : Covers t shares := by
  intro share hshare
  have hcover := hc share hshare
  have hmore := h.boughtBy_le ht share.investorEntityID
  rw [disbursed_congr hrows]
  omega

/-- What a sweep may record stays so, while no rows are recorded. -/
theorem Service.Covered.later (hp : p.Covered s) (h : s.Later t) (ht : t.Kept security)
    (hrows : t.disbursements = s.disbursements) : p.Covered t := by
  cases p with
  | record call => trivial
  | sweep w =>
    obtain ⟨repaymentID, todo, disbursed, failed, phase⟩ := w
    cases phase with
    | settled r repaid =>
      intro k
      rw [disbursed_congr hrows]
      exact hp k
    | recording r shares rest own | creating r shares share rest own =>
      exact Covers.later hp h ht hrows
    | _ => trivial

/-- A sweep that splits nothing knows nothing of the rows. -/
theorem Service.covered_of_splitting (h : p.splitting = none) (s : Register) : p.Covered s := by
  cases p with
  | record call => trivial
  | sweep w =>
    obtain ⟨repaymentID, todo, disbursed, failed, phase⟩ := w
    cases phase with
    | settled r repaid | recording r shares rest own | creating r shares share rest own => cases h
    | _ => trivial

/-- An allocation over Positions that count every row is covered. -/
theorem covers_of_splits {repaid : Nat → Int} (hrepaid : ∀ k, s.disbursed k ≤ repaid k)
    (h : Allocation.Splits r (Register.holdings s.bought repaid) shares) : Covers s shares := by
  intro share hshare
  obtain ⟨p, hp, hinvestor, hwithin⟩ := h.within share hshare
  obtain ⟨b, hb, rfl⟩ := List.mem_map.mp hp
  have hbought := Register.mem_bought hb
  have hseen := hrepaid b.1
  change b.1 = share.investorEntityID at hinvestor
  change share.principal ≤ b.2 - repaid b.1 at hwithin
  rw [← hinvestor]
  omega

/-- Committing shares that are covered keeps every holder within what they bought. -/
theorem disbursed_commit_le {own : List Disbursement} (hcover : Covers s shares)
    (hown : Recreates r shares [] own)
    (hbound : ∀ k, s.disbursed k ≤ boughtBy s.projected s.subscriptions k) (k : Nat) :
    ({ s with disbursements := s.disbursements ++ own } : Register).disbursed k ≤
      boughtBy s.projected s.subscriptions k := by
  obtain ⟨done, hshares, rfl⟩ := hown.rows
  rw [List.append_nil] at hshares
  subst hshares
  have hmine : (((shares.map (·.row r)).filter fun row => row.investorEntityID = k).map
      (·.principal)).sum =
      ((shares.filter fun share => share.investorEntityID = k).map (·.principal)).sum := by
    rw [List.filter_map, List.map_map]
    rfl
  rw [disbursed_create, hmine]
  rcases filter_investor hown.investors k with hnil | ⟨share, hshare, rfl, hone⟩
  · rw [hnil]
    have := hbound k
    simpa using this
  · rw [hone]
    have := hcover share hshare
    simpa using this

/-! ### One step -/

theorem Phase.Steps.covered {todo todo' : List Repayment} {phase phase' : Phase}
    (hstep : phase.Steps security s e todo t todo' phase') (hk : phase.Knows s)
    (halone : phase.Alone s) (hcovered : phase.Covered s)
    (hread : (∃ r, phase = .unsplit r) → ∀ row ∈ s.disbursements, s.seen row.id = true)
    (hbound : ∀ k, s.disbursed k ≤ boughtBy s.projected s.subscriptions k) :
    (∀ k, t.disbursed k ≤ boughtBy t.projected t.subscriptions k) ∧ phase'.Covered t := by
  cases hstep with
  | settle todo r =>
    exact ⟨hbound, fun k => le_of_eq (principalRepaid_eq (hread ⟨r, rfl⟩) k).symm⟩
  | allocate todo r repaid shares hshares =>
    exact ⟨hbound, covers_of_splits hcovered
      (Allocation.splits_of_ok (s.investors_nodup repaid) hshares)⟩
  | keep _ _ _ _ _ _ _ | miss _ _ _ _ _ _ _ | create _ _ _ _ _ _ => exact ⟨hbound, hcovered⟩
  | commit todo r shares own hnew =>
    exact ⟨disbursed_commit_le hcovered halone.2 hbound, trivial⟩
  | record todo r share rest hmissing => exact absurd (hk.2 share List.mem_cons_self) hmissing
  | start todo r share row rest =>
    rw [Register.send_eq]
    exact ⟨hbound, trivial⟩
  | _ => exact ⟨hbound, trivial⟩

/-- Only a commit changes the rows. -/
theorem Phase.Steps.disbursements {todo todo' : List Repayment} {phase phase' : Phase}
    (hstep : phase.Steps security s e todo t todo' phase') (hk : phase.Knows s)
    (hno : phase.committing = none) : t.disbursements = s.disbursements := by
  cases hstep with
  | commit todo r shares own hnew => cases hno
  | record todo r share rest hmissing => exact absurd (hk.2 share List.mem_cons_self) hmissing
  | start todo r share row rest => rw [Register.send_eq]
  | _ => rfl

theorem covered_others {i : Nat} {p' : Service} (hcond : SplitsSettled run (.step i e))
    (hp : run.procs[i]? = some p) (hstep : (crew security).step run.shared p e = some (t, p'))
    (hk : p.Knows run.shared) (hlater : run.shared.Later t) (ht : t.Kept security) :
    ∀ q ∈ run.procs.eraseIdx i, q.Covered run.shared → q.Covered t := by
  intro q hq hcovered
  rcases step_cases hstep with ⟨call, next, rfl, rfl, hcall⟩ | ⟨w, w', rfl, rfl, hphase⟩
  · exact hcovered.later hlater ht hcall.disbursements
  · cases hcommit : w.phase.committing with
    | none => exact hcovered.later hlater ht (hphase.disbursements hk.1 hcommit)
    | some id =>
      refine Service.covered_of_splitting (hcond.2 ?_ q hq) t
      rw [hp]
      change w.phase.committing.isSome = true
      rw [hcommit]
      rfl

/-! ### Whole runs -/

/-- Nobody's rows are more than the read model has seen them buy. -/
theorem reaches_covered (h : (crew security).machine.Reaches SplitsSettled run) :
    ∀ k, run.shared.disbursed k ≤
      boughtBy run.shared.projected run.shared.subscriptions k := by
  have hinv := Crew.invariant_others (P := fun s => ∀ k, s.disbursed k ≤
      boughtBy s.projected s.subscriptions k) (Q := fun s p => p.Covered s) h
    (fun _ => Int.le_refl 0) ?_ ?_ ?_
  · exact hinv.1
  · intro s p _ _ hstart
    rcases start_cases hstart with ⟨principal, interest, rfl⟩ | ⟨repaymentID, rfl⟩ <;> trivial
  · intro s i e p t p' hreach hbound hQ hm hp hstep
    obtain ⟨hs, hknow⟩ := reaches_kept hreach
    have hmem := List.mem_of_getElem? hp
    have halone := (reaches_split (fun _ _ hm => hm.alone) hreach).2 p hmem
    have hcovered := hQ p hmem
    obtain ⟨hlater, hkept, -⟩ := step_kept hstep hs (hknow p hmem)
    have hothers := covered_others hm hp hstep (hknow p hmem) hlater hkept
    have hself : (∀ k, t.disbursed k ≤ boughtBy t.projected t.subscriptions k) ∧
        p'.Covered t := by
      rcases step_cases hstep with ⟨call, next, rfl, rfl, hcall⟩ | ⟨w, w', rfl, rfl, hphase⟩
      · refine ⟨fun k => ?_, trivial⟩
        rw [disbursed_congr hcall.disbursements]
        exact (hbound k).trans (hlater.boughtBy_le hkept k)
      · refine hphase.covered (hknow _ hmem).1 halone hcovered ?_ hbound
        rintro ⟨r, hr⟩
        refine hm.1 ?_
        rw [hp]
        change Service.reading (.sweep w) = true
        simp only [Service.reading, hr]
    exact ⟨hself.1, hself.2, hothers⟩
  · intro s w t hreach hbound _ _ hworld
    have hhappens := world_cases hworld
    have hkept := hhappens.kept (reaches_kept hreach).1
    refine ⟨fun k => ?_, ?_⟩
    · rw [disbursed_congr hhappens.disbursements]
      exact (hbound k).trans (hhappens.later.boughtBy_le hkept k)
    · intro q _ hq
      exact hq.later hhappens.later hkept hhappens.disbursements

/-! ### All of it -/

/-- The principal of the Repayments that are split. -/
def Register.splitPrincipal (s : Register) : Int :=
  ((s.repayments.filter fun r => !(s.rowsOf r.id).isEmpty).map (·.principal)).sum

/-- What a Repayment split in full adds to the rows. -/
theorem Register.SplitInFull.sum_rows (h : s.SplitInFull r) :
    ((s.rowsOf r.id).map (·.principal)).sum =
      if (s.rowsOf r.id).isEmpty then 0 else r.principal := by
  by_cases hnil : s.rowsOf r.id = []
  · simp [hnil]
  · rw [if_neg (by simpa using hnil)]
    exact (h.resolve_left hnil).1

theorem sum_rowsOf {rs : List Repayment} (h : ∀ r ∈ rs, s.SplitInFull r) :
    (rs.map fun r => ((s.rowsOf r.id).map (·.principal)).sum).sum =
      ((rs.filter fun r => !(s.rowsOf r.id).isEmpty).map (·.principal)).sum := by
  induction rs with
  | nil => rfl
  | cons r rs ih =>
    have htail := ih fun x hx => h x (List.mem_cons_of_mem _ hx)
    rw [List.map_cons, List.sum_cons, (h r List.mem_cons_self).sum_rows, htail]
    by_cases hnil : (s.rowsOf r.id).isEmpty = true
    · rw [if_pos hnil, List.filter_cons_of_neg (by simp [hnil]), Int.zero_add]
    · rw [if_neg hnil, List.filter_cons_of_pos (by simpa using hnil), List.map_cons,
        List.sum_cons]

/-- The rows add up to the Repayments that are split. -/
theorem sum_disbursements (hs : s.Kept security) (hfull : ∀ r ∈ s.repayments, s.SplitInFull r) :
    (s.disbursements.map (·.principal)).sum = s.splitPrincipal := by
  have howners : ∀ row ∈ s.disbursements, row.repaymentID ∈ s.repayments.map (·.id) := by
    intro row hrow
    obtain ⟨r, hr, hid⟩ := hs.owners row hrow
    rw [hid]
    exact List.mem_map_of_mem hr.1
  rw [← sum_by_key_of_mem Disbursement.principal Disbursement.repaymentID hs.ids howners,
    List.map_map]
  exact sum_rowsOf hfull

/-- Where each is no more and all together are as much, each is as much. -/
theorem eq_of_sum_eq {f g : Nat → Int} {ks : List Nat} (hle : ∀ k, f k ≤ g k)
    (hsum : (ks.map f).sum = (ks.map g).sum) : ∀ k ∈ ks, f k = g k := by
  induction ks with
  | nil => exact nofun
  | cons k ks ih =>
    have htail : (ks.map f).sum ≤ (ks.map g).sum := List.sum_le_sum fun k _ => hle k
    have hk := hle k
    simp only [List.map_cons, List.sum_cons] at hsum
    intro x hx
    rcases List.mem_cons.mp hx with rfl | hx
    · omega
    · exact ih (by omega) x hx

/-- Everybody who holds something, or was repaid something, and an Investor. -/
theorem exists_holders (s : Register) (investor : Nat) : ∃ ks : List Nat, ks.Nodup ∧ investor ∈ ks ∧
    (ks.map s.disbursed).sum = (s.disbursements.map (·.principal)).sum ∧
    (ks.map (boughtBy s.go s.subscriptions)).sum = sold s.go s.subscriptions := by
  let ks := (investor :: (s.disbursements.map (·.investorEntityID) ++
    (complete s.go s.subscriptions).map (·.investorEntityID))).dedup
  have hks : ks.Nodup := List.nodup_dedup _
  have hrows : ∀ row ∈ s.disbursements, row.investorEntityID ∈ ks := fun row hrow =>
    List.mem_dedup.mpr (List.mem_cons_of_mem _ (List.mem_append_left _ (List.mem_map_of_mem hrow)))
  have hsold : ∀ row ∈ complete s.go s.subscriptions, row.investorEntityID ∈ ks := fun row hrow =>
    List.mem_dedup.mpr (List.mem_cons_of_mem _ (List.mem_append_right _ (List.mem_map_of_mem hrow)))
  refine ⟨ks, hks, List.mem_dedup.mpr List.mem_cons_self, ?_, ?_⟩
  · rw [← sum_by_key_of_mem Disbursement.principal Disbursement.investorEntityID hks hrows]
    exact congrArg List.sum (List.map_congr_left fun k _ => disbursed_eq s k)
  · exact sum_by_key_of_mem Subscription.amount Subscription.investorEntityID hks hsold

/-- Nobody is repaid more than they bought; and when all that was sold is repaid, everybody
is repaid what they bought. -/
theorem repaid_within_holding (security : Security) {run : Run}
    (h : (crew security).machine.Reaches SplitsSettled run) (investor : Nat) :
    run.shared.disbursed investor ≤
      boughtBy run.shared.go run.shared.subscriptions investor ∧
    (run.shared.splitPrincipal = sold run.shared.go run.shared.subscriptions →
      run.shared.disbursed investor =
        boughtBy run.shared.go run.shared.subscriptions investor) := by
  have hs := (reaches_kept h).1
  have hfull := (reaches_split (fun _ _ hm => hm.alone) h).1
  have hle : ∀ k, run.shared.disbursed k ≤
      boughtBy run.shared.go run.shared.subscriptions k := fun k =>
    (reaches_covered h k).trans (boughtBy_le (.refl _) hs.shown hs.amounts k)
  refine ⟨hle investor, ?_⟩
  intro hall
  obtain ⟨ks, hks, hinvestor, hdisbursed, hbought⟩ := exists_holders run.shared investor
  refine eq_of_sum_eq hle ?_ investor hinvestor
  rw [hdisbursed, hbought, sum_disbursements hs hfull, hall]

end

/-- The second Repayment is split when the first one's share is seen complete. -/
theorem everybody_repaid : ∃ run, (crew loan).machine.Reaches SplitsSettled run ∧
    run.shared.splitPrincipal = sold run.shared.go run.shared.subscriptions ∧
    run.shared.disbursed 1 = boughtBy run.shared.go run.shared.subscriptions 1 := by
  obtain ⟨run, hrun, hall⟩ := Machine.exists_of_play (crew loan).machine SplitsSettled
    (fun run => run.shared.splitPrincipal = sold run.shared.go run.shared.subscriptions)
    (sellingTwo ++ collecting 0 11 1 0 ++ [.spawn (.sweep {})] ++ steps 1 12 ++
      [.world (.advance (.disbursement (.v7 11) 1) .completed),
        .world (.project (.disbursement (.v7 11) 1) .completed)] ++
      collecting 2 12 1 0 ++ [.spawn (.sweep {})] ++ steps 3 7) (by decide +kernel)
  exact ⟨run, hrun, hall, (repaid_within_holding loan hrun 1).2 hall⟩

/-- Two Repayments of 1, and one sweep that splits both. Investor 1 gets both, having
bought 1; Investor 2 gets nothing. -/
theorem same_holder_favoured : ∃ run, (crew loan).machine.Reaches InsertsAlone run ∧
    run.shared.splitPrincipal = sold run.shared.go run.shared.subscriptions ∧
    run.shared.disbursed 1 = 2 ∧ run.shared.disbursed 2 = 0 ∧
    boughtBy run.shared.go run.shared.subscriptions 1 = 1 ∧
    boughtBy run.shared.go run.shared.subscriptions 2 = 1 :=
  Machine.exists_of_play (crew loan).machine InsertsAlone _
    (sellingTwo ++ collecting 0 11 1 0 ++ collecting 1 12 1 0 ++ [.spawn (.sweep {})] ++ steps 2 17)
    (by decide +kernel)

end MoneyFlow.Securities
