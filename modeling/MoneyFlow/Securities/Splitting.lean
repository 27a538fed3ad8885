import MoneyFlow.Securities.Repayments

/-!
# MoneyFlow.Securities.Splitting

How a Repayment's rows come to be.

`shares_of` looks for rows, allocates when there are none, and records every share in one
transaction, keeping a row that is there by then. As long as no other sweep commits rows
of the Repayment in between, the rows are the shares of one allocation
(`split_once_and_in_full`). Two sweeps that allocated over different Positions each record
the holders the other left out (`two_splits_mixed`). What is sent for a share is made from
its row, and rows do not change, so all requests for a share agree in every run.
-/

namespace MoneyFlow.Securities

open Concurrent
open Books (Uuid TransactionState StartRequest Upto Security mayComplete)

variable {id : Uuid} {r : Repayment} {shares : List Share} {own : List Disbursement}

/-- The Repayment a sweep found unsplit, until its split is recorded. -/
def Phase.splitting : Phase → Option Uuid
  | .unsplit r | .settled r _ | .recording r _ _ _ | .creating r _ _ _ _ => some r.id
  | _ => none

/-- The Repayment whose split is recorded next. -/
def Phase.committing : Phase → Option Uuid
  | .recording r _ [] _ => some r.id
  | _ => none

def Service.splitting : Service → Option Uuid
  | .record _ => none
  | .sweep w => w.phase.splitting

def Service.committing : Service → Option Uuid
  | .record _ => none
  | .sweep w => w.phase.committing

/-- A split is committed only when no other sweep is between finding the same Repayment
unsplit and committing. -/
def SplitsAlone (run : Run) : RunMove → Prop
  | .step i _ => ∀ id ∈ run.procs[i]?.bind Service.committing,
      ∀ q ∈ run.procs.eraseIdx i, q.splitting ≠ some id
  | _ => True

instance (run : Run) : ∀ m, Decidable (SplitsAlone run m)
  | .step i _ => inferInstanceAs (Decidable (∀ id ∈ run.procs[i]?.bind Service.committing, _))
  | .spawn _ => inferInstanceAs (Decidable True)
  | .world _ => inferInstanceAs (Decidable True)

/-! ### Rows of one Repayment -/

/-- The Repayment has no rows, or they are all of it. -/
def Register.SplitInFull (s : Register) (r : Repayment) : Prop :=
  s.rowsOf r.id = [] ∨
    ((s.rowsOf r.id).map (·.principal)).sum = r.principal ∧
      ((s.rowsOf r.id).map (·.interest)).sum = r.interest

section

variable {security : Security} {s t : Register} {e : Answer}

theorem rowsOf_create (s : Register) (rows : List Disbursement) (id : Uuid) :
    ({ s with disbursements := s.disbursements ++ rows } : Register).rowsOf id =
      s.rowsOf id ++ rows.filter fun row => row.repaymentID = id :=
  List.filter_append _ _

/-- Rows of another Repayment leave its own. -/
theorem rowsOf_create_of_ne {rows : List Disbursement} {id' : Uuid}
    (hrows : ∀ row ∈ rows, row.repaymentID = id) (hne : id' ≠ id) :
    ({ s with disbursements := s.disbursements ++ rows } : Register).rowsOf id' = s.rowsOf id' := by
  rw [rowsOf_create, List.filter_eq_nil_iff.mpr, List.append_nil]
  intro row hrow
  rw [decide_eq_true_eq, hrows row hrow]
  exact hne.symm

theorem rowsOf_create_self {rows : List Disbursement} (hrows : ∀ row ∈ rows, row.repaymentID = id) :
    ({ s with disbursements := s.disbursements ++ rows } : Register).rowsOf id =
      s.rowsOf id ++ rows := by
  rw [rowsOf_create, List.filter_eq_self.mpr]
  intro row hrow
  exact decide_eq_true (hrows row hrow)

theorem rowsOf_eq_of (h : t.disbursements = s.disbursements) (id : Uuid) :
    t.rowsOf id = s.rowsOf id := by
  unfold Register.rowsOf
  rw [h]

/-- A Repayment that is not recorded has no rows. -/
theorem Register.Kept.rowsOf_new (h : s.Kept security) (hnew : id ∉ s.repayments.map (·.id)) :
    s.rowsOf id = [] := by
  apply List.filter_eq_nil_iff.mpr
  intro row hrow
  obtain ⟨r, hr, hid⟩ := h.owners row hrow
  rw [decide_eq_true_eq, hid]
  intro heq
  exact hnew (heq ▸ List.mem_map_of_mem hr.1)

/-! ### One split -/

/-- The rows a sweep created are those of the shares it is done with, out of shares that
add up to the Repayment. -/
structure Recreates (r : Repayment) (shares rest : List Share) (own : List Disbursement) :
    Prop where
  investors : (shares.map (·.investorEntityID)).Nodup
  principal : (shares.map (·.principal)).sum = r.principal
  interest : (shares.map (·.interest)).sum = r.interest
  rows : ∃ done, shares = done ++ rest ∧ own = done.map (·.row r)

/-- A sweep that found a Repayment unsplit is right, and has kept none of its shares. -/
def Phase.Alone (s : Register) : Phase → Prop
  | .unsplit r | .settled r _ => s.rowsOf r.id = []
  | .recording r shares rest own => s.rowsOf r.id = [] ∧ Recreates r shares rest own
  | .creating r shares share rest own =>
    s.rowsOf r.id = [] ∧ Recreates r shares (share :: rest) own
  | _ => True

def Service.Alone (s : Register) : Service → Prop
  | .record _ => True
  | .sweep w => w.phase.Alone s

/-- The Repayment it splits has as many rows as before. -/
theorem Service.Alone.congr {p : Service} (h : p.Alone s)
    (hrows : ∀ id, p.splitting = some id → t.rowsOf id = s.rowsOf id) : p.Alone t := by
  cases p with
  | record call => trivial
  | sweep w =>
    obtain ⟨repaymentID, todo, disbursed, failed, phase⟩ := w
    cases phase with
    | unsplit r | settled r repaid => exact (hrows r.id rfl).trans h
    | recording r shares rest own | creating r shares share rest own =>
      exact ⟨(hrows r.id rfl).trans h.1, h.2⟩
    | _ => trivial

/-- While the Repayment has no rows, no share's row is found. -/
theorem Recreates.not_found {rest : List Share} {share : Share}
    (h : Recreates r shares (share :: rest) own) (hrows : s.rowsOf r.id = []) :
    (share.row r).id ∉ (s.disbursements ++ own).map Disbursement.id := by
  intro hmem
  obtain ⟨row, hrow, hid⟩ := List.mem_map.mp hmem
  have hids : row.repaymentID = r.id ∧ row.investorEntityID = share.investorEntityID := by
    simpa [Disbursement.id, Share.row] using hid
  rcases List.mem_append.mp hrow with hrow | hrow
  · have hmine : row ∈ s.rowsOf r.id := Register.mem_rowsOf.mpr ⟨hrow, hids.1⟩
    rw [hrows] at hmine
    cases hmine
  · obtain ⟨done, hshares, rfl⟩ := h.rows
    obtain ⟨share', hshare', rfl⟩ := List.mem_map.mp hrow
    have hnodup := h.investors
    rw [hshares, List.map_append, List.nodup_append] at hnodup
    exact hnodup.2.2 _ (List.mem_map_of_mem hshare') _ List.mem_cons_self hids.2

theorem Recreates.create {rest : List Share} {share : Share}
    (h : Recreates r shares (share :: rest) own) :
    Recreates r shares rest (own ++ [share.row r]) := by
  obtain ⟨done, hshares, rfl⟩ := h.rows
  refine { h with rows := ⟨done ++ [share], ?_, ?_⟩ }
  · rw [hshares, List.append_assoc]
    rfl
  · rw [List.map_append]
    rfl

/-- When no share is left, the rows are the Repayment. -/
theorem Recreates.sums (h : Recreates r shares [] own) : (∀ row ∈ own, row.repaymentID = r.id) ∧
      (own.map (·.principal)).sum = r.principal ∧ (own.map (·.interest)).sum = r.interest := by
  obtain ⟨done, hshares, rfl⟩ := h.rows
  rw [List.append_nil] at hshares
  subst hshares
  refine ⟨?_, ?_, ?_⟩
  · intro row hrow
    obtain ⟨share, -, rfl⟩ := List.mem_map.mp hrow
    rfl
  · rw [List.map_map]
    exact h.principal
  · rw [List.map_map]
    exact h.interest

/-- Committing a split splits its Repayment in full, and leaves the others. -/
theorem splitInFull_commit (hs : s.Kept security) (hr : r ∈ s.repayments)
    (hrows : s.rowsOf r.id = []) (h : Recreates r shares [] own)
    (hfull : ∀ r ∈ s.repayments, s.SplitInFull r) : ∀ r' ∈ s.repayments,
      ({ s with disbursements := s.disbursements ++ own } : Register).SplitInFull r' := by
  intro r' hr'
  obtain ⟨howned, hprincipal, hinterest⟩ := h.sums
  unfold Register.SplitInFull
  by_cases hid : r'.id = r.id
  · obtain rfl : r' = r := List.inj_on_of_nodup_map hs.ids hr' hr hid
    rw [rowsOf_create_self howned, hrows, List.nil_append]
    exact .inr ⟨hprincipal, hinterest⟩
  · rw [rowsOf_create_of_ne howned hid]
    exact hfull r' hr'

/-! ### One step -/

theorem Recording.Steps.splitInFull {call next : Recording}
    (hstep : call.Steps security s e t next) (hs : s.Kept security)
    (hfull : ∀ r ∈ s.repayments, s.SplitInFull r) : ∀ r ∈ t.repayments, t.SplitInFull r := by
  cases hstep with
  | insert principal interest hid hnew =>
    intro r hr
    rcases List.mem_append.mp hr with hr | hr
    · exact hfull r hr
    · obtain rfl := List.mem_singleton.mp hr
      exact .inl (hs.rowsOf_new hnew)
  | send repayment next hnext =>
    rw [Register.send_eq]
    exact hfull
  | _ => exact hfull

theorem Recording.Steps.disbursements {call next : Recording}
    (hstep : call.Steps security s e t next) : t.disbursements = s.disbursements := by
  cases hstep with
  | send repayment next hnext => rw [Register.send_eq]
  | _ => rfl

theorem Register.Happens.disbursements (h : s.Happens t) : t.disbursements = s.disbursements := by
  cases h <;> rfl

theorem Phase.Steps.splitInFull {todo todo' : List Repayment} {phase phase' : Phase}
    (hstep : phase.Steps security s e todo t todo' phase') (hs : s.Kept security)
    (hk : phase.Knows s) (halone : phase.Alone s)
    (hfull : ∀ r ∈ s.repayments, s.SplitInFull r) :
    (∀ r ∈ t.repayments, t.SplitInFull r) ∧ phase'.Alone t := by
  cases hstep with
  | unsplit r todo hrows => exact ⟨hfull, hrows⟩
  | settle todo r => exact ⟨hfull, halone⟩
  | allocate todo r repaid shares hshares =>
    have hsplits := Allocation.splits_of_ok (s.investors_nodup repaid) hshares
    exact ⟨hfull, halone, ⟨hsplits.investors, hsplits.principal, hsplits.interest, [], rfl, rfl⟩⟩
  | keep todo r shares share rest own hfound =>
    exact absurd hfound (halone.2.not_found halone.1)
  | miss todo r shares share rest own hmissing => exact ⟨hfull, halone⟩
  | create todo r shares share rest own => exact ⟨hfull, halone.1, halone.2.create⟩
  | commit todo r shares own hnew =>
    exact ⟨splitInFull_commit hs hk.collected.1 halone.1 halone.2 hfull, trivial⟩
  | record todo r share rest hmissing => exact absurd (hk.2 share List.mem_cons_self) hmissing
  | start todo r share row rest =>
    rw [Register.send_eq]
    exact ⟨hfull, trivial⟩
  | _ => exact ⟨hfull, trivial⟩

/-- Only a sweep that commits a split changes the rows, and those of its Repayment. -/
theorem Phase.Steps.rowsOf {todo todo' : List Repayment} {phase phase' : Phase}
    (hstep : phase.Steps security s e todo t todo' phase') (hk : phase.Knows s)
    (hne : phase.committing ≠ some id) : t.rowsOf id = s.rowsOf id := by
  cases hstep with
  | commit todo r shares own hnew =>
    have hc : Creates s r shares [] own := hk
    refine rowsOf_create_of_ne (fun row hrow => (hc.owned row hrow).1) ?_
    intro heq
    exact hne (heq ▸ rfl)
  | record todo r share rest hmissing => exact absurd (hk.2 share List.mem_cons_self) hmissing
  | start todo r share row rest =>
    rw [Register.send_eq]
    rfl
  | _ => rfl

theorem alone_others {run : Run} {i : Nat} {p p' : Service}
    (hcond : SplitsAlone run (.step i e)) (hp : run.procs[i]? = some p)
    (hstep : (crew security).step run.shared p e = some (t, p')) (hk : p.Knows run.shared) :
    ∀ q ∈ run.procs.eraseIdx i, q.Alone run.shared → q.Alone t := by
  intro q hq halone
  refine halone.congr ?_
  intro id hid
  rcases step_cases hstep with ⟨call, next, rfl, rfl, hcall⟩ | ⟨w, w', rfl, rfl, hphase⟩
  · exact rowsOf_eq_of hcall.disbursements id
  · refine hphase.rowsOf hk.1 ?_
    intro hcommit
    refine hcond id ?_ q hq hid
    rw [hp]
    exact hcommit

/-! ### Whole runs -/

/-- Every Repayment is split in full or not at all, and every sweep is alone with its
Repayment. -/
theorem reaches_split {cond : Run → RunMove → Prop}
    (hcond : ∀ run m, cond run m → SplitsAlone run m)
    {run : Run} (h : (crew security).machine.Reaches cond run) :
    (∀ r ∈ run.shared.repayments, run.shared.SplitInFull r) ∧
      ∀ p ∈ run.procs, p.Alone run.shared := by
  refine Crew.invariant_others (P := fun s => ∀ r ∈ s.repayments, s.SplitInFull r)
    (Q := fun s p => p.Alone s) h nofun ?_ ?_ ?_
  · intro s p _ _ hstart
    rcases start_cases hstart with ⟨principal, interest, rfl⟩ | ⟨repaymentID, rfl⟩ <;> trivial
  · intro s i e p t p' hreach hfull hQ hm hp hstep
    obtain ⟨hs, hknow⟩ := reaches_kept hreach
    have hknows := hknow p (List.mem_of_getElem? hp)
    have halone := hQ p (List.mem_of_getElem? hp)
    have hothers := alone_others (hcond _ _ hm) hp hstep hknows
    have hself : (∀ r ∈ t.repayments, t.SplitInFull r) ∧ p'.Alone t := by
      rcases step_cases hstep with ⟨call, next, rfl, rfl, hcall⟩ | ⟨w, w', rfl, rfl, hphase⟩
      · exact ⟨hcall.splitInFull hs hfull, trivial⟩
      · exact hphase.splitInFull hs hknows.1 halone hfull
    exact ⟨hself.1, hself.2, hothers⟩
  · intro s w t _ hfull _ _ hworld
    have hhappens := world_cases hworld
    have hrows := rowsOf_eq_of hhappens.disbursements
    refine ⟨?_, ?_⟩
    · intro r hr
      rw [hhappens.repayments] at hr
      unfold Register.SplitInFull
      rw [hrows]
      exact hfull r hr
    · intro q _ hq
      exact hq.congr fun id _ => hrows id

/-- A Repayment is split once and in full, where a split is committed alone; and in every
run, every request for a share carries the same amounts. -/
theorem split_once_and_in_full (security : Security) {run : Run}
    (h : (crew security).machine.Reachable run) :
    ((crew security).machine.Reaches SplitsAlone run →
      ∀ r ∈ run.shared.repayments, run.shared.rowsOf r.id = [] ∨
        ((run.shared.rowsOf r.id).map (·.principal)).sum = r.principal ∧
          ((run.shared.rowsOf r.id).map (·.interest)).sum = r.interest) ∧
    ∀ q ∈ run.shared.sent, ∀ q' ∈ run.shared.sent, ∀ repaymentID investor,
      q.id = .disbursement repaymentID investor → q'.id = .disbursement repaymentID investor →
        q = q' := by
  refine ⟨fun halone => (reaches_split (fun _ _ hm => hm) halone).1, ?_⟩
  intro q hq q' hq' repaymentID investor hid hid'
  exact (reaches_kept h).1.requests_agree hq hq' hid hid'

end

/-- A Security of 2, sold to two Investors and drawn. -/
def sellingTwo : List RunMove :=
  [.world (.purchase ⟨.v7 1, 1, 1⟩), .world (.purchase ⟨.v7 2, 2, 1⟩),
    .world (.advance (.v7 1) .completed), .world (.advance (.v7 2) .completed),
    .world (.project (.v7 1) .completed), .world (.project (.v7 2) .completed),
    .world (.draw (.v7 3)), .world (.advance (.v7 3) .completed),
    .world (.project (.v7 3) .completed)]

/-- A Repayment is recorded by the service that is spawned as the `i`th, and collected. -/
def collecting (i n : Nat) (principal interest : Int) : List RunMove :=
  [.spawn (.record (.called principal interest)), .step i {}, .step i {}, .step i {},
    .step i { id := .v7 n, transferID := .v7 (n + 100) }, .step i {},
    .world (.advance (.v7 n) .completed), .world (.project (.v7 n) .completed)]

/-- As many steps of a service. -/
def steps (i n : Nat) : List RunMove := List.replicate n (.step i {})

theorem split_recorded : ∃ run, (crew loan).machine.Reaches SplitsAlone run ∧
    (run.shared.rowsOf (.v7 11)).map
    (fun row => (row.investorEntityID, row.principal, row.interest)) =
      [(1, 1, 3), (2, 0, 2)] ∧
    ∀ r ∈ run.shared.repayments, run.shared.rowsOf r.id = [] ∨
      ((run.shared.rowsOf r.id).map (·.principal)).sum = r.principal ∧
        ((run.shared.rowsOf r.id).map (·.interest)).sum = r.interest := by
  obtain ⟨run, hrun, hrows⟩ := Machine.exists_of_play (crew loan).machine SplitsAlone
    (fun run => (run.shared.rowsOf (.v7 11)).map
      (fun row => (row.investorEntityID, row.principal, row.interest)) = [(1, 1, 3), (2, 0, 2)])
    (sellingTwo ++ collecting 0 11 1 5 ++ [.spawn (.sweep {})] ++ steps 1 9) (by decide +kernel)
  exact ⟨run, hrun, hrows, (split_once_and_in_full loan hrun.reachable).1 hrun⟩

/-- Two Repayments of 1. The first one's share to Investor 1 is sent, but not seen
complete, when a sweep allocates the second: Investor 1 is to get it. It is seen complete
when another sweep allocates the second: Investor 2 is to get it. Both record what they
allocated. -/
theorem two_splits_mixed : ∃ run, (crew loan).machine.Reachable run ∧
    ∃ r ∈ run.shared.repayments, r.principal = 1 ∧
      (run.shared.rowsOf r.id).map (fun row => (row.investorEntityID, row.principal)) =
        [(1, 1), (2, 1)] ∧
      ¬ (run.shared.rowsOf r.id = [] ∨
        ((run.shared.rowsOf r.id).map (·.principal)).sum = r.principal ∧
          ((run.shared.rowsOf r.id).map (·.interest)).sum = r.interest) :=
  Machine.exists_of_play (crew loan).machine (fun _ _ => True) _
    (sellingTwo ++ collecting 0 11 1 0 ++ [.spawn (.sweep {})] ++ steps 1 12 ++
      [.world (.advance (.disbursement (.v7 11) 1) .completed)] ++ collecting 2 12 1 0 ++
      [.spawn (.sweep { repaymentID := some (.v7 12) })] ++ steps 3 4 ++
      [.world (.project (.disbursement (.v7 11) 1) .completed)] ++
      [.spawn (.sweep { repaymentID := some (.v7 12) })] ++ steps 4 4 ++ steps 3 3 ++ steps 4 3)
    (by decide +kernel)

end MoneyFlow.Securities
