import MoneyFlow.Books.Receivable
import MoneyFlow.Concurrent.Crew

/-!
# MoneyFlow.Ach.Recovery

`RecoverDue` and `Owed` of `ruby/app/services/ach`: sweeps that take what an entity owes
from its cleared cash.

Any number of sweeps run side by side, each reading the latest Recovery, the cleared
cash, the projection and the totals one after another, while debts arrive, Go works and
the projection follows it. A sweep goes through the entities one by one; what it does for
one entity is a process of its own here.
-/

namespace MoneyFlow.Ach

open Concurrent Books

variable {e : Nat}

/-! ### The tables -/

/-- `Models::ReceivableRecovery`. -/
structure Recovery where
  entityID : Nat
  sequence : Nat
  amount : Nat
  clearedGlobalSeq : Nat
  deriving DecidableEq, Repr

variable {r : Recovery}

/-- The row's id, which is its Transaction's. -/
def Recovery.id (r : Recovery) : Uuid := .recovery r.entityID r.sequence

/-- What the row's Transaction is asked for as. -/
def Recovery.origin (r : Recovery) : Origin := .recovery r.entityID r.sequence r.amount

/-- Go and the ACH records, the ACH Transactions there are and those with a late return
recorded, the Transaction projection, and the Recoveries. -/
structure Till where
  desk : Books.Desk
  entries : List AchTransaction
  returning : List Uuid
  projected : Uuid → Option TransactionState
  rows : List Recovery

variable {t t' : Till}

/-- An entity's Recoveries. -/
def Till.rowsOf (t : Till) (e : Nat) : List Recovery := t.rows.filter fun r => r.entityID = e

/-- `Owed.completed_debts`. -/
def Till.completedDebts (t : Till) (e : Nat) : List AchTransaction :=
  t.entries.filter fun ach => decide (ach.entityID = e ∧ ach.direction = .deposit ∧
    ach.id ∈ t.desk.noticed ∧ ach.id ∈ t.desk.recorded ∧ ach.id ∈ t.returning ∧
    t.projected (.lateReturn ach.id) = some .completed)

/-- `Owed#debt_completed`. -/
def Till.debtCompleted (t : Till) (e : Nat) : Nat := ((t.completedDebts e).map (·.amount)).sum

/-- `Owed#recovered`. -/
def Till.recovered (t : Till) (e : Nat) : Nat :=
  (((t.rowsOf e).filter fun r => t.projected r.id = some .completed).map (·.amount)).sum

/-! ### What the world does -/

/-- A move of Go's or of the ACH services, or the projection takes a Transaction on. -/
inductive TillMove
  | initiate (ach : AchTransaction)
  | returning (ach : AchTransaction)
  | desk (m : DeskMove)
  | project (id : Uuid) (state : TransactionState)

/-- What is asked for is of a row there is, under the id that was generated for it.
Recoveries are asked for by the sweeps. -/
def Till.Known (t : Till) : Origin → Prop
  | .ach ach | .clearing ach => ach ∈ t.entries
  | .lateReturn ach _ => ach ∈ t.entries ∧ ach.id ∈ t.returning
  | .recovery .. => False
  | .offering _ id .. | .purchase _ _ id .. | .draw _ id .. | .repayment _ id .. =>
    id.generated = true
  | .disbursement .. => True

instance (t : Till) : ∀ o, Decidable (t.Known o)
  | .ach _ | .clearing _ => inferInstanceAs (Decidable (_ ∈ _))
  | .lateReturn _ _ => inferInstanceAs (Decidable (_ ∧ _))
  | .recovery .. => inferInstanceAs (Decidable False)
  | .offering .. | .purchase .. | .draw .. | .repayment .. =>
    inferInstanceAs (Decidable (_ = true))
  | .disbursement .. => inferInstanceAs (Decidable True)

/-- Whether a move asks for something known. -/
def Till.Asks (t : Till) : DeskMove → Prop
  | .go (.accept o) | .go (.reject o) => t.Known o
  | _ => True

instance (t : Till) : ∀ m, Decidable (t.Asks m)
  | .go (.accept o) | .go (.reject o) => inferInstanceAs (Decidable (t.Known o))
  | .go (.start _) | .go (.complete _) | .go (.startRollback _) | .go (.finishRollback _)
  | .go (.leg _ _ _) | .record _ | .notice _ => inferInstanceAs (Decidable True)

/-- What a move of the world does. -/
def Till.world (t : Till) : TillMove → Option Till
  | .initiate ach =>
    if ach.id.generated = true ∧ ach.id ∉ t.entries.map (·.id) then
      some { t with entries := ach :: t.entries }
    else none
  | .returning ach => some { t with returning := ach.id :: t.returning }
  | .desk m =>
    if t.Asks m then (t.desk.exec m).map fun d => { t with desk := d } else none
  | .project id state =>
    if Upto (t.projected id) (some state) ∧ Upto (some state) (t.desk.books.stateOf id) then
      some { t with projected := fun i => if i = id then some state else t.projected i }
    else none

/-! ### A sweep -/

/-- `RecoverDue::ClearedCash`. -/
structure ClearedCash where
  available : Int := 0
  globalSeq : Nat := 0
  deriving DecidableEq, Repr

/-- Where a sweep stands with an entity. -/
inductive Sweep
  /-- `next_recovery`, about to read the latest Recovery. -/
  | next (e : Nat)
  /-- About to read the cleared cash. -/
  | cash (e : Nat) (latest : Option Recovery)
  /-- About to read the latest Recovery's state. -/
  | state (e : Nat) (latest : Recovery) (cleared : ClearedCash)
  /-- `record`, about to read the debts. -/
  | debts (e sequence : Nat) (cleared : ClearedCash)
  /-- About to read what was recovered. -/
  | recovered (e sequence : Nat) (cleared : ClearedCash) (debt : Nat)
  | create (r : Recovery)
  /-- `send_recovery`. -/
  | send (r : Recovery)
  | ended
  deriving DecidableEq, Repr

/-- How Go answers a request. -/
inductive Verdict
  | accept
  | reject
  | lost
  deriving DecidableEq, Repr

/-- What a sweep is answered: the cleared cash, and Go's verdict. -/
structure SweepAnswer where
  cleared : ClearedCash := {}
  verdict : Verdict := .accept

/-- `may_follow?`. -/
def mayFollow (state : TransactionState) (latest : Recovery) (cleared : ClearedCash) : Bool :=
  match state with
  | .initialized | .started | .rollbackStarted | .rollbackFailed => false
  | .rejected | .rolledBack => decide (latest.clearedGlobalSeq < cleared.globalSeq)
  | .completed => true

/-- Go takes a request; one whose id it has seen it answers from what it has. -/
def Till.ask (t : Till) (m : Books.Move) : Till :=
  match t.desk.exec (.go m) with
  | some d => { t with desk := d }
  | none => t

/-- A step of a sweep. -/
def sweepStep (t : Till) : Sweep → SweepAnswer → Option (Till × Sweep)
  | .next e, _ => some (t, .cash e ((t.rowsOf e).argmax (·.sequence)))
  | .cash e none, a => some (t, .debts e 1 a.cleared)
  | .cash e (some latest), a => some (t, .state e latest a.cleared)
  | .state e latest cleared, _ =>
    match t.projected latest.id with
    | none => some (t, .send latest)
    | some state =>
      some (t, if mayFollow state latest cleared then .debts e (latest.sequence + 1) cleared
        else .ended)
  | .debts e sequence cleared, _ =>
    some (t, .recovered e sequence cleared (t.debtCompleted e))
  | .recovered e sequence cleared debt, _ =>
    let amount := min (max ((debt : Int) - t.recovered e) 0) cleared.available
    some (t, if 0 < amount then .create ⟨e, sequence, amount.toNat, cleared.globalSeq⟩ else .ended)
  | .create r, _ =>
    -- the unique index on the entity and the sequence
    if ∃ row ∈ t.rows, row.entityID = r.entityID ∧ row.sequence = r.sequence then some (t, .ended)
    else some ({ t with rows := t.rows ++ [r] }, .send r)
  | .send r, a =>
    match a.verdict with
    | .accept => some (t.ask (.accept r.origin), .ended)
    | .reject => some (t.ask (.reject r.origin), .ended)
    | .lost => some (t, .ended)
  | .ended, _ => none

/-- Where a sweep begins. -/
def Sweep.begins : Sweep → Bool
  | .next _ => true
  | _ => false

/-- The sweeps. -/
def sweeps : Crew Till Sweep SweepAnswer TillMove where
  init := ⟨Books.desk.init, [], [], fun _ => none, []⟩
  start _ p := p.begins
  step := sweepStep
  world := Till.world

/-! ### What the tables meet -/

/-- Go completed the Recovery, or may still. -/
def Till.live (t : Till) (r : Recovery) : Bool := mayComplete (t.desk.books.stateOf r.id)

/-- What the Recoveries that Go has completed or may still complete come to. -/
def Till.claimed (t : Till) (e : Nat) : Nat :=
  (((t.rowsOf e).filter t.live).map (·.amount)).sum

/-- Recoveries are numbered from one, each is recorded when the one before has concluded,
Go has only Transactions it was asked for, the read model is behind Go, and what is
claimed is owed. -/
structure Till.Ok (t : Till) : Prop where
  desk : Books.desk.Reachable t.desk
  entries : (t.entries.map (·.id)).Nodup
  generated : ∀ ach ∈ t.entries, ach.id.generated = true
  known : ∀ x ∈ t.desk.books.txns, (∃ r ∈ t.rows, x.origin = r.origin) ∨ t.Known x.origin
  shows : ∀ id, Upto (t.projected id) (t.desk.books.stateOf id)
  numbered : ∀ e, (t.rowsOf e).map (·.sequence) = List.range' 1 (t.rowsOf e).length
  followed : ∀ e, ∀ r ∈ t.rowsOf e, r.sequence < (t.rowsOf e).length →
    concluded (t.projected r.id) = true
  covered : ∀ e, (t.claimed e : Int) ≤ t.desk.books.debt e

/-- What only grows. -/
structure Till.Le (t t' : Till) : Prop where
  rows : t.rows <+: t'.rows
  projected : ∀ id, Upto (t.projected id) (t'.projected id)
  debt : ∀ e, t.desk.books.debt e ≤ t'.desk.books.debt e

theorem Till.Le.refl (t : Till) : t.Le t :=
  ⟨List.prefix_rfl, fun _ => .refl _, fun _ => Int.le_refl _⟩

theorem Till.Le.rowsOf (h : t.Le t') (e : Nat) : t.rowsOf e <+: t'.rowsOf e :=
  h.rows.filter _

theorem Till.Ok.sound (h : t.Ok) : t.desk.books.Sound :=
  reachable_sound (desk_books h.desk)

section Rows

variable {t : Till} (h : t.Ok) {e : Nat} {r r' : Recovery}
include h

theorem Till.Ok.sequence_le (hr : r ∈ t.rowsOf e) :
    1 ≤ r.sequence ∧ r.sequence ≤ (t.rowsOf e).length := by
  have hmem : r.sequence ∈ (t.rowsOf e).map (·.sequence) := List.mem_map_of_mem hr
  rw [h.numbered e, List.mem_range'_1] at hmem
  omega

theorem Till.Ok.row_unique (hr : r ∈ t.rowsOf e) (hr' : r' ∈ t.rowsOf e)
    (hseq : r.sequence = r'.sequence) : r = r' := by
  have hnodup : ((t.rowsOf e).map (·.sequence)).Nodup := by
    rw [h.numbered e]
    exact List.nodup_range'
  exact List.inj_on_of_nodup_map hnodup hr hr' hseq

theorem Till.Ok.exists_row {n : Nat} (h1 : 1 ≤ n) (hn : n ≤ (t.rowsOf e).length) :
    ∃ r ∈ t.rowsOf e, r.sequence = n := by
  have hmem : n ∈ (t.rowsOf e).map (·.sequence) := by
    rw [h.numbered e, List.mem_range'_1]
    omega
  obtain ⟨r, hr, hseq⟩ := List.mem_map.mp hmem
  exact ⟨r, hr, hseq⟩

end Rows

/-- Every Recovery before the `n`th is there, and has concluded where Ruby can see it. -/
structure Till.Follows (t : Till) (e n : Nat) : Prop where
  pos : 1 ≤ n
  le : n ≤ (t.rowsOf e).length + 1
  concluded : ∀ r ∈ t.rowsOf e, r.sequence < n → Books.concluded (t.projected r.id) = true

theorem Till.Ok.sequence_of_mem (h : t.Ok) (hle : t.Le t') (h' : t'.Ok) (hr : r ∈ t'.rowsOf e)
    (hseq : r.sequence ≤ (t.rowsOf e).length) : r ∈ t.rowsOf e := by
  obtain ⟨q, hq, hqs⟩ := h.exists_row (h'.sequence_le hr).1 hseq
  have hqr : q = r := h'.row_unique ((hle.rowsOf e).subset hq) hr hqs
  exact hqr ▸ hq

theorem Till.Follows.grow {n : Nat} (hf : t.Follows e n) (h : t.Ok) (h' : t'.Ok) (hle : t.Le t') :
    t'.Follows e n where
  pos := hf.pos
  le := by
    have hlen := (hle.rowsOf e).length_le
    have := hf.le
    omega
  concluded r hr hseq := by
    have hle' := hf.le
    have hr' := h.sequence_of_mem hle h' hr (by omega)
    have hc := hf.concluded r hr' hseq
    rw [(hle.projected r.id).eq_of_concluded hc]
    exact hc

/-! ### What the totals say -/

/-- Only a late return has a late return's id. -/
theorem Till.Ok.lateReturn_of_id (h : t.Ok) {x : Running} (hx : x ∈ t.desk.books.txns) {id : Uuid}
    (hid : x.origin.request.id = .lateReturn id) :
    ∃ ach recorded, x.origin = .lateReturn ach recorded ∧ ach.id = id ∧ ach ∈ t.entries := by
  rcases h.known x hx with ⟨r, -, horigin⟩ | hknown
  · rw [horigin] at hid
    cases hid
  · cases horigin : x.origin with
    | lateReturn ach recorded =>
      rw [horigin] at hid hknown
      exact ⟨ach, recorded, rfl, Uuid.lateReturn.inj hid, hknown.1⟩
    | ach entry =>
      rw [horigin] at hid hknown
      have hgen := h.generated entry hknown
      rw [show entry.id = .lateReturn id from hid] at hgen
      cases hgen
    | offering security tid transfer amount
    | purchase security investor tid claim transfer amount | draw security tid transfer amount
    | repayment security tid transfer amount =>
      rw [horigin] at hid hknown
      rw [Till.Known, show tid = .lateReturn id from hid] at hknown
      cases hknown
    | _ =>
      rw [horigin] at hid
      cases hid

/-- What shows as a completed debt return is one. -/
theorem Till.Ok.debtReturned_of_shown (h : t.Ok) {ach : AchTransaction}
    (hach : ach ∈ t.completedDebts e) :
    ach ∈ t.desk.books.txns.filterMap Running.debtReturned ∧ ach.entityID = e := by
  obtain ⟨hentry, hmeets⟩ := List.mem_filter.mp hach
  obtain ⟨howner, hdir, -, hrecorded, -, hshown⟩ := of_decide_eq_true hmeets
  refine ⟨?_, howner⟩
  have hstate : t.desk.books.stateOf (.lateReturn ach.id) = some .completed := by
    have hupto := h.shows (.lateReturn ach.id)
    rw [hshown] at hupto
    exact hupto.eq_of_concluded rfl
  obtain ⟨x, hx, hid, hcompleted⟩ := State.exists_of_stateOf hstate
  obtain ⟨ach', recorded, horigin, hids, hentry'⟩ := h.lateReturn_of_id hx hid
  have hsame : ach' = ach := List.inj_on_of_nodup_map h.entries hentry' hentry hids
  have hasked := desk_asked h.desk x hx
  rw [horigin, hsame] at hasked
  have htrue : recorded = true := hasked.2.2.trans (decide_eq_true hrecorded)
  refine List.mem_filterMap.mpr ⟨x, hx, ?_⟩
  unfold Running.debtReturned
  rw [horigin, hsame, htrue]
  exact if_pos ⟨hdir, hcompleted⟩

/-- `Owed#debt_completed` is never more than Go has completed. -/
theorem Till.Ok.debtCompleted_le (h : t.Ok) (e : Nat) :
    (t.debtCompleted e : Int) ≤ t.desk.books.debt e := by
  have hnodup : (t.completedDebts e).Nodup := (List.Nodup.of_map _ h.entries).filter _
  have hsubset : t.completedDebts e ⊆ t.desk.books.txns.filterMap Running.debtReturned :=
    fun ach hach => (h.debtReturned_of_shown hach).1
  have hle := sum_le_of_subset (fun x _ => AchTransaction.amountOf_nonneg e x) hnodup hsubset
  have hown : (t.completedDebts e).map (AchTransaction.amountOf e) =
      (t.completedDebts e).map fun ach => (ach.amount : Int) := by
    apply List.map_congr_left
    intro ach hach
    exact if_pos (h.debtReturned_of_shown hach).2
  rw [hown] at hle
  unfold Till.debtCompleted
  rwa [Nat.cast_list_sum, List.map_map]

/-- When all Recoveries have concluded, what is claimed is what was recovered. -/
theorem Till.Ok.claimed_eq (h : t.Ok) (hc : ∀ r ∈ t.rowsOf e, concluded (t.projected r.id) = true) :
    t.claimed e = t.recovered e := by
  unfold Till.claimed Till.recovered
  have hfilter : (t.rowsOf e).filter t.live =
      (t.rowsOf e).filter fun r => t.projected r.id = some .completed := by
    apply List.filter_congr
    intro r hr
    unfold Till.live
    rw [(h.shows r.id).eq_of_concluded (hc r hr)]
    exact mayComplete_of_concluded (hc r hr)
  rw [hfilter]

/-! ### What every step keeps -/

theorem Till.claimed_le_of_upto (hrows : t'.rows = t.rows)
    (hupto : ∀ id, Upto (t.desk.books.stateOf id) (t'.desk.books.stateOf id)) :
    t'.claimed e ≤ t.claimed e := by
  unfold Till.claimed Till.rowsOf
  rw [hrows]
  have hsub : ((t.rows.filter fun r => r.entityID = e).filter t'.live).Sublist
      ((t.rows.filter fun r => r.entityID = e).filter t.live) :=
    List.monotone_filter_right _ fun r hr => (hupto r.id).mayComplete hr
  exact (hsub.map _).sum_le_sum fun _ _ => Nat.zero_le _

/-- Go moves on, with what it was asked for known. -/
theorem Till.Ok.desk_step (h : t.Ok) {m : DeskMove} {d : Books.Desk} (hx : t.desk.exec m = some d)
    (hasks : ∀ o, m = .go (.accept o) ∨ m = .go (.reject o) →
      (∃ r ∈ t.rows, o = r.origin) ∨ t.Known o) :
    ({ t with desk := d } : Till).Ok ∧ t.Le { t with desk := d } := by
  have hreach : Books.desk.Reachable d := .step h.desk trivial hx
  have hbooks : (∀ id, Upto (t.desk.books.stateOf id) (d.books.stateOf id)) ∧
      (∀ e, t.desk.books.debt e ≤ d.books.debt e) ∧
      ∀ x ∈ d.books.txns, (∃ r ∈ t.rows, x.origin = r.origin) ∨ t.Known x.origin := by
    rcases Desk.exec_books hx with ⟨mv, rfl, -, hb, -⟩ | ⟨-, hsame⟩
    · have hstep := State.exec_step hb
      refine ⟨hstep.upto h.sound, hstep.debt_le, ?_⟩
      intro x hxmem
      rcases hstep.origins hxmem with ⟨y, hy, horigin⟩ | rfl | rfl
      · exact horigin ▸ h.known y hy
      · exact hasks x.origin (.inl rfl)
      · exact hasks x.origin (.inr rfl)
    · rw [hsame]
      exact ⟨fun _ => .refl _, fun _ => Int.le_refl _, h.known⟩
  obtain ⟨hupto, hdebt, hknown⟩ := hbooks
  refine ⟨⟨hreach, h.entries, h.generated, hknown, fun id => (h.shows id).trans (hupto id),
    h.numbered, h.followed, ?_⟩, ⟨List.prefix_rfl, fun _ => .refl _, hdebt⟩⟩
  intro e
  have hclaimed : ({ t with desk := d } : Till).claimed e ≤ t.claimed e :=
    Till.claimed_le_of_upto rfl hupto
  have hcovered := h.covered e
  have hgrown := hdebt e
  change (_ : Int) ≤ d.books.debt e
  omega

theorem Till.Known.mono {o : Origin} (h : t.Known o) (hentries : t.entries ⊆ t'.entries)
    (hreturning : t.returning ⊆ t'.returning) : t'.Known o := by
  cases o with
  | ach entry | clearing entry => exact hentries h
  | lateReturn entry recorded => exact ⟨hentries h.1, hreturning h.2⟩
  | _ => exact h

theorem Till.Ok.world (h : t.Ok) {w : TillMove} (hx : t.world w = some t') : t'.Ok ∧ t.Le t' := by
  cases w with
  | initiate ach =>
    simp only [Till.world] at hx
    split at hx
    · rename_i hnew
      cases hx
      refine ⟨⟨h.desk, List.nodup_cons.mpr ⟨hnew.2, h.entries⟩, ?_, ?_, h.shows, h.numbered,
        h.followed, h.covered⟩, ⟨List.prefix_rfl, fun _ => .refl _, fun _ => Int.le_refl _⟩⟩
      · intro entry hentry
        rcases List.mem_cons.mp hentry with rfl | hentry
        · exact hnew.1
        · exact h.generated entry hentry
      · intro x hxmem
        exact (h.known x hxmem).imp id fun hk =>
          hk.mono (List.subset_cons_self _ _) (List.Subset.refl _)
    · cases hx
  | returning ach =>
    cases hx
    refine ⟨⟨h.desk, h.entries, h.generated, ?_, h.shows, h.numbered, h.followed, h.covered⟩,
      ⟨List.prefix_rfl, fun _ => .refl _, fun _ => Int.le_refl _⟩⟩
    intro x hxmem
    exact (h.known x hxmem).imp id fun hk =>
      hk.mono (List.Subset.refl _) (List.subset_cons_self _ _)
  | desk m =>
    simp only [Till.world] at hx
    split at hx
    · rename_i hasks
      obtain ⟨d, hd, rfl⟩ := Option.map_eq_some_iff.mp hx
      apply h.desk_step hd
      rintro o (rfl | rfl)
      · exact .inr hasks
      · exact .inr hasks
    · cases hx
  | project id state =>
    simp only [Till.world] at hx
    split at hx
    · rename_i hreached
      cases hx
      have hforward : ∀ i, Upto (t.projected i) (if i = id then some state else t.projected i) := by
        intro i
        split
        · rename_i hi
          rw [hi]
          exact hreached.1
        · exact .refl _
      refine ⟨⟨h.desk, h.entries, h.generated, h.known, ?_, h.numbered, ?_, h.covered⟩,
        ⟨List.prefix_rfl, hforward, fun _ => Int.le_refl _⟩⟩
      · intro i
        change Upto (if i = id then some state else t.projected i) _
        split
        · rename_i hi
          rw [hi]
          exact hreached.2
        · exact h.shows i
      · intro e r hr hseq
        have hc := h.followed e r hr hseq
        rw [← (hforward r.id).eq_of_concluded hc] at hc
        exact hc
    · cases hx

/-- What a sweep knows. -/
def Till.Knows (t : Till) : Sweep → Prop
  | .cash e latest => ∀ r, latest = some r → r ∈ t.rowsOf e
  | .state e latest _ => latest ∈ t.rowsOf e
  | .debts e n _ => t.Follows e n
  | .recovered e n _ debt => t.Follows e n ∧ (debt : Int) ≤ t.desk.books.debt e
  | .create r => t.Follows r.entityID r.sequence ∧
      ((t.rowsOf r.entityID).length < r.sequence →
        ((r.amount + t.recovered r.entityID : Nat) : Int) ≤ t.desk.books.debt r.entityID)
  | .send r => r ∈ t.rows
  | .next _ | .ended => True

/-- While no Recovery is added, what was recovered by those that have concluded stays. -/
theorem Till.recovered_eq (hle : t.Le t') (hlen : (t'.rowsOf e).length ≤ (t.rowsOf e).length)
    (hc : ∀ r ∈ t.rowsOf e, concluded (t.projected r.id) = true) :
    t'.recovered e = t.recovered e := by
  have hrows : t.rowsOf e = t'.rowsOf e := (hle.rowsOf e).eq_of_length_le hlen
  unfold Till.recovered
  rw [← hrows]
  have hfilter : ((t.rowsOf e).filter fun r => t'.projected r.id = some .completed) =
      (t.rowsOf e).filter fun r => t.projected r.id = some .completed := by
    apply List.filter_congr
    intro r hr
    rw [(hle.projected r.id).eq_of_concluded (hc r hr)]
  rw [hfilter]

theorem Till.Knows.grow {p : Sweep} (hk : t.Knows p) (h : t.Ok) (h' : t'.Ok) (hle : t.Le t') :
    t'.Knows p := by
  cases p with
  | cash e latest => exact fun r hr => (hle.rowsOf e).subset (hk r hr)
  | state e latest cleared => exact (hle.rowsOf e).subset hk
  | debts e n cleared => exact Till.Follows.grow hk h h' hle
  | recovered e n cleared debt => exact ⟨hk.1.grow h h' hle, hk.2.trans (hle.debt e)⟩
  | create r =>
    refine ⟨hk.1.grow h h' hle, ?_⟩
    intro hshort
    have hlen := (hle.rowsOf r.entityID).length_le
    have hfull := hk.1.le
    have hsame := Till.recovered_eq hle (e := r.entityID) (by omega) fun q hq => by
      have hq' := (h.sequence_le hq).2
      exact hk.1.concluded q hq (by omega)
    rw [hsame]
    exact (hk.2 (by omega)).trans (hle.debt r.entityID)
  | send r => exact hle.rows.subset hk
  | next e | ended => trivial

/-- One may follow a Recovery that has concluded, and only such a one. -/
theorem concluded_of_mayFollow {state : TransactionState} {latest : Recovery}
    {cleared : ClearedCash} (h : mayFollow state latest cleared = true) :
    concluded (some state) = true := by
  cases state <;> first | rfl | cases h

theorem Till.Ok.follows_one (h : t.Ok) (e : Nat) : t.Follows e 1 where
  pos := Nat.le_refl 1
  le := by omega
  concluded r hr hseq := by
    have := (h.sequence_le hr).1
    omega

theorem Till.Ok.follows_latest (h : t.Ok) {latest : Recovery} (hlatest : latest ∈ t.rowsOf e)
    (hc : concluded (t.projected latest.id) = true) : t.Follows e (latest.sequence + 1) where
  pos := by omega
  le := by
    have := (h.sequence_le hlatest).2
    omega
  concluded r hr hseq := by
    by_cases heq : r.sequence = latest.sequence
    · rw [h.row_unique hr hlatest heq]
      exact hc
    · have := (h.sequence_le hlatest).2
      exact h.followed e r hr (by omega)

theorem Till.rowsOf_append (t : Till) (r : Recovery) (e : Nat) :
    ({ t with rows := t.rows ++ [r] } : Till).rowsOf e =
      t.rowsOf e ++ if r.entityID = e then [r] else [] := by
  unfold Till.rowsOf
  rw [List.filter_append]
  by_cases he : r.entityID = e <;> simp [he]

/-- A Recovery of what is left to recover is recorded. -/
theorem Till.Ok.create (h : t.Ok) (hk : t.Knows (.create r))
    (hnew : ¬ ∃ row ∈ t.rows, row.entityID = r.entityID ∧ row.sequence = r.sequence) :
    ({ t with rows := t.rows ++ [r] } : Till).Ok ∧ t.Le { t with rows := t.rows ++ [r] } := by
  obtain ⟨hfollows, hamount⟩ := hk
  have hlast : r.sequence = (t.rowsOf r.entityID).length + 1 := by
    have hle := hfollows.le
    by_contra hne
    obtain ⟨row, hrow, hseq⟩ := h.exists_row (e := r.entityID) hfollows.pos (by omega)
    obtain ⟨hmem, howner⟩ := List.mem_filter.mp hrow
    exact hnew ⟨row, hmem, of_decide_eq_true howner, hseq⟩
  have hconcluded : ∀ q ∈ t.rowsOf r.entityID, concluded (t.projected q.id) = true := by
    intro q hq
    have := (h.sequence_le hq).2
    exact hfollows.concluded q hq (by omega)
  have hgrown : t.Le { t with rows := t.rows ++ [r] } :=
    ⟨List.prefix_append _ _, fun _ => .refl _, fun _ => Int.le_refl _⟩
  refine ⟨⟨h.desk, h.entries, h.generated, ?_, h.shows, ?_, ?_, ?_⟩, hgrown⟩
  · intro x hx
    exact (h.known x hx).imp (fun ⟨q, hq, horigin⟩ => ⟨q, List.mem_append_left _ hq, horigin⟩)
      fun hknown => hknown.mono (List.Subset.refl _) (List.Subset.refl _)
  · intro e
    rw [t.rowsOf_append]
    split
    · rename_i he
      subst he
      rw [List.map_append, h.numbered, List.length_append, List.length_singleton,
        List.range'_concat]
      simp [hlast, Nat.add_comm]
    · simpa using h.numbered e
  · intro e q hq hseq
    rw [t.rowsOf_append] at hq hseq
    split at hq
    · rename_i he
      subst he
      rw [if_pos rfl, List.length_append, List.length_singleton] at hseq
      rcases List.mem_append.mp hq with hq | hq
      · exact hconcluded q hq
      · obtain rfl := List.mem_singleton.mp hq
        omega
    · rename_i he
      rw [if_neg he, List.append_nil] at hseq
      exact h.followed e q (by simpa using hq) hseq
  · intro e
    have hclaimed : ({ t with rows := t.rows ++ [r] } : Till).claimed e ≤
        t.claimed e + if r.entityID = e then r.amount else 0 := by
      unfold Till.claimed
      rw [t.rowsOf_append, List.filter_append, List.map_append, List.sum_append]
      refine Nat.add_le_add (Nat.le_refl _) ?_
      split
      · refine ((List.filter_sublist.map _).sum_le_sum fun _ _ => Nat.zero_le _).trans ?_
        simp
      · simp
    by_cases he : r.entityID = e
    · subst he
      have hrecovered := h.claimed_eq hconcluded
      have hle := hamount (by omega)
      rw [if_pos rfl] at hclaimed
      change (_ : Int) ≤ t.desk.books.debt r.entityID
      omega
    · rw [if_neg he] at hclaimed
      have hcovered := h.covered e
      change (_ : Int) ≤ t.desk.books.debt e
      omega

theorem Till.Ok.ask (h : t.Ok) (hr : r ∈ t.rows) {m : Books.Move}
    (hm : m = .accept r.origin ∨ m = .reject r.origin) : (t.ask m).Ok ∧ t.Le (t.ask m) := by
  unfold Till.ask
  split
  · rename_i d hd
    apply h.desk_step hd
    intro o ho
    refine .inl ⟨r, hr, ?_⟩
    rcases hm with rfl | rfl <;> rcases ho with ho | ho
    · exact (Move.accept.inj (DeskMove.go.inj ho)).symm
    · cases ho
    · cases ho
    · exact (Move.reject.inj (DeskMove.go.inj ho)).symm
  · exact ⟨h, .refl t⟩

/-- A step of a sweep keeps all of it. -/
theorem sweepStep_ok {p p' : Sweep} {a : SweepAnswer} (h : t.Ok) (hk : t.Knows p)
    (hx : sweepStep t p a = some (t', p')) : t'.Ok ∧ t.Le t' ∧ t'.Knows p' := by
  cases p with
  | next e =>
    cases hx
    exact ⟨h, .refl _, fun r hr => List.argmax_mem (Option.mem_def.mpr hr)⟩
  | cash e latest =>
    cases latest with
    | none =>
      cases hx
      exact ⟨h, .refl _, h.follows_one e⟩
    | some latest =>
      cases hx
      exact ⟨h, .refl _, hk latest rfl⟩
  | state e latest cleared =>
    simp only [sweepStep] at hx
    split at hx
    · cases hx
      exact ⟨h, .refl _, (List.mem_filter.mp hk).1⟩
    · rename_i state hstate
      cases hx
      refine ⟨h, .refl _, ?_⟩
      split
      · rename_i hmay
        refine h.follows_latest hk ?_
        rw [hstate]
        exact concluded_of_mayFollow hmay
      · trivial
  | debts e n cleared =>
    cases hx
    exact ⟨h, .refl _, hk, h.debtCompleted_le e⟩
  | recovered e n cleared debt =>
    cases hx
    refine ⟨h, .refl _, ?_⟩
    split
    · rename_i hpos
      refine ⟨hk.1, fun _ => ?_⟩
      have hdebt := hk.2
      dsimp only
      omega
    · trivial
  | create r =>
    simp only [sweepStep] at hx
    split at hx
    · cases hx
      exact ⟨h, .refl _, trivial⟩
    · rename_i hnew
      cases hx
      obtain ⟨hok, hle⟩ := h.create hk hnew
      exact ⟨hok, hle, List.mem_append_right _ (List.mem_singleton.mpr rfl)⟩
  | send r =>
    simp only [sweepStep] at hx
    split at hx
    · cases hx
      obtain ⟨hok, hle⟩ := h.ask hk (.inl rfl)
      exact ⟨hok, hle, trivial⟩
    · cases hx
      obtain ⟨hok, hle⟩ := h.ask hk (.inr rfl)
      exact ⟨hok, hle, trivial⟩
    · cases hx
      exact ⟨h, .refl _, trivial⟩
  | ended => cases hx

theorem sweeps_ok {s : Crew.State Till Sweep} (h : sweeps.machine.Reachable s) : s.shared.Ok := by
  refine (Crew.invariant (P := Till.Ok) (Q := fun t p => t.Ok ∧ t.Knows p) h ?_ ?_ ?_ ?_).1
  · exact ⟨.init, List.nodup_nil, nofun, nofun, fun _ => trivial, fun _ => rfl, nofun,
      fun _ => Int.le_refl 0⟩
  · intro t p hok hbegins
    cases p with
    | next e => exact ⟨hok, trivial⟩
    | _ => cases hbegins
  · intro t p a t' p' hok hknows hx
    obtain ⟨hok', hle, hknows'⟩ := sweepStep_ok hok hknows.2 hx
    exact ⟨hok', ⟨hok', hknows'⟩, fun q hq => ⟨hok', hq.2.grow hok hok' hle⟩⟩
  · intro t w t' hok hx
    obtain ⟨hok', hle⟩ := hok.world hx
    exact ⟨hok', fun q hq => ⟨hok', hq.2.grow hok hok' hle⟩⟩

/-! ### Recovery never takes more than is owed -/

/-- A Recovery row, as the books have it. -/
def Recovery.asRecovered (r : Recovery) : Recovered := ⟨r.entityID, r.sequence, r.amount⟩

/-- What reached the receivable account is of a row that is live. -/
theorem Till.Ok.row_of_recovered (h : t.Ok) {x : Running} (hx : x ∈ t.desk.books.txns)
    {c : Recovered} (hc : x.recovered = some c) :
    x.origin = .recovery c.entityID c.sequence c.amount ∧
      c ∈ ((t.rowsOf c.entityID).filter t.live).map Recovery.asRecovered := by
  unfold Running.recovered at hc
  split at hc
  · rename_i owner sequence amount cleared cash horigin hlegs
    split at hc
    · rename_i hmoved
      cases hc
      refine ⟨horigin, ?_⟩
      rcases h.known x hx with ⟨r, hr, hrow⟩ | hknown
      · obtain ⟨ho, hseq, hamount⟩ := Origin.recovery.inj (horigin.symm.trans hrow)
        have hlive : t.live r = true := by
          unfold Till.live
          have hstate := h.sound.stateOf_eq hx
          rw [hrow] at hstate
          rw [show r.id = r.origin.request.id from rfl, hstate]
          exact (h.sound.txns x hx).live_of_recovered horigin hlegs hmoved
        refine List.mem_map.mpr ⟨r, List.mem_filter.mpr ⟨List.mem_filter.mpr ⟨hr, ?_⟩, hlive⟩, ?_⟩
        · exact decide_eq_true ho.symm
        · rw [Recovery.asRecovered, ho, hseq, hamount]
      · rw [horigin] at hknown
        exact hknown.elim
    · cases hc
  · cases hc

theorem sum_amountOf (e : Nat) (cs : List Recovered) : (cs.map (Recovered.amountOf e)).sum =
    ((cs.filter fun c => c.entityID = e).map fun c => (c.amount : Int)).sum := by
  induction cs with
  | nil => rfl
  | cons c cs ih =>
    rw [List.map_cons, List.sum_cons, ih, Recovered.amountOf]
    by_cases hc : c.entityID = e <;> simp [hc]

/-- What the receivable account was paid is claimed. -/
theorem Till.Ok.recovered_le_claimed (h : t.Ok) (e : Nat) :
    ((t.desk.books.txns.filterMap Running.recovered).map (Recovered.amountOf e)).sum ≤
      (t.claimed e : Int) := by
  have hnodup : (t.desk.books.txns.filterMap Running.recovered).Nodup := by
    apply List.pairwise_filterMap.mpr
    have hdistinct : t.desk.books.txns.Nodup := List.Nodup.of_map _ h.sound.ids
    refine List.Pairwise.imp_of_mem ?_ hdistinct
    intro x y hx hy hne c hcx c' hcy heq
    subst heq
    refine hne (h.sound.eq_of_id hx hy ?_)
    rw [(h.row_of_recovered hx hcx).1, (h.row_of_recovered hy hcy).1]
  have hsubset : (t.desk.books.txns.filterMap Running.recovered).filter (fun c => c.entityID = e) ⊆
      ((t.rowsOf e).filter t.live).map Recovery.asRecovered := by
    intro c hc
    obtain ⟨hmem, howner⟩ := List.mem_filter.mp hc
    obtain ⟨x, hx, hcx⟩ := List.mem_filterMap.mp hmem
    have hrow := (h.row_of_recovered hx hcx).2
    rwa [of_decide_eq_true howner] at hrow
  have hle := sum_le_of_subset (f := fun c : Recovered => (c.amount : Int))
    (fun c _ => Int.natCast_nonneg _) (hnodup.filter _) hsubset
  rw [sum_amountOf]
  unfold Till.claimed
  rw [Nat.cast_list_sum]
  simpa [List.map_map, Function.comp_def, Recovery.asRecovered] using hle

/-- In every state of any sweeps, the Recoveries of an entity that Go has completed or
may still complete come to no more than its debt returns that Go has completed, its
receivable account is not in credit, and at most one of its Recoveries has not
concluded. -/
theorem recovery_within_debt {s : Crew.State Till Sweep} (h : sweeps.machine.Reachable s)
    (e : Nat) :
    (s.shared.claimed e : Int) ≤ s.shared.desk.books.debt e ∧
      s.shared.desk.books.posted (ofEntity e .receivable) ≤ 0 ∧
      ∀ r ∈ s.shared.rowsOf e, ∀ r' ∈ s.shared.rowsOf e,
        concluded (s.shared.desk.books.stateOf r.id) = false →
        concluded (s.shared.desk.books.stateOf r'.id) = false → r = r' := by
  have hok := sweeps_ok h
  have hcovered := hok.covered e
  refine ⟨hcovered, ?_, ?_⟩
  · rw [hok.sound.posted_receivable]
    have hpaid := hok.recovered_le_claimed e
    have hlent := hok.sound.debt_le e
    omega
  · -- all but the last have concluded where Ruby can see it
    have hlast : ∀ r ∈ s.shared.rowsOf e,
        concluded (s.shared.desk.books.stateOf r.id) = false →
        r.sequence = (s.shared.rowsOf e).length := by
      intro r hr hopen
      by_contra hne
      have hle := (hok.sequence_le hr).2
      have hc := hok.followed e r hr (by omega)
      rw [(hok.shows r.id).eq_of_concluded hc, hc] at hopen
      cases hopen
    intro r hr r' hr' hopen hopen'
    exact hok.row_unique hr hr' ((hlast r hr hopen).trans (hlast r' hr' hopen').symm)

/-- A deposit clears, is returned late, and a sweep records and sends a Recovery of the
debt. -/
def owing : List (Crew.Move Sweep SweepAnswer TillMove) :=
  .world (.initiate deposited) :: depositMoves.map (fun m => .world (.desk (.go m))) ++
    [.world (.desk (.record deposited)), .world (.desk (.notice deposited)),
      .world (.returning deposited), .world (.desk (.go (.accept (.lateReturn deposited true)))),
      .world (.desk (.go (.start 1))), .world (.desk (.go (.leg 1 0 .dispatch))),
      .world (.desk (.go (.leg 1 0 .post))), .world (.desk (.go (.complete 1))),
      .world (.project (.lateReturn deposited.id) .completed),
      .spawn (.next 1), .step 0 {}, .step 0 { cleared := ⟨70, 1⟩ }, .step 0 {}, .step 0 {},
      .step 0 {}, .step 0 {}]

theorem owing_recovered : ∃ s, sweeps.machine.Reachable s ∧ s.shared.claimed 1 = 70 ∧
    70 ≤ s.shared.desk.books.debt 1 := by
  obtain ⟨s, hs, hclaimed⟩ := Machine.exists_of_play sweeps.machine (fun _ _ => True)
    (·.shared.claimed 1 = 70) owing (by decide +kernel)
  have hle := (recovery_within_debt hs 1).1
  rw [hclaimed] at hle
  exact ⟨s, hs, hclaimed, hle⟩

end MoneyFlow.Ach
