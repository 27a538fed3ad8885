import MoneyFlow.Securities.Services

/-!
# MoneyFlow.Securities.Rows

What holds of the rows and of every service at work, in any run.

Rows stay as they were created, and the read model only ever shows more
(`Register.Later`), so what a service found stays true until it acts on it. What does not
stay true is that something was *not* there: whether a Repayment is still unsplit, or
how much principal is still unclaimed, another service may have changed in between.
-/

namespace MoneyFlow.Securities

open Concurrent
open Books (Uuid TransactionState StartRequest Upto Security mayComplete)

variable {r : Repayment} {id : Uuid} {shares rest : List Share} {phase : Phase} {share : Share}
  {own : List Disbursement} {p : Service} {row : Disbursement}

theorem Register.send_eq (s : Register) (request : StartRequest) (e : Answer) :
    s.send request e =
      { s with sent := if e.delivered then s.sent ++ [request] else s.sent } := by
  unfold Register.send
  split <;> rfl

theorem mem_send {s : Register} {request q : StartRequest} {e : Answer}
    (h : q ∈ (s.send request e).sent) : q ∈ s.sent ∨ q = request := by
  rw [Register.send_eq] at h
  change q ∈ ite _ _ _ at h
  split at h
  · rcases List.mem_append.mp h with h | h
    · exact .inl h
    · exact .inr (List.mem_singleton.mp h)
  · exact .inl h

/-! ### Later -/

/-- The rows are still there, and Go and the read model are no less far. -/
structure Register.Later (s t : Register) : Prop where
  subscriptions : s.subscriptions.Sublist t.subscriptions
  repayments : s.repayments.Sublist t.repayments
  disbursements : s.disbursements.Sublist t.disbursements
  go : ∀ id, Upto (s.go id) (t.go id)
  projected : ∀ id, Upto (s.projected id) (t.projected id)

theorem Register.Later.refl (s : Register) : s.Later s :=
  ⟨.refl _, .refl _, .refl _, fun _ => .refl _, fun _ => .refl _⟩

theorem Register.later_disbursements (s : Register) (rows : List Disbursement) :
    s.Later { s with disbursements := s.disbursements ++ rows } :=
  { Later.refl s with disbursements := List.sublist_append_left _ _ }

theorem Register.later_send (s : Register) (request : StartRequest) (e : Answer) :
    s.Later (s.send request e) := by
  rw [Register.send_eq]
  exact { Later.refl s with }

theorem upto_update {shown : Uuid → Option TransactionState} {state : TransactionState}
    (h : Upto (shown id) (some state)) (id' : Uuid) :
    Upto (shown id') (Function.update shown id (some state) id') := by
  by_cases hid : id' = id
  · subst hid
    rw [Function.update_self]
    exact h
  · rw [Function.update_of_ne hid]
    exact .refl _

section

variable {security : Security} {s t : Register} {e : Answer}

theorem Recording.Steps.later {call next : Recording} (h : call.Steps security s e t next) :
    s.Later t := by
  cases h with
  | insert principal interest hid hnew =>
    exact { Register.Later.refl s with repayments := List.sublist_append_left _ _ }
  | send repayment next hnext => exact s.later_send _ _
  | _ => exact .refl s

theorem Phase.Steps.later {todo todo' : List Repayment} {phase' : Phase}
    (h : phase.Steps security s e todo t todo' phase') : s.Later t := by
  cases h with
  | commit todo r shares own hnew | record todo r share rest hmissing =>
    exact s.later_disbursements _
  | start todo r share row rest => exact s.later_send _ _
  | _ => exact .refl s

theorem Register.Happens.later (h : s.Happens t) : s.Later t := by
  cases h with
  | purchase row hpos =>
    exact { Register.Later.refl s with subscriptions := List.sublist_append_left _ _ }
  | draw id => exact { Register.Later.refl s with }
  | advance id state hup => exact { Register.Later.refl s with go := upto_update hup }
  | project id state hup hshown =>
    exact { Register.Later.refl s with projected := upto_update hup }

/-- What was seen complete still is. -/
theorem Register.Later.seen (h : s.Later t) (hs : s.seen id = true) : t.seen id = true := by
  have hdone : s.projected id = some .completed := by simpa [Register.seen] using hs
  have hup := h.projected id
  rw [hdone] at hup
  simp [Register.seen, hup.eq_of_concluded rfl]

end

/-! ### What is known -/

/-- The Repayment is recorded and was seen complete. -/
def Register.Collected (s : Register) (r : Repayment) : Prop :=
  r ∈ s.repayments ∧ s.seen r.id = true

/-- The share has a row. -/
def Register.HasRow (s : Register) (r : Repayment) (share : Share) : Prop :=
  (share.row r).id ∈ s.disbursements.map Disbursement.id

/-- What holds of the rows. A Disbursement's request is made from its row. -/
structure Register.Kept (security : Security) (s : Register) : Prop where
  shown : ∀ id, Upto (s.projected id) (s.go id)
  amounts : ∀ row ∈ s.subscriptions, 0 < row.amount
  parts : ∀ r ∈ s.repayments, 0 ≤ r.principal ∧ 0 ≤ r.interest ∧ 0 < r.principal + r.interest
  ids : (s.repayments.map (·.id)).Nodup
  owners : ∀ row ∈ s.disbursements, ∃ r, s.Collected r ∧ row.repaymentID = r.id
  keys : (s.disbursements.map Disbursement.id).Nodup
  nonneg : ∀ row ∈ s.disbursements, 0 ≤ row.principal
  requests : ∀ q ∈ s.sent, ∀ repaymentID investor, q.id = .disbursement repaymentID investor →
    ∃ row ∈ s.disbursements, row.repaymentID = repaymentID ∧ row.investorEntityID = investor ∧
      q = Books.DisbursementShape.startRequest security repaymentID investor row.principal.toNat
        row.interest.toNat

/-- What a call of `RecordRepayment` has made sure of. -/
def Recording.Knows : Recording → Prop
  | .drawn principal interest | .subscribed principal interest _ | .validated principal interest =>
    0 ≤ principal ∧ 0 ≤ interest ∧ 0 < principal + interest
  | .recorded r => r.id.generated = true
  | _ => True

/-- What a sweep knows in its transaction. -/
structure Creates (s : Register) (r : Repayment) (shares rest : List Share)
    (own : List Disbursement) : Prop where
  collected : s.Collected r
  owned : ∀ row ∈ own, row.repaymentID = r.id ∧ 0 ≤ row.principal
  keys : (own.map Disbursement.id).Nodup
  nonneg : ∀ share ∈ shares, 0 ≤ share.principal
  left : rest ⊆ shares
  done : ∀ share ∈ shares, share ∈ rest ∨
    (share.row r).id ∈ (s.disbursements ++ own).map Disbursement.id

/-- What a sweep has made sure of. -/
def Phase.Knows (s : Register) : Phase → Prop
  | .called | .sweeping | .returned => True
  | .unsplit r | .settled r _ => s.Collected r
  | .recording r shares rest own => Creates s r shares rest own
  | .creating r shares share rest own =>
    Creates s r shares (share :: rest) own ∧ (share.row r).id ∉ own.map Disbursement.id
  | .sending r rest => s.Collected r ∧ ∀ share ∈ rest, s.HasRow r share
  | .calling r share rest => s.Collected r ∧ ∀ x ∈ share :: rest, s.HasRow r x
  | .starting r share row rest => s.Collected r ∧ (∀ x ∈ rest, s.HasRow r x) ∧
    row ∈ s.disbursements ∧ row.id = (share.row r).id

/-- What a service has made sure of. -/
def Service.Knows (s : Register) : Service → Prop
  | .record call => call.Knows
  | .sweep w => w.phase.Knows s ∧ ∀ r ∈ w.todo, s.Collected r

section

variable {security : Security} {s t : Register} {e : Answer}

theorem Register.Later.collected (h : s.Later t) (hr : s.Collected r) : t.Collected r :=
  ⟨h.repayments.subset hr.1, h.seen hr.2⟩

theorem Register.Later.hasRow (h : s.Later t) (hr : s.HasRow r share) : t.HasRow r share :=
  (h.disbursements.map _).subset hr

theorem Creates.later (hc : Creates s r shares rest own) (h : s.Later t) :
    Creates t r shares rest own :=
  { hc with
    collected := h.collected hc.collected
    done := fun share hshare => (hc.done share hshare).imp_right
      fun hrow => ((h.disbursements.append (.refl own)).map _).subset hrow }

/-- What a sweep knows stays true. -/
theorem Phase.Knows.later (hk : phase.Knows s) (h : s.Later t) : phase.Knows t := by
  cases phase with
  | unsplit r | settled r repaid => exact h.collected hk
  | recording r shares rest own => exact Creates.later hk h
  | creating r shares share rest own => exact ⟨hk.1.later h, hk.2⟩
  | sending r rest | calling r share rest =>
    exact ⟨h.collected hk.1, fun x hx => h.hasRow (hk.2 x hx)⟩
  | starting r share row rest =>
    exact ⟨h.collected hk.1, fun x hx => h.hasRow (hk.2.1 x hx),
      h.disbursements.subset hk.2.2.1, hk.2.2.2⟩
  | _ => trivial

theorem Service.Knows.later (hk : p.Knows s) (h : s.Later t) : p.Knows t := by
  cases p with
  | record call => exact hk
  | sweep w => exact ⟨hk.1.later h, fun r hr => h.collected (hk.2 r hr)⟩

/-! ### One step -/

/-- A request that is not a Disbursement's. -/
theorem Register.Kept.send (h : s.Kept security) {request : StartRequest}
    (hreq : ∀ repaymentID investor, request.id = .disbursement repaymentID investor →
      ∃ row ∈ s.disbursements, row.repaymentID = repaymentID ∧ row.investorEntityID = investor ∧
        request = Books.DisbursementShape.startRequest security repaymentID investor
          row.principal.toNat row.interest.toNat) :
    (s.send request e).Kept security := by
  have hrequests : ∀ q ∈ (s.send request e).sent, _ := fun q hq => (mem_send hq).elim
    (fun hold => h.requests q hold) (fun hnew => by subst hnew; exact hreq)
  rw [Register.send_eq] at hrequests ⊢
  exact { h with requests := hrequests }

/-- More rows, whose keys were not there. -/
theorem Register.Kept.create (h : s.Kept security) {rows : List Disbursement}
    (howners : ∀ row ∈ rows, ∃ r, s.Collected r ∧ row.repaymentID = r.id)
    (hkeys : (rows.map Disbursement.id).Nodup) (hnonneg : ∀ row ∈ rows, 0 ≤ row.principal)
    (hnew : ∀ row ∈ rows, row.id ∉ s.disbursements.map Disbursement.id) :
    ({ s with disbursements := s.disbursements ++ rows } : Register).Kept security := by
  refine { h with owners := ?_, keys := ?_, nonneg := ?_, requests := ?_ }
  · intro row hrow
    exact (List.mem_append.mp hrow).elim (h.owners row) (howners row)
  · rw [List.map_append]
    refine List.nodup_append.mpr ⟨h.keys, hkeys, ?_⟩
    intro id hid id' hid' heq
    obtain ⟨row, hrow, rfl⟩ := List.mem_map.mp hid'
    subst heq
    exact hnew row hrow hid
  · intro row hrow
    exact (List.mem_append.mp hrow).elim (h.nonneg row) (hnonneg row)
  · intro q hq repaymentID investor hid
    obtain ⟨row, hrow, hrest⟩ := h.requests q hq repaymentID investor hid
    exact ⟨row, List.mem_append_left _ hrow, hrest⟩

theorem Recording.Steps.kept {call next : Recording} (hstep : call.Steps security s e t next)
    (h : s.Kept security) (hk : call.Knows) : t.Kept security ∧ next.Knows := by
  cases hstep with
  | raise call error => exact ⟨h, trivial⟩
  | check principal interest hp hi hsome hdrawn => exact ⟨h, hp, hi, hsome⟩
  | read principal interest | validate principal interest total hle => exact ⟨h, hk⟩
  | insert principal interest hid hnew =>
    refine ⟨{ h with parts := ?_, ids := ?_, owners := ?_ }, hid⟩
    · intro r hr
      rcases List.mem_append.mp hr with hr | hr
      · exact h.parts r hr
      · obtain rfl := List.mem_singleton.mp hr
        exact hk
    · rw [List.map_append]
      refine List.nodup_append.mpr ⟨h.ids, List.nodup_singleton _, ?_⟩
      intro id hid' id' hid'' heq
      obtain rfl := List.mem_singleton.mp hid''
      subst heq
      exact hnew hid'
    · intro row hrow
      obtain ⟨r, hr, hid'⟩ := h.owners row hrow
      exact ⟨r, ⟨List.mem_append_left _ hr.1, hr.2⟩, hid'⟩
  | send repayment next hnext =>
    refine ⟨h.send ?_, ?_⟩
    · intro repaymentID investor hid
      have hgen : (Uuid.disbursement repaymentID investor).generated = true := by
        rw [← hid]
        exact hk
      cases hgen
    · rcases hnext with rfl | rfl <;> trivial

/-- A share's row has the key of the row it was made from. -/
theorem Disbursement.share_row_id (h : row.repaymentID = r.id) : (row.share.row r).id = row.id := by
  simp [Disbursement.share, Share.row, Disbursement.id, h]

theorem Register.mem_rowsOf : row ∈ s.rowsOf id ↔ row ∈ s.disbursements ∧ row.repaymentID = id := by
  simp [Register.rowsOf]

theorem Register.mem_recorded :
    row ∈ s.recorded id ↔ row ∈ s.disbursements ∧ row.repaymentID = id :=
  (List.mem_insertionSort _).trans Register.mem_rowsOf

/-- In a transaction, from the split on. -/
theorem Creates.begin (hr : s.Collected r) {positions : List Position}
    (hsplits : Allocation.Splits r positions shares) : Creates s r shares shares [] where
  collected := hr
  owned := nofun
  keys := List.nodup_nil
  nonneg share hshare := (hsplits.nonneg share hshare).1
  left := List.Subset.refl _
  done _ hshare := .inl hshare

/-- A share whose row is there is done. -/
theorem Creates.keep (h : Creates s r shares (share :: rest) own)
    (hfound : (share.row r).id ∈ (s.disbursements ++ own).map Disbursement.id) :
    Creates s r shares rest own :=
  { h with
    left := fun _ hx => h.left (List.mem_cons_of_mem _ hx)
    done := by
      intro x hx
      rcases h.done x hx with hmem | hrow
      · rcases List.mem_cons.mp hmem with rfl | hmem
        · exact .inr hfound
        · exact .inl hmem
      · exact .inr hrow }

/-- A share whose row is created is done. -/
theorem Creates.create (h : Creates s r shares (share :: rest) own)
    (hnew : (share.row r).id ∉ own.map Disbursement.id) :
    Creates s r shares rest (own ++ [share.row r]) where
  collected := h.collected
  owned := by
    intro row hrow
    rcases List.mem_append.mp hrow with hrow | hrow
    · exact h.owned row hrow
    · obtain rfl := List.mem_singleton.mp hrow
      exact ⟨rfl, h.nonneg share (h.left List.mem_cons_self)⟩
  keys := by
    rw [List.map_append]
    refine List.nodup_append.mpr ⟨h.keys, List.nodup_singleton _, ?_⟩
    intro id hid id' hid' heq
    obtain rfl := List.mem_singleton.mp hid'
    subst heq
    exact hnew hid
  nonneg := h.nonneg
  left _ hx := h.left (List.mem_cons_of_mem _ hx)
  done := by
    intro x hx
    rw [← List.append_assoc, List.map_append]
    rcases h.done x hx with hmem | hrow
    · rcases List.mem_cons.mp hmem with rfl | hmem
      · exact .inr (List.mem_append_right _ (List.mem_singleton.mpr rfl))
      · exact .inl hmem
    · exact .inr (List.mem_append_left _ hrow)

theorem Phase.Steps.kept {todo todo' : List Repayment} {phase' : Phase}
    (hstep : phase.Steps security s e todo t todo' phase') (h : s.Kept security)
    (hk : phase.Knows s) (htodo : ∀ r ∈ todo, s.Collected r) :
    t.Kept security ∧ phase'.Knows t ∧ ∀ r ∈ todo', t.Collected r := by
  cases hstep with
  | due todo repaymentID =>
    refine ⟨h, trivial, ?_⟩
    intro r hr
    obtain ⟨hmem, hdue⟩ := List.mem_filter.mp hr
    simp only [Bool.and_eq_true] at hdue
    exact ⟨hmem, hdue.1.1⟩
  | finish => exact ⟨h, trivial, nofun⟩
  | unsplit r todo hrows =>
    exact ⟨h, htodo r List.mem_cons_self, fun x hx => htodo x (List.mem_cons_of_mem _ hx)⟩
  | split r todo =>
    refine ⟨h, ⟨htodo r List.mem_cons_self, ?_⟩, fun x hx => htodo x (List.mem_cons_of_mem _ hx)⟩
    intro share hshare
    obtain ⟨row, hrow, rfl⟩ := List.mem_map.mp hshare
    obtain ⟨hmem, hid⟩ := Register.mem_recorded.mp hrow
    change (row.share.row r).id ∈ _
    rw [Disbursement.share_row_id hid]
    exact List.mem_map_of_mem hmem
  | settle todo r => exact ⟨h, hk, htodo⟩
  | allocate todo r repaid shares hshares =>
    exact ⟨h, .begin hk (Allocation.splits_of_ok (s.investors_nodup repaid) hshares), htodo⟩
  | next todo phase => exact ⟨h, trivial, htodo⟩
  | keep todo r shares share rest own hfound => exact ⟨h, Creates.keep hk hfound, htodo⟩
  | miss todo r shares share rest own hmissing =>
    refine ⟨h, ⟨hk, ?_⟩, htodo⟩
    intro hown
    rw [List.map_append] at hmissing
    exact hmissing (List.mem_append_right _ hown)
  | create todo r shares share rest own => exact ⟨h, hk.1.create hk.2, htodo⟩
  | commit todo r shares own hnew =>
    have hc : Creates s r shares [] own := hk
    have hlater := s.later_disbursements own
    refine ⟨h.create ?_ hc.keys (fun row hrow => (hc.owned row hrow).2) hnew,
      ⟨hlater.collected hc.collected, ?_⟩, fun x hx => hlater.collected (htodo x hx)⟩
    · intro row hrow
      exact ⟨r, hc.collected, (hc.owned row hrow).1⟩
    · intro share hshare
      exact (hc.done share hshare).resolve_left (List.not_mem_nil)
  | skip todo r share rest =>
    exact ⟨h, ⟨hk.1, fun x hx => hk.2 x (List.mem_cons_of_mem _ hx)⟩, htodo⟩
  | attempt todo r share rest => exact ⟨h, hk, htodo⟩
  | found todo r share rest row hrow hid =>
    exact ⟨h, ⟨hk.1, fun x hx => hk.2 x (List.mem_cons_of_mem _ hx), hrow, hid⟩, htodo⟩
  | record todo r share rest hmissing => exact absurd (hk.2 share List.mem_cons_self) hmissing
  | start todo r share row rest =>
    obtain ⟨hr, hrest, hrow, hid⟩ := hk
    have hlater := s.later_send (row.request security r share) e
    refine ⟨h.send ?_, ⟨hlater.collected hr, fun x hx => hlater.hasRow (hrest x hx)⟩,
      fun x hx => hlater.collected (htodo x hx)⟩
    intro repaymentID investor hreq
    have hids : row.repaymentID = r.id ∧ row.investorEntityID = share.investorEntityID := by
      simpa [Disbursement.id, Share.row] using hid
    have hkey : r.id = repaymentID ∧ share.investorEntityID = investor := by
      simpa [Disbursement.request, Books.DisbursementShape.startRequest] using hreq
    obtain ⟨rfl, rfl⟩ := hkey
    exact ⟨row, hrow, hids.1, hids.2, rfl⟩

theorem Register.Happens.kept (hw : s.Happens t) (h : s.Kept security) : t.Kept security := by
  have hlater := hw.later
  have howners : ∀ row ∈ s.disbursements, ∃ r, t.Collected r ∧ row.repaymentID = r.id := by
    intro row hrow
    obtain ⟨r, hr, hid⟩ := h.owners row hrow
    exact ⟨r, hlater.collected hr, hid⟩
  cases hw with
  | purchase row hpos =>
    refine { h with amounts := ?_, owners := howners }
    intro x hx
    rcases List.mem_append.mp hx with hx | hx
    · exact h.amounts x hx
    · obtain rfl := List.mem_singleton.mp hx
      exact hpos
  | draw id => exact { h with owners := howners }
  | advance id state hup =>
    exact { h with
      shown := fun id' => (h.shown id').trans (upto_update hup id'), owners := howners }
  | project id state hup hshown =>
    refine { h with shown := ?_, owners := howners }
    intro id'
    by_cases hid : id' = id
    · subst hid
      change Upto (Function.update s.projected id' (some state) id') (s.go id')
      rw [Function.update_self]
      exact hshown
    · change Upto (Function.update s.projected id (some state) id') (s.go id')
      rw [Function.update_of_ne hid]
      exact h.shown id'

/-! ### Whole runs -/

theorem kept_init (security : Security) : ({} : Register).Kept security where
  shown _ := trivial
  amounts := nofun
  parts := nofun
  ids := List.nodup_nil
  owners := nofun
  keys := List.nodup_nil
  nonneg := nofun
  requests := nofun

/-- A service starts with nothing to know. -/
theorem Service.knows_of_start (h : (crew security).start s p = true) : p.Knows s := by
  rcases start_cases h with ⟨principal, interest, rfl⟩ | ⟨repaymentID, rfl⟩
  · trivial
  · exact ⟨trivial, nofun⟩

/-- A step keeps the rows, and what the service knows. -/
theorem step_kept {p' : Service} (hstep : (crew security).step s p e = some (t, p'))
    (h : s.Kept security) (hk : p.Knows s) : s.Later t ∧ t.Kept security ∧ p'.Knows t := by
  rcases step_cases hstep with ⟨call, next, rfl, rfl, hcall⟩ | ⟨w, w', rfl, rfl, hphase⟩
  · obtain ⟨hkept, hknows⟩ := hcall.kept h hk
    exact ⟨hcall.later, hkept, hknows⟩
  · obtain ⟨hkept, hknows⟩ := hphase.kept h hk.1 hk.2
    exact ⟨hphase.later, hkept, hknows⟩

/-- In every run, whatever the condition on its moves. -/
theorem reaches_kept {cond : Run → RunMove → Prop} {run : Run}
    (h : (crew security).machine.Reaches cond run) :
    run.shared.Kept security ∧ ∀ p ∈ run.procs, p.Knows run.shared := by
  refine Crew.invariant h (kept_init security) (fun _ _ _ hstart => Service.knows_of_start hstart)
    ?_ ?_
  · intro s p e t p' hs hp hstep
    obtain ⟨hlater, hkept, hknows⟩ := step_kept hstep hs hp
    exact ⟨hkept, hknows, fun q hq => hq.later hlater⟩
  · intro s w t hs hw
    have hhappens := world_cases hw
    exact ⟨hhappens.kept hs, fun q hq => hq.later hhappens.later⟩

/-- Every request for a Repayment's share is the same, in every run. -/
theorem Register.Kept.requests_agree (h : s.Kept security) {q q' : StartRequest}
    (hq : q ∈ s.sent) (hq' : q' ∈ s.sent) {repaymentID : Uuid} {investor : Nat}
    (hid : q.id = .disbursement repaymentID investor)
    (hid' : q'.id = .disbursement repaymentID investor) : q = q' := by
  obtain ⟨row, hrow, hr, hi, rfl⟩ := h.requests q hq _ _ hid
  obtain ⟨row', hrow', hr', hi', rfl⟩ := h.requests q' hq' _ _ hid'
  have hkey : row.id = row'.id := by simp [Disbursement.id, hr, hr', hi, hi']
  obtain rfl : row = row' := List.inj_on_of_nodup_map h.keys hrow hrow' hkey
  rfl

end

end MoneyFlow.Securities
