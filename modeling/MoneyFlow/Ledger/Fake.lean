import MoneyFlow.Concurrent.Machine
import MoneyFlow.Ledger.Caps
import MoneyFlow.Sums

/-!
# MoneyFlow.Ledger.Fake

`go/internal/ledger/fake_client.go` over whole sequences of calls.

Unlike the real ledger it remembers no refusal. It judges a run on copies of the accounts
and looks for used ids only among what earlier runs applied, so it keeps double entry as
long as no run names an id twice and every transfer is between two accounts
(`double_entry`); and its caps count reserved credits as money (`within_caps`).
-/

namespace MoneyFlow.Ledger

open Concurrent

variable {l : Ledger} {t : LedgerTransfer} {x : Id} {es : List (Id × StoredTransfer)}
  {run : List LedgerTransfer}

/-- Nothing refused is remembered. -/
def forget (l : Ledger) : Ledger := { l with refused := [] }

/-- What `FakeClient.CreateTransfers` leaves. -/
def fakeTransfers (l : Ledger) (ts : List LedgerTransfer) : Ledger :=
  match checkBatchSize ts.length, splitRuns (·.linked) ts with
  | .ok (), some runs => runs.foldl (fun l run => (l.createTransferRun run).2.forget) l
  | _, _ => l

/-- A call that may change it. -/
inductive Call
  | createAccounts (accounts : List Account)
  | createTransfers (transfers : List LedgerTransfer)

/-- What a call leaves. -/
def call (l : Ledger) : Call → Ledger
  | .createAccounts accounts => (l.createAccounts accounts).2
  | .createTransfers transfers => l.fakeTransfers transfers

/-- `NewFakeClient`, and the calls made of it. -/
def fakeClient : Machine Ledger Call := ⟨Ledger.empty, fun l c => some (l.call c)⟩

/-- What every run of a call keeps, the call keeps. -/
theorem fakeTransfers_rule {P : Ledger → List LedgerTransfer → Prop} {ts : List LedgerTransfer}
    (h : P l ts)
    (hrun : ∀ run ∈ (splitRuns (·.linked) ts).getD [], ∀ l rest, P l (run ++ rest) →
      P (l.createTransferRun run).2.forget rest)
    (hnil : ∀ l rest, P l rest → P l []) : P (l.fakeTransfers ts) [] := by
  unfold fakeTransfers
  split
  · rename_i runs _ hsplit
    rw [hsplit, Option.getD_some] at hrun
    rw [← splitRuns_flatten hsplit] at h
    clear hsplit
    induction runs generalizing l with
    | nil => exact h
    | cons run rest ih =>
      exact ih (hrun run List.mem_cons_self l _ h) fun r hr => hrun r (List.mem_cons_of_mem _ hr)
  · exact hnil l ts h

/-! ### Reservations -/

/-- What the transfer has in reserve, if it is an open reservation between such accounts. -/
def openWeight (l : Ledger) (q : Id → Id → Bool) (e : Id × StoredTransfer) : Nat :=
  if e.2.kind = .pending ∧ (l.pending e.1).any (·.status == .open) = true ∧
    q e.2.debitAccountID e.2.creditAccountID = true then e.2.minorUnits.toNat else 0

/-- A settlement between such accounts. -/
def settling (q : Id → Id → Bool) (st : StoredTransfer) : Bool :=
  st.kind.settles.isSome && q st.debitAccountID st.creditAccountID

/-- A reservation between such accounts. -/
def reservation (q : Id → Id → Bool) (st : StoredTransfer) : Bool :=
  st.kind == .pending && q st.debitAccountID st.creditAccountID

/-- What was reserved was settled or is open, between whatever accounts. -/
def Matched (l : Ledger) : Prop := ∀ q, amount (settling q) l.transfers +
  (l.transfers.map (l.openWeight q)).sum = amount (reservation q) l.transfers

theorem Matched.commit (h : l.Matched) (hs : l.Sound) (hnew : t.id ∉ l.ids)
    (hres : t.kind.settles.isSome = true → l.Reserves t) : (l.commit t).Matched := by
  intro q
  have hsum := h q
  have hother : ∀ e ∈ l.transfers, e.1 ≠ t.id := fun e he heq => hnew (heq ▸ mem_ids_of_mem he)
  rw [commit_transfers, amount_snoc, amount_snoc, List.map_append, List.sum_append]
  cases ht : t.kind.settles with
  | none =>
    have hsame : l.transfers.map ((l.commit t).openWeight q) =
        l.transfers.map (l.openWeight q) := by
      refine List.map_congr_left fun e he => ?_
      rw [openWeight, openWeight, commit_pending_other l t (fun _ => hother e he) (by simp [ht])]
    rw [hsame]
    cases hk : t.kind <;> simp [hk, TransferKind.settles] at ht <;>
      simp [settling, reservation, openWeight, StoredTransfer.of, Ledger.commit, hk,
        TransferKind.settles] <;> omega
  | some s =>
    -- the reservation that it settles is no longer open
    obtain ⟨st, hst, hkind⟩ := hs.reservation _ _ (hres (by rw [ht]; rfl))
    obtain ⟨rec, hrec, hd, hc, hm⟩ := hs.reserved _ st hst hkind
    cases (hres (by rw [ht]; rfl)).symm.trans hrec
    have hreplace : (l.transfers.map ((l.commit t).openWeight q)).sum + l.openWeight q _ =
        (l.transfers.map (l.openWeight q)).sum + (l.commit t).openWeight q _ :=
      sum_replace Prod.fst hs.nodup hst fun e he hne => by
        rw [openWeight, openWeight, commit_pending_other l t (fun _ => hother e he) fun _ => hne]
    have hclosed : (l.commit t).openWeight q (t.pendingID, st) = 0 := by
      have hsettled : s ≠ .open := by
        rintro rfl
        cases hk : t.kind <;> simp [hk, TransferKind.settles] at ht
      simp [openWeight, commit_pending_settles ht, hrec, hsettled]
    have hopen : l.openWeight q (t.pendingID, st) =
        if q t.debitAccountID t.creditAccountID = true then t.minorUnits.toNat else 0 := by
      simp [openWeight, hkind, hrec, ← hd, ← hc, ← hm]
    have hk : t.kind ≠ .pending := fun hk => by simp [hk, TransferKind.settles] at ht
    have hown : (l.commit t).openWeight q (t.id, .of t) = 0 := by
      simp [openWeight, StoredTransfer.of, hk]
    rw [hclosed, hopen] at hreplace
    simp only [List.map_cons, List.map_nil, List.sum_cons, List.sum_nil, hown]
    simp [settling, reservation, StoredTransfer.of, ht, hk]
    omega

/-! ### What every call keeps -/

/-- What all transfers amount to. -/
def applied (l : Ledger) : Nat := amount (fun _ => true) l.transfers

/-- What the transfers asked for amount to. -/
def asked (ts : List LedgerTransfer) : Nat := (ts.map (·.minorUnits.toNat)).sum

/-- No run of the call names an id twice, every transfer is between two accounts, and
everything ever applied fits a word. -/
def Plain (l : Ledger) : Call → Prop
  | .createAccounts _ => True
  | .createTransfers ts =>
    (∀ run ∈ (splitRuns (·.linked) ts).getD [], (run.map (·.id)).Nodup ∧
      ∀ t ∈ run, t.debitAccountID ≠ t.creditAccountID) ∧ l.applied + asked ts < 2 ^ 64

instance (l : Ledger) : ∀ c, Decidable (l.Plain c)
  | .createAccounts _ => inferInstanceAs (Decidable True)
  | .createTransfers _ => inferInstanceAs (Decidable (_ ∧ _))

/-- An id is applied once, the totals are the sums, reservations are settled or open, and
there is room for these transfers. -/
structure Fair (l : Ledger) (rest : List LedgerTransfer) : Prop where
  sound : l.Sound
  accounted : Accounted l.accounts l.transfers
  matched : l.Matched
  fits : l.applied + asked rest < 2 ^ 64

theorem amount_unapplied_le (l : Ledger) (run : List LedgerTransfer) :
    amount (fun _ => true) (l.unapplied run) ≤ asked run := by
  induction run with
  | nil => exact Nat.le_refl 0
  | cons t ts ih =>
    rw [unapplied_cons]
    simp only [asked, List.map_cons, List.sum_cons] at ih ⊢
    split
    · omega
    · rw [amount_cons]
      exact Nat.add_le_add_left ih _

theorem Fair.keeps {rest : List LedgerTransfer} (h : Fair l (run ++ rest))
    (hids : (run.map (·.id)).Nodup) (hne : ∀ t ∈ run, t.debitAccountID ≠ t.creditAccountID) :
    Fair (l.createTransferRun run).2.forget rest := by
  obtain ⟨hs, hm⟩ := createTransferRun_rule (P := Matched) h.sound h.matched hids
    (fun _ _ hs hm hnew hres => hm.commit hs hnew hres) fun _ _ _ hm => hm
  refine ⟨⟨hs.nodup, nofun, hs.reserved, hs.reservation, hs.settled, hs.once⟩,
    createTransferRun_accounted h.accounted hne, hm, ?_⟩
  have hle := createTransferRun_amount_le l run fun _ => true
  have hnew := amount_unapplied_le l run
  have hfits := h.fits
  simp only [asked, List.map_append, List.sum_append, applied, forget] at hnew hfits ⊢
  omega

theorem Fair.call {c : Call} (h : Fair l []) (hc : l.Plain c) : Fair (l.call c) [] := by
  cases c with
  | createAccounts as =>
    obtain ⟨m, hm⟩ := l.createAccounts_accounts as
    have hacc : Accounted (l.createAccounts as).2.accounts _ := createAccounts_accounted h.accounted
    change Fair (l.createAccounts as).2 []
    rw [hm] at hacc ⊢
    exact ⟨h.sound.accounts m, hacc, h.matched, h.fits⟩
  | createTransfers ts =>
    refine fakeTransfers_rule (P := Fair) ⟨h.sound, h.accounted, h.matched, hc.2⟩
      (fun run hrun l rest hl => hl.keeps (hc.1 run hrun).1 (hc.1 run hrun).2) ?_
    intro l rest hl
    exact ⟨hl.sound, hl.accounted, hl.matched, Nat.lt_of_le_of_lt (Nat.le_add_right _ _) hl.fits⟩

theorem fair_of_reaches {cond : Ledger → Call → Prop} (hcond : ∀ l c, cond l c → l.Plain c)
    (h : fakeClient.Reaches cond l) : Fair l [] := by
  refine h.invariant (P := fun l => Fair l [])
    ⟨sound_empty, accounted_empty, fun _ => rfl, by decide⟩ fun l c l' hl hc hx => ?_
  cases hx
  exact hl.call (hcond l c hc)

/-! ### Double entry -/

/-- What the accounts of a list have posted on a side. -/
def postedOn (l : Ledger) (side : Side) (ids : List Id) : Nat :=
  (ids.map fun x => (l.accounts x).elim 0 fun a => (a.posted side).toNat).sum

/-- What they have reserved. -/
def reservedOn (l : Ledger) (side : Side) (ids : List Id) : Nat :=
  (ids.map fun x => (l.accounts x).elim 0 fun a => (a.reserved side).toNat).sum

/-- Over all accounts, debits are credits, what is pending is what the open reservations
amount to, and no id is applied twice. -/
structure DoubleEntry (l : Ledger) (ids : List Id) : Prop where
  posted : l.postedOn .debit ids = l.postedOn .credit ids
  reserved : ∀ side, l.reservedOn side ids = (l.transfers.map (l.openWeight fun _ _ => true)).sum
  once : l.ids.Nodup

/-- The list names every account, once. -/
def Names (l : Ledger) (ids : List Id) : Prop := ids.Nodup ∧ ∀ x ∉ ids, l.accounts x = none

theorem sum_accounts (side : Side) (p : StoredTransfer → Bool) {ids : List Id} (hids : ids.Nodup)
    (hall : ∀ e ∈ es, e.2.account side ∈ ids) :
    (ids.map fun x => amount (fun st => st.account side == x && p st) es).sum = amount p es := by
  unfold amount
  rw [← sum_by_key_of_mem (fun e : Id × StoredTransfer => e.2.minorUnits.toNat)
    (fun e => e.2.account side) hids fun e he => hall e (List.mem_of_mem_filter he)]
  simp only [List.filter_filter, beq_eq_decide]

theorem amount_le_applied (l : Ledger) (p : StoredTransfer → Bool) :
    amount p l.transfers ≤ l.applied := by
  unfold applied amount
  rw [List.filter_true]
  exact (List.filter_sublist.map _).sum_le_sum fun _ _ => Nat.zero_le _

theorem Fair.lt (h : Fair l []) (p : StoredTransfer → Bool) : amount p l.transfers < 2 ^ 64 :=
  Nat.lt_of_le_of_lt (amount_le_applied l p) h.fits

theorem Fair.posted (h : Fair l []) (side : Side) (x : Id) :
    ((l.accounts x).elim 0 fun a => (a.posted side).toNat) =
      amount (postsTo side x) l.transfers := by
  cases ha : l.accounts x with
  | none => exact (amount_postsTo_eq_zero (h.accounted.other ha side)).symm
  | some a =>
    rw [Option.elim_some, h.accounted.posted x a ha side, postedSum_eq,
      UInt64.toNat_ofNat_of_lt' (h.lt _)]

/-- The account on a side. -/
def pick : Side → Id → Id → Id
  | .debit, debit, _ => debit
  | .credit, _, credit => credit

theorem amount_settles (es : List (Id × StoredTransfer)) (side : Side) (x : Id) :
    amount (fun st => st.account side == x && st.kind.settles.isSome) es =
      amount (ofKind .postPending side x) es + amount (ofKind .voidPending side x) es := by
  rw [← amount_or fun st hst => by
    simp only [ofKind, Bool.and_eq_true, beq_iff_eq] at hst
    exact absurd (hst.1.2.symm.trans hst.2.2) (by decide)]
  congr 1
  funext st
  cases hk : st.kind <;> simp [ofKind, hk, TransferKind.settles]

theorem Fair.reserved (h : Fair l []) (side : Side) (x : Id) :
    ((l.accounts x).elim 0 fun a => (a.reserved side).toNat) +
        amount (fun st => st.account side == x && st.kind.settles.isSome) l.transfers =
      amount (ofKind .pending side x) l.transfers := by
  have hpick (st : StoredTransfer) :
      pick side st.debitAccountID st.creditAccountID = st.account side := by
    cases side <;> rfl
  have hmatched := h.matched fun d c => pick side d c == x
  have hpend : (reservation fun d c => pick side d c == x) = ofKind .pending side x := by
    funext st
    simp only [reservation, hpick, ofKind, Bool.and_comm]
  have hsettle : (settling fun d c => pick side d c == x) =
      fun st => st.account side == x && st.kind.settles.isSome := by
    funext st
    simp only [settling, hpick, Bool.and_comm]
  rw [hpend, hsettle] at hmatched
  have hkinds := amount_settles l.transfers side x
  cases ha : l.accounts x with
  | none =>
    have hother := h.accounted.other ha side
    rw [Option.elim_none, amount_eq_zero fun e he => by simp [hother e he],
      amount_eq_zero fun e he => by simp [ofKind, hother e he]]
  | some a =>
    have hlt := h.lt (ofKind .pending side x)
    rw [Option.elim_some, h.accounted.reserved x a ha side, reservedSum_eq,
      ← UInt64.ofNat_sub (by omega), ← UInt64.ofNat_sub (by omega),
      UInt64.toNat_ofNat_of_lt' (show _ - _ - _ < 2 ^ 64 by omega)]
    omega

/-- **The test ledger keeps double entry** while its calls are plain. -/
theorem double_entry (h : fakeClient.Reaches Plain l) {ids : List Id} (hids : l.Names ids) :
    l.DoubleEntry ids := by
  have hfair := fair_of_reaches (fun _ _ hc => hc) h
  have hall (side : Side) : ∀ e ∈ l.transfers, e.2.account side ∈ ids := by
    intro e he
    by_contra hx
    exact hfair.accounted.other (hids.2 _ hx) side e he rfl
  refine ⟨?_, fun side => ?_, hfair.sound.nodup⟩
  · unfold postedOn
    simp only [hfair.posted]
    exact (sum_accounts .debit StoredTransfer.posts hids.1 (hall .debit)).trans
      (sum_accounts .credit StoredTransfer.posts hids.1 (hall .credit)).symm
  · have hsum : (ids.map fun x => ((l.accounts x).elim 0 fun a => (a.reserved side).toNat) +
        amount (fun st => st.account side == x && st.kind.settles.isSome) l.transfers).sum = _ :=
      List.sum_map_add
    simp only [hfair.reserved] at hsum
    have hpend := sum_accounts side (·.kind == .pending) hids.1 (hall side)
    have hsettle := sum_accounts side (·.kind.settles.isSome) hids.1 (hall side)
    have hmatched := hfair.matched fun _ _ => true
    unfold settling reservation at hmatched
    unfold ofKind at hsum
    unfold reservedOn
    simp only [Bool.and_true] at hmatched
    omega

/-- An account is there only if it was asked for. -/
theorem call_none {c : Call} (h : l.accounts x = none)
    (hc : ∀ as, c = .createAccounts as → ∀ a ∈ as, a.id ≠ x) : (l.call c).accounts x = none := by
  cases c with
  | createAccounts as =>
    refine createAccounts_rule (P := fun l => l.accounts x = none) h fun l run hsub _ hl => ?_
    rcases l.storeAccounts_accounts run x with ⟨heq, -⟩ | ⟨-, a, ha, hid, -⟩
    · exact heq.trans hl
    · exact (hc as rfl a (hsub ha) hid).elim
  | createTransfers ts =>
    exact fakeTransfers_rule (P := fun l _ => l.accounts x = none) h
      (fun run _ l _ hl => createTransferRun_none run hl) fun _ _ hl => hl

/-- An account to create. -/
def account (n : Nat) (flags : AccountFlags) : Account := ⟨.uuid n, "USD", flags⟩

/-- A transfer of 100 between two accounts. -/
def transfer (n debit credit : Nat) (kind : TransferKind) : LedgerTransfer :=
  { id := .uuid n, debitAccountID := .uuid debit, creditAccountID := .uuid credit,
    minorUnits := 100, currency := "USD", kind := kind }

/-- From an account to itself: the copy with the debit is overwritten. And a run that names
an id twice applies it twice. -/
theorem self_transfer_unbalanced :
    (∃ l, fakeClient.Reachable l ∧ l.Names [.uuid 1] ∧ ¬ l.DoubleEntry [.uuid 1]) ∧
      ∃ l, fakeClient.Reachable l ∧ ¬ l.ids.Nodup := by
  constructor
  · refine ⟨_, (Machine.Reaches.init.step (m := .createAccounts [account 1 {}]) trivial rfl).step
      (m := .createTransfers [transfer 5 1 1 .regular]) trivial rfl, ⟨by decide, ?_⟩, fun h => ?_⟩
    · intro x hx
      refine call_none (call_none rfl ?_) nofun
      rintro as ⟨rfl⟩ a ha rfl
      simp_all [account]
    · exact absurd h.posted (by decide +kernel)
  · exact fakeClient.exists_of_play _ (fun l => ¬ l.ids.Nodup)
      [.createAccounts [account 1 {}, account 2 {}],
        .createTransfers [{ transfer 5 1 2 .regular with linked := true }, transfer 5 1 2 .regular]]
      (by decide +kernel)

theorem reserved_then_posted : ∃ l, fakeClient.Reaches Plain l ∧
    l.DoubleEntry [.uuid 1, .uuid 2] ∧ l.postedOn .debit [.uuid 1, .uuid 2] = 100 := by
  have h : fakeClient.Reaches Plain _ :=
    ((Machine.Reaches.init.step (m := .createAccounts [account 1 {}, account 2 {}])
      (by decide +kernel)
      rfl).step (m := .createTransfers [transfer 5 1 2 .pending]) (by decide +kernel) rfl).step
      (m := .createTransfers [{ transfer 6 1 2 .postPending with pendingID := .uuid 5 }])
      (by decide +kernel) rfl
  refine ⟨_, h, double_entry h ⟨by decide, fun x hx => ?_⟩, by decide +kernel⟩
  refine call_none (call_none (call_none rfl ?_) nofun) nofun
  rintro as ⟨rfl⟩ a ha rfl
  simp only [List.mem_cons, List.not_mem_nil, or_false] at ha
  rcases ha with rfl | rfl <;> simp [account] at hx

/-! ### Caps -/

/-- Whether the account's totals on a side are capped by those on the other. -/
def capped (a : StoredAccount) : Side → Bool
  | .debit => a.debitsMustNotExceedCredits
  | .credit => a.creditsMustNotExceedDebits

/-- Which accounts are capped, and how. -/
def caps (l : Ledger) (x : Id) (side : Side) : Bool := (l.accounts x).any (capped · side)

/-- Such a transfer makes a reservation or settles one. -/
def onReserve (kind : TransferKind) : Bool := kind == .pending || kind.settles.isSome

/-- What is reserved is not money of an account that is capped by it. -/
def Firm (cap : Id → Side → Bool) (st : StoredTransfer) : Prop :=
  onReserve st.kind = true → ∀ side, cap (st.account (opposite side)) side = false

instance (cap : Id → Side → Bool) (st : StoredTransfer) : Decidable (Firm cap st) :=
  decidable_of_iff (onReserve st.kind = true → cap (st.account .credit) .debit = false ∧
    cap (st.account .debit) .credit = false)
    ⟨fun h hk side => by cases side; exacts [(h hk).1, (h hk).2],
      fun h hk => ⟨h hk .debit, h hk .credit⟩⟩

/-- The call is plain, and reserves nothing towards a capped account. -/
def PlainAndFirm (l : Ledger) (c : Call) : Prop :=
  l.Plain c ∧ match c with
    | .createAccounts _ => True
    | .createTransfers ts => ∀ t ∈ ts, t.kind = .pending → Firm l.caps (.of t)

instance (l : Ledger) : ∀ c, Decidable (l.PlainAndFirm c)
  | .createAccounts _ => inferInstanceAs (Decidable (_ ∧ True))
  | .createTransfers _ => inferInstanceAs (Decidable (_ ∧ ∀ t ∈ _, _))

/-- The capped accounts are covered, and nothing is reserved towards them. -/
structure Capping (cap : Id → Side → Bool) (es : List (Id × StoredTransfer)) : Prop where
  firm : ∀ e ∈ es, Firm cap e.2
  covered : ∀ x side, cap x side = true → CoveredOn es x side

variable {cap : Id → Side → Bool} {m : Id → Option StoredAccount} {a : StoredAccount} {side : Side}

/-- An account found within its cap is covered. -/
theorem CoveredOn.found (hacc : Accounted m es) (hfirm : ∀ e ∈ es, Firm cap e.2)
    (hcap : cap x side = true) (ha : m x = some a)
    (hwithin : ¬ a.posted (opposite side) + a.reserved (opposite side) <
      a.posted side + a.reserved side)
    (hfits : amount (fun _ => true) es < 2 ^ 64) : CoveredOn es x side := by
  have hquiet : reservedSum es (opposite side) x = 0 := by
    refine reservedSum_eq_zero fun e he => ?_
    by_cases hx : e.2.account (opposite side) = x
    · by_cases hk : onReserve e.2.kind = true
      · have hnot := hfirm e he hk side
        rw [hx, hcap] at hnot
        cases hnot
      · cases hkind : e.2.kind <;>
          simp_all [StoredTransfer.reserving, onReserve, TransferKind.settles]
    · simp [StoredTransfer.reserving, hx]
  have hle (p : StoredTransfer → Bool) : amount p es ≤ amount (fun _ => true) es := by
    unfold amount
    rw [List.filter_true]
    exact (List.filter_sublist.map _).sum_le_sum fun _ _ => Nat.zero_le _
  have hdraws := hle fun st => ofKind .regular side x st || ofKind .pending side x st
  rw [amount_ofKind_or (by decide)] at hdraws
  exact hacc.coveredOn ha hwithin ((hacc.reserved x a ha _).trans hquiet) (by omega)
    (Nat.lt_of_le_of_lt (hle _) hfits)

/-- A transfer that is not on its capped side leaves an account covered. -/
theorem CoveredOn.snoc (h : CoveredOn es x side) {e : Id × StoredTransfer}
    (hx : e.2.account side ≠ x) : CoveredOn (es ++ [e]) x side := by
  have hnone (k : TransferKind) : ofKind k side x e.2 = false := by simp [ofKind, hx]
  unfold CoveredOn at *
  simp only [amount_snoc, hnone, Bool.false_eq_true, if_false]
  omega

theorem capped_moveTotals (t : LedgerTransfer) (debit credit : StoredAccount) (side : Side) :
    capped (moveTotals t debit credit).1 side = capped debit side ∧
      capped (moveTotals t debit credit).2 side = capped credit side := by
  unfold moveTotals
  cases t.kind <;> cases side <;> exact ⟨rfl, rfl⟩

/-- Applying a transfer that was found within the caps. -/
theorem Capping.apply {debit credit : StoredAccount} (h : Capping cap es) (hacc : Accounted m es)
    (hcap : ∀ x a side, m x = some a → capped a side = cap x side)
    (hd : m t.debitAccountID = some debit) (hc : m t.creditAccountID = some credit)
    (hne : t.debitAccountID ≠ t.creditAccountID) (hfirm : Firm cap (.of t))
    (hcr : exceedsCredits (moveTotals t debit credit).1 = false)
    (hdb : exceedsDebits (moveTotals t debit credit).2 = false)
    (hfits : amount (fun _ => true) (es ++ [(t.id, .of t)]) < 2 ^ 64) :
    Capping cap (es ++ [(t.id, .of t)]) ∧
      ∀ x a side, moved m t debit credit x = some a → capped a side = cap x side := by
  have hstep := hacc.apply hd hc hne
  have hfirm' : ∀ e ∈ es ++ [(t.id, .of t)], Firm cap e.2 := by
    intro e he
    rcases List.mem_append.mp he with he | he
    · exact h.firm e he
    · rwa [List.mem_singleton.mp he]
  have hsame : ∀ x a side, moved m t debit credit x = some a → capped a side = cap x side := by
    intro x a side ha
    rcases moved_cases ha with ⟨rfl, rfl⟩ | ⟨rfl, rfl⟩ | ⟨-, -, ha⟩
    · rw [(capped_moveTotals t debit credit side).2, hcap _ _ _ hc]
    · rw [(capped_moveTotals t debit credit side).1, hcap _ _ _ hd]
    · exact hcap _ _ _ ha
  refine ⟨⟨hfirm', fun x side hx => ?_⟩, hsame⟩
  by_cases hown : (StoredTransfer.of t).account side = x
  · subst hown
    cases side with
    | debit =>
      have ha : moved m t debit credit t.debitAccountID = some (moveTotals t debit credit).1 := by
        rw [moved, Function.update_of_ne hne, Function.update_self]
      have hon : (moveTotals t debit credit).1.debitsMustNotExceedCredits = true :=
        (hsame _ _ .debit ha).trans hx
      rw [exceedsCredits, hon, Bool.true_and, decide_eq_false_iff_not] at hcr
      exact .found hstep hfirm' hx ha hcr hfits
    | credit =>
      have ha : moved m t debit credit t.creditAccountID = some (moveTotals t debit credit).2 := by
        rw [moved, Function.update_self]
      have hon : (moveTotals t debit credit).2.creditsMustNotExceedDebits = true :=
        (hsame _ _ .credit ha).trans hx
      rw [exceedsDebits, hon, Bool.true_and, decide_eq_false_iff_not] at hdb
      exact .found hstep hfirm' hx ha hdb hfits
  · exact (h.covered x side hx).snoc hown

theorem caps_of_accounts {side : Side} (ha : l.accounts x = some a) :
    l.caps x side = capped a side := by
  simp [caps, ha]

/-- A linked run keeps the caps, and which accounts are capped. -/
theorem Capping.keeps {rest : List LedgerTransfer} (hl : Fair l (run ++ rest))
    (h : Capping l.caps l.transfers) (hne : ∀ t ∈ run, t.debitAccountID ≠ t.creditAccountID)
    (hfirm : ∀ t ∈ run, t.kind = .pending → Firm l.caps (.of t)) :
    Capping l.caps (l.createTransferRun run).2.transfers ∧
      (l.createTransferRun run).2.caps = l.caps := by
  constructor
  · -- what the run settles was reserved before, between the same accounts
    have hpend (t : LedgerTransfer) (sh : Shadow) (hmatch : l.matchesPending sh t = true) :
        Firm l.caps (.of t) := by
      unfold matchesPending at hmatch
      split at hmatch
      · rename_i status rec hstatus hrec
        simp only [Bool.and_eq_true, beq_iff_eq] at hmatch
        obtain ⟨st, hst, hkind⟩ := hl.sound.reservation _ _ hrec
        obtain ⟨rec', hrec', hd, hc, -⟩ := hl.sound.reserved _ st hst hkind
        cases hrec.symm.trans hrec'
        have hside (side : Side) : (StoredTransfer.of t).account side = st.account side := by
          cases side
          · exact hmatch.1.1.2.symm.trans hd
          · exact hmatch.1.2.symm.trans hc
        intro _ side
        rw [hside]
        exact h.firm _ hst (by rw [hkind]; rfl) side
      · cases hmatch
    have hfits := hl.fits
    simp only [asked, List.map_append, List.sum_append] at hfits
    refine (createTransferRun_moves run (P := fun m es ts => Accounted m es ∧
      (∀ x a side, m x = some a → capped a side = l.caps x side) ∧ Capping l.caps es ∧
      (∀ t ∈ ts, t.debitAccountID ≠ t.creditAccountID ∧ (t.kind = .pending → Firm l.caps (.of t))) ∧
      amount (fun _ => true) es + asked ts < 2 ^ 64) ?_ ?_ ⟨hl.accounted,
        fun x a side ha => (caps_of_accounts ha).symm, h, fun t ht => ⟨hne t ht, hfirm t ht⟩,
        by unfold asked applied at *; omega⟩).elim (fun hend => hend.2.2.1) fun hsame => hsame.2 ▸ h
    · intro m es t ts _ ⟨hacc, hcap, h, hts, hfits⟩
      simp only [asked, List.map_cons, List.sum_cons] at hfits
      exact ⟨hacc, hcap, h, (List.forall_mem_cons.mp hts).2, by unfold asked; omega⟩
    · intro sh es t ts debit credit _ hd hc hcr hdb hmatch ⟨hacc, hcap, h, hts, hfits⟩
      obtain ⟨⟨hne, hfirm⟩, hts'⟩ := List.forall_mem_cons.mp hts
      simp only [asked, List.map_cons, List.sum_cons] at hfits
      have hfirm' : Firm l.caps (.of t) := by
        by_cases hk : t.kind = .pending
        · exact hfirm hk
        · intro hreg
          refine hpend t sh (hmatch ?_) hreg
          cases hkind : t.kind <;> simp_all [StoredTransfer.of, onReserve, TransferKind.settles]
      have hsum : amount (fun _ => true) (es ++ [(t.id, .of t)]) + asked ts < 2 ^ 64 := by
        simp only [amount_snoc, if_true, StoredTransfer.of, asked]
        omega
      obtain ⟨hcapping, hcap'⟩ := h.apply hacc hcap hd hc hne hfirm' hcr hdb (by omega)
      exact ⟨hacc.apply hd hc hne, hcap', hcapping, hts', hsum⟩
  · funext x side
    cases ha : l.accounts x with
    | none => simp [caps, ha, createTransferRun_none run ha]
    | some a =>
      obtain ⟨a', ha', -, hcr, hdb⟩ := (l.createTransferRun_grows run).accounts x a ha
      rw [caps_of_accounts ha, caps_of_accounts ha']
      cases side
      · exact hdb
      · exact hcr

theorem Capping.call {c : Call} (hl : Fair l []) (h : Capping l.caps l.transfers)
    (hc : l.PlainAndFirm c) : Capping (l.call c).caps (l.call c).transfers := by
  obtain ⟨hplain, hc⟩ := hc
  cases c with
  | createAccounts as =>
    have hgrows := (l.createAccounts_grows as).accounts
    have hsame (x : Id) (hx : l.accounts x ≠ none) : (l.createAccounts as).2.caps x = l.caps x := by
      obtain ⟨a, ha⟩ := Option.ne_none_iff_exists'.mp hx
      obtain ⟨a', ha', -, hcr, hdb⟩ := hgrows x a ha
      funext side
      rw [caps_of_accounts ha, caps_of_accounts ha']
      cases side
      · exact hdb
      · exact hcr
    obtain ⟨m, hm⟩ := l.createAccounts_accounts as
    have htransfers : (l.createAccounts as).2.transfers = l.transfers := by rw [hm]
    change Capping (l.createAccounts as).2.caps (l.createAccounts as).2.transfers
    rw [htransfers]
    refine ⟨fun e he hk side => ?_, fun x side hx => ?_⟩
    · have hknown := hl.accounted.known e he (opposite side)
      rw [hsame _ (Option.isSome_iff_ne_none.mp hknown)]
      exact h.firm e he hk side
    · by_cases hnone : l.accounts x = none
      · have hother := hl.accounted.other hnone side
        unfold CoveredOn
        rw [amount_eq_zero fun e he => by simp [ofKind, hother e he],
          amount_eq_zero fun e he => by simp [ofKind, hother e he]]
        exact Nat.zero_le _
      · exact h.covered x side (hsame x hnone ▸ hx)
  | createTransfers ts =>
    refine (fakeTransfers_rule (P := fun l' rest => Fair l' rest ∧ Capping l'.caps l'.transfers ∧
      l'.caps = l.caps) ⟨⟨hl.sound, hl.accounted, hl.matched, hplain.2⟩, h, rfl⟩ ?_ ?_).2.1
    · intro run hrun l' rest hl'
      obtain ⟨hfair, hcapping, hcaps⟩ := hl'
      obtain ⟨hids, hne⟩ := hplain.1 run hrun
      have hmem : ∀ t ∈ run, t ∈ ts := by
        intro t ht
        cases hsplit : splitRuns (·.linked) ts with
        | none => simp [hsplit] at hrun
        | some runs =>
          rw [hsplit] at hrun
          rw [← splitRuns_flatten hsplit]
          exact List.mem_flatten_of_mem hrun ht
      obtain ⟨hkept, hsame⟩ := hcapping.keeps hfair hne fun t ht hk => hcaps ▸ hc t (hmem t ht) hk
      refine ⟨hfair.keeps hids hne, ?_, hsame.trans hcaps⟩
      change Capping (l'.createTransferRun run).2.caps _
      rw [hsame]
      exact hkept
    · intro l' rest hl'
      exact ⟨⟨hl'.1.sound, hl'.1.accounted, hl'.1.matched,
        Nat.lt_of_le_of_lt (Nat.le_add_right _ _) hl'.1.fits⟩, hl'.2⟩

/-- No capped account has drawn, or promised, more than was posted to it. -/
def WithinCaps (l : Ledger) : Prop := ∀ x a, l.accounts x = some a →
  (a.debitsMustNotExceedCredits = true →
    a.debitsPosted.toNat + a.debitsPending.toNat ≤ a.creditsPosted.toNat) ∧
  (a.creditsMustNotExceedDebits = true →
    a.creditsPosted.toNat + a.creditsPending.toNat ≤ a.debitsPosted.toNat)

/-- **The test ledger enforces the caps** while its calls are plain and nothing is reserved
towards a capped account. -/
theorem within_caps (h : fakeClient.Reaches PlainAndFirm l) : l.WithinCaps := by
  have hall : Fair l [] ∧ Capping l.caps l.transfers := by
    refine h.invariant (P := fun l => Fair l [] ∧ Capping l.caps l.transfers)
      ⟨⟨sound_empty, accounted_empty, fun _ => rfl, by decide⟩, nofun, nofun⟩ ?_
    intro l c l' hl hc hx
    cases hx
    exact ⟨hl.1.call hc.1, hl.2.call hl.1 hc⟩
  obtain ⟨hfair, hcapping⟩ := hall
  have hwithin {x : Id} {a : StoredAccount} (ha : l.accounts x = some a) (side : Side)
      (hcap : capped a side = true) :
      (a.posted side).toNat + (a.reserved side).toNat ≤ (a.posted (opposite side)).toNat := by
    have hcovered := hcapping.covered x side ((caps_of_accounts ha).trans hcap)
    have hposted := hfair.posted side x
    have hopposite := hfair.posted (opposite side) x
    have hreserved := hfair.reserved side x
    have hsettles := amount_settles l.transfers side x
    rw [ha, Option.elim_some] at hposted hopposite hreserved
    unfold CoveredOn at hcovered
    rw [amount_postsTo] at hposted
    omega
  exact fun x a ha => ⟨hwithin ha .debit, hwithin ha .credit⟩

/-- A reservation towards a capped account is spent. -/
theorem reservation_spent : ∃ l, fakeClient.Reachable l ∧ ¬ l.WithinCaps := by
  obtain ⟨l, hl, h⟩ := fakeClient.exists_of_play (fun _ _ => True)
    (fun l => (l.accounts (.uuid 1)).any (fun a => a.debitsMustNotExceedCredits &&
      a.creditsPosted.toNat < a.debitsPosted.toNat + a.debitsPending.toNat) = true)
    [.createAccounts [account 1 { debitsMustNotExceedCredits := true }, account 2 {}],
      .createTransfers [transfer 5 2 1 .pending, transfer 6 1 2 .regular]] (by decide +kernel)
  refine ⟨l, hl, fun hwithin => ?_⟩
  obtain ⟨a, ha, hover⟩ := (Option.any_eq_true _ _).mp h
  simp only [Bool.and_eq_true, decide_eq_true_eq] at hover
  have := (hwithin _ a ha).1 hover.1
  omega

theorem posted_then_spent : ∃ l, fakeClient.Reaches PlainAndFirm l ∧ l.WithinCaps ∧
    l.postedOn .debit [.uuid 1] = 100 := by
  obtain ⟨l, hl, h⟩ := fakeClient.exists_of_play PlainAndFirm
    (fun l => l.postedOn .debit [.uuid 1] = 100)
    [.createAccounts [account 1 { debitsMustNotExceedCredits := true }, account 2 {}],
      .createTransfers [transfer 5 2 1 .regular, transfer 6 1 2 .regular]] (by decide +kernel)
  exact ⟨l, hl, within_caps hl, h⟩

end MoneyFlow.Ledger
