import MoneyFlow.Ledger.Sound

/-!
# MoneyFlow.Ledger.Totals

The totals of an account are the sums of what was applied to it.

The ledger keeps running totals in unsigned 64-bit words. Word for word they are
the sums over the applied transfers (`Accounted`): sums of words, so the equation
holds whether or not anything ever wraps around. It is kept by every request whose
transfers are each between two accounts (`createTransferRun_accounted`).
-/

namespace MoneyFlow

variable {l : Ledger} {x : Id} {t : LedgerTransfer} {es : List (Id × StoredTransfer)}
  {m : Id → Option StoredAccount} {debit credit : StoredAccount}

/-- The two sides of a transfer, and of an account. -/
inductive Side
  | debit
  | credit
  deriving DecidableEq, Repr

namespace StoredAccount

/-- What was posted on this side. -/
def posted (a : StoredAccount) : Side → UInt64
  | .debit => a.debitsPosted
  | .credit => a.creditsPosted

/-- What is reserved on this side. -/
def reserved (a : StoredAccount) : Side → UInt64
  | .debit => a.debitsPending
  | .credit => a.creditsPending

end StoredAccount

namespace StoredTransfer

/-- The account on this side. -/
def account (st : StoredTransfer) : Side → Id
  | .debit => st.debitAccountID
  | .credit => st.creditAccountID

/-- Whether a transfer of this kind posts its amount. -/
def posts (st : StoredTransfer) : Bool := st.kind == .regular || st.kind == .postPending

/-- What the transfer adds to the posted total of `x` on this side. -/
def posting (side : Side) (x : Id) (st : StoredTransfer) : UInt64 :=
  if st.account side = x ∧ st.posts = true then st.minorUnits else 0

/-- What the transfer adds to the reserved total of `x` on this side. -/
def reserving (side : Side) (x : Id) (st : StoredTransfer) : UInt64 :=
  if st.account side = x then
    match st.kind with
    | .unspecified | .regular => 0
    | .pending => st.minorUnits
    | .postPending | .voidPending => -st.minorUnits
  else 0

end StoredTransfer

namespace Ledger

/-- What was posted to `x` on this side, all told. -/
def postedSum (es : List (Id × StoredTransfer)) (side : Side) (x : Id) : UInt64 :=
  (es.map fun e => e.2.posting side x).sum

/-- What is reserved on `x` on this side, all told. -/
def reservedSum (es : List (Id × StoredTransfer)) (side : Side) (x : Id) : UInt64 :=
  (es.map fun e => e.2.reserving side x).sum

theorem postedSum_snoc (es : List (Id × StoredTransfer)) (e : Id × StoredTransfer) (side : Side)
    (x : Id) : postedSum (es ++ [e]) side x = postedSum es side x + e.2.posting side x := by
  simp [postedSum]

theorem reservedSum_snoc (es : List (Id × StoredTransfer)) (e : Id × StoredTransfer) (side : Side)
    (x : Id) : reservedSum (es ++ [e]) side x = reservedSum es side x + e.2.reserving side x := by
  simp [reservedSum]

/-- The accounts are those of these transfers: each one's accounts are there, and
the totals are the sums. -/
structure Accounted (accounts : Id → Option StoredAccount) (es : List (Id × StoredTransfer)) :
    Prop where
  known : ∀ e ∈ es, ∀ side, (accounts (e.2.account side)).isSome = true
  posted : ∀ x a, accounts x = some a → ∀ side, a.posted side = postedSum es side x
  reserved : ∀ x a, accounts x = some a → ∀ side, a.reserved side = reservedSum es side x

/-- No transfer is of an account that is not there. -/
theorem Accounted.other (h : Accounted m es) (hx : m x = none) (side : Side) :
    ∀ e ∈ es, e.2.account side ≠ x := by
  intro e he heq
  have hsome := h.known e he side
  rw [heq, hx] at hsome
  cases hsome

theorem accounted_empty : Accounted Ledger.empty.accounts Ledger.empty.transfers where
  known _ he := absurd he List.not_mem_nil
  posted _ _ h := nomatch h
  reserved _ _ h := nomatch h

/-! ### Applying a transfer -/

theorem moveTotals_posted (t : LedgerTransfer) (debit credit : StoredAccount) (side : Side) :
    (moveTotals t debit credit).1.posted side =
        debit.posted side + (if side = .debit ∧ (StoredTransfer.of t).posts = true
          then t.minorUnits else 0) ∧
      (moveTotals t debit credit).2.posted side =
        credit.posted side + (if side = .credit ∧ (StoredTransfer.of t).posts = true
          then t.minorUnits else 0) := by
  unfold moveTotals StoredTransfer.posts StoredTransfer.of
  cases t.kind <;> cases side <;> simp [StoredAccount.posted]

theorem moveTotals_reserved (t : LedgerTransfer) (debit credit : StoredAccount) (side : Side) :
    (moveTotals t debit credit).1.reserved side = debit.reserved side +
        (if side = .debit then (StoredTransfer.of t).reserving .debit t.debitAccountID else 0) ∧
      (moveTotals t debit credit).2.reserved side = credit.reserved side +
        (if side = .credit then
          (StoredTransfer.of t).reserving .credit t.creditAccountID else 0) := by
  unfold moveTotals StoredTransfer.reserving StoredTransfer.account StoredTransfer.of
  cases t.kind <;> cases side <;> simp [StoredAccount.reserved, UInt64.sub_eq_add_neg]

/-- The accounts once `t` is applied. -/
def moved (m : Id → Option StoredAccount) (t : LedgerTransfer) (debit credit : StoredAccount) :
    Id → Option StoredAccount :=
  Function.update (Function.update m t.debitAccountID (some (moveTotals t debit credit).1))
    t.creditAccountID (some (moveTotals t debit credit).2)

theorem moved_cases {a : StoredAccount} (h : moved m t debit credit x = some a) :
    (x = t.creditAccountID ∧ a = (moveTotals t debit credit).2) ∨
      (x = t.debitAccountID ∧ a = (moveTotals t debit credit).1) ∨
      (x ≠ t.creditAccountID ∧ x ≠ t.debitAccountID ∧ m x = some a) := by
  unfold moved at h
  by_cases hc : x = t.creditAccountID
  · rw [hc, Function.update_self] at h
    exact Or.inl ⟨hc, (Option.some.inj h).symm⟩
  · rw [Function.update_of_ne hc] at h
    by_cases hd : x = t.debitAccountID
    · rw [hd, Function.update_self] at h
      exact Or.inr (Or.inl ⟨hd, (Option.some.inj h).symm⟩)
    · rw [Function.update_of_ne hd] at h
      exact Or.inr (Or.inr ⟨hc, hd, h⟩)

theorem moved_isSome (h : (m x).isSome = true) : (moved m t debit credit x).isSome = true := by
  unfold moved
  by_cases hc : x = t.creditAccountID
  · rw [hc, Function.update_self]
    rfl
  · rw [Function.update_of_ne hc]
    by_cases hd : x = t.debitAccountID
    · rw [hd, Function.update_self]
      rfl
    · rwa [Function.update_of_ne hd]

/-- Applying a transfer between two accounts. -/
theorem Accounted.apply (h : Accounted m es) (hd : m t.debitAccountID = some debit)
    (hc : m t.creditAccountID = some credit) (hne : t.debitAccountID ≠ t.creditAccountID) :
    Accounted (moved m t debit credit) (es ++ [(t.id, .of t)]) := by
  refine ⟨fun e he side => moved_isSome ?_, fun x a hx side => ?_, fun x a hx side => ?_⟩
  · rcases List.mem_append.mp he with he | he
    · exact h.known e he side
    · obtain rfl := List.mem_singleton.mp he
      cases side
      · exact Option.isSome_iff_exists.mpr ⟨debit, hd⟩
      · exact Option.isSome_iff_exists.mpr ⟨credit, hc⟩
  · rw [postedSum_snoc]
    rcases moved_cases hx with ⟨rfl, rfl⟩ | ⟨rfl, rfl⟩ | ⟨hxc, hxd, hx⟩
    · rw [(moveTotals_posted t debit credit side).2, h.posted _ _ hc side]
      cases side <;> simp [StoredTransfer.posting, StoredTransfer.account, StoredTransfer.of, hne]
    · rw [(moveTotals_posted t debit credit side).1, h.posted _ _ hd side]
      cases side <;>
        simp [StoredTransfer.posting, StoredTransfer.account, StoredTransfer.of, hne.symm]
    · rw [h.posted x a hx side]
      cases side <;>
        simp [StoredTransfer.posting, StoredTransfer.account, StoredTransfer.of, hxc.symm, hxd.symm]
  · rw [reservedSum_snoc]
    rcases moved_cases hx with ⟨rfl, rfl⟩ | ⟨rfl, rfl⟩ | ⟨hxc, hxd, hx⟩
    · rw [(moveTotals_reserved t debit credit side).2, h.reserved _ _ hc side]
      cases side <;> simp [StoredTransfer.reserving, StoredTransfer.account, StoredTransfer.of, hne]
    · rw [(moveTotals_reserved t debit credit side).1, h.reserved _ _ hd side]
      cases side <;>
        simp [StoredTransfer.reserving, StoredTransfer.account, StoredTransfer.of, hne.symm]
    · rw [h.reserved x a hx side]
      cases side <;>
        simp [StoredTransfer.reserving, StoredTransfer.account, StoredTransfer.of,
          hxc.symm, hxd.symm]

/-! ### Requests -/

/-- What a freshly applied transfer was found to be: its accounts exist, it is
within their caps, and it moves their totals. -/
theorem judge_ok {sh : Shadow} (h : (l.judge sh t).1 = .ok) :
    ∃ debit credit, sh.accounts t.debitAccountID = some debit ∧
      sh.accounts t.creditAccountID = some credit ∧
      exceedsCredits (moveTotals t debit credit).1 = false ∧
      exceedsDebits (moveTotals t debit credit).2 = false ∧
      (l.judge sh t).2.accounts = moved sh.accounts t debit credit := by
  unfold judge at h ⊢
  split at h
  · split at h <;> simp at h
  · split at h
    · simp at h
    · rename_i href
      rw [if_neg href]
      split at h
      · rename_i debit credit hd hc
        split at h
        · simp at h
        · rename_i hmatch
          dsimp only at h ⊢
          rw [if_neg hmatch]
          split at h
          · simp at h
          · rename_i hcr
            split at h
            · simp at h
            · rename_i hdb
              rw [if_neg hcr, if_neg hdb]
              exact ⟨debit, credit, hd, hc, by simpa using hcr, by simpa using hdb, rfl⟩
      · simp at h

/-- **The rule of a linked run.** `P` holds with the whole run ahead. It is kept when a
transfer that is already there is passed over, and when a new one is applied. Then it holds
at the end, unless the run was refused and changed nothing. -/
theorem createTransferRun_moves (run : List LedgerTransfer)
    {P : (Id → Option StoredAccount) → List (Id × StoredTransfer) → List LedgerTransfer → Prop}
    (hold : ∀ {m es t ts}, t.id ∈ l.ids → P m es (t :: ts) → P m es ts)
    (hnew : ∀ {sh : Shadow} {es t ts debit credit}, t.id ∉ l.ids →
      sh.accounts t.debitAccountID = some debit → sh.accounts t.creditAccountID = some credit →
      exceedsCredits (moveTotals t debit credit).1 = false →
      exceedsDebits (moveTotals t debit credit).2 = false →
      (t.kind = .postPending ∨ t.kind = .voidPending → l.matchesPending sh t = true) →
      P sh.accounts es (t :: ts) → P (moved sh.accounts t debit credit) (es ++ [(t.id, .of t)]) ts)
    (h : P l.accounts l.transfers run) :
    P (l.createTransferRun run).2.accounts (l.createTransferRun run).2.transfers [] ∨
      (l.createTransferRun run).2.accounts = l.accounts ∧
        (l.createTransferRun run).2.transfers = l.transfers := by
  have hrun : ∀ (run : List LedgerTransfer) {sh : Shadow} {es : List (Id × StoredTransfer)},
      P sh.accounts es run → (l.judgeRun sh run).1.all TransferResultCode.accepted = true →
      P (l.judgeRun sh run).2.accounts
        (es ++ (fresh run (l.judgeRun sh run).1).map fun t => (t.id, .of t)) [] := by
    intro run
    induction run with
    | nil =>
      intro sh es h _
      simpa [judgeRun] using h
    | cons t ts ih =>
      intro sh es h hacc
      simp only [judgeRun, List.all_cons, Bool.and_eq_true] at hacc
      obtain ⟨hhead, htail⟩ := hacc
      simp only [judgeRun, fresh_cons]
      rcases judge_accepted hhead with ⟨hr, hthere, hsh⟩ | ⟨hr, hnone, -, hmatch, -⟩
      · rw [hsh] at htail ⊢
        rw [hr]
        exact ih (hold (mem_ids_of_mem (mem_of_lookup hthere)) h) htail
      · obtain ⟨debit, credit, hd, hc, hcr, hdb, haccounts⟩ := judge_ok hr
        have hstep := hnew (lookup_none_iff.mp hnone) hd hc hcr hdb hmatch h
        rw [← haccounts] at hstep
        rw [if_pos hr, List.map_cons, ← List.singleton_append, ← List.append_assoc]
        exact ih hstep htail
  cases hacc : (l.judgeRun l.shadow run).1.all TransferResultCode.accepted with
  | true =>
    left
    rw [createTransferRun_of_accepted hacc]
    simp only [commitAll_transfers]
    exact hrun run (show P l.shadow.accounts l.transfers run from h) hacc
  | false =>
    right
    rw [createTransferRun_of_refused hacc]
    exact ⟨rfl, rfl⟩

/-- A transfer opens no account. -/
theorem createTransferRun_none (run : List LedgerTransfer) (h : l.accounts x = none) :
    (l.createTransferRun run).2.accounts x = none := by
  have hmoved : ∀ {m : Id → Option StoredAccount} {t debit credit},
      m t.debitAccountID = some debit → m t.creditAccountID = some credit → m x = none →
        moved m t debit credit x = none := by
    intro m t debit credit hd hc h
    have hxc : x ≠ t.creditAccountID := fun heq => by simp [heq, hc] at h
    have hxd : x ≠ t.debitAccountID := fun heq => by simp [heq, hd] at h
    rwa [moved, Function.update_of_ne hxc, Function.update_of_ne hxd]
  rcases createTransferRun_moves run (P := fun m _ _ => m x = none) (fun _ h => h)
    (fun _ hd hc _ _ _ h => hmoved hd hc h) h with h | ⟨haccounts, -⟩
  · exact h
  · rw [haccounts, h]

/-- **A linked run keeps the totals.** -/
theorem createTransferRun_accounted {run : List LedgerTransfer}
    (h : Accounted l.accounts l.transfers) (hne : ∀ t ∈ run, t.debitAccountID ≠ t.creditAccountID) :
    Accounted (l.createTransferRun run).2.accounts (l.createTransferRun run).2.transfers := by
  rcases createTransferRun_moves run
    (P := fun m es ts => Accounted m es ∧ ∀ t ∈ ts, t.debitAccountID ≠ t.creditAccountID)
    (fun _ h => ⟨h.1, (List.forall_mem_cons.mp h.2).2⟩)
    (fun _ hd hc _ _ _ h => ⟨h.1.apply hd hc (h.2 _ List.mem_cons_self),
      (List.forall_mem_cons.mp h.2).2⟩) ⟨h, hne⟩ with hend | ⟨haccounts, htransfers⟩
  · exact hend.1
  · rwa [haccounts, htransfers]

theorem postedSum_eq_zero {side : Side} (h : ∀ e ∈ es, e.2.posting side x = 0) :
    postedSum es side x = 0 := by
  induction es with
  | nil => rfl
  | cons e es ih =>
    have htail := ih fun e' he' => h e' (List.mem_cons_of_mem _ he')
    unfold postedSum at *
    rw [List.map_cons, List.sum_cons, htail, h e List.mem_cons_self]
    rfl

theorem reservedSum_eq_zero {side : Side} (h : ∀ e ∈ es, e.2.reserving side x = 0) :
    reservedSum es side x = 0 := by
  induction es with
  | nil => rfl
  | cons e es ih =>
    have htail := ih fun e' he' => h e' (List.mem_cons_of_mem _ he')
    unfold reservedSum at *
    rw [List.map_cons, List.sum_cons, htail, h e List.mem_cons_self]
    rfl

/-- Sums over transfers that do not touch the account. -/
theorem sums_of_untouched {side : Side} (h : ∀ e ∈ es, e.2.account side ≠ x) :
    postedSum es side x = 0 ∧ reservedSum es side x = 0 :=
  ⟨postedSum_eq_zero fun e he => by simp [StoredTransfer.posting, h e he],
    reservedSum_eq_zero fun e he => by simp [StoredTransfer.reserving, h e he]⟩

theorem storeAccounts_accounted (run : List Account) (h : Accounted l.accounts l.transfers) :
    Accounted (l.storeAccounts run).accounts (l.storeAccounts run).transfers := by
  -- an account is as it was, or new, empty and touched by no transfer so far
  have hcases (x : Id) (b : StoredAccount) (hx : (l.storeAccounts run).accounts x = some b) :
      l.accounts x = some b ∨ (∀ e ∈ l.transfers, ∀ side, e.2.account side ≠ x) ∧
        ∀ side, b.posted side = 0 ∧ b.reserved side = 0 := by
    rcases l.storeAccounts_accounts run x with ⟨heq, -⟩ | ⟨hnone, a, -, rfl, heq⟩
    · exact .inl (heq.symm.trans hx)
    · refine .inr ⟨fun e he side => h.other hnone side e he, fun side => ?_⟩
      obtain rfl := Option.some.inj (heq.symm.trans hx)
      cases side <;> exact ⟨rfl, rfl⟩
  refine ⟨fun e he side => ?_, fun x b hx side => ?_, fun x b hx side => ?_⟩
  · obtain ⟨a, ha⟩ := Option.isSome_iff_exists.mp (h.known e he side)
    obtain ⟨a', ha', -⟩ := (l.storeAccounts_grows run).accounts _ a ha
    exact Option.isSome_iff_exists.mpr ⟨a', ha'⟩
  · rcases hcases x b hx with hold | ⟨hother, hzero⟩
    · exact h.posted x b hold side
    · exact (hzero side).1.trans (sums_of_untouched fun e he => hother e he side).1.symm
  · rcases hcases x b hx with hold | ⟨hother, hzero⟩
    · exact h.reserved x b hold side
    · exact (hzero side).2.trans (sums_of_untouched fun e he => hother e he side).2.symm

theorem createAccounts_accounted {as : List Account} (h : Accounted l.accounts l.transfers) :
    Accounted (l.createAccounts as).2.accounts (l.createAccounts as).2.transfers :=
  createAccounts_rule (P := fun l => Accounted l.accounts l.transfers) h
    fun _ run _ _ h => storeAccounts_accounted run h

/-! ### Sums of numbers

What the transfers of some kind amount to, as a number: the totals are these
numbers cut off at 64 bits. -/

/-- What the transfers that meet `p` amount to. -/
def amount (p : StoredTransfer → Bool) (es : List (Id × StoredTransfer)) : Nat :=
  ((es.filter fun e => p e.2).map fun e => e.2.minorUnits.toNat).sum

@[simp] theorem amount_nil (p : StoredTransfer → Bool) : amount p [] = 0 := rfl

theorem amount_snoc (p : StoredTransfer → Bool) (es : List (Id × StoredTransfer))
    (e : Id × StoredTransfer) :
    amount p (es ++ [e]) = amount p es + if p e.2 then e.2.minorUnits.toNat else 0 := by
  unfold amount
  by_cases h : p e.2 = true <;> simp [List.filter_append, h]

/-- The amounts of transfers that meet one of two predicates. -/
theorem amount_or {p q : StoredTransfer → Bool} (h : ∀ st, ¬ (p st = true ∧ q st = true))
    (es : List (Id × StoredTransfer)) :
    amount (fun st => p st || q st) es = amount p es + amount q es := by
  induction es using List.reverseRecOn with
  | nil => rfl
  | append_singleton es e ih =>
    rw [amount_snoc, amount_snoc, amount_snoc, ih]
    have hpq := h e.2
    cases hp : p e.2 <;> cases hq : q e.2 <;> simp_all <;> omega

theorem amount_eq_zero {p : StoredTransfer → Bool} (h : ∀ e ∈ es, p e.2 = false) :
    amount p es = 0 := by
  unfold amount
  rw [List.filter_eq_nil_iff.mpr fun e he => by simp [h e he]]
  rfl

/-- The transfers that post to `x` on this side. -/
def postsTo (side : Side) (x : Id) (st : StoredTransfer) : Bool :=
  st.account side == x && st.posts

theorem amount_postsTo_eq_zero {side : Side} (h : ∀ e ∈ es, e.2.account side ≠ x) :
    amount (postsTo side x) es = 0 :=
  amount_eq_zero fun e he => by simp [postsTo, h e he]

/-- The transfers of this kind on `x` on this side. -/
def ofKind (k : TransferKind) (side : Side) (x : Id) (st : StoredTransfer) : Bool :=
  st.account side == x && st.kind == k

theorem postedSum_eq (es : List (Id × StoredTransfer)) (side : Side) (x : Id) :
    postedSum es side x = UInt64.ofNat (amount (postsTo side x) es) := by
  induction es using List.reverseRecOn with
  | nil => rfl
  | append_singleton es e ih =>
    rw [postedSum_snoc, amount_snoc, ih, UInt64.ofNat_add]
    by_cases h : e.2.account side = x ∧ e.2.posts = true
    · simp [StoredTransfer.posting, postsTo, h]
    · have hfalse : postsTo side x e.2 = false := by
        rw [Bool.eq_false_iff]
        simpa [postsTo] using h
      simp [StoredTransfer.posting, h, hfalse]

theorem reservedSum_eq (es : List (Id × StoredTransfer)) (side : Side) (x : Id) :
    reservedSum es side x = UInt64.ofNat (amount (ofKind .pending side x) es) -
      UInt64.ofNat (amount (ofKind .postPending side x) es) -
      UInt64.ofNat (amount (ofKind .voidPending side x) es) := by
  induction es using List.reverseRecOn with
  | nil => simp [reservedSum]
  | append_singleton es e ih =>
    rw [reservedSum_snoc, amount_snoc, amount_snoc, amount_snoc, ih]
    by_cases h : e.2.account side = x
    · unfold StoredTransfer.reserving ofKind
      rw [if_pos h]
      cases hk : e.2.kind <;> simp [h, UInt64.ofNat_add] <;> grind
    · simp [StoredTransfer.reserving, ofKind, h]

end Ledger

end MoneyFlow
