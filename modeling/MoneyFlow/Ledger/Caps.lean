import MoneyFlow.Ledger.Totals

/-!
# MoneyFlow.Ledger.Caps

What the cap on an account keeps, and what a request adds.

The ledger applies a transfer to a capped account only if the totals then stay
within the cap. Read as numbers, what was ever drawn on that side of the account,
less what was given back, is then at most what was posted to the other
(`CoveredOn`). The totals are words and the check counts what is reserved as though
it were posted, so this rests on two things: nothing wraps around, and nothing is
reserved on the other side.
-/

namespace MoneyFlow.Ledger

variable {m : Id → Option StoredAccount}

variable {l : Ledger} {x : Id} {es : List (Id × StoredTransfer)}

/-- The side a side is measured against. -/
def opposite : Side → Side
  | .debit => .credit
  | .credit => .debit

/-- What was drawn on a side of `x` was posted to the other, or given back. -/
def CoveredOn (es : List (Id × StoredTransfer)) (x : Id) (side : Side) : Prop :=
  amount (ofKind .regular side x) es + amount (ofKind .pending side x) es ≤
    amount (postsTo (opposite side) x) es + amount (ofKind .voidPending side x) es

/-- The transfers of a run that are not applied yet. -/
def unapplied (l : Ledger) (run : List LedgerTransfer) : List (Id × StoredTransfer) :=
  (run.filter fun t => decide (t.id ∉ l.ids)).map fun t => (t.id, .of t)

theorem amount_ofKind_or {k k' : TransferKind} (hne : k ≠ k') (side : Side) (x : Id)
    (es : List (Id × StoredTransfer)) :
    amount (fun st => ofKind k side x st || ofKind k' side x st) es =
      amount (ofKind k side x) es + amount (ofKind k' side x) es := by
  refine amount_or (fun st h => hne ?_) es
  simp only [ofKind, Bool.and_eq_true, beq_iff_eq] at h
  exact h.1.2.symm.trans h.2.2

theorem amount_postsTo (side : Side) (x : Id) (es : List (Id × StoredTransfer)) :
    amount (postsTo side x) es =
      amount (ofKind .regular side x) es + amount (ofKind .postPending side x) es := by
  rw [← amount_ofKind_or (by decide)]
  congr 1
  funext st
  simp only [postsTo, StoredTransfer.posts, ofKind, Bool.and_or_distrib_left]

/-- An account whose totals are within the cap is covered. The two totals of a side together
are what was drawn on it, less what was given back. -/
theorem Accounted.coveredOn (h : Accounted m es) {a : StoredAccount} {side : Side}
    (ha : m x = some a)
    (hwithin : ¬ a.posted (opposite side) + a.reserved (opposite side) <
      a.posted side + a.reserved side)
    (hquiet : a.reserved (opposite side) = 0)
    (hroom : amount (ofKind .regular side x) es + amount (ofKind .pending side x) es <
      amount (ofKind .voidPending side x) es + 2 ^ 64)
    (hposts : amount (postsTo (opposite side) x) es < 2 ^ 64) : CoveredOn es x side := by
  unfold CoveredOn
  by_contra hlt
  have hdrawn : postedSum es side x + reservedSum es side x =
      UInt64.ofNat (amount (ofKind .regular side x) es + amount (ofKind .pending side x) es) -
        UInt64.ofNat (amount (ofKind .voidPending side x) es) := by
    rw [postedSum_eq, reservedSum_eq, amount_postsTo, UInt64.ofNat_add, UInt64.ofNat_add]
    grind
  rw [hquiet, h.posted x a ha, h.posted x a ha, h.reserved x a ha, hdrawn, UInt64.add_zero,
    postedSum_eq, ← UInt64.ofNat_sub (by omega), UInt64.not_lt, UInt64.le_iff_toNat_le,
    UInt64.toNat_ofNat_of_lt' (show _ - _ < 2 ^ 64 by omega),
    UInt64.toNat_ofNat_of_lt' hposts] at hwithin
  omega

/-! ### Requests -/

theorem amount_cons (p : StoredTransfer → Bool) (e : Id × StoredTransfer)
    (es : List (Id × StoredTransfer)) :
    amount p (e :: es) = (if p e.2 then e.2.minorUnits.toNat else 0) + amount p es := by
  unfold amount
  by_cases h : p e.2 = true <;> simp [h]

theorem unapplied_cons (t : LedgerTransfer) (ts : List LedgerTransfer) :
    l.unapplied (t :: ts) =
      if t.id ∈ l.ids then l.unapplied ts else (t.id, .of t) :: l.unapplied ts := by
  unfold unapplied
  by_cases h : t.id ∈ l.ids <;> simp [h]

/-- What a linked run adds was not applied before. -/
theorem createTransferRun_amount_le (l : Ledger) (run : List LedgerTransfer)
    (p : StoredTransfer → Bool) : amount p (l.createTransferRun run).2.transfers ≤
      amount p l.transfers + amount p (l.unapplied run) := by
  rcases createTransferRun_moves run (P := fun _ es ts => amount p es + amount p (l.unapplied ts) ≤
    amount p l.transfers + amount p (l.unapplied run))
    (fun hthere h => by rwa [unapplied_cons, if_pos hthere] at h)
    (fun hnew _ _ _ _ _ h => by
      rw [unapplied_cons, if_neg hnew, amount_cons] at h
      rw [amount_snoc]
      omega) (Nat.le_refl _) with h | ⟨-, htransfers⟩
  · exact Nat.le_trans (Nat.le_add_right _ _) h
  · rw [htransfers]
    exact Nat.le_add_right _ _

end MoneyFlow.Ledger
