import MoneyFlow.Securities.Holdings

/-!
# MoneyFlow.Securities.Schedule

`ruby/app/services/securities/schedule.rb` and `interest.rb`: what a Security owes as of a
day. A day is the number of days from some fixed one.

The interest due is reckoned from the day of the draw on the principal outstanding now,
whatever interest was paid before. So it is what accrued only as long as none was
(`interest_within_accrual`); two Repayments of what is due pay the first days twice
(`interest_paid_twice`).
-/

namespace MoneyFlow.Securities

namespace Interest

/-- `DAYS_PER_YEAR`. -/
def daysPerYear : Int := 365

/-- `BPS_PER_UNIT`. -/
def bpsPerUnit : Int := 10000

/-- `InvalidAmount`, by what raises it. -/
inductive Invalid
  | principal (got : Int)
  | rate (got : Int)
  | days (got : Int)
  deriving DecidableEq, Repr

/-- The text it is raised with. -/
def Invalid.message : Invalid → String
  | .principal got => "principal must not be negative, got " ++ toString got
  | .rate got => "rate must not be negative, got " ++ toString got ++ " bps"
  | .days got => "days must not be negative, got " ++ toString got

/-- `Rational(n, d).round` of what is not negative: half away from zero. -/
def round (n d : Int) : Int := (2 * n + d) / (2 * d)

/-- `Interest.accrued`. -/
def accrued (principal annualRateBps days : Int) : Except Invalid Int :=
  if principal < 0 then .error (.principal principal)
  else if annualRateBps < 0 then .error (.rate annualRateBps)
  else if days < 0 then .error (.days days)
  else .ok (round (principal * annualRateBps * days) (bpsPerUnit * daysPerYear))

/-- What is rounded gains no more than half a unit. -/
theorem accrued_le {principal rate days interest : Int}
    (h : accrued principal rate days = .ok interest) :
    0 ≤ rate ∧ bpsPerUnit * daysPerYear * interest ≤
      principal * rate * days + bpsPerUnit * daysPerYear := by
  unfold accrued at h
  split at h
  · cases h
  · split at h
    · cases h
    · split at h
      · cases h
      · cases h
        refine ⟨by omega, ?_⟩
        simp only [round, bpsPerUnit, daysPerYear]
        omega

end Interest

namespace Schedule

/-- `Positions.outstanding_principal`. -/
def outstandingPrincipal (s : Register) : Int := Allocation.outstanding s.positions

/-- `days_since_draw`; there is no day of the draw until the read model has seen it complete. -/
def daysSinceDraw (drawnOn : Option Int) (asOf : Int) : Int :=
  match drawnOn with
  | none => 0
  | some drawn => max (asOf - drawn) 0

/-- `Schedule::Due`. -/
structure Due where
  principal : Int
  interest : Int
  days : Int
  deriving DecidableEq, Repr

/-- `Schedule.due`. The day of the draw is that of a draw the read model has seen complete. -/
def due (s : Register) (annualRateBps : Int) (drawnAt asOf : Int) :
    Except Interest.Invalid Due := do
  let principal := outstandingPrincipal s
  let days := daysSinceDraw (if s.drawn then some drawnAt else none) asOf
  let interest ← Interest.accrued principal annualRateBps days
  .ok ⟨principal, interest, days⟩

/-! ### Histories -/

/-- A Repayment, and the day it is made as of. -/
structure Payment where
  asOf : Int
  repayment : Repayment
  deriving DecidableEq, Repr

def principalPaid (ps : List Payment) : Int := (ps.map (·.repayment.principal)).sum

def interestPaid (ps : List Payment) : Int := (ps.map (·.repayment.interest)).sum

/-- The rows once a Repayment of the interest due and some principal has completed and every
holder has been paid their share. -/
structure Pays (rate : Int) (drawnAt : Int) (s : Register) (p : Payment) (t : Register) : Prop where
  interest : ∃ d, due s rate drawnAt p.asOf = .ok d ∧ p.repayment.interest = d.interest
  nonneg : 0 ≤ p.repayment.principal
  split : ∃ shares, Allocation.forRepayment p.repayment s.positions = .ok shares ∧
    t.disbursements = s.disbursements ++ shares.map (·.row p.repayment)
  seen : ∀ row ∈ t.disbursements, t.seen row.id = true
  subscriptions : t.subscriptions = s.subscriptions
  shown : ∀ row ∈ s.subscriptions, t.projected row.id = s.projected row.id
  drawn : t.drawn = s.drawn

/-- Repayments one after another, from a Security that has paid nothing yet. -/
inductive History (rate : Int) (drawnAt : Int) (s0 : Register) : List Payment → Register → Prop
  | start : s0.drawn = true → s0.disbursements = [] → History rate drawnAt s0 [] s0
  | pay {ps : List Payment} {p : Payment} {s t : Register} : History rate drawnAt s0 ps s →
      (∀ q ∈ ps, q.asOf ≤ p.asOf) → Pays rate drawnAt s p t →
      History rate drawnAt s0 (ps ++ [p]) t

variable {rate : Int} {drawnAt : Int} {s0 s t : Register} {ps : List Payment} {p : Payment}

/-- What the rows say once these Repayments are paid out. -/
structure Settled (s0 : Register) (ps : List Payment) (s : Register) : Prop where
  drawn : s.drawn = true
  bought : s.bought = s0.bought
  subscriptions : s.subscriptions = s0.subscriptions
  shown : ∀ row ∈ s0.subscriptions, s.projected row.id = s0.projected row.id
  seen : ∀ row ∈ s.disbursements, s.seen row.id = true
  holders : ∀ row ∈ s.disbursements, row.investorEntityID ∈ s.bought.map (·.1)
  paid : (s.disbursements.map (·.principal)).sum = principalPaid ps
  nonneg : ∀ q ∈ ps, 0 ≤ q.repayment.principal

theorem bought_congr (hsubs : t.subscriptions = s.subscriptions)
    (hshown : ∀ row ∈ s.subscriptions, t.projected row.id = s.projected row.id) :
    t.bought = s.bought := by
  have hcomplete : complete t.projected t.subscriptions = complete s.projected s.subscriptions := by
    unfold complete
    rw [hsubs]
    exact List.filter_congr fun row hrow => by rw [hshown row hrow]
  unfold Register.bought boughtBy
  rw [hcomplete]

theorem Settled.pay (h : Settled s0 ps s) (hp : Pays rate drawnAt s p t) :
    Settled s0 (ps ++ [p]) t := by
  obtain ⟨shares, hshares, hrows⟩ := hp.split
  have hsplits := Allocation.splits_of_ok (s.investors_nodup _) hshares
  have hbought : t.bought = s.bought := bought_congr hp.subscriptions hp.shown
  refine ⟨hp.drawn.trans h.drawn, hbought.trans h.bought, hp.subscriptions.trans h.subscriptions,
    ?_, hp.seen, ?_, ?_, ?_⟩
  · intro row hrow
    exact (hp.shown row (h.subscriptions ▸ hrow)).trans (h.shown row hrow)
  · intro row hrow
    rw [hbought]
    rw [hrows] at hrow
    rcases List.mem_append.mp hrow with hrow | hrow
    · exact h.holders row hrow
    · obtain ⟨share, hshare, rfl⟩ := List.mem_map.mp hrow
      obtain ⟨pos, hpos, hkey, -⟩ := hsplits.within share hshare
      obtain ⟨b, hb, rfl⟩ := List.mem_map.mp hpos
      exact List.mem_map.mpr ⟨b, hb, hkey⟩
  · rw [hrows, List.map_append, List.sum_append, h.paid, List.map_map]
    unfold principalPaid
    rw [List.map_append, List.sum_append]
    rw [show (·.principal) ∘ (·.row p.repayment) = Share.principal from rfl, hsplits.principal]
    simp
  · simpa [or_imp, forall_and] using ⟨h.nonneg, hp.nonneg⟩

theorem History.settled (h : History rate drawnAt s0 ps s) : Settled s0 ps s := by
  induction h with
  | start hdrawn hnone =>
    exact ⟨hdrawn, rfl, rfl, fun _ _ => rfl, by simp [hnone], by simp [hnone],
      by simp [hnone, principalPaid], nofun⟩
  | pay _ _ hp ih => exact ih.pay hp

/-- What is outstanding is what was sold, less the principal of the Repayments. -/
theorem Settled.outstanding (h : Settled s0 ps s) :
    outstandingPrincipal s = sold s0.projected s0.subscriptions - principalPaid ps := by
  have hrepaid : (s.bought.map fun b => s.principalRepaid b.1).sum = principalPaid ps := by
    have hkeys := sum_by_key_of_mem Disbursement.principal Disbursement.investorEntityID
      s.bought_keys_nodup h.holders
    rw [List.map_map] at hkeys
    rw [← h.paid, ← hkeys]
    refine congrArg List.sum (List.map_congr_left fun b _ => ?_)
    rw [principalRepaid_eq h.seen, disbursed_eq]
    rfl
  unfold outstandingPrincipal Register.positions
  rw [Register.outstanding_holdings, hrepaid, ← Register.sum_bought,
    ← Register.sum_bought, h.bought]

/-! ### What accrues -/

/-- The principal outstanding on a day, once that day's Repayments are made. -/
def outstandingOn (principal : Int) (ps : List Payment) (day : Int) : Int :=
  principal - principalPaid (ps.filter fun q => q.asOf ≤ day)

/-- The interest that accrues day by day until a day, in parts of a minor unit: there are
`bpsPerUnit * daysPerYear` of them to the unit. -/
def accrual (principal rate : Int) (drawnAt : Int) (ps : List Payment) (untilDay : Int) : Int :=
  rate * ((List.range (untilDay - drawnAt).toNat).map fun d : Nat =>
    outstandingOn principal ps (drawnAt + d)).sum

/-- The day of the latest Repayment. -/
def latest (drawnAt : Int) (ps : List Payment) : Int := (ps.getLast?.map (·.asOf)).getD drawnAt

/-- The interest paid is what accrued, with up to a minor unit more for each Repayment. -/
def OwedOnce (principal rate : Int) (drawnAt : Int) (ps : List Payment) : Prop :=
  Interest.bpsPerUnit * Interest.daysPerYear * interestPaid ps ≤
    accrual principal rate drawnAt ps (latest drawnAt ps) +
      Interest.bpsPerUnit * Interest.daysPerYear * ps.length

instance (principal rate : Int) (drawnAt : Int) (ps : List Payment) :
    Decidable (OwedOnce principal rate drawnAt ps) := inferInstanceAs (Decidable (_ ≤ _))

/-- Before its own day a Repayment takes nothing off what is outstanding. -/
theorem outstandingOn_ge (principal : Int) (hps : ∀ q ∈ ps, 0 ≤ q.repayment.principal) {day : Int}
    (hday : day < p.asOf) :
    principal - principalPaid ps ≤ outstandingOn principal (ps ++ [p]) day := by
  have hfilter : (ps ++ [p]).filter (fun q => q.asOf ≤ day) = ps.filter fun q => q.asOf ≤ day := by
    simp [List.filter_append, hday]
  have hle : principalPaid (ps.filter fun q => q.asOf ≤ day) ≤ principalPaid ps := by
    apply (List.filter_sublist.map _).sum_le_sum
    intro n hn
    obtain ⟨q, hq, rfl⟩ := List.mem_map.mp hn
    exact hps q hq
  unfold outstandingOn
  rw [hfilter]
  omega

theorem sum_range_ge (f : Nat → Int) (c : Int) : ∀ n : Nat, (∀ d < n, c ≤ f d) →
    c * n ≤ ((List.range n).map f).sum
  | 0, _ => by simp
  | n + 1, h => by
    have ih := sum_range_ge f c n fun d hd => h d (Nat.lt_succ_of_lt hd)
    have hn := h n (Nat.lt_succ_self n)
    rw [List.range_succ, List.map_append, List.sum_append]
    push_cast
    simp only [List.map_cons, List.map_nil, List.sum_cons, List.sum_nil, Int.mul_add]
    omega

/-- **Interest that was not paid before is what accrued.** -/
theorem interest_within_accrual (h : History rate drawnAt s0 ps s)
    (hfirst : ∀ pre p, pre ++ [p] <+: ps → interestPaid pre = 0) :
    OwedOnce (sold s0.projected s0.subscriptions) rate drawnAt ps := by
  cases h with
  | start => simp [OwedOnce, accrual, latest, interestPaid]
  | @pay ps p s t h _ hp =>
    have hsettled := h.settled
    have hnone := hfirst ps p List.prefix_rfl
    obtain ⟨d, hdue, hinterest⟩ := hp.interest
    simp only [due, hsettled.drawn, if_true, daysSinceDraw, hsettled.outstanding] at hdue
    obtain ⟨interest, hok, rfl⟩ : ∃ i, Interest.accrued _ rate _ = .ok i ∧ d = ⟨_, i, _⟩ := by
      cases hacc : Interest.accrued (sold s0.projected s0.subscriptions - principalPaid ps) rate
          (max (p.asOf - drawnAt) 0) with
      | error e => simp [hacc, bind, Except.bind] at hdue
      | ok i =>
        simp only [hacc, bind, Except.bind, Except.ok.injEq] at hdue
        exact ⟨i, hacc, hdue.symm⟩
    obtain ⟨hrate, hle⟩ := Interest.accrued_le hok
    have hsum := sum_range_ge
      (fun d => outstandingOn (sold s0.projected s0.subscriptions) (ps ++ [p]) (drawnAt + d))
      (sold s0.projected s0.subscriptions - principalPaid ps) (p.asOf - drawnAt).toNat
      fun d hd => outstandingOn_ge _ hsettled.nonneg (by omega)
    have hmul := Int.mul_le_mul_of_nonneg_left hsum hrate
    have hpaid : interestPaid (ps ++ [p]) = interest := by
      unfold interestPaid at *
      rw [List.map_append, List.sum_append, hnone]
      simpa using hinterest
    have hdays : (((p.asOf - drawnAt).toNat : Nat) : Int) = max (p.asOf - drawnAt) 0 := by omega
    rw [hdays, ← Int.mul_assoc, Int.mul_comm rate] at hmul
    unfold OwedOnce accrual
    rw [hpaid, show latest drawnAt (ps ++ [p]) = p.asOf by simp [latest], List.length_append,
      List.length_singleton]
    simp only [Interest.bpsPerUnit, Interest.daysPerYear] at hle ⊢
    omega

/-- A Security with one holder, of a thousand. -/
def drawnLoan (rows : List Disbursement) : Register :=
  { subscriptions := [⟨.v7 0, 7, 100000⟩], disbursements := rows, drawTransactionID := some (.v7 1),
    projected := fun _ => some .completed }

def interestOnly (id : Nat) (asOf interest : Int) : Payment := ⟨asOf, ⟨.v7 id, 0, interest, .v7 id⟩⟩

theorem pays_drawnLoan (owed : Int) {rows : List Disbursement} {id : Nat}
    {asOf principal interest : Int}
    (hdue : due (drawnLoan rows) 1000 0 asOf = .ok ⟨owed, interest, asOf⟩) (hnonneg : 0 ≤ principal)
    (hsplit : Allocation.forRepayment ⟨.v7 id, principal, interest, .v7 id⟩
      (drawnLoan rows).positions = .ok [⟨7, principal, interest⟩]) :
    Pays 1000 0 (drawnLoan rows) ⟨asOf, ⟨.v7 id, principal, interest, .v7 id⟩⟩
      (drawnLoan (rows ++ [⟨.v7 id, 7, principal, interest⟩])) :=
  ⟨⟨_, hdue, rfl⟩, hnonneg, ⟨_, hsplit, rfl⟩, fun _ _ => rfl, rfl, fun _ _ => rfl, rfl⟩

/-- Thirty days' interest and then sixty days', a month apart. -/
theorem interest_paid_twice : ∃ s,
    History 1000 0 (drawnLoan []) [interestOnly 2 30 822, interestOnly 3 60 1644] s ∧
      ¬ OwedOnce 100000 1000 0 [interestOnly 2 30 822, interestOnly 3 60 1644] := by
  have hfirst : Pays 1000 0 (drawnLoan []) (interestOnly 2 30 822) _ :=
    pays_drawnLoan 100000 (by decide +kernel) (by decide) (by decide +kernel)
  have hsecond : Pays 1000 0 (drawnLoan [⟨.v7 2, 7, 0, 822⟩]) (interestOnly 3 60 1644) _ :=
    pays_drawnLoan 100000 (by decide +kernel) (by decide) (by decide +kernel)
  exact ⟨_, ((History.start rfl rfl).pay nofun hfirst).pay (by decide) hsecond, by decide +kernel⟩

/-- Principal on the day of the draw, and a month later the interest on the rest. -/
def principalFirst : List Payment := [⟨0, ⟨.v7 2, 40000, 0, .v7 2⟩⟩, interestOnly 3 30 493]

theorem interest_paid_after_principal : ∃ s, History 1000 0 (drawnLoan []) principalFirst s ∧
    OwedOnce 100000 1000 0 principalFirst := by
  have hfirst : Pays 1000 0 (drawnLoan []) ⟨0, ⟨.v7 2, 40000, 0, .v7 2⟩⟩ _ :=
    pays_drawnLoan 100000 (by decide +kernel) (by decide) (by decide +kernel)
  have hsecond : Pays 1000 0 (drawnLoan [⟨.v7 2, 7, 40000, 0⟩]) (interestOnly 3 30 493) _ :=
    pays_drawnLoan 60000 (by decide +kernel) (by decide) (by decide +kernel)
  have h : History 1000 0 (drawnLoan []) principalFirst _ :=
    ((History.start rfl rfl).pay nofun hfirst).pay (by decide) hsecond
  refine ⟨_, h, interest_within_accrual h fun pre p hpre => ?_⟩
  -- only the last of them pays interest
  have hlen : pre.length ≤ 1 := by simpa [principalFirst] using hpre.length_le
  rw [List.prefix_iff_eq_take.mp ((List.prefix_append _ _).trans hpre)]
  generalize pre.length = n at hlen
  interval_cases n <;> rfl

end Schedule

end MoneyFlow.Securities
