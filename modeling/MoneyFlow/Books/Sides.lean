import MoneyFlow.Books.Accounting

/-!
# MoneyFlow.Books.Sides

The two sides of the books: what an entity has in cash against what it has uncleared and
cleared, what moved through its bank against its bank control and receivable, and what a
Security has in cash against its escrow and repayment accounts.

A shape moves the two sides in legs of their own. The leg that adds to the cash side
always goes first, and the leg that takes from it waits for the leg that pays for it, so
a Transaction that is half done, or half undone, only ever has cash to spare. When every
Transaction of a party is done or undone, nothing is spared and the sides agree.
-/

namespace MoneyFlow.Books

open Concurrent

variable {x : Running} {b : State} {parents : Uuid → List Uuid} {leg : Leg} {ts : List Transfer}
  {t : Transfer}

/-! ### Weighing accounts against each other -/

/-- Accounts with the sign they count with. -/
abbrev Side := List (Int × Account)

/-- What balances come to on a side. -/
def weigh (side : Side) (f : Account → Int) : Int := (side.map fun c => c.1 * f c.2).sum

/-- What an account counts for on a side. -/
def coefficient (side : Side) (a : Account) : Int := weigh side fun c => if a = c then 1 else 0

/-- What the Transfer does to a side, for each unit it moves. -/
def Transfer.pull (t : Transfer) (side : Side) : Int :=
  coefficient side t.dest - coefficient side t.source

theorem weigh_zero (side : Side) : weigh side (fun _ => 0) = 0 := by
  simp [weigh]

theorem weigh_add (side : Side) (f g : Account → Int) :
    weigh side (fun a => f a + g a) = weigh side f + weigh side g := by
  induction side with
  | nil => rfl
  | cons c side ih =>
    simp only [weigh, List.map_cons, List.sum_cons] at ih ⊢
    rw [ih, Int.mul_add]
    omega

theorem weigh_sum {α : Type} (side : Side) (f : α → Account → Int) (xs : List α) :
    weigh side (fun a => (xs.map (f · a)).sum) = (xs.map fun x => weigh side (f x)).sum := by
  induction xs with
  | nil => exact weigh_zero side
  | cons x xs ih =>
    simp only [List.map_cons, List.sum_cons, ← ih]
    exact weigh_add side _ _

theorem weigh_effect (side : Side) (t : Transfer) :
    weigh side t.effect = t.amount * t.pull side := by
  unfold Transfer.pull coefficient
  induction side with
  | nil => simp [weigh]
  | cons c side ih =>
    simp only [weigh, List.map_cons, List.sum_cons] at ih ⊢
    rw [ih, Transfer.effect]
    split <;> split <;> ring

/-- What a leg has moved counts as long as it is there. -/
theorem Leg.weigh_net (side : Side) (leg : Leg) : weigh side leg.net =
    if leg.state.moved then leg.transfer.amount * leg.transfer.pull side else 0 := by
  unfold Leg.net
  split
  · exact weigh_effect side leg.transfer
  · exact weigh_zero side

/-! ### What a Transaction has to spare -/

/-- What the leg leaves on a side, with what it has reserved of the account `a`. -/
def Leg.slack (side : Side) (a : Account) (leg : Leg) : Int := weigh side leg.net - leg.held a

/-- What the Transaction leaves on a side. -/
def Running.slack (side : Side) (a : Account) (x : Running) : Int :=
  (x.legs.map (·.slack side a)).sum

/-- The balances come to what the Transactions leave on the side. -/
theorem State.Sound.weigh_slack (h : b.Sound) (side : Side) (a : Account) :
    weigh side b.posted - b.reserved a = (b.txns.map (·.slack side a)).sum := by
  have hx : ∀ x : Running, x.slack side a = weigh side x.net - x.held a := by
    intro x
    unfold Running.slack Leg.slack Running.held
    rw [sum_map_sub, ← weigh_sum]
    rfl
  have hposted : b.posted = fun a => (b.txns.map (·.net a)).sum := funext h.posted
  rw [hposted, h.reserved a, weigh_sum, ← sum_map_sub]
  simp only [hx]

/-! ### Legs that pay for each other -/

section Pairs

variable {side : Side} {a : Account} {first second : Leg} {p : Int}

/-- The Transfer adds to the side, and never takes from the account. -/
structure Adds (side : Side) (a : Account) (p : Int) (t : Transfer) : Prop where
  pull : t.pull side = p
  nonneg : 0 ≤ p
  source : t.source ≠ a
  dest : t.dest = a → p = 1

/-- The Transfer takes from the side, and only its own amount from the account. -/
structure Takes (side : Side) (a : Account) (p : Int) (t : Transfer) : Prop where
  pull : t.pull side = -p
  dest : t.dest ≠ a
  source : t.source = a → p = 1

theorem Leg.slack_eq (side : Side) (a : Account) (leg : Leg) : leg.slack side a =
    (if leg.state.moved then leg.transfer.amount * leg.transfer.pull side else 0) - leg.held a := by
  rw [Leg.slack, Leg.weigh_net]

/-- What is not under way leaves nothing. -/
theorem Leg.slack_inactive (h : leg.state.active = false) : leg.slack side a = 0 := by
  rw [Leg.slack_eq, Leg.held]
  cases hs : leg.state <;> simp_all [LegState.active, LegState.moved]

/-- Nor does what has not moved or reserved anything. -/
theorem Leg.slack_unmoved (hpending : leg.state ≠ .pending) (hmoved : leg.state.moved = false) :
    leg.slack side a = 0 := by
  rw [Leg.slack_eq, Leg.held, hmoved]
  cases hs : leg.state <;> simp_all [LegState.moved]

theorem Leg.slack_posted (h : leg.state = .posted) :
    leg.slack side a = leg.transfer.amount * leg.transfer.pull side := by
  rw [Leg.slack_eq, Leg.held]
  simp [h, LegState.moved]

theorem Adds.slack_nonneg (h : Adds side a p first.transfer) : 0 ≤ first.slack side a := by
  have hmul : 0 ≤ first.transfer.amount * p := Int.mul_nonneg (Int.natCast_nonneg _) h.nonneg
  rw [Leg.slack_eq, Leg.held, h.pull]
  cases hs : first.state with
  | posted | reversalFailed => simpa [LegState.moved] using hmul
  | reversing =>
    -- a staged Reversal holds on the account what the leg put there
    by_cases hd : first.transfer.dest = a
    · simp [LegState.moved, hold, hd, h.dest hd]
    · simpa [LegState.moved, hold, hd] using hmul
  | _ => simp [LegState.moved, hold, h.source]

theorem Takes.slack_ge (h : Takes side a p second.transfer) (hp : 0 ≤ p) :
    -(second.transfer.amount * p) ≤ second.slack side a := by
  have hmul : 0 ≤ second.transfer.amount * p := Int.mul_nonneg (Int.natCast_nonneg _) hp
  rw [Leg.slack_eq, Leg.held, h.pull]
  cases hs : second.state with
  | pending =>
    -- a staged leg holds on the account what it is about to take
    by_cases hsrc : second.transfer.source = a
    · simp [LegState.moved, hold, hsrc, h.source hsrc]
    · simpa [LegState.moved, hold, hsrc] using hmul
  | posted | reversalFailed => simp [LegState.moved]
  | reversing => simp [LegState.moved, hold, h.dest]
  | _ => simpa [LegState.moved] using hmul

/-- The leg that takes is paid for by the leg it waits for. -/
theorem pair_slack_nonneg (hfirst : Adds side a p first.transfer)
    (hsecond : Takes side a p second.transfer)
    (hamount : second.transfer.amount = first.transfer.amount)
    (hedge : second.state.active = true → first.state = .posted) :
    0 ≤ first.slack side a + second.slack side a := by
  cases hactive : second.state.active with
  | false =>
    rw [Leg.slack_inactive hactive, Int.add_zero]
    exact hfirst.slack_nonneg
  | true =>
    have htakes := hsecond.slack_ge hfirst.nonneg
    rw [Leg.slack_posted (hedge hactive), hfirst.pull]
    rw [hamount] at htakes
    omega

/-- A leg that touches neither the side nor the account. -/
theorem neutral_slack (hfirst : Adds side a 0 first.transfer) (hdest : first.transfer.dest ≠ a) :
    first.slack side a = 0 := by
  rw [Leg.slack_eq, Leg.held, hfirst.pull]
  cases first.state <;> simp [LegState.moved, hold, hfirst.source, hdest]

/-- Every Transfer that takes from the side waits for one that pays for it. -/
inductive Backed (side : Side) (a : Account) (parents : Uuid → List Uuid) : List Transfer → Prop
  | nil : Backed side a parents []
  | neutral {t : Transfer} {ts : List Transfer} (ht : Adds side a 0 t) (hdest : t.dest ≠ a)
      (h : Backed side a parents ts) : Backed side a parents (t :: ts)
  | paidAhead {t u : Transfer} {ts : List Transfer} (p : Int) (ht : Adds side a p t)
      (hu : Takes side a p u) (hamount : u.amount = t.amount) (hedge : t.id ∈ parents u.id)
      (h : Backed side a parents ts) : Backed side a parents (t :: u :: ts)
  | paidAfter {t u : Transfer} {ts : List Transfer} (p : Int) (ht : Adds side a p t)
      (hu : Takes side a p u) (hamount : u.amount = t.amount) (hedge : t.id ∈ parents u.id)
      (h : Backed side a parents ts) : Backed side a parents (u :: t :: ts)

theorem Backed.slack_nonneg (h : Backed side a parents ts) :
    ∀ {legs : List Leg}, legs.map (·.transfer) = ts →
    (∀ child ∈ legs, ∀ parent ∈ legs, parent.transfer.id ∈ parents child.transfer.id →
      child.state.active = true → parent.state = .posted) →
    0 ≤ (legs.map (·.slack side a)).sum := by
  induction h with
  | nil =>
    intro legs hlegs _
    simp [List.map_eq_nil_iff.mp hlegs]
  | neutral ht hdest _ ih =>
    intro legs hlegs hedges
    obtain ⟨l, rest, rfl, rfl, hrest⟩ := List.map_eq_cons_iff.mp hlegs
    have hnonneg := ih hrest fun c hc q hq =>
      hedges c (List.mem_cons_of_mem _ hc) q (List.mem_cons_of_mem _ hq)
    rw [List.map_cons, List.sum_cons, neutral_slack ht hdest]
    omega
  | paidAhead p ht hu hamount hedge _ ih =>
    intro legs hlegs hedges
    obtain ⟨l, tail, rfl, rfl, htail⟩ := List.map_eq_cons_iff.mp hlegs
    obtain ⟨k, rest, rfl, rfl, hrest⟩ := List.map_eq_cons_iff.mp htail
    have hpair := pair_slack_nonneg ht hu hamount (hedges k (by simp) l (by simp) hedge)
    have hnonneg := ih hrest fun c hc q hq => hedges c (by simp [hc]) q (by simp [hq])
    simp only [List.map_cons, List.sum_cons]
    omega
  | paidAfter p ht hu hamount hedge _ ih =>
    intro legs hlegs hedges
    obtain ⟨k, tail, rfl, rfl, htail⟩ := List.map_eq_cons_iff.mp hlegs
    obtain ⟨l, rest, rfl, rfl, hrest⟩ := List.map_eq_cons_iff.mp htail
    have hpair := pair_slack_nonneg ht hu hamount (hedges k (by simp) l (by simp) hedge)
    have hnonneg := ih hrest fun c hc q hq => hedges c (by simp [hc]) q (by simp [hq])
    simp only [List.map_cons, List.sum_cons]
    omega

end Pairs

/-! ### The cash side of every shape -/

/-- Types of accounts with the sign they count with. -/
abbrev Weights := List (Int × AccountType)

/-- A party's accounts of those types. -/
def side (party : Party) (weights : Weights) : Side := weights.map fun w => (w.1, ⟨party, w.2⟩)

/-- What an account type counts for. -/
def weight (weights : Weights) (type : AccountType) : Int :=
  (weights.map fun w => w.1 * if type = w.2 then 1 else 0).sum

/-- Cash, against uncleared and cleared cash. -/
def cashWeights : Weights := [(1, .cash), (-1, .unclearedCash), (-1, .clearedCash)]

/-- What came in through the bank, against its control and what is owed. -/
def bankWeights : Weights := [(1, .bank), (-1, .bankControl), (1, .receivable)]

/-- A Security's cash, against its escrow and its repayments. -/
def securityWeights : Weights :=
  [(1, .securityCash), (-1, .securityEscrow), (-1, .securityRepayment)]

theorem coefficient_side (p q : Party) (type : AccountType) (weights : Weights) :
    coefficient (side p weights) ⟨q, type⟩ = if q = p then weight weights type else 0 := by
  unfold coefficient weigh side weight
  rw [List.map_map]
  split
  · rename_i hq
    simp [Function.comp_def, hq]
  · rename_i hq
    simp [Function.comp_def, hq]

/-- An entity's cash, against its uncleared and its cleared cash. -/
abbrev cashSide (entityID : Nat) : Side := side (.entity entityID) cashWeights

/-- The share an entity has in what another one's account does. -/
def share (entityID other : Nat) : Int := if other = entityID then 1 else 0

@[simp]
theorem coefficient_entity (e e' : Nat) (type : AccountType) :
    coefficient (cashSide e) (ofEntity e' type) = match type with
      | .cash => share e e'
      | .unclearedCash | .clearedCash => -share e e'
      | _ => 0 := by
  rw [coefficient_side]
  by_cases he : e' = e
  · cases type <;> simp [he, weight, cashWeights, share]
  · cases type <;> simp [he, share]

@[simp]
theorem coefficient_security (e : Nat) (s : Uuid) (type : AccountType) :
    coefficient (cashSide e) (ofSecurity s type) = 0 := by
  simp [coefficient_side]

theorem share_nonneg (e e' : Nat) : 0 ≤ share e e' := by
  unfold share
  split <;> omega

/-- The two legs of an entity's Transfer to or from the outside, in the order they run. -/
theorem adds_cash (e owner : Nat) (hpull : t.pull (cashSide e) = share e owner)
    (hsource : t.source.type ≠ .cash) (hdest : t.dest.type = .cash → t.dest.owner = .entity owner) :
    Adds (cashSide e) (ofEntity e .cash) (share e owner) t where
  pull := hpull
  nonneg := share_nonneg e owner
  source h := hsource (congrArg Account.type h)
  dest h := by
    have howner := (hdest (congrArg Account.type h)).symm.trans (congrArg Account.owner h)
    simp [share, Party.entity.inj howner]

theorem takes_cash (e owner : Nat) (hpull : t.pull (cashSide e) = -share e owner)
    (hdest : t.dest.type ≠ .cash)
    (hsource : t.source.type = .cash → t.source.owner = .entity owner) :
    Takes (cashSide e) (ofEntity e .cash) (share e owner) t where
  pull := hpull
  dest h := hdest (congrArg Account.type h)
  source h := by
    have howner := (hsource (congrArg Account.type h)).symm.trans (congrArg Account.owner h)
    simp [share, Party.entity.inj howner]

theorem Backed.neutral_cash {e : Nat} (hpull : t.pull (cashSide e) = 0)
    (hsource : t.source.type ≠ .cash) (hdest : t.dest.type ≠ .cash)
    (h : Backed (cashSide e) (ofEntity e .cash) parents ts) :
    Backed (cashSide e) (ofEntity e .cash) parents (t :: ts) := by
  have hne : t.dest ≠ ofEntity e .cash := fun heq => hdest (congrArg Account.type heq)
  refine .neutral ⟨hpull, Int.le_refl 0, ?_, fun heq => (hne heq).elim⟩ hne h
  exact fun heq => hsource (congrArg Account.type heq)

theorem ach_backed (e : Nat) (entry : AchTransaction) : Backed (cashSide e) (ofEntity e .cash)
    (TransactionShape.startRequest entry).parents
    (TransactionShape.startRequest entry).transfers := by
  obtain ⟨id, owner, direction, amount, real, shadow⟩ := entry
  cases direction with
  | deposit =>
    refine .paidAhead (share e owner) (adds_cash e owner ?_ nofun fun _ => rfl)
      (takes_cash e owner ?_ nofun nofun) rfl ?_ .nil
    · simp [ShapeLeg.transfer, TransactionShape.realLeg, Transfer.pull]
    · simp [ShapeLeg.transfer, TransactionShape.shadowLeg, Transfer.pull]
    · simp [StartRequest.parents, TransactionShape.startRequest, TransactionShape.dependency,
        ShapeLeg.transfer]
  | withdrawal =>
    refine .paidAfter (share e owner) (adds_cash e owner ?_ nofun nofun)
      (takes_cash e owner ?_ nofun fun _ => rfl) rfl ?_ .nil
    · simp [ShapeLeg.transfer, TransactionShape.shadowLeg, Transfer.pull]
    · simp [ShapeLeg.transfer, TransactionShape.realLeg, Transfer.pull]
    · simp [StartRequest.parents, TransactionShape.startRequest, TransactionShape.dependency,
        ShapeLeg.transfer]

theorem lateReturn_backed (e : Nat) (entry : AchTransaction) (recorded : Bool) :
    Backed (cashSide e) (ofEntity e .cash) (LateReturnShape.startRequest entry recorded).parents
      (LateReturnShape.startRequest entry recorded).transfers := by
  unfold LateReturnShape.startRequest
  cases LateReturnShape.formFor entry.direction recorded with
  | withdrawalReturn =>
    refine .paidAhead (share e entry.entityID) (adds_cash e entry.entityID ?_ nofun fun _ => rfl)
      (takes_cash e entry.entityID ?_ nofun nofun) rfl ?_ .nil
    · simp [ShapeLeg.transfer, Transfer.pull]
    · simp [ShapeLeg.transfer, Transfer.pull]
    · simp [StartRequest.parents, LateReturnShape.legs, chain, ShapeLeg.transfer]
  | clawback =>
    refine .paidAhead (share e entry.entityID) (adds_cash e entry.entityID ?_ nofun nofun)
      (takes_cash e entry.entityID ?_ nofun fun _ => rfl) rfl ?_ .nil
    · simp [ShapeLeg.transfer, Transfer.pull]
    · simp [ShapeLeg.transfer, Transfer.pull]
    · simp [StartRequest.parents, LateReturnShape.legs, chain, ShapeLeg.transfer]
  | debtReturn =>
    refine .neutral_cash ?_ nofun nofun .nil
    simp [ShapeLeg.transfer, Transfer.pull]

/-- An entity pays a Security: cleared cash goes before cash. -/
theorem entityPays_backed (e owner : Nat) (s id : Uuid) {type : AccountType} (amount : Nat)
    (htype : type ≠ .cash) (hedge : id ∈ parents (.cash id)) :
    Backed (cashSide e) (ofEntity e .cash) parents
      (money id amount (moneyOfEntity owner) (moneyOfSecurity s type)) := by
  refine .paidAhead (share e owner) (adds_cash e owner ?_ nofun ?_)
    (takes_cash e owner ?_ nofun fun _ => rfl) rfl hedge .nil
  · simp [Transfer.pull, moneyOfEntity, moneyOfSecurity]
  · exact fun h => (htype h).elim
  · simp [Transfer.pull, moneyOfEntity, moneyOfSecurity]

/-- An entity is paid by a Security: cash goes before cleared cash. -/
theorem entityIsPaid_backed (e owner : Nat) (s id : Uuid) {type : AccountType} (amount : Nat)
    (htype : type ≠ .cash) (hedge : .cash id ∈ parents id)
    (h : Backed (cashSide e) (ofEntity e .cash) parents ts) :
    Backed (cashSide e) (ofEntity e .cash) parents
      (money id amount (moneyOfSecurity s type) (moneyOfEntity owner) ++ ts) := by
  refine .paidAfter (share e owner) (adds_cash e owner ?_ nofun fun _ => rfl)
    (takes_cash e owner ?_ nofun ?_) rfl hedge h
  · simp [Transfer.pull, moneyOfEntity, moneyOfSecurity]
  · simp [Transfer.pull, moneyOfEntity, moneyOfSecurity]
  · exact fun h => (htype h).elim

/-- In every shape, what takes from an entity's cash side waits for what pays for it. -/
theorem cash_backed (e : Nat) (o : Origin) :
    Backed (cashSide e) (ofEntity e .cash) o.request.parents o.request.transfers := by
  cases o with
  | ach entry => exact ach_backed e entry
  | clearing entry | offering security id transfer amount =>
    refine .neutral_cash ?_ nofun nofun .nil
    simp [Transfer.pull]
  | lateReturn entry recorded => exact lateReturn_backed e entry recorded
  | recovery owner sequence amount =>
    refine .paidAhead (share e owner) (adds_cash e owner ?_ nofun nofun)
      (takes_cash e owner ?_ nofun fun _ => rfl) rfl ?_ .nil
    · simp [Transfer.pull]
    · simp [Transfer.pull]
    · simp [Origin.request, StartRequest.parents, RecoveryShape.startRequest]
  | purchase security investor id claim transfer amount =>
    refine .neutral_cash ?_ nofun nofun (entityPays_backed e investor _ _ _ nofun ?_)
    · simp [Transfer.pull]
    · have hne := beq_false_of_ne transfer.cash_ne
      simp [Origin.request, StartRequest.parents, PurchaseShape.startRequest, chain, entityPays,
        List.lookup, hne]
  | draw security id transfer amount =>
    change Backed _ _ _ (money _ _ _ _ ++ [])
    refine entityIsPaid_backed e security.borrowerEntityID _ _ _ nofun ?_ .nil
    simp [Origin.request, StartRequest.parents, DrawShape.startRequest, chain, entityIsPaid]
  | repayment security id transfer amount =>
    refine entityPays_backed e security.borrowerEntityID _ _ _ nofun ?_
    simp [Origin.request, StartRequest.parents, RepaymentShape.startRequest, chain, entityPays]
  | disbursement security repaymentID investor principal interest =>
    refine entityIsPaid_backed e investor _ _ _ nofun ?_ ?_
    · have hne := beq_false_of_ne (Uuid.payout repaymentID investor).cash_ne.symm
      by_cases hp : 0 < principal
      all_goals simp [Origin.request, StartRequest.parents, DisbursementShape.startRequest, chain,
        entityIsPaid, List.lookup, hp, hne]
    · split
      · refine .neutral_cash ?_ nofun nofun .nil
        simp [Transfer.pull]
      · exact .nil

/-! ### Cash is never short -/

theorem Running.Sound.cash_slack_nonneg (h : x.Sound) (e : Nat) :
    0 ≤ x.slack (cashSide e) (ofEntity e .cash) :=
  (cash_backed e x.origin).slack_nonneg h.legs h.edges

theorem weigh_cashSide (e : Nat) (f : Account → Int) : weigh (cashSide e) f =
    f (ofEntity e .cash) - f (ofEntity e .unclearedCash) - f (ofEntity e .clearedCash) := by
  simp only [weigh, side, cashWeights, List.map_cons, List.map_nil, List.sum_cons, List.sum_nil]
  ring

/-- One Transaction's part of what an entity has to spare. -/
theorem State.Sound.slack_le (h : b.Sound) (e : Nat) (hx : x ∈ b.txns) :
    x.slack (cashSide e) (ofEntity e .cash) ≤
      b.posted (ofEntity e .cash) - b.posted (ofEntity e .unclearedCash) -
        b.posted (ofEntity e .clearedCash) - b.reserved (ofEntity e .cash) := by
  rw [← weigh_cashSide, h.weigh_slack]
  refine List.single_le_sum ?_ _ (List.mem_map_of_mem hx)
  intro n hn
  obtain ⟨y, hy, rfl⟩ := List.mem_map.mp hn
  exact (h.txns y hy).cash_slack_nonneg e

theorem State.Sound.reserved_nonneg (h : b.Sound) (a : Account) : 0 ≤ b.reserved a := by
  rw [h.reserved a]
  apply List.sum_nonneg
  intro n hn
  obtain ⟨x, -, rfl⟩ := List.mem_map.mp hn
  apply List.sum_nonneg
  intro n hn
  obtain ⟨leg, -, rfl⟩ := List.mem_map.mp hn
  exact leg.held_nonneg a

/-- A capped account is never overdrawn. -/
theorem State.Sound.posted_nonneg (h : b.Sound) {a : Account} (hcap : a.type.capped = true) :
    0 ≤ b.posted a :=
  Int.le_trans (h.reserved_nonneg a) (h.covered a hcap)

/-- A withdrawal whose shadow leg is posted has to spare what its real leg will take. -/
theorem Running.Sound.withdrawal_slack (h : x.Sound) {entry : AchTransaction}
    (horigin : x.origin = .ach entry) (hdir : entry.direction = .withdrawal) {real shadow : Leg}
    (hlegs : x.legs = [real, shadow]) (hshadow : shadow.state = .posted)
    (hpending : real.state ≠ .pending) (hmoved : real.state.moved = false) :
    x.slack (cashSide entry.entityID) (ofEntity entry.entityID .cash) = entry.amount := by
  have htransfers := h.legs
  rw [horigin, hlegs] at htransfers
  simp only [List.map_cons, List.map_nil, Origin.request, TransactionShape.startRequest, hdir,
    List.cons.injEq, and_true] at htransfers
  rw [Running.slack, hlegs]
  simp only [List.map_cons, List.map_nil, List.sum_cons, List.sum_nil]
  rw [Leg.slack_unmoved hpending hmoved, Leg.slack_posted hshadow, htransfers.2]
  simp [Transfer.pull, ShapeLeg.transfer, TransactionShape.shadowLeg, share]

/-- At every step, an entity's cash less what staged legs have reserved covers its
uncleared and its cleared cash, and a withdrawal whose shadow leg posted has the cash for
its real leg, until that leg has reserved or taken it. -/
theorem uncleared_stays_backed {b : State} (h : run.Reachable b) :
    (∀ e : Nat, b.posted (ofEntity e .unclearedCash) + b.posted (ofEntity e .clearedCash) ≤
      b.posted (ofEntity e .cash) - b.reserved (ofEntity e .cash)) ∧
    ∀ (entry : AchTransaction) (x : Running) (real shadow : Leg), x ∈ b.txns →
      x.origin = .ach entry → entry.direction = .withdrawal → x.legs = [real, shadow] →
      shadow.state = .posted → real.state ≠ .pending → real.state.moved = false →
      (entry.amount : Int) ≤
        b.posted (ofEntity entry.entityID .cash) - b.reserved (ofEntity entry.entityID .cash) := by
  have hsound := reachable_sound h
  constructor
  · intro e
    have hnonneg : 0 ≤ (b.txns.map (·.slack (cashSide e) (ofEntity e .cash))).sum := by
      apply List.sum_nonneg
      intro n hn
      obtain ⟨x, hx, rfl⟩ := List.mem_map.mp hn
      exact (hsound.txns x hx).cash_slack_nonneg e
    rw [← hsound.weigh_slack, weigh_cashSide] at hnonneg
    omega
  · intro entry x real shadow hx horigin hdir hlegs hshadow hpending hmoved
    have hspare := hsound.slack_le entry.entityID hx
    rw [(hsound.txns x hx).withdrawal_slack horigin hdir hlegs hshadow hpending hmoved] at hspare
    have huncleared := hsound.posted_nonneg (a := ofEntity entry.entityID .unclearedCash) rfl
    have hcleared := hsound.posted_nonneg (a := ofEntity entry.entityID .clearedCash) rfl
    omega

/-- A deposit of 100. -/
def deposited : AchTransaction := ⟨.v7 1, 1, .deposit, 100, .v7 2, .v7 3⟩

/-- A withdrawal of 60. -/
def withdrawn : AchTransaction := ⟨.v7 4, 1, .withdrawal, 60, .v7 5, .v7 6⟩

/-- The deposit runs to its end. -/
def depositMoves : List Move :=
  [.accept (.ach deposited), .start 0, .leg 0 0 .dispatch, .leg 0 0 .stage, .leg 0 0 .settle,
    .leg 0 1 .dispatch, .leg 0 1 .post, .complete 0]

/-- The deposit clears, and half of the withdrawal runs. -/
def withdrawalMoves : List Move :=
  depositMoves ++
    [.accept (.clearing deposited), .start 1, .leg 1 0 .dispatch, .leg 1 0 .post, .complete 1,
      .accept (.ach withdrawn), .start 2, .leg 2 1 .dispatch, .leg 2 1 .post]

/-- The withdrawal with its shadow leg posted. -/
def halfWithdrawn : Running where
  origin := .ach withdrawn
  state := .started
  legs := [⟨(TransactionShape.realLeg .withdrawal).transfer (.v7 5) 1 60, .idle⟩,
    ⟨(TransactionShape.shadowLeg .withdrawal).transfer (.v7 6) 1 60, .posted⟩]

theorem halfWithdrawn_covered : ∃ b, run.Reachable b ∧
    b.posted (ofEntity 1 .unclearedCash) + b.posted (ofEntity 1 .clearedCash) ≤
      b.posted (ofEntity 1 .cash) - b.reserved (ofEntity 1 .cash) ∧
    60 ≤ b.posted (ofEntity 1 .cash) - b.reserved (ofEntity 1 .cash) := by
  obtain ⟨b, hb, hx⟩ := Machine.exists_of_play run (fun _ _ => True)
    (halfWithdrawn ∈ ·.txns) withdrawalMoves (by decide +kernel)
  have h := uncleared_stays_backed hb
  exact ⟨b, hb, h.1 1, h.2 withdrawn halfWithdrawn _ _ hx rfl rfl rfl rfl nofun rfl⟩

/-! ### The sides agree at rest -/

/-- A Transfer of the Transaction is from or to an account of the party. -/
def Running.Touches (x : Running) (party : Party) : Prop :=
  ∃ t ∈ x.origin.request.transfers, t.source.owner = party ∨ t.dest.owner = party

instance (x : Running) (party : Party) : Decidable (x.Touches party) :=
  inferInstanceAs (Decidable (∃ t ∈ _, _))

/-- Every Transaction that touches the party is not started, completed or rolled back. -/
def State.AtRest (b : State) (party : Party) : Prop :=
  ∀ x ∈ b.txns, x.Touches party →
    x.state = .initialized ∨ x.state = .rejected ∨ x.state = .completed ∨ x.state = .rolledBack

instance (b : State) (party : Party) : Decidable (b.AtRest party) :=
  inferInstanceAs (Decidable (∀ x ∈ _, _))

/-- What a Transaction does to a side when all of it is posted. -/
def StartRequest.total (r : StartRequest) (s : Side) : Int :=
  (r.transfers.map fun t => (t.amount : Int) * t.pull s).sum

/-- Weights under which money that moves on one side moves on the other. -/
structure Even (w : AccountType → Int) : Prop where
  unclearedCash : w .unclearedCash = w .clearedCash
  cash : w .cash = -w .clearedCash
  bankControl : w .bankControl = -w .bank
  receivable : w .receivable = w .bank
  securityRepayment : w .securityRepayment = w .securityEscrow
  securityCash : w .securityCash = -w .securityEscrow
  investment : w .investment = 0
  issuerControl : w .issuerControl = 0
  securitySupply : w .securitySupply = 0

theorem cashWeights_even : Even (weight cashWeights) := by constructor <;> decide

theorem bankWeights_even : Even (weight bankWeights) := by constructor <;> decide

theorem securityWeights_even : Even (weight securityWeights) := by constructor <;> decide

/-- Every shape moves both sides alike. -/
theorem total_eq_zero (o : Origin) (p : Party) {weights : Weights} (h : Even (weight weights)) :
    o.request.total (side p weights) = 0 := by
  unfold StartRequest.total
  cases o with
  | ach entry =>
    obtain ⟨id, owner, direction, amount, real, shadow⟩ := entry
    cases direction
    all_goals
      simp only [Origin.request, TransactionShape.startRequest, TransactionShape.realLeg,
        TransactionShape.shadowLeg, ShapeLeg.transfer, Transfer.pull, coefficient_side,
        List.map_cons, List.map_nil, List.sum_cons, List.sum_nil, h.unclearedCash, h.cash,
        h.bankControl]
      split <;> ring
  | clearing entry =>
    simp [Origin.request, ClearingShape.startRequest, Transfer.pull, coefficient_side,
      h.unclearedCash]
  | lateReturn entry recorded =>
    simp only [Origin.request, LateReturnShape.startRequest]
    cases LateReturnShape.formFor entry.direction recorded
    all_goals
      simp only [LateReturnShape.legs, ShapeLeg.transfer, Transfer.pull, coefficient_side,
        List.map_cons, List.map_nil, List.sum_cons, List.sum_nil, h.unclearedCash, h.cash,
        h.bankControl, h.receivable]
      split <;> ring
  | recovery entityID sequence amount =>
    simp only [Origin.request, RecoveryShape.startRequest, Transfer.pull, coefficient_side,
      List.map_cons, List.map_nil, List.sum_cons, List.sum_nil, h.cash, h.bankControl,
      h.receivable]
    split <;> ring
  | offering security id transfer amount =>
    simp [Origin.request, OfferingShape.startRequest, Transfer.pull, coefficient_side,
      h.issuerControl, h.securitySupply]
  | purchase security investor id claim transfer amount =>
    simp only [Origin.request, PurchaseShape.startRequest, money, moneyOfEntity,
      moneyOfSecurity, Transfer.pull, coefficient_side, List.map_cons, List.map_nil,
      List.sum_cons, List.sum_nil, h.securitySupply, h.investment, h.cash, h.securityCash]
    split <;> split <;> ring
  | draw security id transfer amount =>
    simp only [Origin.request, DrawShape.startRequest, money, moneyOfEntity, moneyOfSecurity,
      Transfer.pull, coefficient_side, List.map_cons, List.map_nil, List.sum_cons, List.sum_nil,
      h.cash, h.securityCash]
    split <;> split <;> ring
  | repayment security id transfer amount =>
    simp only [Origin.request, RepaymentShape.startRequest, money, moneyOfEntity,
      moneyOfSecurity, Transfer.pull, coefficient_side, List.map_cons, List.map_nil,
      List.sum_cons, List.sum_nil, h.cash, h.securityRepayment, h.securityCash]
    split <;> split <;> ring
  | disbursement security repaymentID investor principal interest =>
    have hretired : ∀ retirement : Uuid, (((if 0 < principal then
        [({ id := retirement, amount := principal, source := ofEntity investor .investment,
            dest := ofEntity security.issuerEntityID .issuerControl } : Transfer)]
        else []).map fun t => (t.amount : Int) * t.pull (side p weights)).sum) = 0 := by
      intro retirement
      split <;> simp [Transfer.pull, coefficient_side, h.investment, h.issuerControl]
    simp only [Origin.request, DisbursementShape.startRequest, List.map_append,
      List.sum_append, hretired]
    simp only [money, moneyOfEntity, moneyOfSecurity, Transfer.pull, coefficient_side,
      List.map_cons, List.map_nil, List.sum_cons, List.sum_nil, h.cash, h.securityRepayment,
      h.securityCash]
    split <;> split <;> ring

/-- A completed Transaction has moved all of its request. -/
theorem Running.Sound.weigh_completed (h : x.Sound) (hstate : x.state = .completed) (s : Side) :
    weigh s x.net = x.origin.request.total s := by
  have hposted := h.settled
  unfold Running.Settled at hposted
  rw [hstate] at hposted
  have hnet : weigh s x.net = (x.legs.map fun leg => weigh s leg.net).sum := weigh_sum s _ _
  rw [hnet, StartRequest.total, ← h.legs, List.map_map]
  refine congrArg List.sum (List.map_congr_left fun leg hleg => ?_)
  rw [Leg.weigh_net, hposted leg hleg]
  rfl

/-- One that is not started, or rolled back, has moved nothing. -/
theorem Running.Sound.weigh_undone (h : x.Sound)
    (hstate : x.state = .initialized ∨ x.state = .rejected ∨ x.state = .rolledBack) (s : Side) :
    weigh s x.net = 0 := by
  have hundone : ∀ leg ∈ x.legs, leg.state.undone = true := by
    intro leg hleg
    have hs := h.settled
    unfold Running.Settled at hs
    rcases hstate with hstate | hstate | hstate <;> rw [hstate] at hs
    · rw [hs leg hleg]
      rfl
    · rw [hs leg hleg]
      rfl
    · exact hs leg hleg
  have hnet : weigh s x.net = (x.legs.map fun leg => weigh s leg.net).sum := weigh_sum s _ _
  rw [hnet]
  apply List.sum_eq_zero
  intro n hn
  obtain ⟨leg, hleg, rfl⟩ := List.mem_map.mp hn
  have hu := hundone leg hleg
  rw [Leg.weigh_net]
  cases hs : leg.state <;> simp_all [LegState.moved, LegState.undone]

/-- One that does not touch the party does nothing to its sides. -/
theorem Running.Sound.weigh_untouched (h : x.Sound) {p : Party} (htouch : ¬ x.Touches p)
    (weights : Weights) : weigh (side p weights) x.net = 0 := by
  have hnet : weigh (side p weights) x.net =
      (x.legs.map fun leg => weigh (side p weights) leg.net).sum := weigh_sum _ _ _
  rw [hnet]
  apply List.sum_eq_zero
  intro n hn
  obtain ⟨leg, hleg, rfl⟩ := List.mem_map.mp hn
  have hmem := h.transfer_mem hleg
  have hsource : leg.transfer.source.owner ≠ p := fun hp => htouch ⟨_, hmem, .inl hp⟩
  have hdest : leg.transfer.dest.owner ≠ p := fun hp => htouch ⟨_, hmem, .inr hp⟩
  have hpull : leg.transfer.pull (side p weights) = 0 := by
    unfold Transfer.pull
    rw [coefficient_side p leg.transfer.dest.owner, coefficient_side p leg.transfer.source.owner,
      if_neg hsource, if_neg hdest]
    rfl
  rw [Leg.weigh_net, hpull]
  simp

/-- At rest, what is on a side is what the completed Transactions put there. -/
theorem State.Sound.weigh_completed (h : b.Sound) {p : Party} (hrest : b.AtRest p)
    (weights : Weights) : weigh (side p weights) b.posted = (b.txns.map fun x =>
      if x.state = .completed then x.origin.request.total (side p weights) else 0).sum := by
  have hposted : b.posted = fun a => (b.txns.map (·.net a)).sum := funext h.posted
  rw [hposted, weigh_sum]
  refine congrArg List.sum (List.map_congr_left fun x hx => ?_)
  have hsound := h.txns x hx
  by_cases hcompleted : x.state = .completed
  · rw [if_pos hcompleted, hsound.weigh_completed hcompleted]
  · rw [if_neg hcompleted]
    by_cases htouch : x.Touches p
    · rcases hrest x hx htouch with hstate | hstate | hstate | hstate
      · exact hsound.weigh_undone (.inl hstate) _
      · exact hsound.weigh_undone (.inr (.inl hstate)) _
      · exact (hcompleted hstate).elim
      · exact hsound.weigh_undone (.inr (.inr hstate)) _
    · exact hsound.weigh_untouched htouch weights

/-- At rest, whatever every shape moves on both sides alike is even. -/
theorem State.Sound.weigh_rest (h : b.Sound) {p : Party} (hrest : b.AtRest p) {weights : Weights}
    (hw : Even (weight weights)) : weigh (side p weights) b.posted = 0 := by
  rw [h.weigh_completed hrest]
  simp [total_eq_zero _ p hw]

/-- When every Transaction of a party is not started, completed or rolled back, the two
sides of its books agree. -/
theorem sides_agree_at_rest {b : State} (h : run.Reachable b) :
    (∀ e : Nat, b.AtRest (.entity e) →
      b.posted (ofEntity e .cash) =
          b.posted (ofEntity e .unclearedCash) + b.posted (ofEntity e .clearedCash) ∧
        b.posted (ofEntity e .bank) - b.posted (ofEntity e .bankControl) +
          b.posted (ofEntity e .receivable) = 0) ∧
    ∀ s : Uuid, b.AtRest (.security s) →
      b.posted (ofSecurity s .securityCash) =
        b.posted (ofSecurity s .securityEscrow) + b.posted (ofSecurity s .securityRepayment) := by
  have hsound := reachable_sound h
  constructor
  · intro e hrest
    have hcash := hsound.weigh_rest hrest cashWeights_even
    have hbank := hsound.weigh_rest hrest bankWeights_even
    simp only [weigh, side, cashWeights, bankWeights, List.map_cons, List.map_nil, List.sum_cons,
      List.sum_nil] at hcash hbank
    constructor
    · linarith only [hcash]
    · linarith only [hbank]
  · intro s hrest
    have hcash := hsound.weigh_rest hrest securityWeights_even
    simp only [weigh, side, securityWeights, List.map_cons, List.map_nil, List.sum_cons,
      List.sum_nil] at hcash
    linarith only [hcash]

theorem deposited_agrees : ∃ b, run.Reachable b ∧
    b.posted (ofEntity 1 .cash) =
        b.posted (ofEntity 1 .unclearedCash) + b.posted (ofEntity 1 .clearedCash) ∧
      b.posted (ofEntity 1 .bank) - b.posted (ofEntity 1 .bankControl) +
        b.posted (ofEntity 1 .receivable) = 0 := by
  obtain ⟨b, hb, hrest⟩ := Machine.exists_of_play run (fun _ _ => True)
    (·.AtRest (.entity 1)) depositMoves (by decide +kernel)
  exact ⟨b, hb, (sides_agree_at_rest hb).1 1 hrest⟩

end MoneyFlow.Books
