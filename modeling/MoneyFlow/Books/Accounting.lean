import MoneyFlow.Books.Run

/-!
# MoneyFlow.Books.Accounting

What every state of the books meets: a balance is the sum of what each leg has put on
the account, a reservation the sum of what each leg holds there, no capped account is
taken below what is reserved on it, and a leg that is under way has its parents posted.
-/

namespace MoneyFlow.Books

open Concurrent

/-! ### What a leg and a Transaction have moved -/

/-- What the leg has put on an account. -/
def Leg.net (leg : Leg) (a : Account) : Int :=
  if leg.state.moved then leg.transfer.effect a else 0

/-- What the leg, or its Reversal, has reserved on an account. -/
def Leg.held (leg : Leg) (a : Account) : Int :=
  match leg.state with
  | .pending => hold leg.transfer.source leg.transfer.amount a
  | .reversing => hold leg.transfer.dest leg.transfer.amount a
  | _ => 0

/-- What the Transaction has put on an account. -/
def Running.net (x : Running) (a : Account) : Int := (x.legs.map (·.net a)).sum

/-- What the Transaction has reserved on an account. -/
def Running.held (x : Running) (a : Account) : Int := (x.legs.map (·.held a)).sum

theorem hold_nonneg (on : Account) (amount : Nat) (a : Account) : 0 ≤ hold on amount a := by
  unfold hold
  split
  · exact Int.natCast_nonneg amount
  · exact Int.le_refl 0

theorem Leg.held_nonneg (leg : Leg) (a : Account) : 0 ≤ leg.held a := by
  unfold Leg.held
  split
  · exact hold_nonneg _ _ _
  · exact hold_nonneg _ _ _
  · exact Int.le_refl 0

/-! ### What a leg's move changes -/

variable {x : Running} {b : State} {j i : Nat} {state : TransactionState} {c : Change} {a : Account}

section Changes

variable {b : State} {x : Running} {leg : Leg} {c : Change}

/-- A move changes the balances by what it changes of the leg's part in them. -/
theorem Changes.accounts (h : Changes b x leg c) (a : Account) :
    c.posted a = ({ leg with state := c.state } : Leg).net a - leg.net a ∧
      c.reserved a = ({ leg with state := c.state } : Leg).held a - leg.held a := by
  cases h with
  | ended state hs hstate =>
    rcases hstate with rfl | rfl <;> simp [Leg.net, Leg.held, LegState.moved, hs]
  | voided state hs hstate =>
    rcases hstate with rfl | rfl <;> simp [Leg.net, Leg.held, LegState.moved, released, hs]
  | _ => simp_all [Leg.net, Leg.held, LegState.moved, released]

/-- A capped account stays covered. -/
theorem Changes.covered (h : Changes b x leg c) (hcap : a.type.capped = true)
    (hcov : b.reserved a ≤ b.posted a) : b.reserved a + c.reserved a ≤ b.posted a + c.posted a := by
  have hcan : ∀ amount, b.CanDebit a amount → (amount : Int) ≤ b.posted a - b.reserved a := by
    intro amount hd
    rcases hd with hd | hd
    · exact nomatch hcap.symm.trans hd
    · exact hd
  cases h <;> simp only [Transfer.effect, hold, released] <;> grind

/-- What is posted is taken back only when nothing that waited for it is left. -/
theorem Changes.of_posted (h : Changes b x leg c) (hs : leg.state = .posted) :
    x.state = .rollbackStarted ∧ x.Unblocked leg := by
  cases h <;> simp_all

/-- A leg gets under way when its parents are posted. -/
theorem Changes.of_active (h : Changes b x leg c) (hs : c.state.active = true) :
    leg.state.active = true ∨ leg.state = .idle ∧ x.Ready leg := by
  cases h <;> simp_all [LegState.active]

/-- What is not under way gets so only in a started Transaction. -/
theorem Changes.of_undone (h : Changes b x leg c) (hs : leg.state.undone = true) :
    leg.state = .idle ∧ x.state = .started := by
  cases h <;> simp_all [LegState.undone]

/-- Only a staged Transfer, or its Reversal, reserves. -/
theorem Changes.of_reserves (h : Changes b x leg c)
    (hs : c.state = .pending ∨ c.state = .reversing) : leg.transfer.stage = true := by
  cases h with
  | ended state _ hstate | voided state _ hstate => rcases hstate with rfl | rfl <;> simp at hs
  | _ => simp_all

end Changes

/-! ### What a Transaction meets -/

/-- What a Transaction's state says of its legs. -/
def Running.Settled (x : Running) : Prop :=
  match x.state with
  | .initialized | .rejected => ∀ leg ∈ x.legs, leg.state = .idle
  | .started => True
  | .completed => ∀ leg ∈ x.legs, leg.state = .posted
  | .rollbackStarted | .rollbackFailed => ∃ leg ∈ x.legs, leg.state = .failed
  | .rolledBack => ∀ leg ∈ x.legs, leg.state.undone = true

/-- The legs are the request's, a leg under way has its parents posted, and the state
fits the legs. -/
structure Running.Sound (x : Running) : Prop where
  legs : x.legs.map (·.transfer) = x.origin.request.transfers
  edges : ∀ child ∈ x.legs, ∀ parent ∈ x.legs, x.WaitsFor child parent →
    child.state.active = true → parent.state = .posted
  staged : ∀ leg ∈ x.legs, leg.state = .pending ∨ leg.state = .reversing → leg.transfer.stage = true
  settled : x.Settled

theorem Running.fresh_sound (origin : Origin) (hstate : state = .initialized ∨ state = .rejected) :
    (Running.fresh origin state).Sound := by
  have hidle : ∀ leg ∈ (Running.fresh origin state).legs, leg.state = .idle := by
    intro leg hleg
    obtain ⟨t, -, rfl⟩ := List.mem_map.mp hleg
    rfl
  constructor
  · simp [Running.fresh, Function.comp_def]
  · intro child hchild parent _ _ hactive
    rw [hidle child hchild] at hactive
    cases hactive
  · intro leg hleg hreserves
    rw [hidle leg hleg] at hreserves
    exact nomatch hreserves
  · rcases hstate with rfl | rfl
    · exact hidle
    · exact hidle

theorem Running.Sound.become (h : x.Sound) (hmay : x.May state) :
    ({ x with state := state } : Running).Sound := by
  refine ⟨h.legs, h.edges, h.staged, ?_⟩
  cases state with
  | initialized | rejected => exact hmay.elim
  | started => trivial
  | completed | rollbackStarted | rolledBack => exact hmay.2
  | rollbackFailed =>
    have hs := h.settled
    unfold Running.Settled at hs
    rw [hmay.1] at hs
    exact hs

/-- The edges of a Transaction survive a move of a leg. -/
theorem Running.Sound.edges_setLeg {leg : Leg} (h : x.Sound) (hleg : x.legs[j]? = some leg)
    (hc : Changes b x leg c) :
    ∀ child ∈ (x.setLeg j leg c.state).legs, ∀ parent ∈ (x.setLeg j leg c.state).legs,
      x.WaitsFor child parent → child.state.active = true → parent.state = .posted := by
  have hmem : leg ∈ x.legs := List.mem_of_getElem? hleg
  -- a leg whose child is under way is posted, and cannot move
  have hblocked : ∀ child ∈ x.legs, x.WaitsFor child leg → child.state.active = true → False := by
    intro child hchild hwaits hactive
    have hposted := h.edges child hchild leg hmem hwaits hactive
    have hinactive := (hc.of_posted hposted).2 child hchild hwaits
    rw [hactive] at hinactive
    cases hinactive
  intro child hchild parent hparent hwaits hactive
  rcases List.mem_or_eq_of_mem_set hchild with hchild | rfl
  · rcases List.mem_or_eq_of_mem_set hparent with hparent | rfl
    · exact h.edges child hchild parent hparent hwaits hactive
    · exact (hblocked child hchild hwaits hactive).elim
  · rcases hc.of_active hactive with hleg' | ⟨hidle, hready⟩
    · rcases List.mem_or_eq_of_mem_set hparent with hparent | rfl
      · exact h.edges leg hmem parent hparent hwaits hleg'
      · exact (hblocked leg hmem hwaits hleg').elim
    · rcases List.mem_or_eq_of_mem_set hparent with hparent | rfl
      · exact hready parent hparent hwaits
      · exact nomatch hidle.symm.trans (hready leg hmem hwaits)

/-- So does what its state says. -/
theorem Running.Sound.settled_setLeg {leg : Leg} (h : x.Sound) (hleg : x.legs[j]? = some leg)
    (hc : Changes b x leg c) : (x.setLeg j leg c.state).Settled := by
  have hmem : leg ∈ x.legs := List.mem_of_getElem? hleg
  have hs := h.settled
  have hstuck : leg.state.undone = true → x.state = .started := fun hu => (hc.of_undone hu).2
  unfold Running.Settled at hs ⊢
  cases hx : x.state <;> simp only [hx] at hs <;> simp only [Running.setLeg, hx]
  · exact nomatch hx.symm.trans (hstuck (by rw [hs leg hmem]; rfl))
  · obtain ⟨failed, hfailed, hst⟩ := hs
    refine ⟨failed, mem_set_of_ne _ hfailed hleg ?_, hst⟩
    rintro rfl
    exact nomatch hx.symm.trans (hstuck (by rw [hst]; rfl))
  · exact nomatch hx.symm.trans (hc.of_posted (hs leg hmem)).1
  · exact nomatch hx.symm.trans (hstuck (hs leg hmem))
  · obtain ⟨failed, hfailed, hst⟩ := hs
    refine ⟨failed, mem_set_of_ne _ hfailed hleg ?_, hst⟩
    rintro rfl
    exact nomatch hx.symm.trans (hstuck (by rw [hst]; rfl))
  · exact nomatch hx.symm.trans (hstuck (by rw [hs leg hmem]; rfl))

theorem Running.Sound.setLeg {leg : Leg} (h : x.Sound) (hleg : x.legs[j]? = some leg)
    (hc : Changes b x leg c) : (x.setLeg j leg c.state).Sound where
  legs :=
    (map_set_of_eq (·.transfer) { leg with state := c.state } hleg rfl).trans h.legs
  edges := h.edges_setLeg hleg hc
  staged := by
    intro l hl hreserves
    rcases List.mem_or_eq_of_mem_set hl with hl | rfl
    · exact h.staged l hl hreserves
    · exact hc.of_reserves hreserves
  settled := h.settled_setLeg hleg hc

theorem Running.net_setLeg {leg : Leg} (hleg : x.legs[j]? = some leg) (state : LegState)
    (a : Account) : (x.setLeg j leg state).net a =
      x.net a + (({ leg with state := state } : Leg).net a - leg.net a) :=
  sum_map_set (fun l : Leg => l.net a) _ hleg

theorem Running.held_setLeg {leg : Leg} (hleg : x.legs[j]? = some leg) (state : LegState)
    (a : Account) : (x.setLeg j leg state).held a =
      x.held a + (({ leg with state := state } : Leg).held a - leg.held a) :=
  sum_map_set (fun l : Leg => l.held a) _ hleg

/-- The legs of a request of one Transfer, and of two. -/
theorem Running.Sound.one (h : x.Sound) {t : Transfer} (hreq : x.origin.request.transfers = [t]) :
    ∃ leg, x.legs = [leg] ∧ leg.transfer = t := by
  have hlegs := h.legs.trans hreq
  obtain ⟨leg, rest, heq, ht, hrest⟩ := List.map_eq_cons_iff.mp hlegs
  rw [List.map_eq_nil_iff.mp hrest] at heq
  exact ⟨leg, heq, ht⟩

theorem Running.Sound.two (h : x.Sound) {t u : Transfer}
    (hreq : x.origin.request.transfers = [t, u]) :
    ∃ first second, x.legs = [first, second] ∧ first.transfer = t ∧ second.transfer = u := by
  have hlegs := h.legs.trans hreq
  obtain ⟨first, rest, heq, ht, hrest⟩ := List.map_eq_cons_iff.mp hlegs
  obtain ⟨second, rest', heq', hu, hrest'⟩ := List.map_eq_cons_iff.mp hrest
  rw [heq', List.map_eq_nil_iff.mp hrest'] at heq
  exact ⟨first, second, heq, ht, hu⟩

theorem Running.Sound.transfer_mem (h : x.Sound) {leg : Leg} (hleg : leg ∈ x.legs) :
    leg.transfer ∈ x.origin.request.transfers := by
  rw [← h.legs]
  exact List.mem_map_of_mem hleg

/-- What no Transfer of the request is from or to, the Transaction leaves alone. -/
theorem Running.Sound.net_eq_zero (h : x.Sound)
    (hne : ∀ t ∈ x.origin.request.transfers, t.source ≠ a ∧ t.dest ≠ a) : x.net a = 0 := by
  apply List.sum_eq_zero
  intro n hn
  obtain ⟨leg, hleg, rfl⟩ := List.mem_map.mp hn
  obtain ⟨hsource, hdest⟩ := hne leg.transfer (h.transfer_mem hleg)
  simp [Leg.net, Transfer.effect, hsource, hdest]

/-- What no staged Transfer of the request is from or to, the Transaction reserves
nothing on. -/
theorem Running.Sound.held_eq_zero (h : x.Sound)
    (hne : ∀ t ∈ x.origin.request.transfers, t.stage = true → t.source ≠ a ∧ t.dest ≠ a) :
    x.held a = 0 := by
  apply List.sum_eq_zero
  intro n hn
  obtain ⟨leg, hleg, rfl⟩ := List.mem_map.mp hn
  have hstaged := fun hs => hne leg.transfer (h.transfer_mem hleg) (h.staged leg hleg hs)
  unfold Leg.held
  cases hs : leg.state with
  | pending => simp [hold, (hstaged (.inl hs)).1]
  | reversing => simp [hold, (hstaged (.inr hs)).2]
  | _ => rfl

/-! ### What the books meet -/

/-- The balances are what the Transactions have moved and hold, every capped account
covers what is reserved on it, and every Transaction is sound. -/
structure State.Sound (b : State) : Prop where
  posted : ∀ a, b.posted a = (b.txns.map (·.net a)).sum
  reserved : ∀ a, b.reserved a = (b.txns.map (·.held a)).sum
  covered : ∀ a : Account, a.type.capped = true → b.reserved a ≤ b.posted a
  txns : ∀ x ∈ b.txns, x.Sound
  ids : (b.txns.map (·.origin.request.id)).Nodup

theorem State.Sound.add (h : b.Sound) {origin : Origin} (hnew : b.Fresh origin)
    (hstate : state = .initialized ∨ state = .rejected) :
    ({ b with txns := b.txns ++ [.fresh origin state] } : State).Sound := by
  have hnet : ∀ a, (Running.fresh origin state).net a = 0 := by
    intro a
    simp [Running.net, Running.fresh, Function.comp_def, Leg.net, LegState.moved]
  have hheld : ∀ a, (Running.fresh origin state).held a = 0 := by
    intro a
    simp [Running.held, Running.fresh, Function.comp_def, Leg.held]
  constructor
  · intro a
    simp [h.posted a, hnet a]
  · intro a
    simp [h.reserved a, hheld a]
  · exact h.covered
  · intro x hx
    rcases List.mem_append.mp hx with hx | hx
    · exact h.txns x hx
    · obtain rfl := List.mem_singleton.mp hx
      exact Running.fresh_sound origin hstate
  · rw [List.map_append, List.nodup_append]
    refine ⟨h.ids, by simp, ?_⟩
    intro id hid id' hid' heq
    obtain ⟨x, hx, rfl⟩ := List.mem_map.mp hid
    exact hnew.1 x hx (heq.trans (List.mem_singleton.mp hid'))

/-- A Transaction is replaced by one that is sound and has its origin. -/
theorem State.Sound.txns_set (h : b.Sound) {x' : Running} (hx : b.txns[i]? = some x)
    (hx' : x'.Sound) (horigin : x'.origin = x.origin) : (∀ y ∈ b.txns.set i x', y.Sound) ∧
      ((b.txns.set i x').map (·.origin.request.id)).Nodup := by
  constructor
  · intro y hy
    rcases List.mem_or_eq_of_mem_set hy with hy | rfl
    · exact h.txns y hy
    · exact hx'
  · rw [map_set_of_eq (·.origin.request.id) x' hx (by rw [horigin])]
    exact h.ids

theorem State.Sound.become (h : b.Sound) (hx : b.txns[i]? = some x) (hmay : x.May state) :
    ({ b with txns := b.txns.set i { x with state := state } } : State).Sound := by
  let x' : Running := { x with state := state }
  have hx' : x'.Sound := (h.txns x (List.mem_of_getElem? hx)).become hmay
  have hset := h.txns_set hx hx' rfl
  constructor
  · intro a
    exact (h.posted a).trans
      (congrArg List.sum (map_set_of_eq (fun y : Running => y.net a) x' hx rfl).symm)
  · intro a
    exact (h.reserved a).trans
      (congrArg List.sum (map_set_of_eq (fun y : Running => y.held a) x' hx rfl).symm)
  · exact h.covered
  · exact hset.1
  · exact hset.2

theorem State.Sound.leg (h : b.Sound) {leg : Leg} (hx : b.txns[i]? = some x)
    (hleg : x.legs[j]? = some leg) (hc : Changes b x leg c) : (b.apply i j x leg c).Sound := by
  have hx' : (x.setLeg j leg c.state).Sound :=
    (h.txns x (List.mem_of_getElem? hx)).setLeg hleg hc
  have hset := h.txns_set hx hx' rfl
  constructor
  · intro a
    have hsum := sum_map_set (fun y : Running => y.net a) (x.setLeg j leg c.state) hx
    rw [Running.net_setLeg hleg] at hsum
    change b.posted a + c.posted a = _
    rw [h.posted a, (hc.accounts a).1]
    exact (by omega : ∀ {n m d s : Int}, s = n + (m + d - m) → n + d = s) hsum
  · intro a
    have hsum := sum_map_set (fun y : Running => y.held a) (x.setLeg j leg c.state) hx
    rw [Running.held_setLeg hleg] at hsum
    change b.reserved a + c.reserved a = _
    rw [h.reserved a, (hc.accounts a).2]
    exact (by omega : ∀ {n m d s : Int}, s = n + (m + d - m) → n + d = s) hsum
  · intro a hcap
    exact hc.covered hcap (h.covered a hcap)
  · exact hset.1
  · exact hset.2

theorem Step.sound {b' : State} {m : Move} (hstep : Step b m b') (h : b.Sound) : b'.Sound := by
  cases hstep with
  | add origin state hnew hm => exact h.add hnew (hm.imp And.right And.right)
  | become i x state hx hmay => exact h.become hx hmay
  | leg i j x leg c hx hleg hc => exact h.leg hx hleg hc

/-- Every state Go reaches is sound. -/
theorem reachable_sound {cond : State → Move → Prop} (h : run.Reaches cond b) : b.Sound := by
  apply h.invariant
  · exact ⟨fun _ => rfl, fun _ => rfl, fun _ _ => Int.le_refl 0, nofun, List.nodup_nil⟩
  · intro s m s' hs _ hx
    exact (State.exec_step hx).sound hs

end MoneyFlow.Books
