import MoneyFlow.Books.Lifecycle
import MoneyFlow.Books.Sides

/-!
# MoneyFlow.Books.Uncleared

The Clearings and late returns Ruby asks for, and that their accounts can pay for them.

All deposits of an entity share one `uncleared_cash` account. What is on it is what the
deposits that posted put there, less what Clearings and Clawbacks took. Ruby asks for a
Clearing only of a completed deposit whose Clearing it recorded before any notice, and
for a Clawback only of one with a notice and no Clearing, so no deposit is taken from
the pool twice.
-/

namespace MoneyFlow.Books

open Concurrent

variable {x : Running} {ach : AchTransaction} {b : State} {o : Origin} {leg : Leg}

/-! ### What Ruby may ask for -/

/-- Go's books, with the ACH Transactions whose Clearing Ruby recorded and those it has a
return notice for. -/
structure Desk where
  books : State
  recorded : List Uuid
  noticed : List Uuid

variable {d : Desk}

/-- What can happen: a move of Go's, a Clearing is recorded, a notice arrives. -/
inductive DeskMove
  | go (m : Move)
  | record (ach : AchTransaction)
  | notice (ach : AchTransaction)

/-- The ACH Transaction ran to its end. -/
def State.Completed (b : State) (ach : AchTransaction) : Prop :=
  ∃ x ∈ b.txns, x.origin = .ach ach ∧ x.state = .completed

instance (b : State) (ach : AchTransaction) : Decidable (b.Completed ach) :=
  inferInstanceAs (Decidable (∃ x ∈ _, _))

/-- Ruby asks for a Clearing when it is recorded, and for a late return when there is a
notice, in the form `form_for` chooses; both only of what has completed. -/
def Desk.MayAsk (d : Desk) : Origin → Prop
  | .clearing ach => ach.direction = .deposit ∧ d.books.Completed ach ∧ ach.id ∈ d.recorded
  | .lateReturn ach recorded =>
    d.books.Completed ach ∧ ach.id ∈ d.noticed ∧ recorded = decide (ach.id ∈ d.recorded)
  | _ => True

instance (d : Desk) : ∀ o, Decidable (d.MayAsk o)
  | .clearing _ => inferInstanceAs (Decidable (_ ∧ _ ∧ _))
  | .lateReturn _ _ => inferInstanceAs (Decidable (_ ∧ _ ∧ _))
  | .ach _ | .recovery .. | .offering .. | .purchase .. | .draw .. | .repayment ..
  | .disbursement .. => inferInstanceAs (Decidable True)

/-- Whether a move of Go's starts from something Ruby may ask for. -/
def Desk.Allows (d : Desk) : Move → Prop
  | .accept o | .reject o => d.MayAsk o
  | _ => True

instance (d : Desk) : ∀ m, Decidable (d.Allows m)
  | .accept o | .reject o => inferInstanceAs (Decidable (d.MayAsk o))
  | .start _ | .complete _ | .startRollback _ | .finishRollback _ | .leg _ _ _ =>
    inferInstanceAs (Decidable True)

/-- What a move does. `Clear#record!` raises when there is a notice and no Clearing. -/
def Desk.exec (d : Desk) : DeskMove → Option Desk
  | .go m => if d.Allows m then (d.books.exec m).map fun b => { d with books := b } else none
  | .record ach =>
    if ach.id ∈ d.noticed ∧ ach.id ∉ d.recorded then none
    else some { d with recorded := ach.id :: d.recorded }
  | .notice ach => some { d with noticed := ach.id :: d.noticed }

/-- Go and Ruby's records, from nothing. -/
def desk : Machine Desk DeskMove where
  init := ⟨run.init, [], []⟩
  exec := Desk.exec

/-- A move is one of Go's that Ruby asked for, or leaves Go alone. -/
theorem Desk.exec_books {d' : Desk} {m : DeskMove} (h : d.exec m = some d') :
    (∃ mv, m = .go mv ∧ d.Allows mv ∧ d.books.exec mv = some d'.books ∧
        d' = { d with books := d'.books }) ∨
      (∀ mv, m ≠ .go mv) ∧ d'.books = d.books := by
  cases m with
  | go mv =>
    simp only [Desk.exec] at h
    split at h
    · rename_i hallows
      obtain ⟨b, hb, rfl⟩ := Option.map_eq_some_iff.mp h
      exact .inl ⟨mv, rfl, hallows, hb, rfl⟩
    · cases h
  | record ach =>
    simp only [Desk.exec] at h
    split at h
    · cases h
    · cases h
      exact .inr ⟨nofun, rfl⟩
  | notice ach =>
    cases h
    exact .inr ⟨nofun, rfl⟩

/-- What Go does under Ruby is what Go does. -/
theorem desk_books {cond : Desk → DeskMove → Prop} (h : desk.Reaches cond d) :
    run.Reachable d.books := by
  induction h with
  | init => exact .init
  | @step d d' m _ _ hx ih =>
    rcases Desk.exec_books hx with ⟨mv, -, -, hb, -⟩ | ⟨-, hsame⟩
    · exact .step ih trivial hb
    · rw [hsame]
      exact ih

/-! ### What was asked for may still be -/

/-- Completed is where an ACH Transaction stays. -/
theorem Step.completed {b' : State} {m : Move} (hstep : Step b m b') (h : b.Completed ach) :
    b'.Completed ach := by
  obtain ⟨x, hx, horigin, hstate⟩ := h
  obtain ⟨x', hx', horigin', hpath⟩ := hstep.advances hx
  refine ⟨x', hx', horigin'.trans horigin, ?_⟩
  rw [hstate] at hpath
  cases hs : x'.state <;> simp [hs, path] at hpath ⊢

/-- A Transaction was there, or was just asked for. -/
theorem Step.origins {b' : State} {m : Move} (hstep : Step b m b') (hx : x ∈ b'.txns) :
    (∃ y ∈ b.txns, y.origin = x.origin) ∨ m = .accept x.origin ∨ m = .reject x.origin := by
  cases hstep with
  | add origin state hnew hm =>
    rcases List.mem_append.mp hx with hx | hx
    · exact .inl ⟨x, hx, rfl⟩
    · obtain rfl := List.mem_singleton.mp hx
      exact .inr (hm.imp And.left And.left)
  | become i y state hy hmay | leg i j y leg c hy hleg hc =>
    rcases List.mem_or_eq_of_mem_set hx with hx | rfl
    · exact .inl ⟨x, hx, rfl⟩
    · exact .inl ⟨y, List.mem_of_getElem? hy, rfl⟩

/-- What may be asked for stays so as the books go on. -/
theorem Desk.MayAsk.books (h : d.MayAsk o)
    (hcompleted : ∀ ach, d.books.Completed ach → b.Completed ach) :
    ({ d with books := b } : Desk).MayAsk o := by
  cases o with
  | clearing ach => exact ⟨h.1, hcompleted ach h.2.1, h.2.2⟩
  | lateReturn ach recorded => exact ⟨hcompleted ach h.1, h.2⟩
  | _ => trivial

/-- A Clearing recorded since does not change what a late return was asked for as: one
that has a notice is recorded only if it already was. -/
theorem Desk.MayAsk.record (h : d.MayAsk o) (hok : ¬ (ach.id ∈ d.noticed ∧ ach.id ∉ d.recorded)) :
    ({ d with recorded := ach.id :: d.recorded } : Desk).MayAsk o := by
  cases o with
  | clearing entry => exact ⟨h.1, h.2.1, List.mem_cons_of_mem _ h.2.2⟩
  | lateReturn entry recorded =>
    refine ⟨h.1, h.2.1, h.2.2.trans (decide_eq_decide.mpr ⟨List.mem_cons_of_mem _, ?_⟩)⟩
    intro hmem
    rcases List.mem_cons.mp hmem with heq | hmem
    · rw [heq]
      exact not_not.mp fun hnot => hok ⟨heq ▸ h.2.1, hnot⟩
    · exact hmem
  | _ => trivial

theorem Desk.MayAsk.notice (h : d.MayAsk o) (ach : AchTransaction) :
    ({ d with noticed := ach.id :: d.noticed } : Desk).MayAsk o := by
  cases o with
  | clearing entry => exact h
  | lateReturn entry recorded => exact ⟨h.1, List.mem_cons_of_mem _ h.2.1, h.2.2⟩
  | _ => trivial

/-- Every Transaction Go has was one Ruby may ask for, and still may. -/
theorem desk_asked {cond : Desk → DeskMove → Prop} (h : desk.Reaches cond d) :
    ∀ x ∈ d.books.txns, d.MayAsk x.origin := by
  induction h with
  | init => exact nofun
  | @step d d' m _ _ hexec ih =>
    intro x hx
    cases m with
    | go m =>
      rcases Desk.exec_books (show d.exec (.go m) = some d' from hexec) with
        ⟨mv, hmv, hallows, hb, heq⟩ | ⟨hnot, -⟩
      · obtain rfl := DeskMove.go.inj hmv
        have hstep := State.exec_step hb
        have hasked : d.MayAsk x.origin := by
          rcases hstep.origins hx with ⟨y, hy, horigin⟩ | rfl | rfl
          · exact horigin ▸ ih y hy
          · exact hallows
          · exact hallows
        rw [heq]
        exact hasked.books fun ach hc => hstep.completed hc
      · exact (hnot m rfl).elim
    | record ach =>
      simp only [desk, Desk.exec] at hexec
      split at hexec
      · cases hexec
      · rename_i hok
        cases hexec
        exact (ih x hx).record hok
    | notice ach =>
      cases hexec
      exact (ih x hx).notice ach

/-! ### The pool of uncleared cash -/

/-- The deposit whose money the Transaction put in the pool. -/
def Running.given (x : Running) : Option AchTransaction :=
  match x.origin, x.legs with
  | .ach ach, [_, shadow] =>
    if ach.direction = .deposit ∧ shadow.state.moved = true then some ach else none
  | _, _ => none

/-- The deposit whose money the Transaction took from the pool. -/
def Running.taken (x : Running) : Option AchTransaction :=
  match x.origin, x.legs with
  | .clearing ach, [leg] => if leg.state.moved = true then some ach else none
  | .lateReturn ach false, [cleared, _] =>
    if ach.direction = .deposit ∧ cleared.state.moved = true then some ach else none
  | _, _ => none

/-- What a deposit is to an entity. -/
def AchTransaction.amountOf (entityID : Nat) (ach : AchTransaction) : Int :=
  if ach.entityID = entityID then ach.amount else 0

theorem AchTransaction.amountOf_nonneg (e : Nat) (ach : AchTransaction) : 0 ≤ ach.amountOf e := by
  unfold AchTransaction.amountOf
  split <;> omega

/-- The part of a deposit that may be missing. -/
def partOf (entityID : Nat) (ach : Option AchTransaction) : Int :=
  (ach.map (·.amountOf entityID)).getD 0

theorem ach_uncleared (h : x.Sound) (e : Nat) (horigin : x.origin = .ach ach) :
    x.net (ofEntity e .unclearedCash) = partOf e x.given - partOf e x.taken := by
  obtain ⟨real, shadow, hlegs, hreal, hshadow⟩ := h.two (by rw [horigin]; rfl)
  unfold Running.net Running.given Running.taken partOf
  rw [horigin, hlegs]
  cases hdir : ach.direction <;> cases hmoved : shadow.state.moved <;>
    simp [Leg.net, hreal, hshadow, hdir, hmoved, ShapeLeg.transfer, TransactionShape.realLeg,
      TransactionShape.shadowLeg, Transfer.effect, AchTransaction.amountOf]

theorem clearing_uncleared (h : x.Sound) (e : Nat) (horigin : x.origin = .clearing ach) :
    x.net (ofEntity e .unclearedCash) = partOf e x.given - partOf e x.taken := by
  obtain ⟨leg, hlegs, hleg⟩ := h.one (by rw [horigin]; rfl)
  unfold Running.net Running.given Running.taken partOf
  rw [horigin, hlegs]
  cases hmoved : leg.state.moved <;>
    simp [Leg.net, hleg, hmoved, Transfer.effect, AchTransaction.amountOf]

theorem clawback_uncleared (h : x.Sound) (e : Nat) (horigin : x.origin = .lateReturn ach false)
    (hdir : ach.direction = .deposit) :
    x.net (ofEntity e .unclearedCash) = partOf e x.given - partOf e x.taken := by
  obtain ⟨cleared, cash, hlegs, hcleared, hcash⟩ := h.two
    (by rw [horigin, Origin.request, LateReturnShape.startRequest, hdir]; rfl)
  unfold Running.net Running.given Running.taken partOf
  rw [horigin, hlegs]
  cases hmoved : cleared.state.moved <;>
    simp [Leg.net, hcleared, hcash, hdir, hmoved, ShapeLeg.transfer, Transfer.effect,
      AchTransaction.amountOf]

/-- The Transactions that touch uncleared cash. -/
def Origin.Pools (o : Origin) : Prop :=
  (∃ ach, o = .ach ach) ∨ (∃ ach, o = .clearing ach) ∨
    ∃ ach, o = .lateReturn ach false ∧ ach.direction = .deposit

/-- The Transactions that touch what is owed. -/
def Origin.Owes (o : Origin) : Prop :=
  (∃ owner sequence amount, o = .recovery owner sequence amount) ∨
    ∃ ach, o = .lateReturn ach true ∧ ach.direction = .deposit

/-- Which types of account each shape touches. Only cash and the bank are ever reserved on. -/
theorem transfer_types (o : Origin) : ∀ t ∈ o.request.transfers,
    (t.source.type = .unclearedCash ∨ t.dest.type = .unclearedCash → o.Pools) ∧
    (t.source.type = .receivable ∨ t.dest.type = .receivable → o.Owes) ∧
    (t.stage = true → (t.source.type = .bank ∨ t.source.type = .cash) ∧
      (t.dest.type = .bank ∨ t.dest.type = .cash)) := by
  unfold Origin.Pools Origin.Owes
  cases o with
  | ach entry =>
    obtain ⟨id, owner, direction, amount, real, shadow⟩ := entry
    cases direction <;> simp [Origin.request, TransactionShape.startRequest, ShapeLeg.transfer,
      TransactionShape.realLeg, TransactionShape.shadowLeg]
  | clearing entry => simp [Origin.request, ClearingShape.startRequest]
  | lateReturn entry recorded =>
    simp only [Origin.request, LateReturnShape.startRequest]
    cases hdir : entry.direction <;> cases recorded <;>
      simp [LateReturnShape.formFor, LateReturnShape.legs, ShapeLeg.transfer, hdir]
  | recovery owner sequence amount => simp [Origin.request, RecoveryShape.startRequest]
  | offering security id transfer amount => simp [Origin.request, OfferingShape.startRequest]
  | purchase security investor id claim transfer amount =>
    simp [Origin.request, PurchaseShape.startRequest, money, moneyOfEntity, moneyOfSecurity]
  | draw security id transfer amount =>
    simp [Origin.request, DrawShape.startRequest, money, moneyOfEntity, moneyOfSecurity]
  | repayment security id transfer amount =>
    simp [Origin.request, RepaymentShape.startRequest, money, moneyOfEntity, moneyOfSecurity]
  | disbursement security repaymentID investor principal interest =>
    simp only [Origin.request, DisbursementShape.startRequest]
    split <;> simp [money, moneyOfEntity, moneyOfSecurity]

/-- What a Transaction leaves in the pool. -/
theorem Running.Sound.net_uncleared (h : x.Sound) (e : Nat) :
    x.net (ofEntity e .unclearedCash) = partOf e x.given - partOf e x.taken := by
  by_cases hpools : x.origin.Pools
  · rcases hpools with ⟨ach, horigin⟩ | ⟨ach, horigin⟩ | ⟨ach, horigin, hdir⟩
    · exact ach_uncleared h e horigin
    · exact clearing_uncleared h e horigin
    · exact clawback_uncleared h e horigin hdir
  · have hgiven : x.given = none := by
      unfold Running.given
      split
      · rename_i ach _ shadow horigin _
        exact (hpools (.inl ⟨ach, horigin⟩)).elim
      · rfl
    have htaken : x.taken = none := by
      unfold Running.taken
      split
      · rename_i ach leg horigin _
        exact (hpools (.inr (.inl ⟨ach, horigin⟩))).elim
      · rename_i ach leg _ horigin _
        exact if_neg fun hdir => hpools (.inr (.inr ⟨ach, horigin, hdir.1⟩))
      · rfl
    rw [hgiven, htaken]
    refine h.net_eq_zero fun t ht => ⟨fun heq => hpools ?_, fun heq => hpools ?_⟩
    · exact (transfer_types x.origin t ht).1 (.inl (by rw [heq]))
    · exact (transfer_types x.origin t ht).1 (.inr (by rw [heq]))

/-- Nothing is reserved on the pool. -/
theorem State.Sound.reserved_uncleared (h : b.Sound) (e : Nat) :
    b.reserved (ofEntity e .unclearedCash) = 0 := by
  rw [h.reserved]
  apply List.sum_eq_zero
  intro n hn
  obtain ⟨x, hx, rfl⟩ := List.mem_map.mp hn
  refine (h.txns x hx).held_eq_zero fun t ht hstage => ?_
  have htypes := (transfer_types x.origin t ht).2.2 hstage
  constructor
  · intro heq
    rw [heq] at htypes
    simp at htypes
  · intro heq
    rw [heq] at htypes
    simp at htypes

/-- What is in the pool: the deposits given to it, less those taken. -/
theorem State.Sound.posted_uncleared (h : b.Sound) (e : Nat) :
    b.posted (ofEntity e .unclearedCash) =
      ((b.txns.filterMap Running.given).map (AchTransaction.amountOf e)).sum -
        ((b.txns.filterMap Running.taken).map (AchTransaction.amountOf e)).sum := by
  rw [h.posted, ← sum_filterMap Running.given, ← sum_filterMap Running.taken, ← sum_map_sub]
  exact congrArg List.sum (List.map_congr_left fun x hx => (h.txns x hx).net_uncleared e)

/-! ### No deposit is taken twice -/

/-- The Transaction is the deposit's Clearing or its Clawback. -/
def Running.TakesFrom (x : Running) (ach : AchTransaction) : Prop :=
  x.origin = .clearing ach ∨ x.origin = .lateReturn ach false ∧ ach.direction = .deposit

theorem Running.takesFrom_of_taken (h : x.taken = some ach) : x.TakesFrom ach := by
  unfold Running.taken at h
  split at h
  · rename_i entry leg horigin _
    split at h
    · cases h
      exact .inl horigin
    · cases h
  · rename_i entry leg _ horigin _
    split at h
    · rename_i hdir
      cases h
      exact .inr ⟨horigin, hdir.1⟩
    · cases h
  · cases h

/-- Transactions are told apart by their ids. -/
theorem State.Sound.eq_of_id (h : b.Sound) {y : Running} (hx : x ∈ b.txns) (hy : y ∈ b.txns)
    (hid : x.origin.request.id = y.origin.request.id) : x = y :=
  List.inj_on_of_nodup_map h.ids hx hy hid

section Desk

variable {d : Desk} (hsound : d.books.Sound) (hasked : ∀ x ∈ d.books.txns, d.MayAsk x.origin)
include hsound hasked

/-- Of a deposit there is one Clearing or one Clawback. -/
theorem takesFrom_unique {y : Running} (hx : x ∈ d.books.txns) (hy : y ∈ d.books.txns)
    (htx : x.TakesFrom ach) (hty : y.TakesFrom ach) : x = y := by
  have hax := hasked x hx
  have hay := hasked y hy
  -- a Clearing was recorded, a Clawback was asked for because none was
  have hnotboth : ∀ {o o' : Origin}, o = .clearing ach → o' = .lateReturn ach false →
      d.MayAsk o → d.MayAsk o' → False := by
    intro o o' ho ho' hask hask'
    subst ho ho'
    exact of_decide_eq_false hask'.2.2.symm hask.2.2
  rcases htx with hox | ⟨hox, -⟩
  · rcases hty with hoy | ⟨hoy, -⟩
    · exact hsound.eq_of_id hx hy (by rw [hox, hoy])
    · exact (hnotboth hox hoy hax hay).elim
  · rcases hty with hoy | ⟨hoy, -⟩
    · exact (hnotboth hoy hox hay hax).elim
    · exact hsound.eq_of_id hx hy (by rw [hox, hoy])

/-- The deposits taken from the pool are each taken once. -/
theorem taken_nodup : (d.books.txns.filterMap Running.taken).Nodup := by
  apply List.pairwise_filterMap.mpr
  have hdistinct : d.books.txns.Nodup := List.Nodup.of_map _ hsound.ids
  refine List.Pairwise.imp_of_mem ?_ hdistinct
  intro x y hx hy hne ach hax ach' hay heq
  subst heq
  exact hne (takesFrom_unique hsound hasked hx hy (Running.takesFrom_of_taken hax)
    (Running.takesFrom_of_taken hay))

/-- What a Clearing or a Clawback takes was given. -/
theorem given_of_takesFrom (hx : x ∈ d.books.txns) (h : x.TakesFrom ach) :
    ach ∈ d.books.txns.filterMap Running.given := by
  have hcompleted : d.books.Completed ach ∧ ach.direction = .deposit := by
    have hask := hasked x hx
    rcases h with ho | ⟨ho, hdir⟩
    · rw [ho] at hask
      exact ⟨hask.2.1, hask.1⟩
    · rw [ho] at hask
      exact ⟨hask.1, hdir⟩
  obtain ⟨⟨y, hy, horigin, hstate⟩, hdir⟩ := hcompleted
  have hysound := hsound.txns y hy
  obtain ⟨real, shadow, hlegs, -, -⟩ := hysound.two (by rw [horigin]; rfl)
  have hposted := hysound.settled
  unfold Running.Settled at hposted
  rw [hstate] at hposted
  have hshadow : shadow.state = .posted := hposted shadow (by simp [hlegs])
  refine List.mem_filterMap.mpr ⟨y, hy, ?_⟩
  unfold Running.given
  rw [horigin, hlegs]
  simp [hdir, hshadow, LegState.moved]

/-- A deposit that is about to be taken is still in the pool. -/
theorem pool_covers (hx : x ∈ d.books.txns) (h : x.TakesFrom ach) (hnot : x.taken = none) :
    (ach.amount : Int) ≤ d.books.posted (ofEntity ach.entityID .unclearedCash) -
      d.books.reserved (ofEntity ach.entityID .unclearedCash) := by
  have hnew : ach ∉ d.books.txns.filterMap Running.taken := by
    intro hmem
    obtain ⟨y, hy, htaken⟩ := List.mem_filterMap.mp hmem
    have hxy := takesFrom_unique hsound hasked hx hy h (Running.takesFrom_of_taken htaken)
    subst hxy
    exact nomatch hnot.symm.trans htaken
  have hnodup : (ach :: d.books.txns.filterMap Running.taken).Nodup :=
    List.nodup_cons.mpr ⟨hnew, taken_nodup hsound hasked⟩
  have hsubset : ach :: d.books.txns.filterMap Running.taken ⊆
      d.books.txns.filterMap Running.given := by
    intro entry hentry
    rcases List.mem_cons.mp hentry with rfl | hentry
    · exact given_of_takesFrom hsound hasked hx h
    · obtain ⟨y, hy, htaken⟩ := List.mem_filterMap.mp hentry
      exact given_of_takesFrom hsound hasked hy (Running.takesFrom_of_taken htaken)
  have hle := sum_le_of_subset (fun x _ => AchTransaction.amountOf_nonneg ach.entityID x) hnodup
    hsubset
  have hself : ach.amountOf ach.entityID = ach.amount := if_pos rfl
  rw [List.map_cons, List.sum_cons, hself] at hle
  rw [hsound.posted_uncleared, hsound.reserved_uncleared]
  omega

end Desk

/-! ### A leg that is ready can be paid -/

theorem clearing_paid (hsound : d.books.Sound) (hasked : ∀ x ∈ d.books.txns, d.MayAsk x.origin)
    (hx : x ∈ d.books.txns) (horigin : x.origin = .clearing ach) (hleg : leg ∈ x.legs)
    (hmoved : leg.state.moved = false) :
    d.books.CanDebit leg.transfer.source leg.transfer.amount := by
  obtain ⟨l, hlegs, htransfer⟩ := (hsound.txns x hx).one (by rw [horigin]; rfl)
  obtain rfl : leg = l := by simpa [hlegs] using hleg
  have hnot : x.taken = none := by
    unfold Running.taken
    rw [horigin, hlegs]
    simp [hmoved]
  rw [htransfer]
  exact .inr (pool_covers hsound hasked hx (.inl horigin) hnot)

/-- The second leg of a Clawback takes the cash its first leg set free. -/
theorem clawback_cash_paid (hsound : b.Sound) (hx : x ∈ b.txns) {cleared cash : Leg}
    (hlegs : x.legs = [cleared, cash])
    (hcleared : cleared.transfer =
      ShapeLeg.transfer ⟨.unclearedCash, .bankControl, false, false⟩
        (.lateReturnLeg ach.id .cleared) ach.entityID ach.amount)
    (hposted : cleared.state = .posted) (hpending : cash.state ≠ .pending)
    (hmoved : cash.state.moved = false) : (ach.amount : Int) ≤
      b.posted (ofEntity ach.entityID .cash) - b.reserved (ofEntity ach.entityID .cash) := by
  have hspare := hsound.slack_le ach.entityID hx
  rw [Running.slack, hlegs] at hspare
  simp only [List.map_cons, List.map_nil, List.sum_cons, List.sum_nil] at hspare
  rw [Leg.slack_unmoved hpending hmoved, Leg.slack_posted hposted, hcleared] at hspare
  have hpull : ((⟨.unclearedCash, .bankControl, false, false⟩ : ShapeLeg).transfer
      (.lateReturnLeg ach.id .cleared) ach.entityID ach.amount).pull
      (cashSide ach.entityID) = 1 := by
    simp [Transfer.pull, ShapeLeg.transfer, share]
  rw [hpull] at hspare
  have huncleared := hsound.posted_nonneg (a := ofEntity ach.entityID .unclearedCash) rfl
  have hclear := hsound.posted_nonneg (a := ofEntity ach.entityID .clearedCash) rfl
  simp only [ShapeLeg.transfer] at hspare
  omega

theorem clawback_paid (hsound : d.books.Sound) (hasked : ∀ x ∈ d.books.txns, d.MayAsk x.origin)
    (hx : x ∈ d.books.txns) (horigin : x.origin = .lateReturn ach false)
    (hdir : ach.direction = .deposit) (hleg : leg ∈ x.legs) (hpending : leg.state ≠ .pending)
    (hmoved : leg.state.moved = false) (hready : x.Ready leg) :
    d.books.CanDebit leg.transfer.source leg.transfer.amount := by
  obtain ⟨cleared, cash, hlegs, hcleared, hcash⟩ := (hsound.txns x hx).two
    (by rw [horigin, Origin.request, LateReturnShape.startRequest, hdir]; rfl)
  rw [hlegs] at hleg
  rcases List.mem_pair.mp hleg with rfl | rfl
  · have hnot : x.taken = none := by
      unfold Running.taken
      rw [horigin, hlegs]
      simp [hmoved]
    rw [hcleared]
    exact .inr (pool_covers hsound hasked hx (.inr ⟨horigin, hdir⟩) hnot)
  · have hposted : cleared.state = .posted := by
      refine hready cleared (by simp [hlegs]) ?_
      unfold Running.WaitsFor
      rw [horigin, hcleared, hcash]
      simp [Origin.request, LateReturnShape.startRequest, LateReturnShape.formFor, hdir,
        LateReturnShape.legs, chain, StartRequest.parents, ShapeLeg.transfer]
    rw [hcash]
    exact .inr (clawback_cash_paid hsound hx hlegs hcleared hposted hpending hmoved)

/-- What a late return mints it may always take. -/
theorem minted_paid (hsound : x.Sound) {recorded : Bool}
    (horigin : x.origin = .lateReturn ach recorded)
    (hform : LateReturnShape.formFor ach.direction recorded ≠ .clawback) (hleg : leg ∈ x.legs) :
    b.CanDebit leg.transfer.source leg.transfer.amount := by
  have hmem := hsound.transfer_mem hleg
  rw [horigin] at hmem
  simp only [Origin.request, LateReturnShape.startRequest] at hmem
  left
  cases hf : LateReturnShape.formFor ach.direction recorded with
  | clawback => exact (hform hf).elim
  | withdrawalReturn =>
    rw [hf] at hmem
    simp only [LateReturnShape.legs, List.map_cons, List.map_nil] at hmem
    rcases List.mem_pair.mp hmem with ht | ht
    · rw [ht]
      rfl
    · rw [ht]
      rfl
  | debtReturn =>
    rw [hf] at hmem
    obtain ht := List.mem_singleton.mp hmem
    rw [ht]
    rfl

/-- Whenever a leg of a Clearing or of a late return is ready, its account is uncapped or
holds the leg's amount net of reservations. -/
theorem ready_leg_is_funded {d : Desk} (h : desk.Reachable d) {x : Running}
    (hx : x ∈ d.books.txns) {ach : AchTransaction}
    (horigin : x.origin = .clearing ach ∨ ∃ recorded, x.origin = .lateReturn ach recorded)
    {leg : Leg} (hleg : leg ∈ x.legs) (hstate : leg.state = .idle ∨ leg.state = .requested)
    (hready : x.Ready leg) : d.books.CanDebit leg.transfer.source leg.transfer.amount := by
  have hsound := reachable_sound (desk_books h)
  have hasked := desk_asked h
  have hpending : leg.state ≠ .pending := by
    rcases hstate with hs | hs <;> rw [hs] <;> nofun
  have hmoved : leg.state.moved = false := by
    rcases hstate with hs | hs <;> rw [hs] <;> rfl
  rcases horigin with horigin | ⟨recorded, horigin⟩
  · exact clearing_paid hsound hasked hx horigin hleg hmoved
  · by_cases hclawback : recorded = false ∧ ach.direction = .deposit
    · obtain ⟨rfl, hdir⟩ := hclawback
      exact clawback_paid hsound hasked hx horigin hdir hleg hpending hmoved hready
    · refine minted_paid (hsound.txns x hx) horigin ?_ hleg
      intro hform
      apply hclawback
      cases hdir : ach.direction <;> cases recorded <;>
        simp [LateReturnShape.formFor, hdir] at hform ⊢

/-- A deposit completes, its Clearing is recorded, asked for and started. -/
def clearingMoves : List DeskMove :=
  depositMoves.map .go ++
    [.record deposited, .notice deposited, .go (.accept (.clearing deposited)), .go (.start 1)]

theorem clearing_is_funded : ∃ d, desk.Reachable d ∧
    d.books.CanDebit (ofEntity 1 .unclearedCash) 100 := by
  obtain ⟨d, hd, hx⟩ := Machine.exists_of_play desk (fun _ _ => True)
    (Running.fresh (.clearing deposited) .started ∈ ·.books.txns) clearingMoves (by decide +kernel)
  exact ⟨d, hd, ready_leg_is_funded hd hx (.inl rfl) (List.mem_singleton.mpr rfl) (.inl rfl)
    (by decide)⟩

end MoneyFlow.Books
