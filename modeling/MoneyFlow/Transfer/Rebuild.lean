import MoneyFlow.Sums
import MoneyFlow.Transfer.Routes

/-!
# MoneyFlow.Transfer.Rebuild

Balances are rebuilt from the log.

Once every Transfer has come to its end, the postings in the ledger are the legs of
the Committed Transfers, each once (`postings_perm`), and so what the Tokens of a
Wallet have posted is what the log says came in less what it says went out
(`rebuilt_from_log`). Two things are asked of the ledger, which is not of this
repository: no posted total overflows (`NoOverflow`; TigerBeetle refuses a transfer
that would), and an id it has refused stays refused, as `Ledger.judge` has it.
-/

namespace MoneyFlow.Transfer

open Concurrent Ledger

variable {e : Id × StoredTransfer}

variable {R : Prop} {w w' : World} {id x W : Id} {legs : List TransferLeg} {leg : TransferLeg}

/-! ### No total overflows -/

/-- The ledger is not asked for more than its totals hold: what a request would post
fits the totals it is posted to. -/
def NoOverflow (_ : Driver) : Op → World → Prop
  | .createTransfers batch, w => ∀ e ∈ w.ledger.unapplied batch,
      (∀ a ∈ w.ledger.accounts e.2.debitAccountID, a.debitsPosted.toNat +
        amount (postsTo .debit e.2.debitAccountID) (w.ledger.unapplied batch) < 2 ^ 64) ∧
      ∀ a ∈ w.ledger.accounts e.2.creditAccountID, a.creditsPosted.toNat +
        amount (postsTo .credit e.2.creditAccountID) (w.ledger.unapplied batch) < 2 ^ 64
  | _, _ => True

instance : ∀ d o w, Decidable (NoOverflow d o w) := by
  rintro d ⟨⟩ w <;> delta NoOverflow <;> infer_instance

/-- What was posted fits the totals. -/
def Fits (w : World) : Prop := ∀ side x, amount (postsTo side x) w.ledger.transfers < 2 ^ 64

theorem NoOverflow.side {d : Driver} {batch : List LedgerTransfer}
    (h : NoOverflow d (.createTransfers batch) w) (he : e ∈ w.ledger.unapplied batch) {side : Side}
    {a : StoredAccount} (ha : w.ledger.accounts (e.2.account side) = some a) :
    (a.posted side).toNat +
      amount (postsTo side (e.2.account side)) (w.ledger.unapplied batch) < 2 ^ 64 := by
  cases side with
  | debit => exact (h e he).1 a ha
  | credit => exact (h e he).2 a ha

/-- An account's posted total is what was posted to it. -/
theorem posted_toNat {a : StoredAccount} (hb : Balanced w) (h : Fits w)
    (ha : w.ledger.accounts x = some a) (side : Side) :
    (a.posted side).toNat = amount (postsTo side x) w.ledger.transfers := by
  rw [hb.accounted.posted x a ha side, postedSum_eq, UInt64.toNat_ofNat_of_lt' (h side x)]

/-- Nothing is posted to an account that is not there. -/
theorem unposted_of_none (hb : Balanced w) (hx : w.ledger.accounts x = none) (side : Side) :
    amount (postsTo side x) w.ledger.transfers = 0 := by
  refine amount_postsTo_eq_zero fun e he heq => ?_
  have hsome := hb.accounted.known e he side
  rw [heq, hx] at hsome
  exact absurd hsome (by simp)

theorem fits_step {d : Driver} {o : Op} {r : Resp o} (hinv : Inv R w) (hb : Balanced w)
    (hb' : Balanced w') (h : Fits w) (hlegal : Legal R o w) (hg : NoOverflow d o w)
    (hx : w.Exec o r w') : Fits w' := by
  intro side x
  rcases exec_ledger hinv hlegal hx with hsame | ⟨as, -, hl⟩ | ⟨batch, rfl, hreq, hl⟩
  · rw [hsame]
    exact h side x
  · obtain ⟨m, hm⟩ := w.ledger.createAccounts_accounts as
    rw [hl, hm]
    exact h side x
  · cases ha : w.ledger.accounts x with
    | none =>
      have hnone : w'.ledger.accounts x = none := hl ▸ createTransferRun_none batch ha
      rw [unposted_of_none hb' hnone]
      exact Nat.two_pow_pos 64
    | some a =>
      have hle := createTransferRun_amount_le w.ledger batch (postsTo side x)
      rw [← hl] at hle
      by_cases hany : ∃ e ∈ w.ledger.unapplied batch, e.2.account side = x
      · obtain ⟨e, he, rfl⟩ := hany
        have hfit := hg.side he ha
        rw [posted_toNat hb h ha side] at hfit
        omega
      · have hzero : amount (postsTo side x) (w.ledger.unapplied batch) = 0 :=
          amount_postsTo_eq_zero fun e he heq => hany ⟨e, he, heq⟩
        have := h side x
        omega

/-! ### Postings and legs -/

/-- The legs the Transfer was prepared with, if it was. -/
def preparedOf (w : World) (id : Id) : List TransferLeg := (w.legs id).toOption.getD []

theorem mem_preparedOf : leg ∈ preparedOf w id ↔ ∃ legs, w.legs id = .ok legs ∧ leg ∈ legs := by
  unfold preparedOf
  cases w.legs id with
  | error e | ok legs => simp [Except.toOption]

/-- The Transfers ledger ids were generated for. -/
def preparers (w : World) : List Id := w.issued.dedup

theorem preparers_nodup (w : World) : (preparers w).Nodup := List.nodup_dedup _

theorem mem_preparers (hinv : Inv R w) (hleg : leg ∈ preparedOf w id) : id ∈ preparers w := by
  obtain ⟨legs, hlegs, hleg⟩ := mem_preparedOf.mp hleg
  obtain ⟨n, -, hn⟩ := ((hinv.transfer id).legsOf hlegs).2 leg hleg
  exact List.mem_dedup.mpr (List.mem_of_getElem? hn)

/-- A posting is of one leg. -/
theorem ledgerID_of_postings {l : Ledger} {leg' : TransferLeg} (h : e ∈ postings l leg)
    (h' : e ∈ postings l leg') : leg.ledgerTransferID = leg'.ledgerTransferID := by
  obtain ⟨-, ⟨hi, hk⟩ | ⟨hk, hp⟩⟩ := mem_postings.mp h
  · obtain ⟨-, ⟨hi', -⟩ | ⟨hk', -⟩⟩ := mem_postings.mp h'
    · exact hi.symm.trans hi'
    · exact absurd (hk.symm.trans hk') (by decide)
  · obtain ⟨-, ⟨-, hk'⟩ | ⟨-, hp'⟩⟩ := mem_postings.mp h'
    · exact absurd (hk.symm.trans hk') (by decide)
    · exact hp.symm.trans hp'

theorem posts_of_postings {l : Ledger} (h : e ∈ postings l leg) :
    e ∈ l.transfers ∧ e.2.posts = true := by
  obtain ⟨hm, ⟨-, hk⟩ | ⟨hk, -⟩⟩ := mem_postings.mp h
  · exact ⟨hm, by simp [StoredTransfer.posts, hk]⟩
  · exact ⟨hm, by simp [StoredTransfer.posts, hk]⟩

/-- An applied transfer, as a leg. -/
def entryLeg (e : Id × StoredTransfer) : Leg :=
  ⟨e.2.debitAccountID, e.2.creditAccountID, ⟨e.2.minorUnits, e.2.currency⟩⟩

/-- What is posted is a leg of some Transfer, and all of it. -/
theorem leg_of_posted (hinv : Inv R w) (he : e ∈ w.ledger.transfers) (hp : e.2.posts = true) :
    ∃ id, ∃ leg ∈ preparedOf w id, e ∈ postings w.ledger leg ∧ entryLeg e = plain leg := by
  cases hinv.ledger.origin e he with
  | @move id legs leg heq hleg hlegs _ _ _ =>
    subst heq
    exact ⟨id, leg, mem_preparedOf.mpr ⟨legs, hlegs, hleg⟩,
      mem_postings.mpr ⟨he, Or.inl ⟨rfl, rfl⟩⟩, rfl⟩
  | reserve heq _ _ _ | void heq _ _ _ =>
    subst heq
    exact absurd hp Bool.false_ne_true
  | @post id legs leg heq hleg hlegs _ _ =>
    subst heq
    exact ⟨id, leg, mem_preparedOf.mpr ⟨legs, hlegs, hleg⟩,
      mem_postings.mpr ⟨he, Or.inr ⟨rfl, rfl⟩⟩, rfl⟩

/-- The postings of a Transfer's legs, leg by leg. -/
def postingsOf (w : World) (id : Id) : List (Id × StoredTransfer) :=
  (preparedOf w id).flatMap (postings w.ledger)

theorem postingsOf_nodup (hinv : Inv R w) (id : Id) : (postingsOf w id).Nodup := by
  refine List.nodup_flatMap.mpr ⟨fun leg _ => hinv.ledger.sound.nodup.of_map.filter _, ?_⟩
  cases hlegs : w.legs id with
  | error e => simp [preparedOf, hlegs, Except.toOption]
  | ok legs =>
    have hids : (legs.map TransferLeg.ledgerTransferID).Nodup :=
      ((hinv.transfer id).legsOf hlegs).1
    have hpre : preparedOf w id = legs := by simp [preparedOf, hlegs, Except.toOption]
    rw [hpre]
    refine (List.pairwise_map.mp hids).imp fun hne => ?_
    exact fun e he he' => hne (ledgerID_of_postings he he')

/-- **The postings are those of the legs, each once.** -/
theorem postings_perm (hinv : Inv R w) :
    (w.ledger.transfers.filter fun e => e.2.posts).Perm
      ((preparers w).flatMap (postingsOf w)) := by
  refine (List.perm_ext_iff_of_nodup (hinv.ledger.sound.nodup.of_map.filter _) ?_).mpr fun e => ?_
  · refine List.nodup_flatMap.mpr ⟨fun id _ => postingsOf_nodup hinv id, ?_⟩
    refine (List.nodup_dedup w.issued).imp fun {id id'} hne e he he' => hne ?_
    -- a leg is of one Transfer
    obtain ⟨leg, hleg, hp⟩ := List.mem_flatMap.mp he
    obtain ⟨leg', hleg', hp'⟩ := List.mem_flatMap.mp he'
    obtain ⟨legs, hlegs, hleg⟩ := mem_preparedOf.mp hleg
    obtain ⟨legs', hlegs', hleg'⟩ := mem_preparedOf.mp hleg'
    exact (leg_unique hinv.transfer hlegs hlegs' hleg hleg' (ledgerID_of_postings hp hp')).1
  · constructor
    · intro he
      obtain ⟨hm, hp⟩ := List.mem_filter.mp he
      obtain ⟨id, leg, hleg, hpost, -⟩ := leg_of_posted hinv hm hp
      exact List.mem_flatMap.mpr
        ⟨id, mem_preparers hinv hleg, List.mem_flatMap.mpr ⟨leg, hleg, hpost⟩⟩
    · intro he
      obtain ⟨id, -, he⟩ := List.mem_flatMap.mp he
      obtain ⟨leg, -, hpost⟩ := List.mem_flatMap.mp he
      exact List.mem_filter.mpr (posts_of_postings hpost)

/-! ### What a Wallet's Tokens have posted -/

/-- What a Token has posted: credits less debits. -/
def net (w : World) (tok : Id) : ℤ :=
  match w.ledger.accounts tok with
  | some a => a.creditsPosted.toNat - a.debitsPosted.toNat
  | none => 0

/-- What the Tokens of a Wallet have posted. -/
def walletBalance (w : World) (W : Id) : ℤ := ((w.tokensOf W).map (net w)).sum

theorem net_eq (hb : Balanced w) (h : Fits w) (tok : Id) :
    net w tok = (amount (postsTo .credit tok) w.ledger.transfers : ℤ) -
      amount (postsTo .debit tok) w.ledger.transfers := by
  unfold net
  cases ha : w.ledger.accounts tok with
  | none =>
    rw [unposted_of_none hb ha, unposted_of_none hb ha]
    rfl
  | some a =>
    rw [← posted_toNat hb h ha .credit, ← posted_toNat hb h ha .debit]
    rfl

/-- What one transfer posts to these Tokens, on one side. -/
theorem sum_postsTo_single {toks : List Id} (hnd : toks.Nodup) (side : Side)
    (e : Id × StoredTransfer) (hp : e.2.posts = true) :
    (toks.map fun x => ((if postsTo side x e.2 then e.2.minorUnits.toNat else 0 : Nat) : ℤ)).sum =
      share (e.2.account side ∈ toks) e.2.minorUnits.toNat := by
  induction toks with
  | nil => simp [share]
  | cons x toks ih =>
    obtain ⟨hx, hnd⟩ := List.nodup_cons.mp hnd
    rw [List.map_cons, List.sum_cons, ih hnd]
    by_cases heq : e.2.account side = x
    · subst heq
      simp [share, postsTo, hp, hx]
    · simp [share, postsTo, heq]

/-- What all of them post to these Tokens, on one side. -/
theorem sum_postsTo {toks : List Id} (hnd : toks.Nodup) (side : Side)
    (es : List (Id × StoredTransfer)) :
    (toks.map fun x => (amount (postsTo side x) es : ℤ)).sum =
      ((es.filter fun e => e.2.posts).map fun e =>
        share (e.2.account side ∈ toks) e.2.minorUnits.toNat).sum := by
  induction es with
  | nil => simp
  | cons e es ih =>
    simp only [amount_cons, Nat.cast_add, List.sum_map_add, ih]
    by_cases hp : e.2.posts = true
    · rw [List.filter_cons, if_pos hp, List.map_cons, List.sum_cons,
        sum_postsTo_single hnd side e hp]
    · have hzero (x : Id) : postsTo side x e.2 = false := by simp [postsTo, hp]
      rw [List.filter_cons, if_neg hp]
      simp [hzero]

/-- What a Wallet's Tokens have posted is what all postings bring in to them, less
what they take out. -/
theorem walletBalance_eq (hb : Balanced w) (hl : LogOk w) (h : Fits w) (W : Id) :
    walletBalance w W = ((w.ledger.transfers.filter fun e => e.2.posts).map fun e =>
      legFlow w W (entryLeg e)).sum := by
  have hcredit := sum_postsTo (hl.nodup W) .credit w.ledger.transfers
  have hdebit := sum_postsTo (hl.nodup W) .debit w.ledger.transfers
  calc walletBalance w W
      = ((w.tokensOf W).map fun x => (amount (postsTo .credit x) w.ledger.transfers : ℤ) -
          amount (postsTo .debit x) w.ledger.transfers).sum := by
        unfold walletBalance
        congr 1
        exact List.map_congr_left fun tok _ => net_eq hb h tok
    _ = _ := by
        rw [sum_map_sub, hcredit, hdebit, ← sum_map_sub]
        rfl

/-! ### What the log says -/

open Classical in
/-- The route of a Transfer that was accepted. -/
noncomputable def route (w : World) (id : Id) : Route :=
  if h : ∃ r, Routed w id r then h.choose else ⟨Id.empty, Id.empty, 0⟩

theorem route_eq {r : Route} (h : Routed w id r) : route w id = r := by
  have hex : ∃ r, Routed w id r := ⟨r, h⟩
  unfold route
  rw [dif_pos hex]
  exact hex.choose_spec.unique h

/-- What a Transfer brings in to a Wallet, less what it takes out, if it is
Committed. -/
noncomputable def committedFlow (w : World) (W id : Id) : ℤ :=
  if w.outcome id = .committed then (route w id).flow W else 0

/-- The legs of a Committed Transfer are posted, each by one transfer that is the
leg again. -/
theorem postings_of_committed (hinv : Inv R w) (hc : w.outcome id = .committed) :
    ∃ legs, w.legs id = .ok legs ∧
      ∀ leg ∈ legs, (postings w.ledger leg).map entryLeg = [plain leg] := by
  obtain ⟨legs, hlegs, hmoved | hposted⟩ := moved_of_committed hinv (outcome_eq_committed.mp hc).2
  · exact ⟨legs, hlegs, fun leg hleg => by
      rw [hmoved.posted_once hinv.ledger hinv.transfer hlegs hleg]
      rfl⟩
  · exact ⟨legs, hlegs, fun leg hleg => by
      rw [hposted.posted_once hinv.ledger hinv.transfer hlegs hleg]
      rfl⟩

/-- No leg of a Transfer that came to another end is posted. -/
theorem postings_of_ended (hinv : Inv R w) (hfinal : (w.outcome id).final = true)
    (hc : w.outcome id ≠ .committed) (hlegs : w.legs id = .ok legs) (hleg : leg ∈ legs) :
    postings w.ledger leg = [] := by
  obtain ⟨e, es, he, ha, -⟩ := manifest_of_legs hinv hlegs
  refine unposted_of_ended hinv ?_ hlegs hleg
  -- it was accepted, so its outcome is that of its state
  have hacc : rejectedRequest (eventsOf (w.transfer id)) = false := by
    unfold World.opening at he
    cases hes : eventsOf (w.transfer id) with
    | nil => rfl
    | cons e' es' =>
      rw [hes] at he
      obtain rfl := Option.some.inj he
      cases e' with
      | transferRequestAccepted | reversalRequestAccepted => rfl
      | _ => exact absurd ha Bool.false_ne_true
  have hne : (eventsOf (w.transfer id)).isEmpty = false := by
    unfold World.opening at he
    cases hes : eventsOf (w.transfer id) with
    | nil => simp [hes] at he
    | cons => rfl
  unfold World.outcome outcome at hfinal hc
  rw [hacc, hne] at hfinal hc
  cases hs : currentState (eventsOf (w.transfer id)) <;> simp_all [OutcomeKind.final]

/-- What the postings of a Transfer that has come to its end bring in is what the
log says. -/
theorem sum_postingsOf (hinv : Inv R w) (hb : Balanced w) (hl : LogOk w)
    (hfinal : w.transfer id ≠ [] → (w.outcome id).final = true) (W : Id) :
    ((postingsOf w id).map fun e => legFlow w W (entryLeg e)).sum = committedFlow w W id := by
  unfold postingsOf committedFlow
  rw [sum_map_flatMap]
  split
  · rename_i hc
    obtain ⟨legs, hlegs, hone⟩ := postings_of_committed hinv hc
    obtain ⟨e, he, ha⟩ := accepted_of_committed hinv hc
    obtain ⟨r, hr⟩ := hl.routed id e he ha
    have hpre : preparedOf w id = legs := by simp [preparedOf, hlegs, Except.toOption]
    rw [hpre, route_eq hr, ← legFlow_sum hinv hb.plans hl hr hlegs W, List.map_map]
    congr 1
    refine List.map_congr_left fun leg hleg => ?_
    have hsum : (((postings w.ledger leg).map entryLeg).map (legFlow w W)).sum =
        legFlow w W (plain leg) := by
      rw [hone leg hleg]
      simp
    rwa [List.map_map] at hsum
  · rename_i hc
    refine List.sum_eq_zero fun s hs => ?_
    obtain ⟨leg, hleg, rfl⟩ := List.mem_map.mp hs
    obtain ⟨legs, hlegs, hleg⟩ := mem_preparedOf.mp hleg
    have hbegun : w.transfer id ≠ [] := by
      intro hnil
      obtain ⟨i, hm⟩ := preparedLegs_mem hlegs
      rw [hnil] at hm
      cases hm
    rw [postings_of_ended hinv (hfinal hbegun) hc hlegs hleg]
    rfl

/-- **A Wallet's Tokens have posted what the log says.** -/
theorem walletBalance_eq_log (hinv : Inv R w) (hb : Balanced w) (hl : LogOk w) (h : Fits w)
    (hfinal : ∀ id, w.transfer id ≠ [] → (w.outcome id).final = true) (W : Id) :
    walletBalance w W = ∑ id ∈ (preparers w).toFinset, committedFlow w W id := by
  rw [walletBalance_eq hb hl h W, ((postings_perm hinv).map _).sum_eq, sum_map_flatMap,
    List.sum_toFinset _ (preparers_nodup w)]
  congr 1
  exact List.map_congr_left fun id _ => sum_postingsOf hinv hb hl (hfinal id) W

/-- The Committed Transfers are among those ledger ids were generated for. -/
theorem committed_mem (hinv : Inv R w) (hb : Balanced w) (hl : LogOk w)
    (hc : w.outcome id = .committed) : id ∈ (preparers w).toFinset := by
  obtain ⟨legs, hlegs, -⟩ := postings_of_committed hinv hc
  obtain ⟨e, he, ha⟩ := accepted_of_committed hinv hc
  obtain ⟨r, hr⟩ := hl.routed id e he ha
  obtain ⟨hpos, hsum⟩ := routed_amount hinv hb.plans hr hlegs
  cases legs with
  | nil => simp at hsum; omega
  | cons leg legs =>
    exact List.mem_toFinset.mpr
      (mem_preparers hinv (mem_preparedOf.mpr ⟨_, hlegs, List.mem_cons_self⟩))

/-- The Committed Transfers into a Wallet. -/
def into (w : World) (W : Id) : Set Id := {id | w.outcome id = .committed ∧ (route w id).dest = W}

/-- The Committed Transfers out of a Wallet. -/
def outOf (w : World) (W : Id) : Set Id :=
  {id | w.outcome id = .committed ∧ (route w id).source = W}

/-- A sum over Committed Transfers is one over those ledger ids were generated
for. -/
theorem finsum_committed (hinv : Inv R w) (hb : Balanced w) (hl : LogOk w) (end' : Route → Id)
    (W : Id) : ∑ᶠ id ∈ {id | w.outcome id = .committed ∧ end' (route w id) = W},
        ((route w id).amount : ℤ) =
      ∑ id ∈ (preparers w).toFinset, if w.outcome id = .committed then
        share (end' (route w id) = W) (route w id).amount else 0 := by
  have hset : {id | w.outcome id = .committed ∧ end' (route w id) = W} =
      ((preparers w).toFinset.filter fun id =>
        w.outcome id = .committed ∧ end' (route w id) = W : Finset Id) := by
    ext id
    rw [Finset.coe_filter]
    exact ⟨fun h => ⟨committed_mem hinv hb hl h.1, h⟩, fun h => h.2⟩
  rw [hset, finsum_mem_coe_finset, Finset.sum_filter]
  refine Finset.sum_congr rfl fun id _ => ?_
  unfold share
  rw [ite_and]

theorem finsum_share (there : Id) (m : Nat) :
    (Function.support fun W => share (there = W) m).Finite ∧
      ∑ᶠ W, share (there = W) m = m := by
  have hother (W : Id) (hW : W ≠ there) : share (there = W) m = 0 := if_neg fun h => hW h.symm
  refine ⟨(Set.finite_singleton there).subset fun W hW => ?_, ?_⟩
  · by_contra hne
    exact hW (hother W hne)
  · rw [finsum_eq_single _ there hother]
    exact if_pos rfl

theorem finsum_committedFlow (w : World) (id : Id) :
    (Function.support fun W => committedFlow w W id).Finite ∧ ∑ᶠ W, committedFlow w W id = 0 := by
  unfold committedFlow
  split
  · obtain ⟨hfin, hsum⟩ := finsum_share (route w id).dest (route w id).amount
    obtain ⟨hfin', hsum'⟩ := finsum_share (route w id).source (route w id).amount
    unfold Route.flow
    refine ⟨(hfin.union hfin').subset (Function.support_sub _ _), ?_⟩
    rw [finsum_sub_distrib hfin hfin', hsum, hsum', sub_self]
  · simp

theorem rebuilt_upheld : Upholds True (fun _ => True) NoOverflow (fun _ => plans True)
    (fun w => Balanced w ∧ LogOk w ∧ Fits w) where
  init := ⟨balanced_init, logOk_init, fun _ _ => Nat.two_pow_pos 64⟩
  tick w w' ht h := by
    refine ⟨h.1.tick ht, h.2.1.tick ht, ?_⟩
    obtain ⟨d, rfl⟩ := ht
    exact h.2.2
  safe d fuel w _ := d.plans fuel w
  assume d o w _ hinv _ := hinv
  step d o w r w' hinv hinv' h hg hlegal hd hx := by
    have hb' := balanced_step hinv hinv' h.1 hlegal hd hx
    exact ⟨hb', log_step hinv h.2.1 hlegal hd hx, fits_step hinv h.1 hb' h.2.2 hlegal hg hx⟩

/-- **Balances are rebuilt from the log**: once every Transfer has come to its end,
what the Tokens of a Wallet have posted is what the Committed Transfers into it
amount to, less those out of it, and all Wallets together have posted nothing. -/
theorem rebuilt_from_log {c : System} (h : Pool.Reachable (freeRun NoOverflow) .init c)
    (hfinal : ∀ id, c.state.transfer id ≠ [] → (c.state.outcome id).final = true) :
    {id | c.state.outcome id = .committed}.Finite ∧
      (∀ W, walletBalance c.state W =
        ∑ᶠ id ∈ into c.state W, ((route c.state id).amount : ℤ) -
          ∑ᶠ id ∈ outOf c.state W, ((route c.state id).amount : ℤ)) ∧
      (Function.support (walletBalance c.state)).Finite ∧ ∑ᶠ W, walletBalance c.state W = 0 := by
  obtain ⟨hinv, hb, hl, hfits⟩ := (reachable_upheld refusals_true rebuilt_upheld h).1
  have hbalance := walletBalance_eq_log hinv hb hl hfits hfinal
  have hfun : walletBalance c.state = fun W =>
      ∑ id ∈ (preparers c.state).toFinset, committedFlow c.state W id := funext hbalance
  refine ⟨(preparers c.state).toFinset.finite_toSet.subset fun id hc => committed_mem hinv hb hl hc,
    fun W => ?_, ?_, ?_⟩
  · have hinto : ∑ᶠ id ∈ into c.state W, ((route c.state id).amount : ℤ) = _ :=
      finsum_committed hinv hb hl Route.dest W
    have hout : ∑ᶠ id ∈ outOf c.state W, ((route c.state id).amount : ℤ) = _ :=
      finsum_committed hinv hb hl Route.source W
    rw [hbalance W, hinto, hout, ← Finset.sum_sub_distrib]
    refine Finset.sum_congr rfl fun id _ => ?_
    unfold committedFlow Route.flow
    split <;> simp
  · rw [hfun]
    refine Set.Finite.subset ?_ (Finset.support_sum _ _)
    exact (preparers c.state).toFinset.finite_toSet.biUnion fun id _ =>
      (finsum_committedFlow c.state id).1
  · rw [hfun, finsum_sum_comm _ _ fun id _ => (finsum_committedFlow c.state id).1]
    exact Finset.sum_eq_zero fun id _ => (finsum_committedFlow c.state id).2

/-! ### Runs with these Transfers only -/

/-- The Transfers that begin are among these. -/
def TransfersAmong (ids : List Id) (_ : Driver) : Op → World → Prop
  | .appendAtomic ws, _ => ∀ x ∈ ws, x.aggregateType = .transfer → x.aggregateID ∈ ids
  | _, _ => True

instance (ids : List Id) : ∀ d o w, Decidable (TransfersAmong ids d o w) := by
  rintro d ⟨⟩ w <;> delta TransfersAmong <;> infer_instance

theorem transfersAmong_upheld (ids : List Id) : Upholds True (fun _ => True) (TransfersAmong ids)
    (fun _ => plans True) (fun w => ∀ id, w.transfer id ≠ [] → id ∈ ids) where
  init _ h := absurd rfl h
  safe d fuel w _ := d.plans fuel w
  assume d o w _ hinv _ := hinv
  step d o w r w' _ _ h hg hlegal _ hx id hne := by
    rcases exec_stream hlegal hx .transfer id with hsame | ⟨ws, events, happ⟩
    · exact h id fun hnil => hne (hsame.trans hnil)
    · obtain rfl := happ.op
      exact hg _ happ.mem rfl

theorem mem_of_transfersAmong {ids : List Id} {c : System}
    (h : Pool.Reachable (freeRun (TransfersAmong ids)) .init c) (hne : c.state.transfer id ≠ []) :
    id ∈ ids :=
  (reachable_upheld refusals_true (transfersAmong_upheld ids) h).1.2 id hne

/-- The deposit, whose one Transfer is `uuid 3`. -/
def soleDeposit :
    List (Move (freeRun fun d o w => NoOverflow d o w ∧ TransfersAmong [.uuid 3] d o w)) :=
  inTurn 0 deposit

theorem rebuilt_from_log_deposit :
    walletBalance (playedUnder soleDeposit).state (.uuid 1) = 100 ∧
      walletBalance (playedUnder soleDeposit).state (.uuid 1) =
        ∑ᶠ id ∈ into (playedUnder soleDeposit).state (.uuid 1),
            ((route (playedUnder soleDeposit).state id).amount : ℤ) -
          ∑ᶠ id ∈ outOf (playedUnder soleDeposit).state (.uuid 1),
            ((route (playedUnder soleDeposit).state id).amount : ℤ) := by
  have hreach := playedUnder_reachable soleDeposit
  have hfitting : Pool.Reachable (freeRun NoOverflow) .init (playedUnder soleDeposit) :=
    hreach.mono (fun _ _ hs => hs) (fun _ _ _ _ hg => hg.1) fun _ _ ht => ht
  have hamong : Pool.Reachable (freeRun (TransfersAmong [.uuid 3])) .init
    (playedUnder soleDeposit) :=
    hreach.mono (fun _ _ hs => hs) (fun _ _ _ _ hg => hg.2) fun _ _ ht => ht
  have hfinal : ∀ id, (playedUnder soleDeposit).state.transfer id ≠ [] →
      ((playedUnder soleDeposit).state.outcome id).final = true := by
    intro id hne
    obtain rfl := List.mem_singleton.mp (mem_of_transfersAmong hamong hne)
    decide +kernel
  exact ⟨by decide +kernel, (rebuilt_from_log hfitting hfinal).2.1 (.uuid 1)⟩

end MoneyFlow.Transfer
