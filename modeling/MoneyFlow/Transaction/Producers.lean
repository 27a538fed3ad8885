import MoneyFlow.Transaction.Outcomes

/-!
# MoneyFlow.Transaction.Producers

Whose money a Reversal takes back.

A child that pays into a Wallet produces a Token there, and a child that draws on
that Wallet may consume it. Which Tokens are drawn is decided when a child is
prepared, by age; the order of a rollback is decided by the DAG alone. So a
producer is reversed after its consumers only if **every consumer declares it**
(`consumers_undone_first`); otherwise it may be reversed while a consumer still
holds its money (`undeclared_consumer`).
-/

namespace MoneyFlow.Transaction

open Concurrent
open Transfer (plain)

variable {R : Prop} {w : World} {tid c : Id} {es : List TransactionEvent}

/-! ### Descendants -/

/-- A child recorded as rolled back was clear to be undone. -/
theorem WellFormed.rolledBack_cleared (h : WellFormed tid es) (hc : RolledBackChild es c) :
    Cleared es c := by
  obtain ⟨i, m, d, hm⟩ := hc
  obtain ⟨pre, hp, hf⟩ := h.of_mem hm
  have hpre : pre <+: es := (List.prefix_append _ _).trans hp
  cases hf with
  | rolledBack htop hcl => exact h.cleared_mono hpre (begun_of_state htop) hcl
  | concluded _ _ he => simp [isConclusion, TransactionEvent.eventType] at he

/-- Where a child may be undone, every descendant that was requested is
resolved. -/
theorem descendant_resolved (h : Inv R w) {spec : Spec} (hspec : decodeSpec (w.log tid) = .ok spec)
    {p q : Id} (hpq : AncestorOf spec p q) (hq : Requested (w.log tid) q)
    (hp : Cleared (w.log tid) p) : Resolved (w.log tid) q := by
  have hwf := (h.transaction tid).wellFormed
  have hdependents {d d' : Id} (hd : Cleared (w.log tid) d) (hdd : ParentOf spec d d')
      (hr : Requested (w.log tid) d') : Resolved (w.log tid) d' := by
    obtain ⟨spec', hspec', -, -, hdeps⟩ := hd
    obtain rfl := Except.ok.inj (hspec.symm.trans hspec')
    exact hdeps d' hdd hr
  induction hpq using Relation.TransGen.head_induction_on with
  | single hpq => exact hdependents hp hpq hq
  | @head a d had hdq ih =>
    -- `d` completed, so it did not fail: it was rolled back, and clear to be
    obtain ⟨i, hm⟩ := hwf.ancestors_completed hspec hdq hq
    have hcommitted : w.outcome d = .committed := (h.transaction tid).backed _ hm
    rcases hdependents hp had (hwf.requested_of_child hm rfl) with hrolled | ⟨j, r, hfailed⟩
    · exact ih (hwf.rolledBack_cleared hrolled)
    · have hended : (w.outcome d).ended = true := (h.transaction tid).backed _ hfailed
      rw [hcommitted] at hended
      simp [Transfer.OutcomeKind.ended] at hended

/-! ### Producers and consumers -/

/-- The event opens the Transfer of a child as the Transaction requests it. -/
def OpensAs (spec : TransferSpec) : TransferEvent → Prop
  | .transferRequestAccepted a => a.fromWalletID = spec.fromWalletID ∧
      a.toWalletID = spec.toWalletID ∧ a.mintSource = spec.mintSource
  | .transferRequestRejected _ _ => True
  | _ => False

/-- Whatever stands under a child's id was requested by the Transaction, as its
spec has it. -/
def OpenedAsRequested (w : World) (tid : Id) (spec : Spec) : Prop :=
  ∀ c ∈ spec.transfers.keys, ∀ e, (eventsOf (w.transfer c)).head? = some e →
    Requested (w.log tid) c ∧ OpensAs (specOf spec.transfers c) e

/-- A child that draws on the Wallet another child pays into depends on it,
directly or through others. -/
def ConsumersDeclared (spec : Spec) : Prop :=
  ∀ p ∈ spec.transfers.keys, ∀ q ∈ spec.transfers.keys, q ≠ p →
    (specOf spec.transfers q).mintSource = false →
    (specOf spec.transfers q).fromWalletID = (specOf spec.transfers p).toWalletID →
      AncestorOf spec p q

/-- The Tokens of a prepared child's legs, if its Transfer was opened as the spec
has it. -/
theorem leg_tokens (h : Inv R w) {spec : TransferSpec} {legs : List TransferLeg}
    {leg : TransferLeg} (hopen : ∀ e, (eventsOf (w.transfer c)).head? = some e → OpensAs spec e)
    (hlegs : w.legs c = .ok legs) (hleg : leg ∈ legs) :
    leg.destTokenID = .destinationToken c ∧ w.MintedInto leg.destTokenID spec.toWalletID ∧
      w.MintedInto leg.sourceTokenID spec.fromWalletID ∧
      (spec.mintSource = true → leg.sourceTokenID = .sourceToken c) := by
  obtain ⟨i, hm⟩ := Transfer.preparedLegs_mem hlegs
  obtain ⟨-, -, hplan⟩ := (h.transfer c).backed _ hm
  cases hes : eventsOf (w.transfer c) with
  | nil => simp [hes] at hm
  | cons e es =>
    rw [hes] at hplan
    have hopens := hopen e (by simp [hes])
    cases e with
    | transferRequestAccepted a =>
      obtain ⟨hfrom, hto, hmint⟩ := hopens
      rw [← hfrom, ← hto, ← hmint]
      exact hplan (plain leg) (List.mem_map.mpr ⟨leg, hleg, rfl⟩)
    | transferRequestRejected j r => exact hplan.elim
    | _ => exact hopens.elim

/-- **A consumer's debit is undone before its producer's Reversal is requested**,
in every run, provided the children's Transfers are the ones the Transaction
requested and every consumer declares its producer: when the saga calls
RequestReversal for `p`, no other child is Committed and un-reversed with a leg
whose source Token is one of `p`'s destination Tokens. What stands under the id
derived for a child's Reversal is that Reversal, if nobody else takes the id. -/
theorem consumers_undone_first {c : System} (h : Pool.Reachable anyRun .init c) {d : Driver}
    {tid p rid : Id}
    {k : Resp (.call (.requestReversal tid p rid)) → Prog Op Resp (Except Err Reply)}
    (hm : (d, .op (.call (.requestReversal tid p rid)) k) ∈ c.threads) {spec : Spec}
    (hspec : decodeSpec (c.state.log tid) = .ok spec)
    (hopened : OpenedAsRequested c.state tid spec) (hdeclared : ConsumersDeclared spec) :
    (∀ q ∈ spec.transfers.keys, q ≠ p → c.state.outcome q = .committed →
      c.state.outcome (.reversal tid q) ≠ .committed →
      ∀ legs, c.state.legs q = .ok legs → ∀ legs', c.state.legs p = .ok legs' →
        ∀ leg ∈ legs, ∀ leg' ∈ legs', leg.sourceTokenID ≠ leg'.destTokenID) ∧
    ∀ q, Untaken c (.reversal tid q) → c.state.Reverses (.reversal tid q) q := by
  refine ⟨fun q hq hne hcommitted hheld legs hlegs legs' hlegs' leg hleg leg' hleg' htoken => ?_,
    fun _ => reverses_of_untaken⟩
  have hinv : Inv True c.state := reachable_inv refusals_true h
  obtain ⟨-, ⟨-, hcleared⟩, -⟩ := reachable_legal refusals_true h hm trivial
  obtain ⟨spec', hspec', hp, -⟩ := id hcleared
  obtain rfl := Except.ok.inj (hspec.symm.trans hspec')
  obtain ⟨hdest, hinto, -, -⟩ :=
    leg_tokens hinv (fun e he => (hopened p hp e he).2) hlegs' hleg'
  obtain ⟨-, -, hfrom, hminted⟩ :=
    leg_tokens hinv (fun e he => (hopened q hq e he).2) hlegs hleg
  -- `q` drew the Token from the Wallet it was produced in
  have hdrawn : (specOf spec.transfers q).mintSource = false := by
    cases hmint : (specOf spec.transfers q).mintSource with
    | false => rfl
    | true =>
      have hsource := hminted hmint
      rw [htoken, hdest] at hsource
      simp at hsource
  have hwallet := World.MintedInto.wallet_unique (htoken ▸ hfrom) hinto
  have hancestor := hdeclared p hp q hq hne hdrawn hwallet
  have hrequested : Requested (c.state.log tid) q := by
    cases hes : eventsOf (c.state.transfer q) with
    | nil => simp [World.outcome, Transfer.outcome, hes] at hcommitted
    | cons e es => exact (hopened q hq e (by rw [hes]; rfl)).1
  rcases undone_of_resolved hinv (descendant_resolved hinv hspec hancestor hrequested hcleared) with
    hended | hback
  · rw [hcommitted] at hended
    simp [Transfer.OutcomeKind.ended] at hended
  · exact hheld hback.2

theorem exists_legs_of_map {α : Type} {r : Except Err (List TransferLeg)} {f : TransferLeg → α}
    {a : α} (h : r.toOption.map (List.map f) = some [a]) :
    ∃ leg, r = .ok [leg] ∧ f leg = a := by
  cases r with
  | error e => simp [Except.toOption] at h
  | ok legs =>
    cases legs with
    | nil => simp [Except.toOption] at h
    | cons leg rest =>
      obtain ⟨hf, rfl⟩ : f leg = a ∧ rest = [] := by simpa [Except.toOption] using h
      exact ⟨leg, rfl, hf⟩

/-- Two children with no dependency between them: `uuid 6` brings 100 in to Wallet
`uuid 1`, and `uuid 7` moves 100 from there on to `uuid 4`. -/
def sharedWalletSpec : Spec where
  transfers := ⟨[(.uuid 6, ⟨.uuid 6, some ⟨100, "USD"⟩, .uuid 0, .uuid 1, false, true⟩),
    (.uuid 7, ⟨.uuid 7, some ⟨100, "USD"⟩, .uuid 1, .uuid 4, false, false⟩)], by decide⟩
  transferDependency := ⟨[], List.nodup_nil⟩

/-- The same two children, the second depending on the first. -/
def passedOnSpec : Spec :=
  { sharedWalletSpec with transferDependency := overdraftSpec.transferDependency }

/-- Both children have Committed when the rollback begins, and the second is moved
back. Nine operations on, the saga reaches the first. -/
def passedOn : List (Move anyRun) :=
  inTurn 0 [.openWallet ⟨.uuid 0, .uuid 100, "bank", .onramp⟩,
    .openWallet ⟨.uuid 1, .uuid 100, "payer", .none⟩,
    .openWallet ⟨.uuid 4, .uuid 100, "payee", .none⟩,
    .startInitializingTransaction (.uuid 5) passedOnSpec, .resumeTransaction (.uuid 5),
    .resumeTransfer (.uuid 6), .resumeTransaction (.uuid 5), .resumeTransfer (.uuid 7),
    .startTransactionRollback (.uuid 5) [.lit "stop"], .resumeTransaction (.uuid 5),
    .resumeTransfer (.reversal (.uuid 5) (.uuid 7))] ++
  [start (.resumeTransaction (.uuid 5)) 20, .run 11 9]

theorem passedOn_declared : ConsumersDeclared passedOnSpec := by
  intro p hp q hq hne hmint hwallet
  have hkeys : passedOnSpec.transfers.keys = [.uuid 6, .uuid 7] := rfl
  rw [hkeys] at hp hq
  rcases List.mem_cons.mp hq with rfl | hq
  · exact absurd hmint (by decide)
  · obtain rfl := List.mem_singleton.mp hq
    rcases List.mem_cons.mp hp with rfl | hp
    · exact .single (by unfold ParentOf; decide)
    · exact absurd (List.mem_singleton.mp hp).symm hne

theorem passedOn_opened : OpenedAsRequested (played passedOn).state (.uuid 5) passedOnSpec := by
  intro c hc e he
  have hkeys : passedOnSpec.transfers.keys = [.uuid 6, .uuid 7] := rfl
  rw [hkeys] at hc
  rcases List.mem_cons.mp hc with rfl | hc
  · have hhead : (eventsOf ((played passedOn).state.transfer (.uuid 6))).head? =
        some (.transferRequestAccepted ⟨.uuid 6, .uuid 0, .uuid 1, ⟨100, "USD"⟩, false, .uuid 5,
          true⟩) := by
      decide +kernel
    obtain rfl := Option.some.inj (hhead.symm.trans he)
    exact ⟨⟨.uuid 5, by decide +kernel⟩, rfl, rfl, rfl⟩
  · obtain rfl := List.mem_singleton.mp hc
    have hhead : (eventsOf ((played passedOn).state.transfer (.uuid 7))).head? =
        some (.transferRequestAccepted ⟨.uuid 7, .uuid 1, .uuid 4, ⟨100, "USD"⟩, false, .uuid 5,
          false⟩) := by
      decide +kernel
    obtain rfl := Option.some.inj (hhead.symm.trans he)
    exact ⟨⟨.uuid 5, by decide +kernel⟩, rfl, rfl, rfl⟩

/-- The saga is about to reverse `uuid 6`. Its consumer `uuid 7` is Committed, so
its Reversal is too. -/
theorem consumers_undone_first_passedOn :
    callAt (played passedOn) 11 = some (.requestReversal (.uuid 5) (.uuid 6)
        (.reversal (.uuid 5) (.uuid 6))) ∧
      (played passedOn).state.outcome (.uuid 7) = .committed ∧
      (∃ leg leg', (played passedOn).state.legs (.uuid 7) = .ok [leg] ∧
        (played passedOn).state.legs (.uuid 6) = .ok [leg'] ∧
        leg.sourceTokenID = leg'.destTokenID) ∧
      (played passedOn).state.outcome (.reversal (.uuid 5) (.uuid 7)) = .committed := by
  have hcall : callAt (played passedOn) 11 = some (.requestReversal (.uuid 5) (.uuid 6)
      (.reversal (.uuid 5) (.uuid 6))) := by
    decide +kernel
  have hcommitted : (played passedOn).state.outcome (.uuid 7) = .committed := by decide +kernel
  have hspec : decodeSpec ((played passedOn).state.log (.uuid 5)) = .ok passedOnSpec :=
    decodeSpec_of_head (i := .uuid 5) (by decide +kernel)
  obtain ⟨leg, hleg, hsource⟩ := exists_legs_of_map (f := TransferLeg.sourceTokenID)
    (r := (played passedOn).state.legs (.uuid 7)) (a := .destinationToken (.uuid 6))
    (by decide +kernel)
  obtain ⟨leg', hleg', hdest⟩ := exists_legs_of_map (f := TransferLeg.destTokenID)
    (r := (played passedOn).state.legs (.uuid 6)) (a := .destinationToken (.uuid 6))
    (by decide +kernel)
  obtain ⟨d, k, hm⟩ := mem_of_callAt hcall
  have htoken := hsource.trans hdest.symm
  refine ⟨hcall, hcommitted, ⟨leg, leg', hleg, hleg', htoken⟩, ?_⟩
  by_contra hheld
  exact (consumers_undone_first (played_reachable _) hm hspec passedOn_opened
    passedOn_declared).1 (.uuid 7) (by decide) (by decide) hcommitted hheld _ hleg _ hleg' leg
    List.mem_cons_self leg' List.mem_cons_self htoken

/-! ### An undeclared consumer -/

/-- Wallet `uuid 1` holds 100 when both children are accepted. Then a Transfer of
its own spends them, so that what `uuid 7` is prepared with is the Token `uuid 6`
has produced. The rollback begins, and four operations later reaches `uuid 6`. -/
def sharedWallet : List (Move anyRun) :=
  inTurn 0 (deposit ++ [.openWallet ⟨.uuid 4, .uuid 100, "payee", .none⟩,
    .startInitializingTransaction (.uuid 5) sharedWalletSpec, .resumeTransaction (.uuid 5),
    .requestTransfer ⟨.uuid 8, .uuid 1, .uuid 4, some ⟨100, "USD"⟩, false, false, Id.empty⟩,
    .resumeTransfer (.uuid 8), .resumeTransfer (.uuid 6), .resumeTransfer (.uuid 7),
    .startTransactionRollback (.uuid 5) [.lit "stop"]]) ++
  [start (.resumeTransaction (.uuid 5)) 20, .run 14 4]

/-- **An undeclared consumer is not undone first**: the saga is about to request
the Reversal of `uuid 6` while `uuid 7` is Committed, un-reversed, and its leg's
source is the destination Token of `uuid 6`. -/
theorem undeclared_consumer :
    Pool.Reachable anyRun .init (played sharedWallet) ∧
      validateDAG sharedWalletSpec.transfers sharedWalletSpec.transferDependency = .ok () ∧
      (∃ d k, (d, .op (.call (.requestReversal (.uuid 5) (.uuid 6)
        (.reversal (.uuid 5) (.uuid 6)))) k) ∈ (played sharedWallet).threads) ∧
      (played sharedWallet).state.outcome (.uuid 7) = .committed ∧
      (played sharedWallet).state.outcome (.reversal (.uuid 5) (.uuid 7)) = .notFound ∧
      ∃ leg leg', (played sharedWallet).state.legs (.uuid 7) = .ok [leg] ∧
        (played sharedWallet).state.legs (.uuid 6) = .ok [leg'] ∧
        leg.sourceTokenID = leg'.destTokenID := by
  obtain ⟨leg, hleg, hsource⟩ := exists_legs_of_map (f := TransferLeg.sourceTokenID)
    (r := (played sharedWallet).state.legs (.uuid 7)) (a := .destinationToken (.uuid 6))
    (by decide +kernel)
  obtain ⟨leg', hleg', hdest⟩ := exists_legs_of_map (f := TransferLeg.destTokenID)
    (r := (played sharedWallet).state.legs (.uuid 6)) (a := .destinationToken (.uuid 6))
    (by decide +kernel)
  exact ⟨played_reachable _, by rfl, mem_of_callAt (i := 14) (by decide +kernel),
    by decide +kernel, by decide +kernel, leg, leg', hleg, hleg', hsource.trans hdest.symm⟩

end MoneyFlow.Transaction
