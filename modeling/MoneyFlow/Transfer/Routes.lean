import MoneyFlow.Balances
import MoneyFlow.Transfer.Outcomes

/-!
# MoneyFlow.Transfer.Routes

What the log says a Transfer moves.

A Transfer moves its amount from one Wallet to another; a Reversal moves what its
original moves, the two Wallets exchanged, and so on for a Reversal of a Reversal
(`Routed`). The legs a Transfer was prepared with say the same in terms of Tokens
(`legFlow_sum`): what they bring in to a Wallet's Tokens, less what they take out,
is what the route brings in to the Wallet, less what it takes out.
-/

namespace MoneyFlow

variable {o : Op}

/-- `wallet.TokensOf`, of the stream as it stands: the Tokens minted for the
Wallet, oldest first. -/
def World.tokensOf (w : World) (walletID : Id) : List Id :=
  (Wallet.mintedTokens (w.wallet walletID)).map Prod.fst

namespace Transfer

variable {R : Prop} {w w' : World} {id tok tag wid W : Id} {legs : List TransferLeg}

/-! ### Routes -/

/-- From which Wallet to which, and how much. -/
structure Route where
  source : Id
  dest : Id
  amount : Nat
  deriving DecidableEq, Repr

variable {r : Route}

/-- The same with the two Wallets exchanged. -/
def Route.exchanged (r : Route) : Route := ⟨r.dest, r.source, r.amount⟩

/-- What a Transfer moves, as accepted; a Reversal moves what its original does,
back. -/
inductive Routed (w : World) : Id → Route → Prop
  | transfer {id : Id} {a : TransferAccepted}
      (h : w.opening id = some (.transferRequestAccepted a)) :
      Routed w id ⟨a.fromWalletID, a.toWalletID, a.amount.minorUnits.toNat⟩
  | reversal {id : Id} {a : ReversalAccepted} {r : Route}
      (h : w.opening id = some (.reversalRequestAccepted a)) (ho : Routed w a.transferID r) :
      Routed w id r.exchanged

theorem Routed.grow (h : Routed w id r) (hle : w ≤ w') : Routed w' id r := by
  induction h with
  | transfer h => exact .transfer (World.opening_grow h hle)
  | reversal h _ ih => exact .reversal (World.opening_grow h hle) ih

theorem Routed.unique {r' : Route} (h : Routed w id r) (h' : Routed w id r') : r = r' := by
  induction h generalizing r' with
  | transfer h =>
    cases h' with
    | transfer h' =>
      obtain ⟨rfl⟩ := TransferEvent.transferRequestAccepted.inj
        (Option.some.inj (h.symm.trans h'))
      rfl
    | reversal h' _ => exact nomatch h.symm.trans h'
  | reversal h _ ih =>
    cases h' with
    | transfer h' => exact nomatch h.symm.trans h'
    | reversal h' ho' =>
      obtain ⟨rfl⟩ := TransferEvent.reversalRequestAccepted.inj
        (Option.some.inj (h.symm.trans h'))
      rw [ih ho']

/-- The stream begins with an acceptance. -/
def acceptance : TransferEvent → Bool
  | .transferRequestAccepted _ | .reversalRequestAccepted _ => true
  | _ => false

/-! ### Tokens and Wallets -/

theorem mem_tokensOf : tok ∈ w.tokensOf wid ↔
    ∃ i capacity tag, .tokenMintedForWallet i tok capacity tag ∈ eventsOf (w.wallet wid) := by
  unfold World.tokensOf
  constructor
  · intro h
    obtain ⟨⟨tok', tag⟩, hp, rfl⟩ := List.mem_map.mp h
    obtain ⟨i, capacity, hm⟩ := Wallet.mem_mintedTokens hp
    exact ⟨i, capacity, tag, hm⟩
  · rintro ⟨i, capacity, tag, hm⟩
    exact List.mem_map.mpr ⟨(tok, tag), Wallet.mem_mintedTokens_of_event hm, rfl⟩

/-- A Token is recorded for the Wallet it was minted into, and for no other. -/
theorem mem_tokensOf_iff (hinv : Inv R w) (htag : w.Tagged tok tag) (hmint : w.MintedInto tok wid) :
    tok ∈ w.tokensOf W ↔ wid = W := by
  constructor
  · intro h
    obtain ⟨i, capacity, tag', hm⟩ := mem_tokensOf.mp h
    exact hmint.wallet_unique ((hinv.wallet W).minted _ _ _ _ hm)
  · rintro rfl
    obtain ⟨wid', i, capacity, hm⟩ := htag
    obtain rfl := hmint.wallet_unique ((hinv.wallet wid').minted _ _ _ _ hm)
    exact mem_tokensOf.mpr ⟨i, capacity, tag, hm⟩

theorem tagged_of_mem (h : tok ∈ w.tokensOf wid) : ∃ tag, w.Tagged tok tag := by
  obtain ⟨i, capacity, tag, hm⟩ := mem_tokensOf.mp h
  exact ⟨tag, wid, i, capacity, hm⟩

/-! ### In every state -/

/-- What holds of the log: what is accepted has a route, a leg is between recorded
Tokens, and a Token is recorded once. -/
structure LogOk (w : World) : Prop where
  routed : ∀ id e, w.opening id = some e → acceptance e = true → ∃ r, Routed w id r
  held : ∀ id legs, w.legs id = .ok legs → ∀ leg ∈ legs,
    (∃ tag, w.Tagged leg.sourceTokenID tag) ∧ ∃ tag, w.Tagged leg.destTokenID tag
  nodup : ∀ wid, (w.tokensOf wid).Nodup

theorem logOk_init : LogOk .init where
  routed _ _ h := nomatch h
  held _ _ h := nomatch h
  nodup _ := List.nodup_nil

theorem LogOk.tick (h : LogOk w) (ht : w.Tick w') : LogOk w' := by
  obtain ⟨d, rfl⟩ := ht
  exact ⟨fun id e ho ha => by
    obtain ⟨r, hr⟩ := h.routed id e ho ha
    exact ⟨r, hr.grow (World.le_of_tick ⟨d, rfl⟩)⟩, h.held, h.nodup⟩

/-- A prepared Transfer was accepted, and its legs are those planned for what was
accepted. -/
theorem manifest_of_legs (hinv : Inv R w) (hlegs : w.legs id = .ok legs) :
    ∃ e es, w.opening id = some e ∧ acceptance e = true ∧
      ManifestOf w.MintedInto w id (legs.map plain) (e :: es) := by
  obtain ⟨i, hm⟩ := preparedLegs_mem hlegs
  obtain ⟨-, -, hman⟩ := (hinv.transfer id).backed _ hm
  unfold World.opening
  cases hes : eventsOf (w.transfer id) with
  | nil =>
    rw [hes] at hman
    exact hman.elim
  | cons e es =>
    rw [hes] at hman
    refine ⟨e, es, rfl, ?_, hman⟩
    cases e with
    | transferRequestAccepted | reversalRequestAccepted => rfl
    | _ => exact hman.elim

/-- A Committed Transfer was accepted. -/
theorem accepted_of_committed (hinv : Inv R w) (hc : w.outcome id = .committed) :
    ∃ e, w.opening id = some e ∧ acceptance e = true := by
  obtain ⟨legs, hlegs, -⟩ := moved_of_committed hinv (outcome_eq_committed.mp hc).2
  obtain ⟨e, -, he, ha, -⟩ := manifest_of_legs hinv hlegs
  exact ⟨e, he, ha⟩

theorem routed_step {r : Resp o} {e : TransferEvent} (hinv : Inv R w) (h : LogOk w)
    (hlegal : Legal R o w) (hx : w.Exec o r w') (he : w'.opening id = some e)
    (ha : acceptance e = true) : ∃ route, Routed w' id route := by
  have hle : w ≤ w' := World.le_of_exec hx
  rcases opened_step hlegal hx he with hold | ⟨-, -, hb, -⟩
  · obtain ⟨route, hr⟩ := h.routed id e hold ha
    exact ⟨route, hr.grow hle⟩
  · cases e with
    | transferRequestAccepted a => exact ⟨_, .transfer he⟩
    | reversalRequestAccepted a =>
      -- the original is Committed, so it was accepted before
      obtain ⟨e', he', ha'⟩ := accepted_of_committed hinv hb.2
      obtain ⟨route, hr⟩ := h.routed a.transferID e' he' ha'
      exact ⟨_, .reversal he (hr.grow hle)⟩
    | _ => exact absurd ha Bool.false_ne_true

theorem held_step {r : Resp o} (h : LogOk w) (hlegal : Legal R o w) (hplans : (plans R).ensure o w)
    (hx : w.Exec o r w') (hlegs : w'.legs id = .ok legs) {leg : TransferLeg} (hleg : leg ∈ legs) :
    (∃ tag, w'.Tagged leg.sourceTokenID tag) ∧ ∃ tag, w'.Tagged leg.destTokenID tag := by
  have hle : w ≤ w' := World.le_of_exec hx
  have hgrow {id' : Id} {legs' : List TransferLeg} (hold : w.legs id' = .ok legs')
      {leg' : TransferLeg} (hleg' : leg' ∈ legs') :
      (∃ tag, w'.Tagged leg'.sourceTokenID tag) ∧ ∃ tag, w'.Tagged leg'.destTokenID tag := by
    obtain ⟨⟨tag, ht⟩, tag', ht'⟩ := h.held id' legs' hold leg' hleg'
    exact ⟨⟨tag, ht.grow hle⟩, tag', ht'.grow hle⟩
  rcases legs_step hlegal hx hlegs with hold | ⟨ws, events, i, happ, hm, -⟩
  · exact hgrow hold hleg
  · have hplanning : Planning R w ws ⟨.transfer, id, (w.store .transfer id).length, events⟩ := by
      obtain rfl := happ.op
      exact (hplans _ happ.mem).2
    have hman : ManifestOf (HeldAfter w ws) w id (legs.map plain) (eventsOf (w.transfer id)) :=
      (show TransferAppend w ws id events from happ.legal).manifest hm
    cases hes : eventsOf (w.transfer id) with
    | nil =>
      rw [hes] at hman
      exact hman.elim
    | cons e es =>
      have hhead : w.opening id = some e := World.opening_of_events hes
      rw [hes] at hman
      cases e with
      | transferRequestAccepted a =>
        obtain ⟨htagged, hdraws⟩ := (hplanning i legs hm a hhead).2 leg hleg
        refine ⟨?_, _, tagged_of_landed happ htagged⟩
        rcases hdraws with ⟨tag, ht, -⟩ | ⟨-, ht⟩
        · exact ⟨tag, ht.grow hle⟩
        · exact ⟨_, tagged_of_landed happ ht⟩
      | reversalRequestAccepted a =>
        obtain ⟨original, horiginal, hplan, -⟩ := hman
        have hplain : plain leg ∈ original.map turned := hplan ▸ List.mem_map_of_mem hleg
        obtain ⟨m, hm, hturned⟩ := List.mem_map.mp hplain
        obtain ⟨hsource, hdest⟩ := hgrow horiginal hm
        rw [show leg.sourceTokenID = m.destTokenID from (congrArg Leg.sourceTokenID hturned).symm,
          show leg.destTokenID = m.sourceTokenID from (congrArg Leg.destTokenID hturned).symm]
        exact ⟨hdest, hsource⟩
      | _ => exact hman.elim

theorem tokens_nodup_step {r : Resp o} (hinv : Inv R w) (h : LogOk w) (hlegal : Legal R o w)
    (hplans : (plans R).ensure o w) (hx : w.Exec o r w') (wid : Id) : (w'.tokensOf wid).Nodup := by
  rcases exec_stream hlegal hx .wallet wid with hsame | ⟨ws, events, happ⟩
  · unfold World.tokensOf
    rw [show w'.wallet wid = w.wallet wid from hsame]
    exact h.nodup wid
  · have htokens : w'.tokensOf wid = w.tokensOf wid ++
        (Wallet.mintedTokens (rowsFrom w.clock (w.wallet wid).length events)).map Prod.fst := by
      unfold World.tokensOf
      rw [show w'.wallet wid = _ from happ.stream, Wallet.mintedTokens_append, List.map_append]
      rfl
    obtain rfl := happ.op
    obtain ⟨st, hst, -⟩ := happ.lands
    have happend : WalletAppend w ws wid events := happ.legal
    have htagging : Tagging w ⟨.wallet, wid, (w.store .wallet wid).length, events⟩ :=
      (hplans _ happ.mem).1
    rw [htokens]
    by_cases hany : ∃ i tok capacity tag, .tokenMintedForWallet i tok capacity tag ∈ events
    · -- one Token, and it had no stream before
      obtain ⟨i, tok, capacity, tag, hm⟩ := hany
      have hnil : w.token tok = [] := happend.token_nil hst hm
      obtain ⟨rfl, -⟩ := htagging i tok capacity tag hm
      refine List.nodup_append.mpr ⟨h.nodup wid, List.nodup_singleton _, ?_⟩
      rintro t ht t' ht' rfl
      obtain rfl := List.mem_singleton.mp ht'
      obtain ⟨tag', htag⟩ := tagged_of_mem ht
      exact token_ne_nil_of_tagged hinv htag hnil
    · cases happend with
      | opened => simpa [Wallet.mintedTokens] using h.nodup wid
      | @minted specs tag _ _ =>
        cases specs with
        | nil => simpa [Wallet.mintedTokens] using h.nodup wid
        | cons spec specs => exact absurd ⟨_, _, _, _, List.mem_cons_self⟩ hany

/-- **A step keeps it.** -/
theorem log_step {r : Resp o} (hinv : Inv R w) (h : LogOk w) (hlegal : Legal R o w)
    (hplans : (plans R).ensure o w) (hx : w.Exec o r w') : LogOk w' where
  routed _ _ he ha := routed_step hinv h hlegal hx he ha
  held _ _ hlegs _ hleg := held_step h hlegal hplans hx hlegs hleg
  nodup := tokens_nodup_step hinv h hlegal hplans hx

/-! ### Legs and routes -/

/-- What was moved, if it was moved there. -/
def share (there : Prop) [Decidable there] (m : Nat) : ℤ := if there then m else 0

/-- What a leg brings in to the Tokens of a Wallet, less what it takes out. -/
def legFlow (w : World) (W : Id) (leg : Leg) : ℤ :=
  share (leg.destTokenID ∈ w.tokensOf W) leg.amount.minorUnits.toNat -
    share (leg.sourceTokenID ∈ w.tokensOf W) leg.amount.minorUnits.toNat

/-- What a route brings in to a Wallet, less what it takes out. -/
def Route.flow (r : Route) (W : Id) : ℤ :=
  share (r.dest = W) r.amount - share (r.source = W) r.amount

theorem Route.flow_exchanged (r : Route) (W : Id) : r.exchanged.flow W = -r.flow W := by
  unfold Route.flow Route.exchanged
  exact (neg_sub _ _).symm

theorem legFlow_turned (w : World) (W : Id) (leg : TransferLeg) :
    legFlow w W (turned leg) = -legFlow w W (plain leg) := by
  unfold legFlow turned plain
  exact (neg_sub _ _).symm

theorem share_congr {p q : Prop} [Decidable p] [Decidable q] (h : p ↔ q) (m : Nat) :
    share p m = share q m := by
  unfold share
  rw [if_congr h rfl rfl]

theorem share_add (p : Prop) [Decidable p] (m n : Nat) :
    share p (m + n) = share p m + share p n := by
  unfold share
  split <;> simp

/-- The legs of a Reversal are its original's, turned around. -/
theorem legs_of_reversal (hinv : Inv R w) {a : ReversalAccepted}
    (hopen : w.opening id = some (.reversalRequestAccepted a)) (hlegs : w.legs id = .ok legs) :
    ∃ original, w.legs a.transferID = .ok original ∧ legs.map plain = original.map turned := by
  obtain ⟨e, es, he, -, hman⟩ := manifest_of_legs hinv hlegs
  obtain rfl := Option.some.inj (hopen.symm.trans he)
  obtain ⟨original, horiginal, hplan, -⟩ := hman
  exact ⟨original, horiginal, hplan⟩

/-- Legs that all go from one Wallet to another bring in what they amount to. -/
theorem sum_legFlow {plan : List Leg} (source dest : Id) (h : ∀ leg ∈ plan,
      (leg.destTokenID ∈ w.tokensOf W ↔ dest = W) ∧
      (leg.sourceTokenID ∈ w.tokensOf W ↔ source = W)) :
    (plan.map (legFlow w W)).sum =
      Route.flow ⟨source, dest, (plan.map fun leg => leg.amount.minorUnits.toNat).sum⟩ W := by
  induction plan with
  | nil => simp [Route.flow, share]
  | cons leg plan ih =>
    obtain ⟨hdest, hsource⟩ := h leg List.mem_cons_self
    have ih := ih fun leg' hleg' => h leg' (List.mem_cons_of_mem _ hleg')
    simp only [List.map_cons, List.sum_cons, ih, Route.flow, share_add]
    unfold legFlow
    rw [share_congr hdest, share_congr hsource]
    omega

theorem sum_legFlow_turned (w : World) (W : Id) : ∀ legs : List TransferLeg,
    ((legs.map turned).map (legFlow w W)).sum = -((legs.map plain).map (legFlow w W)).sum
  | [] => rfl
  | leg :: legs => by
    simp only [List.map_cons, List.sum_cons, sum_legFlow_turned w W legs, legFlow_turned]
    omega

/-- **The legs say what the route says.** -/
theorem legFlow_sum (hinv : Inv R w) (hp : PlansOk w) (hl : LogOk w) (hr : Routed w id r)
    (hlegs : w.legs id = .ok legs) (W : Id) :
    ((legs.map plain).map (legFlow w W)).sum = r.flow W := by
  induction hr generalizing legs with
  | @transfer id a h =>
    obtain ⟨e, es, he, -, hman⟩ := manifest_of_legs hinv hlegs
    obtain rfl := Option.some.inj (h.symm.trans he)
    have hcovers : Covers (legs.map plain) a.amount := (hp.planned id a legs h hlegs).1
    rw [sum_legFlow a.fromWalletID a.toWalletID, hcovers.1]
    intro leg hleg
    obtain ⟨m, hm, rfl⟩ := List.mem_map.mp hleg
    obtain ⟨-, hdest, hsource, -⟩ := hman _ hleg
    obtain ⟨⟨tag, hsourceTag⟩, tag', hdestTag⟩ := hl.held id legs hlegs m hm
    exact ⟨mem_tokensOf_iff hinv hdestTag hdest, mem_tokensOf_iff hinv hsourceTag hsource⟩
  | @reversal id a r h _ ih =>
    obtain ⟨original, horiginal, hplan⟩ := legs_of_reversal hinv h hlegs
    rw [hplan, Route.flow_exchanged, ← ih horiginal, sum_legFlow_turned]

/-- A route moves something, and the legs amount to it. -/
theorem routed_amount (hinv : Inv R w) (hp : PlansOk w) (hr : Routed w id r)
    (hlegs : w.legs id = .ok legs) :
    0 < r.amount ∧ (legs.map fun leg => leg.amount.minorUnits.toNat).sum = r.amount := by
  -- the sum is over what was planned
  have hplain (ls : List TransferLeg) : (ls.map fun leg => leg.amount.minorUnits.toNat) =
      (ls.map plain).map fun leg => leg.amount.minorUnits.toNat := by
    rw [List.map_map]
    rfl
  induction hr generalizing legs with
  | @transfer id a h =>
    have hcovers : Covers (legs.map plain) a.amount := (hp.planned id a legs h hlegs).1
    have hb : a.amount.minorUnits ≠ 0 :=
      ((hinv.transfer id).backed _ (List.mem_of_mem_head? h)).2
    refine ⟨Nat.pos_of_ne_zero fun hzero => hb (UInt64.toNat_inj.mp hzero), ?_⟩
    rw [hplain]
    exact hcovers.1
  | @reversal id a r h _ ih =>
    obtain ⟨original, horiginal, hplan⟩ := legs_of_reversal hinv h hlegs
    obtain ⟨hpos, hsum⟩ := ih horiginal
    refine ⟨hpos, Eq.trans ?_ hsum⟩
    rw [hplain, hplan, List.map_map]
    rfl

end Transfer

end MoneyFlow
