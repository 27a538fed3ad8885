import MoneyFlow.Drivers
import MoneyFlow.Openings

/-!
# MoneyFlow.Plans

What a Transfer is planned with, and whom a Token is kept for.

A Token's mint is recorded under a **tag**, the Transaction its Transfer belongs
to, if any. Planning a forward Transfer draws on Tokens that are untagged, tagged
with the Transfer's own Transaction, or tagged with one that has closed, and its
legs add up to the amount accepted, in its currency. `PlansOk` says so of every state; it holds in
every run (`plans_step`), whatever clients ask for.
-/

namespace MoneyFlow

open Concurrent Transfer Transaction

variable {o : Op} {ws : List StreamWrite} {wid calling i : Id} {legs : List TransferLeg}

/-- The states `transaction.IsOpen` answers false for. -/
def Transaction.State.closed : Transaction.State → Bool
  | .completed | .rolledBack | .rejected => true
  | _ => false

theorem Transaction.State.final_of_closed {s : Transaction.State} (h : s.closed = true) :
    s.final = true := by
  cases s <;> simp [closed] at h <;> rfl

namespace World

/-- `transaction.IsOpen`, of the stream as it stands. -/
def isOpen (w : World) (tid : Id) : Bool := !(topLevelState (w.log tid)).closed

/-- The Token's mint was recorded under `tag`. -/
def Tagged (w : World) (tokenID tag : Id) : Prop :=
  ∃ walletID i capacity, .tokenMintedForWallet i tokenID capacity tag ∈ eventsOf (w.wallet walletID)

theorem Tagged.grow {w w' : World} {tok tag : Id} (h : w.Tagged tok tag) (hle : w ≤ w') :
    w'.Tagged tok tag := by
  obtain ⟨wid, i, capacity, hm⟩ := h
  exact ⟨wid, i, capacity, (events_grow hle .wallet wid).subset hm⟩

end World

variable {R : Prop} {w w' : World} {id tok tag : Id}

/-- A Transaction that has closed stays closed. -/
theorem henceforth_closed {tid : Id} (h : w.isOpen tid = false) :
    Henceforth R (fun w' => w'.isOpen tid = false) w := by
  intro w' hle hinv
  have hclosed : (topLevelState (w.log tid)).closed = true := by simpa [World.isOpen] using h
  unfold World.isOpen
  rw [(hinv.transaction tid).wellFormed.final_stays (World.log_grow hle tid)
    (State.final_of_closed hclosed)]
  exact h

/-- A Transfer of the Transaction `tag` mints this Token. -/
def MintedFor (w : World) (tok tag : Id) : Prop :=
  ∃ id a, w.opening id = some (.transferRequestAccepted a) ∧ a.transactionID = tag ∧
    (tok = .destinationToken id ∨ tok = .sourceToken id)

theorem MintedFor.grow (h : MintedFor w tok tag) (hle : w ≤ w') : MintedFor w' tok tag := by
  obtain ⟨id, a, hopen, htag, htok⟩ := h
  exact ⟨id, a, World.opening_grow hopen hle, htag, htok⟩

/-- `calling` may draw on the Token: it is untagged, its own, or its Transaction
has closed. -/
def Visible (R : Prop) (w : World) (calling tok : Id) : Prop :=
  ∃ tag, w.Tagged tok tag ∧ (tag = Id.empty ∨ tag = calling ∨
    Henceforth R (fun w' => w'.isOpen tag = false) w)

theorem Visible.grow (h : Visible R w calling tok) (hle : w ≤ w') : Visible R w' calling tok := by
  obtain ⟨tag, ht, hc⟩ := h
  exact ⟨tag, ht.grow hle, hc.imp_right fun hc => hc.imp_right fun hc => hc.grow hle⟩

/-- One of the writes records the Token under `tag`. -/
def TaggedBy (ws : List StreamWrite) (tok tag : Id) : Prop :=
  ∃ walletID seq i capacity, StreamWrite.mk .wallet walletID seq
    [WalletEvent.tokenMintedForWallet i tok capacity tag] ∈ ws

/-- The legs add up to the amount, and are in its currency. -/
def Covers (plan : List Leg) (amount : Money) : Prop :=
  (plan.map fun leg => leg.amount.minorUnits.toNat).sum = amount.minorUnits.toNat ∧
    ∀ leg ∈ plan, leg.amount.currency = amount.currency

/-! ### The contract -/

/-- A mint is recorded alone, untagged or for a Transfer of the Transaction it is
tagged with. -/
def Tagging (w : World) : StreamWrite → Prop
  | ⟨.wallet, _, _, events⟩ => ∀ i tok capacity tag,
      .tokenMintedForWallet i tok capacity tag ∈ events →
        events = [.tokenMintedForWallet i tok capacity tag] ∧ (tag = Id.empty ∨ MintedFor w tok tag)
  | _ => True

/-- A leg of a forward Transfer draws on a Token it may draw on, or on the one
minted for it. -/
def Draws (R : Prop) (w : World) (ws : List StreamWrite) (id : Id) (a : TransferAccepted)
    (tok : Id) : Prop :=
  Visible R w a.transactionID tok ∨ (tok = .sourceToken id ∧ TaggedBy ws tok a.transactionID)

/-- What a forward Transfer is prepared with: legs that cover its amount, to a
Token minted for it. -/
def Planning (R : Prop) (w : World) (ws : List StreamWrite) : StreamWrite → Prop
  | ⟨.transfer, id, _, events⟩ => ∀ i legs, .transferPrepared i legs ∈ events →
      ∀ a, w.opening id = some (.transferRequestAccepted a) → Covers (legs.map plain) a.amount ∧
        ∀ leg ∈ legs, TaggedBy ws leg.destTokenID a.transactionID ∧
          Draws R w ws id a leg.sourceTokenID
  | _ => True

/-- Mints are tagged and Transfers planned as they should be. -/
def plans (R : Prop) : Contract World Op where
  assume _ w := Inv R w
  ensure
    | .appendAtomic ws, w => ∀ x ∈ ws, Tagging w x ∧ Planning R w ws x
    | _, _ => True

/-- Writes that tag no Token and prepare no Transfer. -/
def unplanned : Scope where
  transfer _ events := ∀ e ∈ events, (e.eventType == .transferPrepared) = false
  wallet _ events := ∀ i tok capacity tag, .tokenMintedForWallet i tok capacity tag ∈ events →
    events = [.tokenMintedForWallet i tok capacity tag] ∧ tag = Id.empty

theorem plans_lenient : Lenient (plans R) unplanned := by
  refine Open.lenient ⟨fun o ho w _ => by cases o <;> trivial, fun ws hws w _ x hx => ?_⟩
  have hin := hws x hx
  obtain ⟨a, id, seq, events⟩ := x
  cases a with
  | wallet =>
    have hwallet : unplanned.wallet id events := hin.resolve_right not_false
    refine ⟨fun i tok capacity tag hm => ?_, trivial⟩
    obtain ⟨hone, htag⟩ := hwallet i tok capacity tag hm
    exact ⟨hone, Or.inl htag⟩
  | transfer =>
    have htransfer : unplanned.transfer id events := hin.resolve_right not_false
    refine ⟨trivial, fun i legs hm => ?_⟩
    have hno := htransfer _ hm
    exact absurd hno (by simp [TransferEvent.eventType])
  | token | holder => exact ⟨trivial, trivial⟩
  | transaction => exact hin.elim False.elim False.elim

theorem plans_indifferent : Indifferent (plans R) unplanned where
  lenient := plans_lenient
  transfer id e he _ hm := List.mem_singleton.mp hm ▸ he
  opened id holderID name allows i tok capacity tag hm := by simp at hm
  untagged tok wid capacity i tok' capacity' tag hm := by
    have heq := List.mem_singleton.mp hm
    simp only [WalletEvent.tokenMintedForWallet.injEq] at heq
    obtain ⟨rfl, rfl, rfl, rfl⟩ := heq
    exact ⟨rfl, rfl⟩
  ledger ts w _ := trivial
  transaction tid seq events w _ x hx := by
    obtain rfl := List.mem_singleton.mp hx
    exact ⟨trivial, trivial⟩

/-! ### Selecting Tokens -/

theorem isOpen_plans (tid : Id) (w : World) :
    Ensures (plans R) (isOpen tid)
      (fun b w' => b = false → Henceforth R (fun w'' => w''.isOpen tid = false) w') w := by
  refine plans_lenient.load fun w1 _ _ => ?_
  have hanswer {b : Bool} (hb : b = false → w1.isOpen tid = false) :
      Ensures (plans R) (pure b : Service Bool)
        (fun b w' => b = false → Henceforth R (fun w'' => w''.isOpen tid = false) w') w1 :=
    Ensures.pure fun w2 hle2 h => (henceforth_closed (hb h)).grow hle2
  have hclosed {s : Transaction.State} (hs : topLevelState (w1.log tid) = s)
      (hc : s.closed = true) : w1.isOpen tid = false := by
    simp [World.isOpen, hs, hc]
  split
  · rename_i hs
    exact hanswer fun _ => hclosed hs rfl
  · rename_i hs
    exact hanswer fun _ => hclosed hs rfl
  · rename_i hs
    exact hanswer fun _ => hclosed hs rfl
  · exact hanswer fun h => by simp at h

theorem visibleTo_plans : ∀ {minted : List (Id × Id)} {w : World},
    (∀ p ∈ minted, w.Tagged p.1 p.2) → Ensures (plans R) (Wallet.visibleTo calling isOpen minted)
      (fun toks w' => ∀ tok ∈ toks, Visible R w' calling tok) w
  | [], w, _ => Ensures.pure fun _ _ _ h => absurd h List.not_mem_nil
  | (tok, tag) :: rest, w, h => by
    have htag : w.Tagged tok tag := h _ List.mem_cons_self
    have hrest {w1 : World} (hle : w ≤ w1) :
        Ensures (plans R) (Wallet.visibleTo calling isOpen rest)
          (fun toks w' => ∀ tok ∈ toks, Visible R w' calling tok) w1 :=
      visibleTo_plans fun p hp => (h p (List.mem_cons_of_mem _ hp)).grow hle
    have hcons {toks : List Id} {w1 w2 : World} (hle : w1 ≤ w2) (hv : Visible R w1 calling tok)
        (htoks : ∀ t ∈ toks, Visible R w1 calling t) :
        ∀ t ∈ tok :: toks, Visible R w2 calling t := by
      intro t ht
      rcases List.mem_cons.mp ht with rfl | ht
      · exact hv.grow hle
      · exact (htoks t ht).grow hle
    unfold Wallet.visibleTo
    split
    · rename_i hown
      refine (hrest le_rfl).seq fun toks w1 hle htoks => Ensures.pure fun w2 hle' => ?_
      refine hcons hle' ⟨tag, htag.grow hle, ?_⟩ htoks
      exact hown.imp_right Or.inl
    · refine (isOpen_plans tag w).seq fun b w1 hle hclosed => ?_
      refine (hrest hle).seq fun toks w2 hle2 htoks => Ensures.pure fun w3 hle3 => ?_
      cases b with
      | false =>
        refine hcons hle3 ⟨tag, htag.grow (hle.trans hle2), Or.inr (Or.inr ?_)⟩ htoks
        exact (hclosed rfl).grow hle2
      | true => exact fun t ht => (htoks t ht).grow hle3

/-- What was taken and what is short add up to what was asked for. -/
theorem takeTokens_covers {currency : String} {bs : Id → Option Ledger.Balance} {toks : List Id}
    {remaining short : UInt64} {legs : List Leg}
    (h : takeTokens currency bs toks remaining = .ok (legs, short)) :
    (legs.map fun leg => leg.amount.minorUnits.toNat).sum + short.toNat = remaining.toNat ∧
      ∀ leg ∈ legs, leg.amount.currency = currency := by
  refine takeTokens_induction (P := fun _ remaining legs short =>
    (legs.map fun leg => leg.amount.minorUnits.toNat).sum + short.toNat = remaining.toNat ∧
      ∀ leg ∈ legs, leg.amount.currency = currency) ?_ ?_ ?_ h
  · simp
  · exact fun _ _ _ _ _ ih => ih
  · rintro tok toks remaining legs short n b - hle - ⟨hsum, hcurrency⟩
    refine ⟨?_, List.forall_mem_cons.mpr ⟨rfl, hcurrency⟩⟩
    rw [UInt64.toNat_sub_of_le _ _ hle] at hsum
    have := UInt64.le_iff_toNat_le.mp hle
    simp only [List.map_cons, List.sum_cons]
    omega

theorem selectSourceTokens_plans {amount : Money} (w : World) :
    Ensures (plans R) (selectSourceTokens wid amount calling)
      (fun r w' => ∀ legs, r = .ok legs → Covers legs amount ∧
        ∀ leg ∈ legs, Visible R w' calling leg.sourceTokenID) w := by
  have htokens : Ensures (plans R) (Wallet.tokensOfVisibleTo wid calling isOpen)
      (fun toks w' => ∀ tok ∈ toks, Visible R w' calling tok) w := by
    refine plans_lenient.load fun w1 _ _ => visibleTo_plans ?_
    rintro ⟨tok, tag⟩ hp
    obtain ⟨i, capacity, hm⟩ := Wallet.mem_mintedTokens hp
    exact ⟨wid, i, capacity, hm⟩
  refine htokens.seq fun toks w1 _ htoks => ?_
  refine Obeys.request (plans_lenient.free _ rfl) fun bs => check_bind_obeys ?_
  rintro ⟨legs, short⟩ htake
  dsimp only
  split
  · exact Ensures.pure fun _ _ legs h => by simp at h
  · rename_i hshort
    refine Ensures.pure fun w2 hle2 legs' h => ?_
    cases h
    refine ⟨?_, fun leg hleg => (htoks _ (takeTokens_mem htake leg hleg)).grow hle2⟩
    obtain ⟨hsum, hcurrency⟩ := takeTokens_covers htake
    have hzero : short.toNat = 0 := by
      rw [UInt64.lt_iff_toNat_lt] at hshort
      simpa using hshort
    exact ⟨by omega, hcurrency⟩

/-! ### Planning -/

/-- The writes of a mint, for a Transfer of the Transaction it is tagged with. -/
theorem tagging_of_mint {seq : Nat} {spec : Token.MintSpec} (h : MintedFor w spec.tokenID tag) :
    ∀ x ∈ Token.mintStreamWrites wid seq [spec] tag,
      Tagging w x ∧ ∀ ws, Planning R w ws x := by
  intro x hx
  rcases List.mem_append.mp hx with hx | hx
  · obtain rfl := List.mem_singleton.mp hx
    exact ⟨trivial, fun _ => trivial⟩
  · obtain rfl := List.mem_singleton.mp hx
    refine ⟨fun i tok capacity tag' hm => ?_, fun _ => trivial⟩
    have heq := List.mem_singleton.mp hm
    simp only [WalletEvent.tokenMintedForWallet.injEq] at heq
    obtain ⟨rfl, rfl, rfl, rfl⟩ := heq
    exact ⟨rfl, Or.inr h⟩

theorem taggedBy_mint {seq : Nat} {spec : Token.MintSpec} :
    TaggedBy (Token.mintStreamWrites wid seq [spec] tag) spec.tokenID tag :=
  ⟨wid, seq, wid, spec.capacity, List.mem_append_right _ List.mem_cons_self⟩

/-- What is known of a forward plan: the Tokens it mints are tagged, its legs
cover the amount and draw on what they may. -/
structure ForwardPlan (R : Prop) (w : World) (id : Id) (a : TransferAccepted) (plan : List Leg)
    (ws : List StreamWrite) : Prop where
  writes : ∀ w', w ≤ w' → ∀ x ∈ ws, Tagging w' x ∧ ∀ ws', Planning R w' ws' x
  covers : Covers plan a.amount
  drawn : ∀ leg ∈ plan, Draws R w ws id a leg.sourceTokenID

theorem TaggedBy.mono {ws' : List StreamWrite} (h : TaggedBy ws tok tag) (hs : ws ⊆ ws') :
    TaggedBy ws' tok tag := by
  obtain ⟨wid, seq, i, capacity, hm⟩ := h
  exact ⟨wid, seq, i, capacity, hs hm⟩

theorem Draws.mono {ws' : List StreamWrite} {a : TransferAccepted} (h : Draws R w ws id a tok)
    (hle : w ≤ w') (hs : ws ⊆ ws') : Draws R w' ws' id a tok :=
  h.imp (fun hv => hv.grow hle) fun ht => ⟨ht.1, ht.2.mono hs⟩

section

variable {a : TransferAccepted} (hopen : w.opening id = some (.transferRequestAccepted a))
include hopen

theorem planSources_plans :
    Ensures (plans R) (planSources id a)
      (fun r w' => ∀ plan ws, r = .ok (plan, ws) → ForwardPlan R w' id a plan ws) w := by
  unfold planSources
  split
  · refine (validateMintSource_obeys plans_lenient.reads _ _ w).seq fun r w1 hle1 _ => ?_
    cases r with
    | some reason => exact Ensures.throw
    | none =>
      refine Obeys.request (plans_lenient.free _ rfl) fun rows => ?_
      refine (Token.mintWrites_returns plans_lenient w1).seq fun r w2 hle2 hr => ?_
      cases r with
      | error reason => exact Ensures.throw
      | ok writes =>
        refine Ensures.pure fun w3 hle3 plan ws h => ?_
        cases h
        obtain rfl := hr writes rfl
        refine ⟨fun w4 hle4 => tagging_of_mint ?_, ?_, fun leg hleg => Or.inr ?_⟩
        · have hle : w ≤ w4 := ((hle1.trans hle2).trans hle3).trans hle4
          exact ⟨id, a, World.opening_grow hopen hle, rfl, Or.inr rfl⟩
        · simp [Covers]
        · obtain rfl := List.mem_singleton.mp hleg
          exact ⟨rfl, taggedBy_mint⟩
  · refine (selectSourceTokens_plans w).seq fun r w1 _ hsel => ?_
    cases r with
    | error reason => exact Ensures.pure fun _ _ _ _ h => by simp at h
    | ok legs =>
      refine Ensures.pure fun w2 hle2 plan ws h => ?_
      cases h
      obtain ⟨hcovers, hvisible⟩ := hsel legs rfl
      refine ⟨fun _ _ x hx => absurd hx List.not_mem_nil, hcovers, fun leg hleg => Or.inl ?_⟩
      exact (hvisible leg hleg).grow hle2

theorem planForward_plans :
    Ensures (plans R) (planForward id a)
      (fun r w' => ∀ plan ws, r = .ok (plan, ws) → ForwardPlan R w' id a plan ws ∧
        ∀ leg ∈ plan, TaggedBy ws leg.destTokenID a.transactionID) w := by
  refine (planSources_plans hopen).seq fun r w1 hle1 hsrc => ?_
  cases r with
  | error reason => exact Ensures.pure fun _ _ _ _ h => by simp at h
  | ok p =>
    obtain ⟨plan, srcWs⟩ := p
    have hplan := hsrc plan srcWs rfl
    refine Obeys.request (plans_lenient.free _ rfl) fun rows => ?_
    refine (Token.mintWrites_returns plans_lenient w1).seq fun r w2 hle2 hr => ?_
    cases r with
    | error reason => exact Ensures.throw
    | ok writes =>
      refine Ensures.pure fun w3 hle3 plan' ws h => ?_
      cases h
      obtain rfl := hr writes rfl
      have hle : w1 ≤ w3 := hle2.trans hle3
      refine ⟨⟨fun w4 hle4 x hx => ?_, ?_, fun leg hleg => ?_⟩, fun leg hleg => ?_⟩
      · rcases List.mem_append.mp hx with hx | hx
        · exact hplan.writes w4 (hle.trans hle4) x hx
        · refine tagging_of_mint ?_ x hx
          have hle0 : w ≤ w4 := hle1.trans (hle.trans hle4)
          exact ⟨id, a, World.opening_grow hopen hle0, rfl, Or.inl rfl⟩
      · -- the destination does not enter the sum
        have := hplan.covers
        simpa [Covers, Function.comp_def] using this
      · obtain ⟨m, hm, rfl⟩ := List.mem_map.mp hleg
        exact (hplan.drawn m hm).mono hle (List.subset_append_left _ _)
      · obtain ⟨m, -, rfl⟩ := List.mem_map.mp hleg
        exact taggedBy_mint.mono (List.subset_append_right _ _)

end

theorem legs_of_landed {legs' : List TransferLeg} {stage : Bool}
    (h : .transferPrepared i legs' ∈ [.transferPrepared id legs, nextMarker id stage]) :
    legs = legs' := by
  rcases List.mem_cons.mp h with heq | h
  · exact (TransferEvent.transferPrepared.inj heq).2.symm
  · have hmarker := List.mem_singleton.mp h
    cases stage <;> simp [nextMarker] at hmarker

/-- Preparing a Transfer keeps the contract. -/
theorem tryPrepare_plans (id : Id) (w : World) : Obeys (plans R) (tryPrepare id) w := by
  refine tryPrepare_obeys plans_lenient
    (fun _ => (plans_indifferent (R := R)).transfer _ _ rfl) ?_ ?_
  · intro w1 a rest _ _ hes
    have hopen : w1.opening id = some (.transferRequestAccepted a) := World.opening_of_events hes
    refine (planForward_plans hopen).mono fun r w2 hle2 hplan plan ws hr legs stage hlegs => ?_
    obtain ⟨⟨hwrites, hcovers, hdrawn⟩, hdest⟩ := hplan plan ws hr
    intro w3 hle3 _ x hx
    rcases List.mem_append.mp hx with hx | hx
    · exact ⟨(hwrites w3 hle3 x hx).1, (hwrites w3 hle3 x hx).2 _⟩
    · obtain rfl := List.mem_singleton.mp hx
      refine ⟨trivial, fun i legs' hm a' ha' => ?_⟩
      have hsame : a' = a := by
        have := World.opening_grow hopen (hle2.trans hle3)
        rw [this] at ha'
        simpa using ha'.symm
      subst hsame
      obtain rfl := legs_of_landed hm
      refine ⟨hlegs ▸ hcovers, fun leg hleg => ?_⟩
      have hplain : plain leg ∈ plan := hlegs ▸ List.mem_map_of_mem hleg
      exact ⟨(hdest _ hplain).mono (List.subset_append_left _ _),
        (hdrawn _ hplain).mono hle3 (List.subset_append_left _ _)⟩
  · intro w1 a rest _ _ hes
    have hopen : w1.opening id = some (.reversalRequestAccepted a) := World.opening_of_events hes
    refine (planReversal_returns plans_lenient a w1).mono
      fun r w2 hle2 hplan plan ws hr legs stage _ => ?_
    obtain rfl : ws = [] := hplan _ hr
    intro w3 hle3 _ x hx
    obtain rfl := List.mem_singleton.mp hx
    refine ⟨trivial, fun i legs' _ a' ha' => ?_⟩
    rw [World.opening_grow hopen (hle2.trans hle3)] at ha'
    simp at ha'

theorem Driver.plans (d : Driver) (fuel : Nat) (w : World) :
    Safe (plans R) (fun _ _ => True) (d.service fuel).run w :=
  d.obeys plans_indifferent (fun id => tryPrepare_plans id w) fuel

/-! ### In every state -/

/-- What holds of tags and plans. -/
structure PlansOk (w : World) : Prop where
  minted : ∀ tok tag, w.Tagged tok tag → tag = Id.empty ∨ MintedFor w tok tag
  unique : ∀ tok tag tag', w.Tagged tok tag → w.Tagged tok tag' → tag = tag'
  planned : ∀ id a legs, w.opening id = some (.transferRequestAccepted a) → w.legs id = .ok legs →
    Covers (legs.map plain) a.amount ∧ ∀ leg ∈ legs, ∃ tag, w.Tagged leg.sourceTokenID tag ∧
      (tag = Id.empty ∨ tag = a.transactionID ∨ w.isOpen tag = false)
  distinct : ∀ id legs, w.legs id = .ok legs → ∀ leg ∈ legs, leg.sourceTokenID ≠ leg.destTokenID

theorem plansOk_init : PlansOk .init where
  minted _ _ h := by
    obtain ⟨_, _, _, hm⟩ := h
    cases hm
  unique _ _ _ h := by
    obtain ⟨_, _, _, hm⟩ := h
    cases hm
  planned _ _ _ h := nomatch h
  distinct _ _ h := nomatch h

theorem PlansOk.tick (h : PlansOk w) (ht : w.Tick w') : PlansOk w' := by
  obtain ⟨d, rfl⟩ := ht
  exact ⟨h.minted, h.unique, h.planned, h.distinct⟩

theorem token_ne_nil_of_tagged (hinv : Inv R w) (h : w.Tagged tok tag) : w.token tok ≠ [] := by
  obtain ⟨wid, i, capacity, hm⟩ := h
  obtain ⟨capacity', hmint⟩ := (hinv.wallet wid).minted i tok capacity tag hm
  intro hnil
  rw [hnil] at hmint
  cases hmint

/-- A Token is recorded as minted in the append that opens its stream. -/
theorem WalletAppend.token_nil {events : List WalletEvent} {st : Store}
    (h : WalletAppend w ws wid events) (hst : appendAtomic w.clock w.store ws = .ok st)
    {capacity : Money} (hm : .tokenMintedForWallet i tok capacity tag ∈ events) :
    w.token tok = [] := by
  cases h with
  | opened => simp at hm
  | minted hne hws =>
    obtain ⟨spec, hspec, heq⟩ := List.mem_map.mp hm
    simp only [WalletEvent.tokenMintedForWallet.injEq] at heq
    obtain ⟨-, rfl, -, -⟩ := heq
    obtain ⟨hlen, -⟩ := appendAtomic_landed hst (hws spec hspec) (by simp)
    exact List.length_eq_zero_iff.mp hlen

/-- How a Token comes to be tagged. -/
theorem tagged_step {r : Resp o} (hlegal : Legal R o w) (hplans : (plans R).ensure o w)
    (hx : w.Exec o r w') (h : w'.Tagged tok tag) :
    w.Tagged tok tag ∨ (w.token tok = [] ∧ (tag = Id.empty ∨ MintedFor w tok tag) ∧
      ∃ wid ws i capacity, Appended R w w' o .wallet wid ws
        [WalletEvent.tokenMintedForWallet i tok capacity tag]) := by
  obtain ⟨wid, i, capacity, hm⟩ := h
  rcases exec_stream hlegal hx .wallet wid with hsame | ⟨ws, events, happ⟩
  · left
    refine ⟨wid, i, capacity, ?_⟩
    rwa [show w'.wallet wid = w.wallet wid from hsame] at hm
  · rw [show eventsOf (w'.wallet wid) = eventsOf (w.wallet wid) ++ events from happ.events] at hm
    rcases List.mem_append.mp hm with hm | hm
    · exact Or.inl ⟨wid, i, capacity, hm⟩
    · right
      obtain rfl := happ.op
      obtain ⟨hone, htag⟩ := (show Tagging w ⟨.wallet, wid, _, events⟩ from
        (hplans _ happ.mem).1) i tok capacity tag hm
      obtain ⟨st, hst, -⟩ := happ.lands
      refine ⟨?_, htag, wid, ws, i, capacity, hone ▸ happ⟩
      exact (show WalletAppend w ws wid events from happ.legal).token_nil hst hm

theorem tag_unique_step {r : Resp o} (hinv : Inv R w) (hinv' : Inv R w') (h : PlansOk w)
    (hlegal : Legal R o w) (hplans : (plans R).ensure o w) (hx : w.Exec o r w') {tag' : Id}
    (ht : w'.Tagged tok tag) (ht' : w'.Tagged tok tag') : tag = tag' := by
  rcases tagged_step hlegal hplans hx ht with hold | ⟨hnil, -, wid, ws, i, capacity, happ⟩
  · rcases tagged_step hlegal hplans hx ht' with hold' | ⟨hnil, -⟩
    · exact h.unique tok tag tag' hold hold'
    · exact absurd hnil (token_ne_nil_of_tagged hinv hold)
  · rcases tagged_step hlegal hplans hx ht' with hold' | ⟨-, -, wid', ws', i', capacity', happ'⟩
    · exact absurd hnil (token_ne_nil_of_tagged hinv hold')
    · -- both in one append, and the Token is in one Wallet
      have hmem : .tokenMintedForWallet i tok capacity tag ∈ eventsOf (w'.wallet wid) := by
        rw [show eventsOf (w'.wallet wid) = _ from happ.events]
        exact List.mem_append_right _ List.mem_cons_self
      have hmem' : .tokenMintedForWallet i' tok capacity' tag' ∈ eventsOf (w'.wallet wid') := by
        rw [show eventsOf (w'.wallet wid') = _ from happ'.events]
        exact List.mem_append_right _ List.mem_cons_self
      obtain rfl : wid = wid' := World.MintedInto.wallet_unique
        ((hinv'.wallet wid).minted _ _ _ _ hmem) ((hinv'.wallet wid').minted _ _ _ _ hmem')
      have heq := List.append_cancel_left (happ.events.symm.trans happ'.events)
      simp only [List.cons.injEq, WalletEvent.tokenMintedForWallet.injEq] at heq
      exact heq.1.2.2.2

/-- Only a stream that has begun is prepared. -/
theorem Transfer.TransferAppend.begun_of_prepared {events : List TransferEvent}
    (h : TransferAppend w ws id events) (hm : .transferPrepared i legs ∈ events) :
    w.transfer id ≠ [] := by
  intro hnil
  cases h with
  | opening _ he _ =>
    rw [← List.mem_singleton.mp hm] at he
    exact Bool.false_ne_true he
  | prepared hs _ _ _ =>
    rw [hnil] at hs
    exact absurd hs (by simp)
  | outcome ht _ =>
    rw [hnil] at ht
    exact absurd ht (by simp [transitions])
  | claim hs _ _ =>
    rw [hnil] at hs
    exact absurd hs (by simp [State.claimable])
  | response hne _ => exact hne hnil

/-- What is prepared has a manifest. -/
theorem Transfer.TransferAppend.manifest {events : List TransferEvent}
    (h : TransferAppend w ws id events) (hm : .transferPrepared i legs ∈ events) :
    ManifestOf (HeldAfter w ws) w id (legs.map plain) (eventsOf (w.transfer id)) := by
  cases h with
  | opening _ he _ | claim _ he _ | response _ he =>
    rw [← List.mem_singleton.mp hm] at he
    exact absurd he Bool.false_ne_true
  | @prepared legs' stage _ _ _ hplan =>
    rcases List.mem_cons.mp hm with heq | hm
    · obtain ⟨-, rfl⟩ := TransferEvent.transferPrepared.inj heq
      exact hplan
    · have hmarker := List.mem_singleton.mp hm
      cases stage <;> simp [nextMarker] at hmarker
  | outcome ht _ =>
    rw [← List.mem_singleton.mp hm] at ht
    exact absurd rfl (transition_ne_prepared ht).1

theorem World.opening_of_ne_nil (h : w.transfer id ≠ []) : ∃ e, w.opening id = some e := by
  unfold World.opening
  cases hrows : w.transfer id with
  | nil => exact absurd hrows h
  | cons row rows => exact ⟨row.event, rfl⟩

/-- How a Transfer comes to be prepared. -/
theorem legs_step {r : Resp o} (hlegal : Legal R o w) (hx : w.Exec o r w')
    (h : w'.legs id = .ok legs) :
    w.legs id = .ok legs ∨ ∃ ws events i, Appended R w w' o .transfer id ws events ∧
      TransferEvent.transferPrepared i legs ∈ events ∧ w'.opening id = w.opening id := by
  have hle : w ≤ w' := World.le_of_exec hx
  obtain ⟨i, hm⟩ := preparedLegs_mem h
  rcases exec_stream hlegal hx .transfer id with hsame | ⟨ws, events, happ⟩
  · left
    unfold World.legs at h ⊢
    rwa [show w'.transfer id = w.transfer id from hsame] at h
  · rw [show eventsOf (w'.transfer id) = _ from happ.events] at hm
    rcases List.mem_append.mp hm with hm | hm
    · left
      obtain ⟨ls, hls⟩ : ∃ ls, w.legs id = .ok ls := exists_preparedLegs hm
      obtain rfl : ls = legs := Except.ok.inj ((World.legs_grow hle hls).symm.trans h)
      exact hls
    · have happend : TransferAppend w ws id events := happ.legal
      obtain ⟨e, he⟩ := World.opening_of_ne_nil (happend.begun_of_prepared hm)
      exact Or.inr ⟨ws, events, i, happ, hm, (World.opening_grow he hle).trans he.symm⟩

theorem tagged_of_landed {a : Aggregate} {events : List a.Event}
    (happ : Appended R w w' o a id ws events) (h : TaggedBy ws tok tag) : w'.Tagged tok tag := by
  obtain ⟨st, hst, rfl⟩ := happ.lands
  obtain ⟨wid, seq, i, capacity, hm⟩ := h
  obtain ⟨-, hland⟩ := appendAtomic_landed hst hm (by simp)
  refine ⟨wid, i, capacity, ?_⟩
  change _ ∈ eventsOf (st .wallet wid)
  rw [show st .wallet wid = _ from hland, eventsOf_append, eventsOf_rowsFrom]
  exact List.mem_append_right _ List.mem_cons_self

/-- A Token minted in this append had no stream before. -/
theorem token_nil_of_landed {a : Aggregate} {events : List a.Event} (hlegal : Legal R o w)
    (happ : Appended R w w' o a id ws events) (h : TaggedBy ws tok tag) : w.token tok = [] := by
  obtain rfl := happ.op
  obtain ⟨st, hst, -⟩ := happ.lands
  obtain ⟨wid, seq, i, capacity, hm⟩ := h
  exact (show WalletAppend w ws wid [.tokenMintedForWallet i tok capacity tag] from
    hlegal st hst _ hm (by simp)).token_nil hst List.mem_cons_self

theorem planned_step {r : Resp o} (hinv' : Inv R w') (h : PlansOk w) (hlegal : Legal R o w)
    (hplans : (plans R).ensure o w) (hx : w.Exec o r w') {a : TransferAccepted}
    (hopen : w'.opening id = some (.transferRequestAccepted a)) (hlegs : w'.legs id = .ok legs) :
    Covers (legs.map plain) a.amount ∧ ∀ leg ∈ legs, ∃ tag, w'.Tagged leg.sourceTokenID tag ∧
      (tag = Id.empty ∨ tag = a.transactionID ∨ w'.isOpen tag = false) := by
  have hle : w ≤ w' := World.le_of_exec hx
  rcases legs_step hlegal hx hlegs with hold | ⟨ws, events, i, happ, hm, hsame⟩
  · -- prepared before the step
    have hbegun : w.transfer id ≠ [] := by
      intro hnil
      obtain ⟨j, hj⟩ := preparedLegs_mem hold
      rw [hnil] at hj
      cases hj
    obtain ⟨e, he⟩ := World.opening_of_ne_nil hbegun
    obtain rfl : e = .transferRequestAccepted a :=
      Option.some.inj ((World.opening_grow he hle).symm.trans hopen)
    obtain ⟨hcovers, hdrawn⟩ := h.planned id a legs he hold
    refine ⟨hcovers, fun leg hleg => ?_⟩
    obtain ⟨tag, ht, hc⟩ := hdrawn leg hleg
    refine ⟨tag, ht.grow hle, hc.imp_right fun hc => hc.imp_right fun hc => ?_⟩
    exact henceforth_closed hc w' hle hinv'
  · obtain rfl := happ.op
    obtain ⟨hcovers, hdrawn⟩ := (show Planning R w ws ⟨.transfer, id, _, events⟩ from
      (hplans _ happ.mem).2) i legs hm a (hsame.symm.trans hopen)
    refine ⟨hcovers, fun leg hleg => ?_⟩
    rcases (hdrawn leg hleg).2 with ⟨tag, ht, hc⟩ | ⟨-, ht⟩
    · refine ⟨tag, ht.grow hle, hc.imp_right fun hc => hc.imp_right fun hc => ?_⟩
      exact hc w' hle hinv'
    · exact ⟨a.transactionID, tagged_of_landed happ ht, Or.inr (Or.inl rfl)⟩

/-- A Transfer takes from one Token and gives to another. -/
theorem distinct_step {r : Resp o} (hinv : Inv R w) (h : PlansOk w) (hlegal : Legal R o w)
    (hplans : (plans R).ensure o w) (hx : w.Exec o r w') (hlegs : w'.legs id = .ok legs)
    {leg : TransferLeg} (hleg : leg ∈ legs) : leg.sourceTokenID ≠ leg.destTokenID := by
  rcases legs_step hlegal hx hlegs with hold | ⟨ws, events, i, happ, hm, -⟩
  · exact h.distinct id legs hold leg hleg
  · have hplanning : Planning R w ws ⟨.transfer, id, (w.store .transfer id).length, events⟩ := by
      obtain rfl := happ.op
      exact (hplans _ happ.mem).2
    have hman : ManifestOf (HeldAfter w ws) w id (legs.map plain) (eventsOf (w.transfer id)) :=
      (show TransferAppend w ws id events from happ.legal).manifest hm
    have hplain : plain leg ∈ legs.map plain := List.mem_map_of_mem hleg
    cases hes : eventsOf (w.transfer id) with
    | nil =>
      rw [hes] at hman
      exact hman.elim
    | cons e es =>
      have hhead : w.opening id = some e := World.opening_of_events hes
      rw [hes] at hman
      cases e with
      | transferRequestAccepted a =>
        have hdest : leg.destTokenID = .destinationToken id := (hman _ hplain).1
        obtain ⟨htagged, hdraws⟩ := (hplanning i legs hm a hhead).2 leg hleg
        rcases hdraws with ⟨tag, ht, -⟩ | ⟨hsource, -⟩
        · -- the source was there before, the destination was not
          intro heq
          exact token_ne_nil_of_tagged hinv ht
            (heq ▸ token_nil_of_landed hlegal happ htagged)
        · rw [hsource, hdest]
          exact Id.noConfusion
      | reversalRequestAccepted a =>
        obtain ⟨original, horiginal, hplan, -⟩ := hman
        rw [hplan] at hplain
        obtain ⟨m, hm, hturned⟩ := List.mem_map.mp hplain
        have hne := h.distinct a.transferID original horiginal m hm
        intro heq
        refine hne ?_
        exact (congrArg Leg.destTokenID hturned).trans
          (heq.symm.trans (congrArg Leg.sourceTokenID hturned).symm)
      | _ => exact hman.elim

/-- **A step keeps it.** -/
theorem plans_step {r : Resp o} (hinv : Inv R w) (hinv' : Inv R w') (h : PlansOk w)
    (hlegal : Legal R o w) (hplans : (plans R).ensure o w) (hx : w.Exec o r w') : PlansOk w' where
  minted tok tag ht := by
    have hle : w ≤ w' := World.le_of_exec hx
    rcases tagged_step hlegal hplans hx ht with hold | ⟨-, hfor, -⟩
    · exact (h.minted tok tag hold).imp_right fun hm => hm.grow hle
    · exact hfor.imp_right fun hm => hm.grow hle
  unique tok tag tag' := tag_unique_step hinv hinv' h hlegal hplans hx
  planned id a legs hopen hlegs := planned_step hinv' h hlegal hplans hx hopen hlegs
  distinct id legs hlegs leg hleg := distinct_step hinv h hlegal hplans hx hlegs hleg

end MoneyFlow
