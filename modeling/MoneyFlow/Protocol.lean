import MoneyFlow.Holder.Protocol
import MoneyFlow.Transaction.Protocol
import MoneyFlow.Transfer.Settlement

/-!
# MoneyFlow.Protocol

The protocol every driver keeps, and the invariant it keeps.

`Legal R o w` says which operations may be performed in `w`; most are always
legal. The contract of every driver is to perform legal operations only, and in
return it may take the invariant for granted whenever it performs one
(`contract`). `Inv.step` closes the circle: a legal operation keeps the
invariant. What remains for each driver is that its code is legal
(`MoneyFlow.Transfer.Conduct`, `MoneyFlow.Transaction.Conduct`).
-/

namespace MoneyFlow

open Concurrent Holder Transfer Transaction

variable {o : Op}

/-! ### Wallets and Tokens -/

/-- An append to a Wallet's stream, one of the writes `ws` that land
together. -/
inductive WalletAppend (w : World) (ws : List StreamWrite) (id : Id) : List WalletEvent → Prop
  | opened {holderID : Id} {name : String} {allows : Allows} (hes : w.wallet id = [])
      (hid : id.isUUID = true) (ha : allows ≠ .unspecified) :
      WalletAppend w ws id [.walletOpened id holderID name allows]
  | minted {specs : List Token.MintSpec} {transactionID : Id} (hne : w.wallet id ≠ [])
      (hws : ∀ spec ∈ specs, StreamWrite.mk .token spec.tokenID 0
        [TokenEvent.tokenMinted spec.tokenID id spec.capacity] ∈ ws) :
      WalletAppend w ws id
        (specs.map fun spec => .tokenMintedForWallet id spec.tokenID spec.capacity transactionID)

/-- An append to a Token's stream. -/
inductive TokenAppend (w : World) (id : Id) : List TokenEvent → Prop
  | minted {walletID : Id} {capacity : Money} (hes : w.token id = [])
      (hwallet : walletID.isUUID = true) (hacc : (w.ledger.accounts id).isSome = true) :
      TokenAppend w id [.tokenMinted id walletID capacity]
  | balance {walletID : Id} {currency : String} {posted : Int} {outgoing incoming : UInt64}
      (hne : w.token id ≠ []) :
      TokenAppend w id [.tokenBalanceRecorded id walletID currency posted outgoing incoming]

/-- What holds of every Wallet's stream. -/
structure WalletOk (w : World) (id : Id) : Prop where
  opened : ∀ e, (eventsOf (w.wallet id)).head? = some e → id.isUUID = true ∧
    ∃ holderID name allows, e = .walletOpened id holderID name allows ∧ allows ≠ .unspecified
  minted : ∀ i tok capacity tag,
    .tokenMintedForWallet i tok capacity tag ∈ eventsOf (w.wallet id) → w.MintedInto tok id

/-- What holds of every Token's stream. -/
structure TokenOk (w : World) (id : Id) : Prop where
  opened : ∀ e, (eventsOf (w.token id)).head? = some e →
    (∃ walletID capacity, e = .tokenMinted id walletID capacity) ∧
      (w.ledger.accounts id).isSome = true
  wallet : ∀ i walletID capacity, .tokenMinted i walletID capacity ∈ eventsOf (w.token id) →
    walletID.isUUID = true

/-- Only a Wallet with a valid id has a stream. -/
theorem WalletOk.isUUID {w : World} {id : Id} (h : WalletOk w id) (hne : w.wallet id ≠ []) :
    id.isUUID = true := by
  cases hrows : w.wallet id with
  | nil => exact absurd hrows hne
  | cons r rs => exact (h.opened r.event (by rw [hrows]; rfl)).1

/-! ### Legal operations -/

/-- A write that may land, one of the writes `ws` that land together. -/
def LegalWrite (R : Prop) (w : World) (ws : List StreamWrite) : StreamWrite → Prop
  | ⟨.wallet, id, _, events⟩ => WalletAppend w ws id events
  | ⟨.token, id, _, events⟩ => TokenAppend w id events
  | ⟨.transfer, id, _, events⟩ => TransferAppend w ws id events
  | ⟨.transaction, id, _, events⟩ => TransactionAppend R w id events
  | ⟨.holder, id, _, events⟩ => HolderAppend w ws id events

/-- An operation that may be performed. An append owes something only if it
lands. -/
def Legal (R : Prop) : Op → World → Prop
  | .appendAtomic ws, w => ∀ st, appendAtomic w.clock w.store ws = .ok st →
      ∀ x ∈ ws, x.events ≠ [] → LegalWrite R w ws x
  | .createTransfers batch, w => LegalRequest w batch
  | .call c, w => LegalCall w c
  | _, _ => True

/-- What holds in every state. -/
structure Inv (R : Prop) (w : World) : Prop where
  transfer : ∀ id, TransferOk w id
  transaction : ∀ tid, TransactionOk R w tid
  ledger : LedgerOk w
  wallet : ∀ id, WalletOk w id
  token : ∀ id, TokenOk w id
  holder : ∀ id, HolderOk w id

/-- What a driver may take for granted when it performs an operation, and what
it owes. -/
def contract (R : Prop) (A : Op → World → Prop) : Contract World Op where
  assume := A
  ensure := Legal R

theorem inv_init (R : Prop) : Inv R .init where
  transfer := transferOk_init
  transaction := transactionOk_init R
  ledger := ledgerOk_init
  wallet _ := ⟨nofun, nofun⟩
  token _ := ⟨nofun, nofun⟩
  holder := holderOk_init

/-! ### Steps that write no stream -/

variable {R : Prop} {w w' : World} {id : Id}

theorem Inv.lifecycle (h : Inv R w) (id : Id) : Lifecycle (eventsOf (w.transfer id)) :=
  (h.transfer id).lifecycle

theorem account_grow {l l' : Ledger} (h : l.Grows l') (ha : (l.accounts id).isSome = true) :
    (l'.accounts id).isSome = true := by
  obtain ⟨a, ha⟩ := Option.isSome_iff_exists.mp ha
  obtain ⟨a', ha', -⟩ := h.accounts id a ha
  exact Option.isSome_iff_exists.mpr ⟨a', ha'⟩

theorem WalletOk.grow (h : WalletOk w id) (hle : w ≤ w') (hw : w'.wallet id = w.wallet id) :
    WalletOk w' id := by
  constructor
  · rw [hw]
    exact h.opened
  · rw [hw]
    exact fun i tok capacity tag hm => (h.minted i tok capacity tag hm).grow hle

theorem TokenOk.grow (h : TokenOk w id) (hle : w ≤ w') (hw : w'.token id = w.token id) :
    TokenOk w' id := by
  constructor
  · rw [hw]
    exact fun e he => (h.opened e he).imp_right (account_grow hle.ledger)
  · rw [hw]
    exact h.wallet

/-- A step that writes no stream keeps the invariant if it keeps the ledger. -/
theorem Inv.grow (h : Inv R w) (hle : w ≤ w') (hs : w'.store = w.store) (hl : LedgerOk w') :
    Inv R w' := by
  have hstream (a : Aggregate) (id : Id) : w'.store a id = w.store a id := by rw [hs]
  have hL (i : Id) : Lifecycle (eventsOf (w'.transfer i)) := by
    have := h.lifecycle i
    rwa [← show w'.transfer i = w.transfer i from hstream .transfer i] at this
  exact {
    transfer := fun id => (h.transfer id).grow hle hL (hstream .transfer id)
    transaction := fun tid =>
      (h.transaction tid).grow hle hL (congrArg eventsOf (hstream .transaction tid))
    ledger := hl
    wallet := fun id => (h.wallet id).grow hle (hstream .wallet id)
    token := fun id => (h.token id).grow hle (hstream .token id)
    holder := fun id => (h.holder id).grow hle (hstream .holder id) }

/-! ### A landed append -/

section Append

variable {ws : List StreamWrite} {st : Store} (hst : appendAtomic w.clock w.store ws = .ok st)
include hst

theorem le_landed : w ≤ { w with store := st } :=
  ⟨fun a id => appendAtomic_grows hst a id, .refl _, List.prefix_rfl⟩

/-- What became of one stream: nothing, or one of the writes landed on it. -/
theorem landed_cases (hlegal : ∀ x ∈ ws, x.events ≠ [] → LegalWrite R w ws x) (a : Aggregate)
    (id : Id) : st a id = w.store a id ∨ ∃ events : List a.Event,
      LegalWrite R w ws ⟨a, id, (w.store a id).length, events⟩ ∧
        st a id = w.store a id ++ rowsFrom w.clock (w.store a id).length events := by
  rcases appendAtomic_stream hst a id with hsame | ⟨events, hmem, hland⟩
  · exact Or.inl hsame
  · by_cases hne : events = []
    · subst hne
      exact Or.inl (by simpa using hland)
    · exact Or.inr ⟨events, hlegal _ hmem hne, hland⟩

/-- A write that opens a stream is all there is on it. -/
theorem opened_of_landed {a : Aggregate} {e : a.Event} (hm : StreamWrite.mk a id 0 [e] ∈ ws) :
    eventsOf (st a id) = [e] := by
  obtain ⟨hlen, hland⟩ := appendAtomic_landed hst hm (by simp)
  have hnil : w.store a id = [] := List.length_eq_zero_iff.mp hlen
  change st a id = w.store a id ++ _ at hland
  rw [hland, hnil, List.nil_append]
  rfl

theorem minted_of_landed {tok wid : Id} {capacity : Money}
    (hm : StreamWrite.mk .token tok 0 [TokenEvent.tokenMinted tok wid capacity] ∈ ws) :
    World.MintedInto { w with store := st } tok wid := by
  refine ⟨capacity, ?_⟩
  change (eventsOf (st .token tok)).head? = _
  rw [opened_of_landed hst hm]
  rfl

theorem held_of_landed (tok wid : Id) (h : HeldAfter w ws tok wid) :
    World.MintedInto { w with store := st } tok wid := by
  rcases h with h | ⟨capacity, hm⟩
  · exact h.grow (le_landed hst)
  · exact minted_of_landed hst hm

theorem owned_of_landed {holderID : Id} {spec : WalletSpec} (hm : openingWrite holderID spec ∈ ws) :
    World.OwnedBy { w with store := st } spec.walletID holderID := by
  refine ⟨spec.name, spec.allows, ?_⟩
  change (eventsOf (st .wallet spec.walletID)).head? = _
  rw [opened_of_landed hst hm]
  rfl

variable (hlegal : ∀ x ∈ ws, x.events ≠ [] → LegalWrite R w ws x) (h : Inv R w)
include hlegal h

theorem lifecycle_landed (id : Id) :
    Lifecycle (eventsOf (World.transfer { w with store := st } id)) := by
  change Lifecycle (eventsOf (st .transfer id))
  rcases landed_cases hst hlegal .transfer id with hsame | ⟨events, hw, hland⟩
  · rw [hsame]
    exact h.lifecycle id
  · rw [hland, eventsOf_append, eventsOf_rowsFrom]
    exact TransferAppend.lifecycle hw (h.lifecycle id)

theorem wallet_landed (id : Id) : WalletOk { w with store := st } id := by
  have hle := le_landed hst
  rcases landed_cases hst hlegal .wallet id with hsame | ⟨events, hw, hland⟩
  · exact (h.wallet id).grow hle hsame
  · have hes : eventsOf (World.wallet { w with store := st } id) =
        eventsOf (w.wallet id) ++ events := by
      change eventsOf (st .wallet id) = _
      rw [hland, eventsOf_append, eventsOf_rowsFrom]
      rfl
    constructor <;> rw [hes]
    · intro e he
      cases (show WalletAppend w ws id events from hw) with
      | opened hnil hid ha =>
        rw [hnil] at he
        cases he
        exact ⟨hid, _, _, _, rfl, ha⟩
      | minted hne hws =>
        obtain ⟨e0, hhead⟩ : ∃ e0, (eventsOf (w.wallet id)).head? = some e0 := by
          cases hrows : w.wallet id with
          | nil => exact absurd hrows hne
          | cons r rs => exact ⟨r.event, rfl⟩
        rw [List.head?_append, hhead] at he
        obtain rfl := Option.some.inj he
        exact (h.wallet id).opened e0 hhead
    · intro i tok capacity tag hm
      rcases List.mem_append.mp hm with hm | hm
      · exact ((h.wallet id).minted i tok capacity tag hm).grow hle
      · cases (show WalletAppend w ws id events from hw) with
        | opened => simp at hm
        | minted hne hws =>
          obtain ⟨spec, hspec, heq⟩ := List.mem_map.mp hm
          simp only [WalletEvent.tokenMintedForWallet.injEq] at heq
          obtain ⟨-, rfl, rfl, -⟩ := heq
          exact minted_of_landed hst (hws spec hspec)

theorem token_landed (id : Id) : TokenOk { w with store := st } id := by
  have hle := le_landed hst
  rcases landed_cases hst hlegal .token id with hsame | ⟨events, hw, hland⟩
  · exact (h.token id).grow hle hsame
  · have hes : eventsOf (World.token { w with store := st } id) =
        eventsOf (w.token id) ++ events := by
      change eventsOf (st .token id) = _
      rw [hland, eventsOf_append, eventsOf_rowsFrom]
      rfl
    constructor <;> rw [hes]
    · intro e he
      cases (show TokenAppend w id events from hw) with
      | minted hnil hwallet hacc =>
        rw [hnil] at he
        cases he
        exact ⟨⟨_, _, rfl⟩, hacc⟩
      | balance hne =>
        obtain ⟨e0, hhead⟩ : ∃ e0, (eventsOf (w.token id)).head? = some e0 := by
          cases hrows : w.token id with
          | nil => exact absurd hrows hne
          | cons r rs => exact ⟨r.event, rfl⟩
        rw [List.head?_append, hhead] at he
        obtain rfl := Option.some.inj he
        exact (h.token id).opened e0 hhead
    · intro i wid capacity hm
      rcases List.mem_append.mp hm with hm | hm
      · exact (h.token id).wallet i wid capacity hm
      · cases (show TokenAppend w id events from hw) with
        | minted hnil hwallet hacc =>
          simp only [List.mem_singleton, TokenEvent.tokenMinted.injEq] at hm
          obtain ⟨-, rfl, -⟩ := hm
          exact hwallet
        | balance hne => simp at hm

/-- **A legal append keeps the invariant.** -/
theorem Inv.landed : Inv R { w with store := st } := by
  have hle := le_landed hst
  have hL := lifecycle_landed hst hlegal h
  refine ⟨fun id => ?_, fun tid => ?_, h.ledger.grow hle h.ledger.sound rfl,
    wallet_landed hst hlegal h, token_landed hst hlegal h, fun id => ?_⟩
  · rcases landed_cases hst hlegal .transfer id with hsame | ⟨events, hw, hland⟩
    · exact (h.transfer id).grow hle hL hsame
    · exact (h.transfer id).append hw hle hL (held_of_landed hst) hland
  · rcases landed_cases hst hlegal .transaction tid with hsame | ⟨events, hw, hland⟩
    · exact (h.transaction tid).grow hle hL (congrArg eventsOf hsame)
    · exact (h.transaction tid).append hw hle hL hland
  · rcases landed_cases hst hlegal .holder id with hsame | ⟨events, hw, hland⟩
    · exact (h.holder id).grow hle hsame
    · exact (h.holder id).append hw hle (fun _ hm => owned_of_landed hst hm) hland

end Append

/-- **A legal operation keeps the invariant.** -/
theorem Inv.step {o : Op} {r : Resp o} (h : Inv R w) (hlegal : Legal R o w)
    (hx : Atomic.exec w o r w') : Inv R w' := by
  have hle : w ≤ w' := Atomic.le_of_exec hx
  cases o with
  | wait ms =>
    obtain ⟨d, -, rfl⟩ := hx
    exact h.grow hle rfl (h.ledger.grow hle h.ledger.sound rfl)
  | rangeMap keys =>
    obtain ⟨-, rfl⟩ := hx
    exact h
  | load a id | now | balances ids | call c =>
    obtain ⟨-, rfl⟩ := Prod.mk.inj hx
    exact h
  | newV7 tid =>
    obtain ⟨-, rfl⟩ := Prod.mk.inj hx
    exact h.grow hle rfl (h.ledger.grow hle h.ledger.sound rfl)
  | createAccounts as =>
    obtain ⟨-, rfl⟩ := Prod.mk.inj hx
    obtain ⟨m, hm⟩ := w.ledger.createAccounts_accounts as
    refine h.grow hle rfl (h.ledger.grow hle ?_ ?_)
    · change Ledger.Sound (w.ledger.createAccounts as).2
      rw [hm]
      exact h.ledger.sound.accounts m
    · change (w.ledger.createAccounts as).2.transfers = _
      rw [hm]
  | createTransfers batch =>
    obtain ⟨-, rfl⟩ := Prod.mk.inj hx
    refine h.grow hle rfl ?_
    have hreq : LegalRequest w batch := hlegal
    have := h.ledger.request h.transfer hreq
    rwa [show (w.ledger.createTransferRun batch).2 = (w.ledger.createTransfers batch).2 by
      rw [hreq.createTransfers h.transfer]] at this
  | appendAtomic ws =>
    have hw : w' = (w.append ws).2 := congrArg Prod.snd hx
    subst hw
    unfold World.append
    split
    · exact h
    · rename_i st hst
      exact h.landed hst (hlegal st hst)

/-! ### What a step did -/

/-- The step landed `ws`, and with them `events` on the stream of `id`. -/
structure Appended (R : Prop) (w w' : World) (o : Op) (a : Aggregate) (id : Id)
    (ws : List StreamWrite) (events : List a.Event) : Prop where
  op : o = .appendAtomic ws
  lands : ∃ st, appendAtomic w.clock w.store ws = .ok st ∧ w' = { w with store := st }
  mem : StreamWrite.mk a id (w.store a id).length events ∈ ws
  nonempty : events ≠ []
  legal : LegalWrite R w ws ⟨a, id, (w.store a id).length, events⟩
  stream : w'.store a id = w.store a id ++ rowsFrom w.clock (w.store a id).length events

theorem Appended.events {a : Aggregate} {ws : List StreamWrite} {events : List a.Event}
    (h : Appended R w w' o a id ws events) :
    eventsOf (w'.store a id) = eventsOf (w.store a id) ++ events := by
  rw [h.stream, eventsOf_append, eventsOf_rowsFrom]

/-- Only an append that lands moves a stream. -/
theorem exec_store {r : Resp o} (hx : w.Exec o r w') :
    w'.store = w.store ∨ ∃ ws st, o = .appendAtomic ws ∧
      appendAtomic w.clock w.store ws = .ok st ∧ w' = { w with store := st } := by
  cases o with
  | wait ms =>
    obtain ⟨d, -, rfl⟩ := hx
    exact Or.inl rfl
  | rangeMap keys =>
    obtain ⟨-, rfl⟩ := hx
    exact Or.inl rfl
  | appendAtomic ws =>
    have hw : w' = (w.append ws).2 := congrArg Prod.snd hx
    unfold World.append at hw
    split at hw
    · exact Or.inl (by rw [hw])
    · rename_i st hst
      exact Or.inr ⟨ws, st, rfl, hst, hw⟩
  | _ =>
    obtain ⟨-, rfl⟩ := Prod.mk.inj hx
    exact Or.inl rfl

/-- **What a step does to one stream**: nothing, or it lands legal events there. -/
theorem exec_stream {r : Resp o} (hlegal : Legal R o w) (hx : w.Exec o r w') (a : Aggregate)
    (id : Id) : w'.store a id = w.store a id ∨ ∃ ws events, Appended R w w' o a id ws events := by
  rcases exec_store hx with hsame | ⟨ws, st, rfl, hst, rfl⟩
  · exact Or.inl (by rw [hsame])
  · rcases appendAtomic_stream hst a id with hsame | ⟨events, hmem, hland⟩
    · exact Or.inl hsame
    · by_cases hne : events = []
      · subst hne
        exact Or.inl (by simpa using hland)
      · exact Or.inr ⟨ws, events, rfl, ⟨st, hst, rfl⟩, hmem, hne, hlegal st hst _ hmem hne, hland⟩

end MoneyFlow
