import MoneyFlow.Holder
import MoneyFlow.Transfer.Invariant

/-!
# MoneyFlow.Holder.Protocol

What may be written to a Holder's stream, and what holds of one.

A Wallet is recorded against a Holder only by an append that finds the Holder's
stream as its writer read it, and that opens the Wallet for this Holder or was
built by a writer who found it opened for it. An opened Wallet keeps its Holder,
so the reading outside the append is as good as one inside.
-/

namespace MoneyFlow

namespace World

/-- The Wallet was opened for the Holder. -/
def OwnedBy (w : World) (walletID holderID : Id) : Prop :=
  ∃ name allows, (eventsOf (w.wallet walletID)).head? =
    some (.walletOpened walletID holderID name allows)

/-- The Wallets recorded against the Holder. -/
def recordedWallets (w : World) (holderID : Id) : List Id :=
  Holder.recordedWallets (eventsOf (w.holder holderID))

end World

namespace Holder

variable {w w' : World} {id : Id} {ws : List StreamWrite}

/-- Each Wallet is recorded once, and belongs to the Holder or is opened for it by
one of the writes `ws`. -/
structure Adds (w : World) (ws : List StreamWrite) (id : Id) (specs : List WalletSpec) : Prop where
  distinct : (specs.map WalletSpec.walletID).Nodup
  unrecorded : ∀ spec ∈ specs, spec.walletID ∉ w.recordedWallets id
  owned : ∀ spec ∈ specs, w.OwnedBy spec.walletID id ∨ openingWrite id spec ∈ ws

/-- An append to a Holder's stream, one of the writes `ws` that land together. -/
inductive HolderAppend (w : World) (ws : List StreamWrite) (id : Id) : List HolderEvent → Prop
  | established {memos : List (String × Memo)} {specs : List WalletSpec} (hes : w.holder id = [])
      (hadds : Adds w ws id specs) :
      HolderAppend w ws id (.holderEstablished id memos :: specs.map (addedEvent id))
  | added {specs : List WalletSpec} (hne : w.holder id ≠ []) (hadds : Adds w ws id specs) :
      HolderAppend w ws id (specs.map (addedEvent id))

/-- What holds of every Holder's stream. -/
structure HolderOk (w : World) (id : Id) : Prop where
  opened : ∀ e, (eventsOf (w.holder id)).head? = some e → ∃ memos, e = .holderEstablished id memos
  added : ∀ i walletID name allows,
    .holderAddedWallet i walletID name allows ∈ eventsOf (w.holder id) →
      i = id ∧ w.OwnedBy walletID id
  once : (w.recordedWallets id).Nodup

theorem holderOk_init (id : Id) : HolderOk .init id where
  opened := nofun
  added := nofun
  once := List.nodup_nil

end Holder

theorem World.OwnedBy.grow {w w' : World} {walletID holderID : Id} (h : w.OwnedBy walletID holderID)
    (hle : w ≤ w') : w'.OwnedBy walletID holderID := by
  obtain ⟨name, allows, hhead⟩ := h
  obtain ⟨t, ht⟩ := World.events_grow hle .wallet walletID
  refine ⟨name, allows, ?_⟩
  unfold World.wallet
  rw [← ht, List.head?_append, show (eventsOf (w.store .wallet walletID)).head? = _ from hhead]
  rfl

namespace Holder

variable {w w' : World} {id : Id} {ws : List StreamWrite}

theorem recordedWallets_append : ∀ es es' : List HolderEvent,
    recordedWallets (es ++ es') = recordedWallets es ++ recordedWallets es'
  | [], _ => rfl
  | .holderEstablished _ _ :: es, es' => recordedWallets_append es es'
  | .holderAddedWallet _ _ _ _ :: es, es' => congrArg (List.cons _) (recordedWallets_append es es')

theorem mem_recordedWallets {es : List HolderEvent} {walletID : Id} :
    walletID ∈ recordedWallets es ↔
      ∃ i name allows, .holderAddedWallet i walletID name allows ∈ es := by
  induction es with
  | nil => simp [recordedWallets]
  | cons e es ih =>
    cases e with
    | holderEstablished i memos => simpa [recordedWallets] using ih
    | holderAddedWallet i wid name allows =>
      simp only [recordedWallets, List.mem_cons, ih, HolderEvent.holderAddedWallet.injEq]
      constructor
      · rintro (rfl | ⟨j, n, a, hm⟩)
        · exact ⟨i, name, allows, Or.inl ⟨rfl, rfl, rfl, rfl⟩⟩
        · exact ⟨j, n, a, Or.inr hm⟩
      · rintro ⟨j, n, a, ⟨-, rfl, -, -⟩ | hm⟩
        · exact Or.inl rfl
        · exact Or.inr ⟨j, n, a, hm⟩

@[simp] theorem recordedWallets_added (id : Id) : ∀ specs : List WalletSpec,
    recordedWallets (specs.map (addedEvent id)) = specs.map WalletSpec.walletID
  | [] => rfl
  | _ :: specs => congrArg (List.cons _) (recordedWallets_added id specs)

theorem HolderOk.grow (h : HolderOk w id) (hle : w ≤ w') (hs : w'.holder id = w.holder id) :
    HolderOk w' id := by
  constructor
  · rw [hs]
    exact h.opened
  · rw [hs]
    exact fun i wid name allows hm => (h.added i wid name allows hm).imp_right fun ho => ho.grow hle
  · unfold World.recordedWallets
    rw [hs]
    exact h.once

/-- A legal append keeps what holds of a Holder's stream, once the Wallets it opens
are open. -/
theorem HolderOk.append {events : List HolderEvent} {now seq : Nat} (h : HolderOk w id)
    (happ : HolderAppend w ws id events) (hle : w ≤ w')
    (hopen : ∀ spec, openingWrite id spec ∈ ws → w'.OwnedBy spec.walletID id)
    (hland : w'.holder id = w.holder id ++ rowsFrom now seq events) : HolderOk w' id := by
  have hes : eventsOf (w'.holder id) = eventsOf (w.holder id) ++ events := by
    rw [hland, Transfer.eventsOf_append, Transfer.eventsOf_rowsFrom]
  have howned {specs : List WalletSpec} (hadds : Adds w ws id specs) {i wid : Id} {name : String}
      {allows : Allows} (hm : .holderAddedWallet i wid name allows ∈ specs.map (addedEvent id)) :
      i = id ∧ w'.OwnedBy wid id := by
    obtain ⟨spec, hspec, heq⟩ := List.mem_map.mp hm
    simp only [addedEvent, HolderEvent.holderAddedWallet.injEq] at heq
    obtain ⟨rfl, rfl, -, -⟩ := heq
    exact ⟨rfl, (hadds.owned spec hspec).elim (fun ho => ho.grow hle) (hopen spec)⟩
  have honce {specs : List WalletSpec} (hadds : Adds w ws id specs) :
      (w.recordedWallets id ++ specs.map WalletSpec.walletID).Nodup := by
    refine List.nodup_append.mpr ⟨h.once, hadds.distinct, ?_⟩
    rintro wid hold _ hnew rfl
    obtain ⟨spec, hspec, rfl⟩ := List.mem_map.mp hnew
    exact hadds.unrecorded spec hspec hold
  cases happ with
  | @established memos specs hnil hadds =>
    rw [hnil] at hes
    refine ⟨fun e he => ?_, fun i wid name allows hm => ?_, ?_⟩
    · rw [hes] at he
      exact ⟨memos, (Option.some.inj he).symm⟩
    · rw [hes] at hm
      exact howned hadds ((List.mem_cons.mp hm).resolve_left (by simp))
    · have hspecs := honce hadds
      unfold World.recordedWallets at hspecs ⊢
      rw [hes]
      simpa [hnil, recordedWallets] using hspecs
  | @added specs hne hadds =>
    refine ⟨fun e he => ?_, fun i wid name allows hm => ?_, ?_⟩
    · rw [hes, List.head?_append_of_ne_nil _ (by rwa [ne_eq, Transfer.eventsOf_eq_nil])] at he
      exact h.opened e he
    · rw [hes] at hm
      rcases List.mem_append.mp hm with hm | hm
      · exact (h.added i wid name allows hm).imp_right fun ho => ho.grow hle
      · exact howned hadds hm
    · have hspecs := honce hadds
      unfold World.recordedWallets at hspecs ⊢
      rw [hes, recordedWallets_append, recordedWallets_added]
      exact hspecs

end Holder

end MoneyFlow
