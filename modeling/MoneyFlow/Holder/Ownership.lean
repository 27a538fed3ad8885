import MoneyFlow.Runs

/-!
# MoneyFlow.Holder.Ownership

Which Wallets a Holder references, over every run, and what a caller who was told
that a Wallet was added may rely on.

* Whatever races for a Wallet, only the Holder it was opened for ever records it,
  and records it once (`holder_owns`).
* An answered `HolderAddedWallet` or `HolderProvisioned` is another matter. The
  append behind it may have lost, and nothing is read again: the winner may have
  written a different Wallet to the Holder's stream, or opened this Wallet for
  another Holder (`added_to_another`). The answer is real in every run where such
  an append only ever loses to the events it was to write itself
  (`provisioning_is_real`).
-/

namespace MoneyFlow

open Concurrent

variable {w : World}

namespace Holder

variable {c : System}

/-- The event records the Wallet. -/
def addsWallet (walletID : Id) : HolderEvent → Bool
  | .holderAddedWallet _ wid _ _ => wid == walletID
  | .holderEstablished _ _ => false

theorem countP_addsWallet (walletID : Id) (es : List HolderEvent) :
    es.countP (addsWallet walletID) = (recordedWallets es).count walletID := by
  induction es with
  | nil => rfl
  | cons e es ih =>
    cases e with
    | holderEstablished i memos => simpa [recordedWallets, addsWallet] using ih
    | holderAddedWallet i wid name allows =>
      simp [recordedWallets, addsWallet, List.countP_cons, List.count_cons, ih]

theorem established_of_mem {id : Id} (h : HolderOk w id) (hne : eventsOf (w.holder id) ≠ []) :
    ∃ memos, (eventsOf (w.holder id)).head? = some (.holderEstablished id memos) := by
  cases hes : eventsOf (w.holder id) with
  | nil => exact absurd hes hne
  | cons e es =>
    obtain ⟨memos, rfl⟩ := h.opened e (by rw [hes]; rfl)
    exact ⟨memos, rfl⟩

/-- A Wallet opened for one Holder was not opened for another. -/
theorem ownedBy_unique {wid H H' : Id} (h : w.OwnedBy wid H) (h' : w.OwnedBy wid H') : H = H' := by
  obtain ⟨name, allows, hhead⟩ := h
  obtain ⟨name', allows', hhead'⟩ := h'
  have heq := Option.some.inj (hhead.symm.trans hhead')
  exact (WalletEvent.walletOpened.inj heq).2.1

/-- **A Holder references only its own Wallets**, in every state of every run. -/
theorem holder_owns (h : Pool.Reachable anyRun .init c) {sid H W : Id} {name : String}
    {allows : Allows} (hm : .holderAddedWallet H W name allows ∈ eventsOf (c.state.holder sid)) :
    H = sid ∧
    (∃ memos, (eventsOf (c.state.holder sid)).head? = some (.holderEstablished H memos)) ∧
    (eventsOf (c.state.holder sid)).countP (addsWallet W) = 1 ∧
    (∃ n a, (eventsOf (c.state.wallet W)).head? = some (.walletOpened W H n a)) ∧
    ∀ sid' H' n a, .holderAddedWallet H' W n a ∈ eventsOf (c.state.holder sid') → sid' = sid := by
  have hinv : Inv True c.state := reachable_inv refusals_true h
  have hok := hinv.holder sid
  obtain ⟨rfl, howned⟩ := hok.added H W name allows hm
  refine ⟨rfl, established_of_mem hok (List.ne_nil_of_mem hm), ?_, howned, ?_⟩
  · rw [countP_addsWallet]
    exact List.count_eq_one_of_mem hok.once (mem_recordedWallets.mpr ⟨H, name, allows, hm⟩)
  · intro sid' H' n a hm'
    exact ownedBy_unique ((hinv.holder sid').added H' W n a hm').2 howned

/-- A Holder is provisioned with two Wallets, and a third is added. -/
def provisioned {guard : Driver → Op → World → Prop} : List (Move (freeRun guard)) :=
  inTurn 0 [.provision ⟨.uuid 0, [], [⟨.uuid 1, "in", .onramp⟩, ⟨.uuid 2, "main", .none⟩]⟩,
    .addWallet ⟨.uuid 0, .uuid 3, "out", .offramp⟩]

theorem holder_owns_provisioned :
    let w := (played provisioned).state
    .holderAddedWallet (.uuid 0) (.uuid 3) "out" .offramp ∈ eventsOf (w.holder (.uuid 0)) ∧
      ∃ n a, (eventsOf (w.wallet (.uuid 3))).head? =
        some (.walletOpened (.uuid 3) (.uuid 0) n a) := by
  intro w
  have hm : .holderAddedWallet (.uuid 0) (.uuid 3) "out" .offramp ∈
      eventsOf (w.holder (.uuid 0)) := by
    decide +kernel
  exact ⟨hm, (holder_owns (played_reachable _) hm).2.2.2.1⟩

/-! ### What an answered success is worth -/

/-- The Holder is established, and each Wallet is opened for it and recorded
against it. -/
def Provisioned (w : World) (H : Id) (wallets : List Id) : Prop :=
  (∃ memos, (eventsOf (w.holder H)).head? = some (.holderEstablished H memos)) ∧
    ∀ W ∈ wallets, w.OwnedBy W H ∧
      ∃ name allows, .holderAddedWallet H W name allows ∈ eventsOf (w.holder H)

/-- When `AddWallet` or `Provision` appends, the append lands, or the streams it names
already hold, from where it was to land, the events it was to append. -/
def Converging : Driver → Op → World → Prop
  | .addWallet _, .appendAtomic ws, w | .provision _, .appendAtomic ws, w =>
    (appendAtomic w.clock w.store ws).isOk = true ∨ Converges ws w
  | _, _, _ => True

theorem provisioned_of_records {R : Prop} {H : Id} {specs : List WalletSpec} (hinv : Inv R w)
    (hne : specs ≠ []) (h : Records w H specs) :
    Provisioned w H (specs.map WalletSpec.walletID) := by
  have hadded : ∀ spec ∈ specs, ∃ name allows,
      .holderAddedWallet H spec.walletID name allows ∈ eventsOf (w.holder H) := by
    intro spec hspec
    obtain ⟨i, name, allows, hm⟩ := mem_recordedWallets.mp (h spec hspec)
    obtain ⟨rfl, -⟩ := (hinv.holder H).added i _ name allows hm
    exact ⟨name, allows, hm⟩
  refine ⟨?_, fun W hW => ?_⟩
  · obtain ⟨spec, hspec⟩ := List.exists_mem_of_ne_nil specs hne
    obtain ⟨name, allows, hm⟩ := hadded spec hspec
    exact established_of_mem (hinv.holder H) (List.ne_nil_of_mem hm)
  · obtain ⟨spec, hspec, rfl⟩ := List.mem_map.mp hW
    obtain ⟨name, allows, hm⟩ := hadded spec hspec
    exact ⟨((hinv.holder H).added H _ name allows hm).2, name, allows, hm⟩

/-- What the provisioning drivers owe their callers. -/
def Owed : Driver → Reply → World → Prop
  | .addWallet req, .addWallet (.holderAddedWallet _ _ _ _), w =>
    Records w req.id [⟨req.walletID, req.name, req.allows⟩]
  | .provision req, .provision (.holderProvisioned _ _), w =>
    req.wallets ≠ [] ∧ Records w req.id req.wallets
  | _, _, _ => True

theorem convergent_of_converging {d : Driver} (hd : ∀ ws w, Converging d (.appendAtomic ws) w →
      (appendAtomic w.clock w.store ws).isOk = true ∨ Converges ws w) :
    Convergent fun o w => Converging d o w ∧ Inv True w := by
  intro ws w hg
  refine (hd ws w hg.1).imp_left fun hok => ?_
  cases hst : appendAtomic w.clock w.store ws with
  | ok st => exact ⟨st, rfl⟩
  | error e =>
    rw [hst] at hok
    simp [Except.isOk, Except.toBool] at hok

theorem Driver.owes (d : Driver) (fuel : Nat) (w : World) :
    Ensures (driverContract True Converging d) (d.service fuel) (fun r w' => Owed d r w') w := by
  have hA : Assumes True fun o w => Converging d o w ∧ Inv True w := fun _ _ h => h.2
  have hsafe : Ensures (driverContract True Converging d) (d.service fuel) (fun _ _ => True) w :=
    (d.answers refusals_true fuel w).mono fun _ _ _ _ => trivial
  cases d with
  | addWallet req =>
    refine (addWallet_conducts hA).map fun r w' h => ?_
    cases r with
    | holderAddedWallet i wid n a => exact h (convergent_of_converging fun _ _ hg => hg)
    | holderRejectedWallet rejection => trivial
  | provision req =>
    refine (provision_conducts hA).map fun r w' h => ?_
    cases r with
    | holderProvisioned i wids =>
      exact ⟨h.1, h.2 (convergent_of_converging fun _ _ hg => hg)⟩
    | holderProvisionRejected i reason => trivial
  | _ => exact hsafe

/-- **Provisioning success is real**, in every run where an append of `AddWallet` or
`Provision` only ever loses to the events it was to write. -/
theorem provisioning_is_real (h : Pool.Reachable (freeRun Converging) .init c) :
    (∀ req H W name allows, (.addWallet req,
        .ret (.ok (.addWallet (.holderAddedWallet H W name allows)))) ∈ c.threads →
      Provisioned c.state req.id [req.walletID]) ∧
    ∀ req H wallets, (.provision req, .ret (.ok (.provision (.holderProvisioned H wallets)))) ∈
        c.threads →
      Provisioned c.state req.id (req.wallets.map WalletSpec.walletID) := by
  have hinv : Inv True c.state := reachable_inv refusals_true h
  refine ⟨fun req H W name allows hm => ?_, fun req H wallets hm => ?_⟩
  · have howed : Records c.state req.id [⟨req.walletID, req.name, req.allows⟩] :=
      reachable_returned Driver.owes h hm
    exact provisioned_of_records hinv (by simp) howed
  · have howed : req.wallets ≠ [] ∧ Records c.state req.id req.wallets :=
      reachable_returned Driver.owes h hm
    exact provisioned_of_records hinv howed.1 howed.2

instance (ws : List StreamWrite) (w : World) : Decidable (Converges ws w) :=
  inferInstanceAs (Decidable (∀ x ∈ ws, x.events <+: _))

instance : ∀ d o w, Decidable (Converging d o w) := by
  rintro ⟨⟩ ⟨⟩ w <;> delta Converging <;> infer_instance

/-- Two callers provision the same Holder at once, and each is told it was done. -/
def provisionedTwice : List (Move (freeRun Converging)) :=
  [start (.provision ⟨.uuid 0, [], [⟨.uuid 1, "main", .none⟩]⟩) 20, .run 0 2,
    start (.provision ⟨.uuid 0, [], [⟨.uuid 1, "main", .none⟩]⟩) 20, .run 1 1000, .run 0 1000]

theorem provisioning_is_real_twice :
    let c := playedUnder provisionedTwice
    answeredAt c 0 (fun d r => match d, r with
      | .provision req, .provision (.holderProvisioned _ _) => req.id == .uuid 0 &&
        req.wallets.map WalletSpec.walletID == [.uuid 1]
      | _, _ => false) = true ∧ Provisioned c.state (.uuid 0) [.uuid 1] := by
  intro c
  refine ⟨by decide +kernel, ?_⟩
  obtain ⟨d, r, hm, hp⟩ := mem_of_answeredAt (c := c) (i := 0) (p := fun d r => match d, r with
    | .provision req, .provision (.holderProvisioned _ _) => req.id == .uuid 0 &&
      req.wallets.map WalletSpec.walletID == [.uuid 1]
    | _, _ => false) (by decide +kernel)
  split at hp
  · obtain ⟨hid, hwallets⟩ := Bool.and_eq_true_iff.mp hp
    rw [← eq_of_beq hid, ← eq_of_beq hwallets]
    exact (provisioning_is_real (playedUnder_reachable provisionedTwice)).2 _ _ _ hm
  · simp at hp

/-- Holder `uuid 1` asks for Wallet `uuid 2`; Holder `uuid 0` gets it while the
request is on its way. -/
def takenByAnother : List (Move anyRun) :=
  inTurn 0 [.establish ⟨.uuid 0, []⟩, .establish ⟨.uuid 1, []⟩] ++
    [start (.addWallet ⟨.uuid 1, .uuid 2, "main", .none⟩) 20, .run 2 2,
      start (.addWallet ⟨.uuid 0, .uuid 2, "main", .none⟩) 20, .run 3 1000, .run 2 1000]

/-- **A Holder is told it was given a Wallet that belongs to another**, and that it
does not record. -/
theorem added_to_another :
    let c := played takenByAnother
    Pool.Reachable anyRun .init c ∧
    (∃ req, req.id = .uuid 1 ∧ req.walletID = .uuid 2 ∧ ∃ H W name allows,
      (.addWallet req, .ret (.ok (.addWallet (.holderAddedWallet H W name allows)))) ∈ c.threads) ∧
    ¬ Provisioned c.state (.uuid 1) [.uuid 2] ∧ c.state.recordedWallets (.uuid 1) = [] ∧
    c.state.OwnedBy (.uuid 2) (.uuid 0) := by
  intro c
  have howned : c.state.OwnedBy (.uuid 2) (.uuid 0) :=
    ⟨"main", .none, by decide +kernel⟩
  refine ⟨played_reachable _, ?_, fun hp => ?_, by decide +kernel, howned⟩
  · obtain ⟨d, r, hm, hp⟩ := mem_of_answeredAt (c := c) (i := 2) (p := fun d r => match d, r with
      | .addWallet req, .addWallet (.holderAddedWallet _ _ _ _) =>
        req.id == .uuid 1 && req.walletID == .uuid 2
      | _, _ => false) (by decide +kernel)
    split at hp
    · rename_i req H W name allows
      obtain ⟨hid, hwid⟩ := Bool.and_eq_true_iff.mp hp
      exact ⟨req, eq_of_beq hid, eq_of_beq hwid, H, W, name, allows, hm⟩
    · simp at hp
  · have hother := ownedBy_unique howned (hp.2 (.uuid 2) (List.mem_singleton.mpr rfl)).1
    exact absurd hother (by decide)

end Holder

end MoneyFlow
