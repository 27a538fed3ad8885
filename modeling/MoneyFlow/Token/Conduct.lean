import MoneyFlow.Conduct

/-!
# MoneyFlow.Token.Conduct

The Wallet and Token services keep the protocol, and what they hand to the
Transfer service may be written: `MintPlan` for the writes of a mint, and
`Records SeenMinted` for those that publish a balance.
-/

namespace MoneyFlow

open Concurrent Service

variable {ws : List StreamWrite} {rows : List (Row WalletEvent)} {wid tag : Id} {x : StreamWrite}

variable {R : Prop} {A : Op → World → Prop} {w w' : World}

/-! ### Wallets -/

namespace Wallet

theorem openedOf_some {id : Id} {o : OpenedWallet} (h : openedOf id rows = .ok (some o)) :
    rows ≠ [] := by
  rintro rfl
  simp [openedOf] at h

theorem validateWallet_ok {allows : Allows} (h : validateWallet wid allows = .ok ()) :
    wid.isUUID = true ∧ allows ≠ .unspecified := by
  unfold validateWallet at h
  split at h
  · simp at h
  · rename_i hid
    split at h
    · simp at h
    · rename_i ha
      exact ⟨validateId_ok hid, ha⟩

theorem mem_mintedTokens {tok : Id} (h : (tok, tag) ∈ mintedTokens rows) :
    ∃ i capacity, .tokenMintedForWallet i tok capacity tag ∈ eventsOf rows := by
  induction rows with
  | nil => simp [mintedTokens] at h
  | cons row rows ih =>
    obtain ⟨seq, e, t⟩ := row
    cases e with
    | walletOpened i hid n a =>
      obtain ⟨j, capacity, hm⟩ := ih h
      exact ⟨j, capacity, List.mem_cons_of_mem _ hm⟩
    | tokenMintedForWallet i tok' capacity tag' =>
      rcases List.mem_cons.mp h with heq | h
      · cases heq
        exact ⟨i, capacity, List.mem_cons_self⟩
      · obtain ⟨j, capacity', hm⟩ := ih h
        exact ⟨j, capacity', List.mem_cons_of_mem _ hm⟩

theorem mem_mintedTokens_of_event {i tok : Id} {capacity : Money}
    (h : .tokenMintedForWallet i tok capacity tag ∈ eventsOf rows) :
    (tok, tag) ∈ mintedTokens rows := by
  induction rows with
  | nil => cases h
  | cons row rows ih =>
    obtain ⟨seq, e, t⟩ := row
    cases e with
    | walletOpened => exact ih ((List.mem_cons.mp h).resolve_left (by simp))
    | tokenMintedForWallet =>
      rcases List.mem_cons.mp h with heq | h
      · obtain ⟨-, rfl, -, rfl⟩ := WalletEvent.tokenMintedForWallet.inj heq
        exact List.mem_cons_self
      · exact List.mem_cons_of_mem _ (ih h)

theorem mintedTokens_append : ∀ rows rows' : List (Row WalletEvent),
    mintedTokens (rows ++ rows') = mintedTokens rows ++ mintedTokens rows'
  | [], _ => rfl
  | ⟨_, .walletOpened _ _ _ _, _⟩ :: rows, rows' => mintedTokens_append rows rows'
  | ⟨_, .tokenMintedForWallet _ _ _ _, _⟩ :: rows, rows' =>
    congrArg (List.cons _) (mintedTokens_append rows rows')

section

variable (hA : Assumes R A)
include hA

/-- Every Token visible in a Wallet is one of its own. -/
theorem tokensOfVisibleTo_conducts {calling : Id} {isOpen : Id → Service Bool}
    (hopen : ∀ tag w, Conducts R A (isOpen tag) (fun _ _ => True) w) :
    Conducts R A (tokensOfVisibleTo wid calling isOpen)
      (fun toks w' => ∀ tok ∈ toks, w'.MintedInto tok wid) w := by
  refine Conducts.load hA fun w1 _ hinv => ?_
  refine (visibleTo_returns hopen _ w1).mono fun toks w2 hle hsub tok htok => ?_
  obtain ⟨⟨tok, tag⟩, hp, rfl⟩ := List.mem_map.mp (hsub.subset htok)
  obtain ⟨i, capacity, hm⟩ := mem_mintedTokens hp
  exact ((hinv.wallet wid).minted i tok capacity tag hm).grow hle

theorem openWallet_conducts (req : OpenRequest) :
    Conducts R A (openWallet req) (fun _ _ => True) w := by
  refine Conducts.check_bind fun _ hvalid => ?_
  obtain ⟨hid, hallows⟩ : req.id.isUUID = true ∧ req.allows ≠ .unspecified := by
    unfold validateOpen at hvalid
    split at hvalid
    · simp at hvalid
    · rename_i hw
      exact validateWallet_ok hw
  refine (opened_obeys contract_reads req.id _).seq fun existing w1 hle _ => ?_
  cases existing with
  | some existing => exact Obeys.pure
  | none =>
    refine Conducts.append_new hA (by simp) (fun w2 _ _ hnil => ⟨?_, fun _ _ _ => ?_⟩) ?_
    · exact WalletAppend.opened hnil hid hallows
    · exact Obeys.pure
    · intro e w2 _
      cases e with
      | concurrencyConflict =>
        refine (opened_obeys contract_reads req.id _).seq fun existing w3 _ _ => ?_
        cases existing with
        | some existing => exact Obeys.pure
        | none => exact Ensures.throw
      | _ => exact Ensures.throw

end

end Wallet

/-! ### Minting -/

namespace Token

/-- The write that opens a Token's stream. -/
def mintWrite (tok wid : Id) (capacity : Money) : StreamWrite :=
  ⟨.token, tok, 0, [TokenEvent.tokenMinted tok wid capacity]⟩

/-- Writes a mint may land, whatever lands with them. -/
inductive MintWrite (w : World) (ws : List StreamWrite) (x : StreamWrite) : Prop
  | token {tok wid : Id} {capacity : Money} (hx : x = mintWrite tok wid capacity)
      (hwid : wid.isUUID = true) (hacc : (w.ledger.accounts tok).isSome = true)
  | wallet {wid : Id} {seq : Nat} {specs : List MintSpec} {tag : Id}
      (hx : x = ⟨.wallet, wid, seq, specs.map fun spec =>
        WalletEvent.tokenMintedForWallet wid spec.tokenID spec.capacity tag⟩)
      (hne : w.wallet wid ≠ [])
      (hws : ∀ spec ∈ specs, mintWrite spec.tokenID wid spec.capacity ∈ ws)

/-- A list of such writes. -/
def MintPlan (w : World) (ws : List StreamWrite) : Prop := ∀ x ∈ ws, MintWrite w ws x

theorem MintWrite.mono {ws' : List StreamWrite} (h : MintWrite w ws x) (hle : w ≤ w')
    (hsub : ws ⊆ ws') : MintWrite w' ws' x := by
  cases h with
  | token hx hwid hacc => exact .token hx hwid (account_grow hle.ledger hacc)
  | wallet hx hne hws =>
    refine .wallet hx (fun hnil => hne ?_) fun spec hs => hsub (hws spec hs)
    exact List.prefix_nil.mp (hnil ▸ hle.stream .wallet _)

theorem MintPlan.grow (h : MintPlan w ws) (hle : w ≤ w') :
    MintPlan w' ws := fun x hx => (h x hx).mono hle fun _ hy => hy

theorem MintPlan.append {ws' : List StreamWrite} (h : MintPlan w ws) (h' : MintPlan w ws') :
    MintPlan w (ws ++ ws') := by
  intro x hx
  rcases List.mem_append.mp hx with hx | hx
  · exact (h x hx).mono le_rfl (List.subset_append_left _ _)
  · exact (h' x hx).mono le_rfl (List.subset_append_right _ _)

/-- A mint's write may land as part of any append. -/
theorem MintPlan.legal {all : List StreamWrite} {st : Store} (h : MintPlan w ws) (hsub : ws ⊆ all)
    (hst : appendAtomic w.clock w.store all = .ok st) (hx : x ∈ ws) : LegalWrite R w all x := by
  cases h x hx with
  | @token tok wid capacity heq hwid hacc =>
    subst heq
    obtain ⟨hlen, -⟩ := appendAtomic_landed hst (hsub hx) (by simp [mintWrite])
    exact TokenAppend.minted (List.length_eq_zero_iff.mp hlen) hwid hacc
  | wallet heq hne hws =>
    subst heq
    exact WalletAppend.minted hne fun spec hs => hsub (hws spec hs)

theorem mintAccounts_mem {flags : AccountFlags} : ∀ {specs : List MintSpec} {spec : MintSpec},
    spec ∈ specs → ∃ a ∈ mintAccounts flags specs, a.id = spec.tokenID
  | s :: specs, spec, h => by
    rcases List.mem_cons.mp h with rfl | h
    · exact ⟨_, List.mem_cons_self, rfl⟩
    · obtain ⟨a, ha, hid⟩ := mintAccounts_mem h
      exact ⟨a, List.mem_cons_of_mem _ ha, hid⟩

theorem mintAccounts_length (flags : AccountFlags) : ∀ specs : List MintSpec,
    (mintAccounts flags specs).length = specs.length
  | [] => rfl
  | _ :: specs => by simp [mintAccounts, mintAccounts_length flags specs]

/-- A mint that was not rejected had every account accepted. -/
theorem mintRejection_none : ∀ {specs : List MintSpec} {results : List AccountResultCode},
    results.length = specs.length → mintRejection specs results = none →
      results.all Ledger.accountAccepted = true
  | [], [], _, _ => rfl
  | spec :: specs, r :: rs, hlen, h => by
    unfold mintRejection at h
    split at h
    · rename_i hr
      have ih := mintRejection_none (by simpa using hlen) h
      rcases hr with rfl | rfl <;> simpa [Ledger.accountAccepted] using ih
    · simp at h

/-- The writes of a mint may land, and open every Token's stream. -/
theorem mintWrites_conducts {specs : List MintSpec} (hrows : rows <+: w.wallet wid)
    (hwid : rows ≠ [] → wid.isUUID = true) : Conducts R A (mintWrites wid rows specs tag)
      (fun r w' => ∀ ws, r = .ok ws → MintPlan w' ws ∧
        ∀ spec ∈ specs, mintWrite spec.tokenID wid spec.capacity ∈ ws) w := by
  unfold mintWrites
  split
  · exact Ensures.throw
  · exact Ensures.pure fun _ _ ws h => by simp at h
  · rename_i wallet hopened
    have hne : rows ≠ [] := Wallet.openedOf_some hopened
    split
    · exact Ensures.throw
    · rename_i flags hflags
      refine Conducts.createAccounts fun w1 hle => ?_
      split
      · exact Ensures.throw
      · rename_i results hresults
        split
        · exact Ensures.pure fun _ _ ws h => by simp at h
        · rename_i hnone
          refine Ensures.pure fun w2 hle2 ws hws => ?_
          cases hws
          have hmem : ∀ spec ∈ specs, mintWrite spec.tokenID wid spec.capacity ∈
              mintStreamWrites wid rows.length specs tag := fun spec hs =>
            List.mem_append_left _ (List.mem_map.mpr ⟨spec, hs, rfl⟩)
          refine ⟨fun x hx => ?_, hmem⟩
          rcases List.mem_append.mp hx with hx | hx
          · obtain ⟨spec, hs, rfl⟩ := List.mem_map.mp hx
            refine .token rfl (hwid hne) (account_grow hle2.ledger ?_)
            have hlen := (Ledger.createAccounts_length hresults).trans
              (mintAccounts_length flags specs)
            obtain ⟨a, ha, hid⟩ := mintAccounts_mem hs
            have := Ledger.createAccounts_exist hresults (mintRejection_none hlen hnone) a ha
            rwa [hid] at this
          · obtain rfl := List.mem_singleton.mp hx
            refine .wallet rfl (fun hnil => hne ?_) hmem
            have hp : rows <+: w2.wallet wid :=
              (hrows.trans (hle.stream .wallet wid)).trans (hle2.stream .wallet wid)
            exact List.prefix_nil.mp (hnil ▸ hp)

section

variable (hA : Assumes R A)
include hA

theorem mintAttempts_conducts (req : MintRequest) (capacity : Money) :
    ∀ (attempts : Nat) {w : World},
      Conducts R A (mintAttempts req capacity attempts) (fun _ _ => True) w
  | 0, _ => Ensures.throw
  | attempts + 1, w => by
    refine Conducts.load hA fun w1 _ hinv => ?_
    refine (mintWrites_conducts List.prefix_rfl (hinv.wallet req.walletID).isUUID).seq ?_
    intro r w2 _ hplan
    cases r with
    | error reason => exact Obeys.pure
    | ok ws =>
      obtain ⟨hplan, -⟩ := hplan ws rfl
      refine Conducts.appendWrites hA (fun w3 st hle _ _ hst => ⟨fun x hx _ => ?_, ?_⟩) ?_
      · exact (hplan.grow hle).legal (fun _ hy => hy) hst hx
      · exact Obeys.pure
      · intro e w3 _
        cases e with
        | concurrencyConflict =>
          refine (minted_obeys contract_reads req.id _).seq fun existing w4 _ _ => ?_
          cases existing with
          | some existing => exact Obeys.pure
          | none => exact mintAttempts_conducts req capacity attempts
        | _ => exact Ensures.throw

theorem mint_conducts (req : MintRequest) : Conducts R A (mint req) (fun _ _ => True) w := by
  refine Conducts.check_bind fun _ _ => Conducts.check_bind fun _ _ =>
    Conducts.check_bind fun capacity _ => ?_
  refine (minted_obeys contract_reads req.id _).seq fun existing w1 _ _ => ?_
  cases existing with
  | some existing => exact Obeys.pure
  | none => exact mintAttempts_conducts hA req capacity 5

end

/-! ### Balances -/

/-- The Token is minted, whatever was read of it. -/
def SeenMinted (w : World) (_ : Id → Option Ledger.Balance) (tok : Id) (_ : TokenStream) : Prop :=
  w.token tok ≠ []

theorem token_ne_nil {tok : Id} (h : w.token tok ≠ []) (hle : w ≤ w') : w'.token tok ≠ [] :=
  fun hnil => h (List.prefix_nil.mp (hnil ▸ hle.stream .token tok))

/-- Recording a balance of a minted Token is legal with whatever else is written. -/
theorem Records.legal {all : List StreamWrite} (h : Records SeenMinted w x) (hle : w ≤ w') :
    LegalWrite R w' all x := by
  obtain ⟨bs, tok, stream, e, hne, he, rfl⟩ := h
  obtain ⟨currency, posted, outgoing, incoming, rfl⟩ := balanceRecorded_ok he
  exact TokenAppend.balance (token_ne_nil hne hle)

theorem contract_observing : Observing (contract R A) (fun w tok _ => w.token tok ≠ [])
    SeenMinted where
  reads := contract_reads
  read h hnil := by
    rw [hnil] at h
    cases h
  readLater h hle := token_ne_nil h hle
  seen _ _ h := h
  seenLater h hle := token_ne_nil h hle
  record h _ hle _ _ _ _ hx _ := by
    obtain rfl := List.mem_singleton.mp hx
    exact h.legal hle

end Token

end MoneyFlow
