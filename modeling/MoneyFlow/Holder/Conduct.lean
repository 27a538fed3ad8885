import MoneyFlow.Token.Conduct

/-!
# MoneyFlow.Holder.Conduct

The Holder service keeps the protocol, and when its success is real.

`Establish`, `AddWallet` and `Provision` read the Holder's stream and the Wallets'
and land what is missing in one append. An append that loses is taken to have
converged without another look, so an answered success is worth something only
if what the writer lost to is what it was to write (`Converges`).
-/

namespace MoneyFlow

open Concurrent Service

variable {recorded : List Id} {specs : List WalletSpec} {events : List HolderEvent}

namespace Holder

variable {R : Prop} {A : Op → World → Prop} {w w' : World} {id : Id}

/-- From the positions the writes were to land at, the streams hold the very events
they were to append. -/
def Converges (ws : List StreamWrite) (w : World) : Prop :=
  ∀ x ∈ ws, x.events <+: (eventsOf (w.store x.aggregateType x.aggregateID)).drop x.expectedSeq

/-- Whenever an append is made, it lands, or what it lost to wrote the same. -/
def Convergent (A : Op → World → Prop) : Prop :=
  ∀ ws w, A (.appendAtomic ws) w →
    (∃ st, appendAtomic w.clock w.store ws = .ok st) ∨ Converges ws w

/-- Each named Wallet is recorded against the Holder. -/
def Records (w : World) (id : Id) (specs : List WalletSpec) : Prop :=
  ∀ spec ∈ specs, spec.walletID ∈ w.recordedWallets id

theorem recordedWallets_grow {es es' : List HolderEvent} (h : es <+: es') :
    recordedWallets es ⊆ recordedWallets es' := by
  obtain ⟨t, rfl⟩ := h
  rw [recordedWallets_append]
  exact List.subset_append_left _ _

theorem Records.grow (h : Records w id specs) (hle : w ≤ w') : Records w' id specs :=
  fun spec hspec => recordedWallets_grow (World.events_grow hle .holder id) (h spec hspec)

/-- What `walletWrites` computes: the Wallets not yet open are opened, those not yet
recorded are recorded. -/
structure Delta (w : World) (id : Id) (recorded : List Id) (specs : List WalletSpec)
    (writes : List StreamWrite) (events : List HolderEvent) : Prop where
  opens : ∀ x ∈ writes, ∃ spec ∈ specs, x = openingWrite id spec
  owned : ∀ spec ∈ specs, w.OwnedBy spec.walletID id ∨ openingWrite id spec ∈ writes
  adds : events = (specs.filter fun spec => !recorded.contains spec.walletID).map (addedEvent id)

theorem Delta.grow {writes : List StreamWrite} (h : Delta w id recorded specs writes events)
    (hle : w ≤ w') : Delta w' id recorded specs writes events where
  opens := h.opens
  owned spec hspec := (h.owned spec hspec).imp_left fun ho => ho.grow hle
  adds := h.adds

theorem Delta.nil : Delta w id recorded [] [] [] where
  opens _ hx := absurd hx List.not_mem_nil
  owned _ hspec := absurd hspec List.not_mem_nil
  adds := rfl

theorem Delta.cons {spec : WalletSpec} {opening writes : List StreamWrite}
    (h : Delta w id recorded specs writes events)
    (hopening : ∀ x ∈ opening, x = openingWrite id spec)
    (howned : w.OwnedBy spec.walletID id ∨ openingWrite id spec ∈ opening) :
    Delta w id recorded (spec :: specs) (opening ++ writes)
      ((if recorded.contains spec.walletID then [] else [addedEvent id spec]) ++ events) where
  opens x hx := by
    rcases List.mem_append.mp hx with hx | hx
    · exact ⟨spec, List.mem_cons_self, hopening x hx⟩
    · obtain ⟨s, hs, rfl⟩ := h.opens x hx
      exact ⟨s, List.mem_cons_of_mem _ hs, rfl⟩
  owned s hs := by
    rcases List.mem_cons.mp hs with rfl | hs
    · exact howned.imp_right (List.mem_append_left _)
    · exact (h.owned s hs).imp_right (List.mem_append_right _)
  adds := by
    rw [h.adds, List.filter_cons]
    cases recorded.contains spec.walletID <;> rfl

section

variable (hA : Assumes R A)
include hA

/-- A Wallet found open belongs to the Holder it was found to have. -/
theorem opened_owned {wid : Id} : Conducts R A (Wallet.opened wid)
    (fun r w' => ∀ o, r = some o → w'.OwnedBy wid o.holderID) w := by
  refine Conducts.load hA fun w1 _ hinv => Conducts.check fun r hr w2 hle o ho => ?_
  subst ho
  refine World.OwnedBy.grow ?_ hle
  have hok := (hinv.wallet wid).opened
  unfold World.wallet at hok
  revert hr hok
  cases hrows : w1.store .wallet wid with
  | nil => exact fun hr => by simp [Wallet.openedOf] at hr
  | cons row rows =>
    obtain ⟨seq, e, t⟩ := row
    intro hr hok
    obtain ⟨-, holderID, name, allows, he, -⟩ := hok e rfl
    subst he
    obtain rfl := Option.some.inj (Except.ok.inj hr)
    exact ⟨name, allows, by unfold World.wallet; rw [hrows]; rfl⟩

theorem walletDelta_conducts : ∀ {specs : List WalletSpec} {w : World},
    Conducts R A (walletDelta id recorded specs)
      (fun r w' => ∀ writes events, r = .ok (writes, events) →
        Delta w' id recorded specs writes events) w
  | [], w => by
    refine Ensures.pure fun w1 _ writes events heq => ?_
    cases heq
    exact .nil
  | spec :: specs, w => by
    refine (opened_owned hA).seq fun o w1 _ howned => ?_
    dsimp only
    split
    · exact Ensures.pure fun _ _ _ _ heq => by simp at heq
    · rename_i hmine
      refine (walletDelta_conducts).seq fun r w2 hle hrest => ?_
      cases r with
      | error rejection => exact Ensures.pure fun _ _ _ _ heq => by simp at heq
      | ok rest =>
        refine Ensures.pure fun w3 hle3 writes events heq => ?_
        cases heq
        refine ((hrest _ _ rfl).grow hle3).cons ?_ ?_
        · cases o with
          | none => exact fun x hx => List.mem_singleton.mp hx
          | some o => exact fun x hx => absurd hx List.not_mem_nil
        · cases o with
          | none => exact Or.inr (List.mem_singleton.mpr rfl)
          | some o =>
            have hid : o.holderID = id := by simpa using hmine
            exact Or.inl ((hid ▸ howned o rfl).grow (hle.trans hle3))

end

/-- What a writer read of the Holder, and what it has to establish first. -/
inductive Origin (id : Id) (rows : List (Row HolderEvent)) : List HolderEvent → Prop
  | fresh {memos : List (String × Memo)} (h : rows = []) :
      Origin id rows [.holderEstablished id memos]
  | established (h : rows ≠ []) : Origin id rows []

theorem mem_holderWrites {seq : Nat} {x : StreamWrite} (h : x ∈ holderWrites id seq events) :
    x = ⟨.holder, id, seq, events⟩ ∧ events ≠ [] := by
  unfold holderWrites at h
  split at h
  · cases h
  · rename_i hne
    exact ⟨List.mem_singleton.mp h, by simpa using hne⟩

section

variable {rows : List (Row HolderEvent)} {origin events : List HolderEvent}
  {specs : List WalletSpec} {writes : List StreamWrite}

/-- The Wallets an append records are those not recorded yet. -/
theorem Delta.appends (h : Delta w id (recordedWallets (eventsOf rows)) specs writes events)
    (hrows : w.holder id = rows) (horigin : Origin id rows origin)
    (hdistinct : (specs.map WalletSpec.walletID).Nodup) {ws : List StreamWrite}
    (hws : ∀ x ∈ writes, x ∈ ws) : HolderAppend w ws id (origin ++ events) := by
  have hadds : Adds w ws id
      (specs.filter fun spec => !(recordedWallets (eventsOf rows)).contains spec.walletID) := by
    refine ⟨?_, fun spec hspec => ?_, fun spec hspec => ?_⟩
    · exact hdistinct.sublist (List.filter_sublist.map _)
    · have hno := (List.mem_filter.mp hspec).2
      unfold World.recordedWallets
      rw [hrows]
      simpa using hno
    · exact (h.owned spec (List.mem_filter.mp hspec).1).imp_right (hws _)
  rw [h.adds]
  cases horigin with
  | fresh hnil => exact .established (hrows.trans hnil) hadds
  | established hne => exact .added (hrows ▸ hne) hadds

/-- Once its events are on the stream, or it had none, everything is recorded. -/
theorem Delta.records {old : World}
    (h : Delta old id (recordedWallets (eventsOf rows)) specs writes events)
    (hrows : eventsOf rows <+: eventsOf (w.holder id)) (hevents : events ⊆ eventsOf (w.holder id)) :
    Records w id specs := by
  intro spec hspec
  by_cases hr : spec.walletID ∈ recordedWallets (eventsOf rows)
  · exact recordedWallets_grow hrows hr
  · refine mem_recordedWallets.mpr ⟨id, spec.name, spec.allows, hevents ?_⟩
    rw [h.adds]
    exact List.mem_map.mpr ⟨spec, List.mem_filter.mpr ⟨hspec, by simpa using hr⟩, rfl⟩

variable (hA : Assumes R A)
include hA

/-- **The one append of a provisioning keeps the protocol**; and where appends only
lose to what they were to write, it leaves every Wallet recorded. -/
theorem appendConverging_conducts
    (h : Delta w id (recordedWallets (eventsOf rows)) specs writes events)
    (hrows : rows <+: w.holder id) (horigin : Origin id rows origin)
    (hdistinct : (specs.map WalletSpec.walletID).Nodup)
    (hvalid : ∀ spec ∈ specs, Wallet.validateWallet spec.walletID spec.allows = .ok ()) :
    Conducts R A (appendConverging (writes ++ holderWrites id rows.length (origin ++ events)))
      (fun _ w' => Convergent A → Records w' id specs) w := by
  have hwrite {e : HolderEvent} (he : e ∈ events) :
      ⟨.holder, id, rows.length, origin ++ events⟩ ∈
        writes ++ holderWrites id rows.length (origin ++ events) := by
    refine List.mem_append_right _ ?_
    unfold holderWrites
    rw [if_neg (by simp [List.ne_nil_of_mem he])]
    exact List.mem_singleton.mpr rfl
  refine Conducts.appendWrites_cases hA (fun w1 st hle _ _ hst => ⟨?_, ?_⟩) ?_
  · intro x hx hne
    obtain ⟨hlen, -⟩ := appendAtomic_landed hst hx hne
    rcases List.mem_append.mp hx with hx' | hx'
    · obtain ⟨spec, hspec, rfl⟩ := h.opens x hx'
      obtain ⟨hid, hallows⟩ := Wallet.validateWallet_ok (hvalid spec hspec)
      exact WalletAppend.opened (List.length_eq_zero_iff.mp hlen) hid hallows
    · obtain ⟨rfl, -⟩ := mem_holderWrites hx'
      -- the stream is where it was read, so what was read is all there is
      have heq : w1.holder id = rows :=
        ((hrows.trans (hle.stream .holder id)).eq_of_length hlen.symm).symm
      exact (h.grow hle).appends heq horigin hdistinct fun x hx => List.mem_append_left _ hx
  · refine Ensures.pure fun w2 hle2 _ => Records.grow (h.records ?_ ?_) hle2
    · exact Transfer.eventsOf_grow (hrows.trans ((hle.trans (le_landed hst)).stream .holder id))
    · intro e he
      obtain ⟨-, hland⟩ := appendAtomic_landed hst (hwrite he) (List.append_ne_nil_of_right_ne_nil _
        (List.ne_nil_of_mem he))
      rw [show World.holder { w1 with store := st } id = _ from hland, Transfer.eventsOf_append,
        Transfer.eventsOf_rowsFrom]
      exact List.mem_append_right _ (List.mem_append_right _ he)
  · intro e w1 hle ha he
    cases e with
    | concurrencyConflict =>
      refine Ensures.pure fun w2 hle2 hconv => Records.grow (h.records ?_ fun e hm => ?_) hle2
      · exact Transfer.eventsOf_grow (hrows.trans (hle.stream .holder id))
      · rcases hconv _ w1 ha with ⟨st, hst⟩ | hc
        · exact absurd (he.symm.trans hst) (by simp)
        · exact List.drop_subset _ _ ((hc _ (hwrite hm)).subset (List.mem_append_right _ hm))
    | _ => exact Ensures.throw

end

section

variable {rows : List (Row HolderEvent)} {origin events : List HolderEvent}
  {specs : List WalletSpec} {writes : List StreamWrite}

/-- A writer with nothing left to write finds every Wallet recorded. -/
theorem Delta.done (h : Delta w id (recordedWallets (eventsOf rows)) specs writes events)
    (hrows : rows <+: w.holder id) (origin : List HolderEvent)
    (hnone : (writes ++ holderWrites id rows.length (origin ++ events)).isEmpty = true) :
    Records w id specs := by
  obtain ⟨-, hholder⟩ := List.append_eq_nil_iff.mp (List.isEmpty_iff.mp hnone)
  have hevents : events = [] := by
    unfold holderWrites at hholder
    split at hholder
    · rename_i hempty
      exact (List.append_eq_nil_iff.mp (List.isEmpty_iff.mp hempty)).2
    · simp at hholder
  exact h.records (Transfer.eventsOf_grow hrows) (by simp [hevents])

theorem establishing_origin {req : ProvisionRequest} (h : establishing req rows = .ok origin) :
    Origin req.id rows origin := by
  unfold establishing at h
  split at h
  · cases h
    exact .fresh rfl
  · split at h
    · simp at h
    · cases h
      exact .established (by simp)

/-- The writes of a Provision: those of its Wallets, and one to the Holder. -/
theorem provision_writes {old : World} {seq : Nat} (h : Delta old id recorded specs writes events) :
    (writes ++ holderWrites id seq events).filter (fun x => x.aggregateType ≠ .holder) = writes ∧
      (writes ++ holderWrites id seq events).flatMap holderEvents = events := by
  have hwallets : ∀ x ∈ writes, x.aggregateType ≠ .holder ∧ holderEvents x = [] := by
    intro x hx
    obtain ⟨spec, -, rfl⟩ := h.opens x hx
    exact ⟨by simp [openingWrite], rfl⟩
  have hkeep : writes.filter (fun x => x.aggregateType ≠ .holder) = writes :=
    List.filter_eq_self.mpr fun x hx => by simpa using (hwallets x hx).1
  have hnone : writes.flatMap holderEvents = [] :=
    List.flatMap_eq_nil_iff.mpr fun x hx => (hwallets x hx).2
  rw [List.filter_append, List.flatMap_append, hkeep, hnone]
  unfold holderWrites
  split
  · rename_i hempty
    simp [List.isEmpty_iff.mp hempty]
  · simp [holderEvents]

theorem validateSpecs_ok : ∀ {seen : List Id} {specs : List WalletSpec},
    validateSpecs seen specs = .ok () →
      (specs.map WalletSpec.walletID).Nodup ∧ (∀ spec ∈ specs, spec.walletID ∉ seen) ∧
        ∀ spec ∈ specs, Wallet.validateWallet spec.walletID spec.allows = .ok ()
  | _, [], _ => ⟨List.nodup_nil, nofun, nofun⟩
  | seen, spec :: specs, h => by
    unfold validateSpecs at h
    split at h
    · simp at h
    · rename_i hvalid
      split at h
      · simp at h
      · rename_i hseen
        obtain ⟨hnd, hout, hok⟩ := validateSpecs_ok h
        refine ⟨List.nodup_cons.mpr ⟨fun hm => ?_, hnd⟩, ?_, ?_⟩
        · obtain ⟨s, hs, heq⟩ := List.mem_map.mp hm
          exact hout s hs (heq ▸ List.mem_cons_self)
        · rintro s hs hm
          rcases List.mem_cons.mp hs with rfl | hs
          · exact hseen (by simpa using hm)
          · exact hout s hs (List.mem_cons_of_mem _ hm)
        · rintro s hs
          rcases List.mem_cons.mp hs with rfl | hs
          · exact hvalid
          · exact hok s hs

end

section

variable (hA : Assumes R A)
include hA

theorem establish_conducts {req : EstablishRequest} :
    Conducts R A (establish req) (fun _ _ => True) w := by
  refine Conducts.check_bind fun _ _ => (established_obeys contract_reads _ _).seq
    fun existing w1 _ _ => ?_
  cases existing with
  | some existing => exact Obeys.pure
  | none =>
    refine Conducts.append_new hA (by simp) (fun w2 _ _ hnil => ⟨?_, fun _ _ _ => ?_⟩) ?_
    · exact @HolderAppend.established _ _ _ req.memos [] hnil ⟨List.nodup_nil, nofun, nofun⟩
    · exact Obeys.pure
    · intro e w2 _
      cases e with
      | concurrencyConflict =>
        refine (established_obeys contract_reads _ _).seq fun existing w3 _ _ => ?_
        cases existing with
        | some existing => exact Obeys.pure
        | none => exact Ensures.throw
      | _ => exact Ensures.throw

/-- `AddWallet`'s success, where appends only lose to what they were to write. -/
def AddAnswer (A : Op → World → Prop) (req : AddWalletRequest) (w : World) :
    AddWalletResponse → Prop
  | .holderAddedWallet _ _ _ _ =>
    Convergent A → Records w req.id [⟨req.walletID, req.name, req.allows⟩]
  | .holderRejectedWallet _ => True

/-- `Provision`'s success, where appends only lose to what they were to write. -/
def ProvisionAnswer (A : Op → World → Prop) (req : ProvisionRequest) (w : World) :
    ProvisionResponse → Prop
  | .holderProvisioned _ _ =>
    req.wallets ≠ [] ∧ (Convergent A → Records w req.id req.wallets)
  | .holderProvisionRejected _ _ => True

theorem walletWrites_conducts {rows : List (Row HolderEvent)} :
    Conducts R A (walletWrites id rows specs)
      (fun r w' => ∀ ws, r = .ok ws → ∃ writes events,
        ws = writes ++ holderWrites id rows.length events ∧
          Delta w' id (recordedWallets (eventsOf rows)) specs writes events) w := by
  refine (walletDelta_conducts hA).seq fun r w1 _ hdelta => ?_
  cases r with
  | error rejection => exact Ensures.pure fun _ _ _ heq => by simp at heq
  | ok delta =>
    refine Ensures.pure fun w2 hle ws heq => ?_
    exact ⟨delta.1, delta.2, (Except.ok.inj heq).symm, (hdelta _ _ rfl).grow hle⟩

theorem addWallet_conducts {req : AddWalletRequest} :
    Conducts R A (addWallet req) (fun r w' => AddAnswer A req w' r) w := by
  refine Conducts.check_bind fun _ _ => Conducts.check_bind fun _ hvalid => ?_
  refine Conducts.load hA fun w1 _ _ => ?_
  split
  · exact Ensures.throw
  · rename_i hne
    refine (walletWrites_conducts hA).seq fun r w2 hle hr => ?_
    cases r with
    | error rejection => exact Ensures.pure fun _ _ => trivial
    | ok ws =>
      obtain ⟨writes, events, rfl, hdelta⟩ := hr ws rfl
      have hrows : w1.holder req.id <+: w2.holder req.id := hle.stream .holder req.id
      dsimp only
      split
      · rename_i hnone
        exact Ensures.pure fun _ hle3 _ => (hdelta.done hrows [] hnone).grow hle3
      · refine (appendConverging_conducts hA hdelta hrows (.established (by simpa using hne))
          (List.nodup_singleton _) fun spec hspec => ?_).seq fun _ w3 _ hrec => ?_
        · exact List.mem_singleton.mp hspec ▸ hvalid
        · exact Ensures.pure fun _ hle4 hconv => (hrec hconv).grow hle4

theorem provision_conducts {req : ProvisionRequest} :
    Conducts R A (provision req) (fun r w' => ProvisionAnswer A req w' r) w := by
  refine Conducts.check_bind fun _ _ => ?_
  split
  · exact Ensures.throw
  · rename_i hne
    have hnamed : req.wallets ≠ [] := by simpa using hne
    refine Conducts.check_bind fun _ hspecs => ?_
    obtain ⟨hdistinct, -, hvalid⟩ := validateSpecs_ok hspecs
    refine Conducts.load hA fun w1 _ _ => Conducts.check_bind fun origin horigin => ?_
    refine (walletWrites_conducts hA).seq fun r w2 hle hr => ?_
    cases r with
    | error rejection => exact Ensures.pure fun _ _ => trivial
    | ok ws =>
      obtain ⟨writes, events, rfl, hdelta⟩ := hr ws rfl
      have hrows : w1.holder req.id <+: w2.holder req.id := hle.stream .holder req.id
      dsimp only
      rw [(provision_writes hdelta).1, (provision_writes hdelta).2]
      split
      · rename_i hnone
        exact Ensures.pure fun _ hle3 =>
          ⟨hnamed, fun _ => (hdelta.done hrows origin hnone).grow hle3⟩
      · refine (appendConverging_conducts hA hdelta hrows (establishing_origin horigin)
          hdistinct hvalid).seq fun _ w3 _ hrec => ?_
        exact Ensures.pure fun _ hle4 => ⟨hnamed, fun hconv => (hrec hconv).grow hle4⟩

end

end Holder

end MoneyFlow
