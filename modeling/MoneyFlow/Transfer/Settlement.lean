import MoneyFlow.Transfer.Invariant

/-!
# MoneyFlow.Transfer.Settlement

The ledger under the Transfer protocol.

Every transfer the ledger has applied was asked for by a recorded leg, and was
asked for together with the rest of its chain (`Origin`). An id tells which leg
it came from, since ids are generated once, so the ledger facts behind two
outcomes of one Transfer are about the same legs and can be compared:

* `posted_once`: what is Moved or Posted is posted exactly once, leg by leg;
* `Doomed.unposted`, `Voided.unposted`: what is doomed or voided is not posted
  at all.
-/

namespace MoneyFlow.Transfer

variable {l : Ledger} {e : Id × StoredTransfer} {batch : List LedgerTransfer}

variable {w w' : World} {id : Id} {legs : List TransferLeg} {leg : TransferLeg}

/-- Where an applied transfer comes from. -/
inductive Origin (w : World) (e : Id × StoredTransfer) : Prop
  | move {id : Id} {legs : List TransferLeg} {leg : TransferLeg} (he : e = entry (movement leg))
      (hleg : leg ∈ legs) (hlegs : w.legs id = .ok legs) (hstage : w.stage id = .ok false)
      (hlen : legs.length ≤ batchMax) (hall : Moved w.ledger legs)
  | reserve {id : Id} {legs : List TransferLeg} {leg : TransferLeg}
      (he : e = entry (reservation leg)) (hleg : leg ∈ legs) (hlegs : w.legs id = .ok legs)
      (hwide : w.stage id = .ok true ∨ batchMax < legs.length)
  | post {id : Id} {legs : List TransferLeg} {leg : TransferLeg}
      (he : e = entry (settlement .postPending .post leg)) (hleg : leg ∈ legs)
      (hlegs : w.legs id = .ok legs) (hres : Reserved w.ledger legs)
      (hfirst : Posted w.ledger (window legs 0))
  | void {id : Id} {legs : List TransferLeg} {leg : TransferLeg}
      (he : e = entry (settlement .voidPending .void leg)) (hleg : leg ∈ legs)
      (hlegs : w.legs id = .ok legs) (hres : Reserved w.ledger legs)

theorem Origin.grow (h : Origin w e) (hle : w ≤ w') : Origin w' e := by
  cases h with
  | move he hleg hlegs hstage hlen hall =>
    exact .move he hleg (World.legs_grow hle hlegs) (World.stage_grow hle hstage) hlen
      (hall.grow hle.ledger)
  | reserve he hleg hlegs hwide =>
    exact .reserve he hleg (World.legs_grow hle hlegs) (hwide.imp_left (World.stage_grow hle))
  | post he hleg hlegs hres hfirst =>
    exact .post he hleg (World.legs_grow hle hlegs) (hres.grow hle.ledger)
      (hfirst.grow hle.ledger)
  | void he hleg hlegs hres =>
    exact .void he hleg (World.legs_grow hle hlegs) (hres.grow hle.ledger)

/-- What holds of the ledger. -/
structure LedgerOk (w : World) : Prop where
  sound : w.ledger.Sound
  origin : ∀ e ∈ w.ledger.transfers, Origin w e

theorem ledgerOk_init : LedgerOk .init where
  sound := Ledger.sound_empty
  origin _ he := absurd he List.not_mem_nil

/-- A step that leaves the applied transfers alone keeps them. -/
theorem LedgerOk.grow (h : LedgerOk w) (hle : w ≤ w') (hs : w'.ledger.Sound)
    (hw : w'.ledger.transfers = w.ledger.transfers) : LedgerOk w' where
  sound := hs
  origin e he := (h.origin e (hw ▸ he)).grow hle

/-! ### Ids tell legs apart -/

/-- The legs a stream was prepared with are the Transfer's own. -/
theorem TransferOk.legsOf (h : TransferOk w id) (hlegs : w.legs id = .ok legs) :
    LegsOf w id legs := by
  obtain ⟨i, hm⟩ := preparedLegs_mem hlegs
  exact (h.backed _ hm).2.1

/-- Two recorded legs with one ledger id are the same leg of the same
Transfer. -/
theorem leg_unique (hT : ∀ i, TransferOk w i) {id' : Id} {legs' : List TransferLeg}
    {leg' : TransferLeg} (hlegs : w.legs id = .ok legs) (hlegs' : w.legs id' = .ok legs')
    (hleg : leg ∈ legs) (hleg' : leg' ∈ legs')
    (heq : leg.ledgerTransferID = leg'.ledgerTransferID) :
    id = id' ∧ legs = legs' ∧ leg = leg' := by
  have hof := (hT id).legsOf hlegs
  obtain ⟨n, hn, hi⟩ := hof.2 leg hleg
  obtain ⟨n', hn', hi'⟩ := ((hT id').legsOf hlegs').2 leg' hleg'
  have hnn : n = n' := Id.v7.inj (hn.symm.trans (heq.trans hn'))
  subst hnn
  obtain rfl : id = id' := Option.some.inj (hi.symm.trans hi')
  obtain rfl : legs = legs' := Except.ok.inj (hlegs.symm.trans hlegs')
  exact ⟨rfl, rfl, List.inj_on_of_nodup_map hof.1 hleg hleg' heq⟩

/-- A leg's ledger id is a generated one. -/
theorem leg_v7 (hT : ∀ i, TransferOk w i) (hlegs : w.legs id = .ok legs) (hleg : leg ∈ legs) :
    ∃ n, leg.ledgerTransferID = .v7 n := by
  obtain ⟨n, hn, -⟩ := ((hT id).legsOf hlegs).2 leg hleg
  exact ⟨n, hn⟩

/-- A post of a leg's reservation is applied under the id of the leg's post. -/
theorem LedgerOk.post_id (h : LedgerOk w) {i : Id} {st : StoredTransfer}
    (hm : (i, st) ∈ w.ledger.transfers) (hk : st.kind = .postPending)
    (hp : st.pendingID = leg.ledgerTransferID) : i = .post leg.ledgerTransferID := by
  cases h.origin _ hm with
  | post he =>
    cases he
    exact congrArg Id.post hp
  | move he =>
    obtain ⟨-, rfl⟩ := Prod.mk.inj he
    simp [StoredTransfer.of, movement] at hk
  | reserve he =>
    obtain ⟨-, rfl⟩ := Prod.mk.inj he
    simp [StoredTransfer.of, reservation] at hk
  | void he =>
    obtain ⟨-, rfl⟩ := Prod.mk.inj he
    simp [StoredTransfer.of, settlement] at hk

namespace LedgerOk

variable (h : LedgerOk w) (hT : ∀ i, TransferOk w i) (hlegs : w.legs id = .ok legs)
  (hleg : leg ∈ legs) {st : StoredTransfer}
include h hT hlegs hleg

/-- What is applied under a leg's own id. -/
theorem of_leg (hm : (leg.ledgerTransferID, st) ∈ w.ledger.transfers) :
    (st = .of (movement leg) ∧ w.stage id = .ok false ∧ legs.length ≤ batchMax ∧
        Moved w.ledger legs) ∨
      (st = .of (reservation leg) ∧ (w.stage id = .ok true ∨ batchMax < legs.length)) := by
  obtain ⟨n, hn⟩ := leg_v7 hT hlegs hleg
  cases h.origin _ hm with
  | move he hleg' hlegs' hstage hlen hall =>
    obtain ⟨hid, hst⟩ := Prod.mk.inj he
    obtain ⟨rfl, rfl, rfl⟩ := leg_unique hT hlegs hlegs' hleg hleg' hid
    exact Or.inl ⟨hst, hstage, hlen, hall⟩
  | reserve he hleg' hlegs' hwide =>
    obtain ⟨hid, hst⟩ := Prod.mk.inj he
    obtain ⟨rfl, rfl, rfl⟩ := leg_unique hT hlegs hlegs' hleg hleg' hid
    exact Or.inr ⟨hst, hwide⟩
  | post he | void he => exact absurd (hn.symm.trans (Prod.mk.inj he).1) (by simp [settlement])

/-- What is applied under the id of a leg's post. -/
theorem of_post (hm : (.post leg.ledgerTransferID, st) ∈ w.ledger.transfers) :
    st = .of (settlement .postPending .post leg) ∧ Reserved w.ledger legs ∧
      Posted w.ledger (window legs 0) := by
  cases h.origin _ hm with
  | post he hleg' hlegs' hres hfirst =>
    obtain ⟨hid, hst⟩ := Prod.mk.inj he
    obtain ⟨rfl, rfl, rfl⟩ := leg_unique hT hlegs hlegs' hleg hleg' (Id.post.inj hid)
    exact ⟨hst, hres, hfirst⟩
  | move he hleg' hlegs' | reserve he hleg' hlegs' =>
    obtain ⟨n, hn⟩ := leg_v7 hT hlegs' hleg'
    exact absurd ((Prod.mk.inj he).1.trans hn) (by simp)
  | void he => exact absurd (Prod.mk.inj he).1 (by simp [settlement])

/-- What is applied under the id of a leg's void. -/
theorem of_void (hm : (.void leg.ledgerTransferID, st) ∈ w.ledger.transfers) :
    st = .of (settlement .voidPending .void leg) ∧ Reserved w.ledger legs := by
  cases h.origin _ hm with
  | void he hleg' hlegs' hres =>
    obtain ⟨hid, hst⟩ := Prod.mk.inj he
    obtain ⟨rfl, rfl, rfl⟩ := leg_unique hT hlegs hlegs' hleg hleg' (Id.void.inj hid)
    exact ⟨hst, hres⟩
  | move he hleg' hlegs' | reserve he hleg' hlegs' =>
    obtain ⟨n, hn⟩ := leg_v7 hT hlegs' hleg'
    exact absurd ((Prod.mk.inj he).1.trans hn) (by simp)
  | post he => exact absurd (Prod.mk.inj he).1 (by simp [settlement])

end LedgerOk

/-! ### One request -/

/-- Linking is not stored, so a batch is applied when its chain is. -/
theorem applied_of_link {ts : List LedgerTransfer} (h : ∀ t ∈ link ts, l.Applied t) :
    ∀ u ∈ ts, l.Applied u := by
  intro u hu
  obtain ⟨t, ht, hent⟩ := mem_link' hu
  have happ : entry t ∈ l.transfers := h t ht
  rw [hent] at happ
  exact happ

/-- What a chain changes: nothing, or all of it is applied. -/
theorem chain_mem {ts : List LedgerTransfer}
    (he : e ∈ (l.createTransferRun (link ts)).2.transfers) :
    e ∈ l.transfers ∨
      (∀ u ∈ ts, (l.createTransferRun (link ts)).2.Applied u) ∧ ∃ u ∈ ts, e = entry u := by
  rcases Ledger.createTransferRun_mem he with hold | ⟨hacc, t, ht, rfl⟩
  · exact Or.inl hold
  · right
    refine ⟨applied_of_link (Ledger.createTransferRun_applied hacc), ?_⟩
    obtain ⟨u, hu, hent⟩ := mem_link ht
    exact ⟨u, hu, hent.symm⟩

/-- The batch a request is about, before it is linked. -/
theorem LegalRequest.chain (h : LegalRequest w batch) (hT : ∀ i, TransferOk w i) :
    ∃ ts, batch = link ts ∧ ts ≠ [] ∧ ts.length ≤ batchMax ∧ (ts.map LedgerTransfer.id).Nodup := by
  -- the ids of a window are those of distinct legs
  have hnd {id : Id} {legs : List TransferLeg} (hlegs : w.legs id = .ok legs) (c : Nat) :
      ((window legs c).map TransferLeg.ledgerTransferID).Nodup := by
    have hsub : (window legs c).Sublist legs :=
      (List.take_sublist _ _).trans (List.drop_sublist _ _)
    exact ((hT id).legsOf hlegs).1.sublist (hsub.map _)
  cases h with
  | move hlegs hstage hlen hne =>
    refine ⟨_, rfl, by simpa [movements] using hne, by simpa [movements] using hlen, ?_⟩
    simpa [movements, movement, Function.comp_def] using ((hT _).legsOf hlegs).1
  | @reserve _ legs c hlegs hwide hne =>
    refine ⟨_, rfl, by simpa [reservations] using hne,
      by simpa [reservations] using window_length_le legs c, ?_⟩
    simpa [reservations, reservation, Function.comp_def] using hnd hlegs c
  | @post _ legs c hlegs hres hfirst hne =>
    refine ⟨_, rfl, by simpa [posts] using hne,
      by simpa [posts] using window_length_le legs c, ?_⟩
    have := (hnd hlegs c).map (f := Id.post) fun _ _ => Id.post.inj
    simpa [posts, settlement, Function.comp_def] using this
  | @void _ legs c hlegs hres hne =>
    refine ⟨_, rfl, by simpa [voids] using hne,
      by simpa [voids] using window_length_le legs c, ?_⟩
    have := (hnd hlegs c).map (f := Id.void) fun _ _ => Id.void.inj
    simpa [voids, settlement, Function.comp_def] using this

/-- The ledger takes a legal request as one linked run. -/
theorem LegalRequest.createTransfers (h : LegalRequest w batch) (hT : ∀ i, TransferOk w i) :
    w.ledger.createTransfers batch =
      (.ok (w.ledger.createTransferRun batch).1, (w.ledger.createTransferRun batch).2) := by
  obtain ⟨ts, rfl, hne, hlen, -⟩ := h.chain hT
  exact createTransfers_link hne hlen

/-- **A legal request keeps the ledger.** -/
theorem LedgerOk.request (h : LedgerOk w) (hT : ∀ i, TransferOk w i) (hreq : LegalRequest w batch) :
    LedgerOk { w with ledger := (w.ledger.createTransferRun batch).2 } := by
  have hgrows := w.ledger.createTransferRun_grows batch
  have hle : w ≤ { w with ledger := (w.ledger.createTransferRun batch).2 } :=
    ⟨fun _ _ => List.prefix_rfl, hgrows, List.prefix_rfl⟩
  constructor
  · obtain ⟨ts, rfl, -, -, hnd⟩ := hreq.chain hT
    exact Ledger.createTransferRun_sound h.sound (by rwa [link_ids])
  · intro e he
    cases hreq with
    | move hlegs hstage hlen hne =>
      rcases chain_mem he with hold | ⟨hall, u, hu, rfl⟩
      · exact (h.origin e hold).grow hle
      · obtain ⟨leg, hleg, rfl⟩ := List.mem_map.mp hu
        exact .move rfl hleg hlegs hstage hlen fun m hm => hall _ (List.mem_map_of_mem hm)
    | reserve hlegs hwide hne =>
      rcases chain_mem he with hold | ⟨-, u, hu, rfl⟩
      · exact (h.origin e hold).grow hle
      · obtain ⟨leg, hleg, rfl⟩ := List.mem_map.mp hu
        exact .reserve rfl (mem_of_mem_window hleg) hlegs hwide
    | @post _ legs c hlegs hres hfirst hne =>
      rcases chain_mem he with hold | ⟨hall, u, hu, rfl⟩
      · exact (h.origin e hold).grow hle
      · obtain ⟨leg, hleg, rfl⟩ := List.mem_map.mp hu
        refine .post rfl (mem_of_mem_window hleg) hlegs (hres.grow hgrows) ?_
        -- the first chain is applied by this request or was before it
        by_cases hc : c = 0
        · subst hc
          exact fun m hm => hall _ (List.mem_map_of_mem hm)
        · exact (hfirst hc).grow hgrows
    | void hlegs hres hne =>
      rcases chain_mem he with hold | ⟨-, u, hu, rfl⟩
      · exact (h.origin e hold).grow hle
      · obtain ⟨leg, hleg, rfl⟩ := List.mem_map.mp hu
        exact .void rfl (mem_of_mem_window hleg) hlegs (hres.grow hgrows)

/-- An entry of a linked chain is that of one of its legs. -/
theorem mem_link_map {f : TransferLeg → LedgerTransfer} {t : LedgerTransfer}
    (ht : t ∈ link (legs.map f)) :
    ∃ leg ∈ legs, (f leg).id = t.id ∧ StoredTransfer.of (f leg) = .of t := by
  obtain ⟨u, hu, hent⟩ := mem_link ht
  obtain ⟨leg, hleg, rfl⟩ := List.mem_map.mp hu
  exact ⟨leg, hleg, Prod.mk.inj hent⟩

/-- A legal request never finds one of its ids used for something else, so a
refused chain leaves one of its ids refused for good. -/
theorem LedgerOk.refused (h : LedgerOk w) (hT : ∀ i, TransferOk w i) (hreq : LegalRequest w batch)
    (hacc : (w.ledger.createTransferRun batch).1.all TransferResultCode.accepted = false) :
    ∃ t ∈ batch, t.id ∈ (w.ledger.createTransferRun batch).2.refused := by
  obtain ⟨-, href | ⟨t, ht, st, hst, hne⟩⟩ := Ledger.createTransferRun_refused hacc
  · exact href
  · exfalso
    cases hreq with
    | move hlegs hstage hlen _ =>
      obtain ⟨leg, hleg, hid, hof⟩ := mem_link_map ht
      rw [← hid] at hst
      rw [← hof] at hne
      rcases h.of_leg hT hlegs hleg hst with ⟨heq, -⟩ | ⟨-, hwide | hwide⟩
      · exact hne heq
      · rw [hstage] at hwide
        simp at hwide
      · omega
    | reserve hlegs hwide _ =>
      obtain ⟨leg, hleg, hid, hof⟩ := mem_link_map ht
      rw [← hid] at hst
      rw [← hof] at hne
      rcases h.of_leg hT hlegs (mem_of_mem_window hleg) hst with ⟨-, hstage, hlen, -⟩ | ⟨heq, -⟩
      · rcases hwide with hwide | hwide
        · rw [hstage] at hwide
          simp at hwide
        · omega
      · exact hne heq
    | post hlegs _ _ _ =>
      obtain ⟨leg, hleg, hid, hof⟩ := mem_link_map ht
      rw [← hid] at hst
      rw [← hof] at hne
      exact hne (h.of_post hT hlegs (mem_of_mem_window hleg) hst).1
    | void hlegs _ _ =>
      obtain ⟨leg, hleg, hid, hof⟩ := mem_link_map ht
      rw [← hid] at hst
      rw [← hof] at hne
      exact hne (h.of_void hT hlegs (mem_of_mem_window hleg) hst).1

/-! ### What is posted -/

/-- The applied transfer posts the leg: it moves the leg at once, or posts its
reservation. -/
def postsLeg (leg : TransferLeg) (e : Id × StoredTransfer) : Bool :=
  (e.1 == leg.ledgerTransferID && e.2.kind == .regular) ||
    (e.2.kind == .postPending && e.2.pendingID == leg.ledgerTransferID)

/-- The applied transfers that post the leg. -/
def postings (l : Ledger) (leg : TransferLeg) : List (Id × StoredTransfer) :=
  l.transfers.filter (postsLeg leg)

theorem mem_postings : e ∈ postings l leg ↔
    e ∈ l.transfers ∧ ((e.1 = leg.ledgerTransferID ∧ e.2.kind = .regular) ∨
      (e.2.kind = .postPending ∧ e.2.pendingID = leg.ledgerTransferID)) := by
  simp [postings, postsLeg, List.mem_filter]

/-- A leg is reserved or moved, never both. -/
theorem not_moved_of_reserved (hl : l.Sound) (hm : l.Applied (movement leg)) :
    ¬ l.Applied (reservation leg) := by
  intro hr
  have heq := hl.unique hm hr
  have hk : TransferKind.regular = .pending := congrArg StoredTransfer.kind heq
  simp at hk

theorem postings_of_unique (hl : l.Sound) (he : e ∈ postings l leg)
    (huniq : ∀ e' ∈ postings l leg, e' = e) : postings l leg = [e] := by
  have hnd : (postings l leg).Nodup := (List.Nodup.of_map _ hl.nodup).filter _
  rw [← List.perm_singleton, List.perm_ext_iff_of_nodup hnd (List.nodup_singleton e)]
  intro e'
  rw [List.mem_singleton]
  exact ⟨huniq e', fun heq => heq ▸ he⟩

section

variable (h : LedgerOk w) (hT : ∀ i, TransferOk w i) (hlegs : w.legs id = .ok legs)
  (hleg : leg ∈ legs)
include h hT hlegs hleg

/-- A moved leg is posted once, by its movement. -/
theorem Moved.posted_once (hm : Moved w.ledger legs) :
    postings w.ledger leg = [entry (movement leg)] := by
  refine postings_of_unique h.sound (mem_postings.mpr ⟨hm leg hleg, Or.inl ⟨rfl, rfl⟩⟩) ?_
  rintro ⟨i, st⟩ he
  obtain ⟨he, ⟨rfl, -⟩ | ⟨hk, hp⟩⟩ := mem_postings.mp he
  · rw [h.sound.unique he (hm leg hleg)]
    rfl
  · rw [h.post_id he hk hp] at he
    obtain ⟨-, hres, -⟩ := h.of_post hT hlegs hleg he
    exact absurd (hres leg hleg) (not_moved_of_reserved h.sound (hm leg hleg))

/-- A leg whose reservation is posted is posted once, by that. -/
theorem Posted.posted_once (hp : Posted w.ledger legs) :
    postings w.ledger leg = [entry (settlement .postPending .post leg)] := by
  obtain ⟨-, hres, -⟩ := h.of_post hT hlegs hleg (hp leg hleg)
  refine postings_of_unique h.sound (mem_postings.mpr ⟨hp leg hleg, Or.inr ⟨rfl, rfl⟩⟩) ?_
  rintro ⟨i, st⟩ he
  obtain ⟨he, ⟨rfl, hk⟩ | ⟨hk, hpe⟩⟩ := mem_postings.mp he
  · have heq := h.sound.unique he (hres leg hleg)
    rw [heq] at hk
    simp [StoredTransfer.of, reservation] at hk
  · obtain rfl := h.post_id he hk hpe
    rw [h.sound.unique he (hp leg hleg)]
    rfl

/-- No leg of a doomed Transfer is posted. -/
theorem Doomed.unposted (hd : Doomed w.ledger legs) : postings w.ledger leg = [] := by
  rw [List.eq_nil_iff_forall_not_mem]
  rintro ⟨i, st⟩ he
  obtain ⟨he, ⟨rfl, hk⟩ | ⟨hk, hp⟩⟩ := mem_postings.mp he
  · rcases h.of_leg hT hlegs hleg he with ⟨rfl, -, -, hmoved⟩ | ⟨rfl, -⟩
    · -- every leg is moved, so no leg's id is refused and none is reserved
      rcases hd with ⟨m, hm, href⟩ | ⟨hres, -⟩
      · exact h.sound.refused _ href (hmoved m hm).mem_ids
      · exact not_moved_of_reserved h.sound (hmoved leg hleg) (hres leg hleg)
    · simp [StoredTransfer.of, reservation] at hk
  · rw [h.post_id he hk hp] at he
    obtain ⟨-, hres, hfirst⟩ := h.of_post hT hlegs hleg he
    rcases hd with ⟨m, hm, href⟩ | ⟨-, m, hm, href⟩
    · exact h.sound.refused _ href (hres m hm).mem_ids
    · exact h.sound.refused _ href (hfirst m hm).mem_ids

/-- No leg of a cancelled Transfer is posted. -/
theorem Voided.unposted (hv : Voided w.ledger legs) : postings w.ledger leg = [] := by
  obtain ⟨-, hres⟩ := h.of_void hT hlegs hleg (hv leg hleg)
  rw [List.eq_nil_iff_forall_not_mem]
  rintro ⟨i, st⟩ he
  obtain ⟨he, ⟨rfl, hk⟩ | ⟨hk, hp⟩⟩ := mem_postings.mp he
  · have heq := h.sound.unique he (hres leg hleg)
    rw [heq] at hk
    simp [StoredTransfer.of, reservation] at hk
  · obtain rfl := h.post_id he hk hp
    -- one reservation is settled once, and this one was released
    have hsame := h.sound.once _ _ _ _ .posted .voided he (hv leg hleg)
      (by simp only at hk; rw [hk]; rfl) rfl hp
    simp [settlement] at hsame

end

end MoneyFlow.Transfer
