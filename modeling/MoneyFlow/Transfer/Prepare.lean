import MoneyFlow.Transfer.Conduct

/-!
# MoneyFlow.Transfer.Prepare

Planning a Transfer keeps the protocol: the legs it records are over Tokens of
the Wallets the request names, its ledger ids are its own, and the plan lands
only on a stream still at Accepted.
-/

namespace MoneyFlow.Transfer

open Concurrent Service

variable {rows : List (Row TransferEvent)} {wid tid : Id} {es : List TransferEvent}
  {ws : List StreamWrite}

variable {R : Prop} {A : Op → World → Prop} {w w' : World} {id : Id}

/-! ### Sources -/

section

variable {currency : String} {bs : Id → Option Ledger.Balance} {toks : List Id}
  {remaining short : UInt64} {legs : List Leg}

/-- The loop stops, leaves a Token out, or takes of it no more than is asked for and
than is posted to it. -/
theorem takeTokens_induction {P : List Id → UInt64 → List Leg → UInt64 → Prop}
    (stop : ∀ toks remaining, P toks remaining [] remaining)
    (skip : ∀ tok toks remaining legs short, P toks remaining legs short →
      P (tok :: toks) remaining legs short)
    (take : ∀ tok toks remaining legs short n b, bs tok = some b → n ≤ remaining →
      b.debitsPosted.toNat + n.toNat ≤ b.creditsPosted.toNat → P toks (remaining - n) legs short →
      P (tok :: toks) remaining ({ sourceTokenID := tok, amount := ⟨n, currency⟩ } :: legs) short)
    (h : takeTokens currency bs toks remaining = .ok (legs, short)) :
    P toks remaining legs short := by
  induction toks generalizing remaining legs with
  | nil =>
    cases h
    exact stop _ _
  | cons tok toks ih =>
    unfold takeTokens at h
    split at h
    · rename_i hzero
      cases h
      exact hzero ▸ stop _ _
    · split at h
      · exact skip _ _ _ _ _ (ih h)
      · rename_i b hb
        split at h
        · cases h
        · rename_i balance hnet
          split at h
          · exact skip _ _ _ _ _ (ih h)
          · dsimp only at h
            split at h
            · cases h
            · rename_i hrest
              cases h
              have hbalance : balance = (b.creditsPosted.toNat : Int) - b.debitsPosted.toNat := by
                unfold Ledger.Balance.postedNet at hnet
                split at hnet
                · cases hnet
                · exact (Except.ok.inj hnet).symm
              -- the word taken is at most the balance
              have hword : (UInt64.ofNat balance.toNat).toNat ≤ balance.toNat := by
                rw [UInt64.toNat_ofNat']
                exact Nat.mod_le _ _
              refine take _ _ _ _ _ _ b hb ?_ ?_ (ih hrest)
              · split
                · exact UInt64.le_refl _
                · exact UInt64.not_lt.mp ‹_›
              · split
                · rename_i hlt
                  rw [UInt64.lt_iff_toNat_lt] at hlt
                  omega
                · omega

theorem takeTokens_sublist (h : takeTokens currency bs toks remaining = .ok (legs, short)) :
    (legs.map Leg.sourceTokenID).Sublist toks := by
  refine takeTokens_induction (P := fun toks _ legs _ => (legs.map Leg.sourceTokenID).Sublist toks)
    ?_ ?_ ?_ h
  · exact fun _ _ => List.nil_sublist _
  · exact fun _ _ _ _ _ ih => ih.cons _
  · exact fun _ _ _ _ _ _ _ _ _ _ ih => ih.cons_cons _

theorem takeTokens_mem (h : takeTokens currency bs toks remaining = .ok (legs, short)) :
    ∀ leg ∈ legs, leg.sourceTokenID ∈ toks :=
  fun _ hleg => (takeTokens_sublist h).subset (List.mem_map_of_mem hleg)

end

section

variable (hA : Assumes R A)
include hA

/-- The Tokens selected are the Wallet's own. -/
theorem selectSourceTokens_conducts {amount : Money} :
    Conducts R A (selectSourceTokens wid amount tid)
      (fun r w' => ∀ legs, r = .ok legs → ∀ leg ∈ legs, w'.MintedInto leg.sourceTokenID wid)
      w := by
  refine (Wallet.tokensOfVisibleTo_conducts hA (Transaction.isOpen_obeys contract_reads)).seq ?_
  intro toks w1 _ htoks
  refine Conducts.balances fun bs w2 hle2 => Conducts.check_bind ?_
  rintro ⟨legs, short⟩ htake
  dsimp only
  split
  · exact Ensures.pure fun _ _ legs h => by simp at h
  · refine Ensures.pure fun w3 hle3 legs' h leg hleg => ?_
    cases h
    exact (htoks _ (takeTokens_mem htake leg hleg)).grow (hle2.trans hle3)

end

/-! ### Reversals -/

theorem reversedLegs_append (es es' : List TransferEvent) :
    reversedLegs (es ++ es') = reversedLegs es ++ reversedLegs es' := by
  induction es with
  | nil => rfl
  | cons e es ih => cases e <;> simp [reversedLegs, ih]

/-- A stream turns around the one manifest it was prepared with. -/
theorem reversedLegs_eq (h : Lifecycle es) : reversedLegs es = [] ∨
      ∃ legs, preparedLegs id es = .ok legs ∧ reversedLegs es = legs.map turned := by
  refine History.induct (P := fun es => reversedLegs es = [] ∨
    ∃ legs, preparedLegs id es = .ok legs ∧ reversedLegs es = legs.map turned) (Or.inl rfl) ?_ h
  intro es e hL hf ih
  rw [reversedLegs_append]
  cases e with
  | transferPrepared i legs =>
    -- nothing was prepared before
    have hnone : ∀ j ls, .transferPrepared j ls ∉ es :=
      Lifecycle.not_prepared hL (by rw [hf.prepared_accepted]; decide)
    have hnil : reversedLegs es = [] := by
      rcases ih with hnil | ⟨ls, hls, -⟩
      · exact hnil
      · obtain ⟨j, hm⟩ := preparedLegs_mem hls
        exact absurd hm (hnone j ls)
    refine Or.inr ⟨legs, ?_, by simp [hnil, reversedLegs, turned]⟩
    rw [preparedLegs_append_of_none hnone]
    rfl
  | _ =>
    rcases ih with hnil | ⟨ls, hls, heq⟩
    · exact Or.inl (by simp [hnil, reversedLegs])
    · exact Or.inr ⟨ls, preparedLegs_append hls, by simp [heq, reversedLegs]⟩

/-- A folded state is the outcome of a Transfer that was not rejected. -/
theorem outcome_of_state (h : Lifecycle es) (hs : (currentState es).final = true) :
    (outcome es).final = true ∧ (currentState es = .committed → outcome es = .committed) ∧
      (currentState es = .cancelled → outcome es = .cancelled) := by
  have hne : es ≠ [] := by
    rintro rfl
    simp [State.final] at hs
  have hrej : rejectedRequest es = false := by
    by_contra hrej
    rw [h.rejected_unknown (by simpa using hrej)] at hs
    simp [State.final] at hs
  unfold outcome
  rw [if_neg (by simpa using hne), if_neg (by simp [hrej])]
  cases hstate : currentState es <;> simp_all [State.final, OutcomeKind.final]

/-- The Tokens of recorded legs are minted. -/
theorem minted_of_legs (hinv : Inv R w) {legs : List TransferLeg} (hlegs : w.legs id = .ok legs)
    {leg : TransferLeg} (hleg : leg ∈ legs) :
    ∃ s d, w.MintedInto leg.sourceTokenID s ∧ w.MintedInto leg.destTokenID d := by
  obtain ⟨i, hm⟩ := preparedLegs_mem hlegs
  obtain ⟨-, -, hman⟩ := (hinv.transfer id).backed _ hm
  have hplain : plain leg ∈ legs.map plain := List.mem_map_of_mem hleg
  generalize eventsOf (w.transfer id) = es at hman
  cases es with
  | nil => exact hman.elim
  | cons e es =>
    cases e with
    | transferRequestAccepted a =>
      obtain ⟨-, hto, hfrom, -⟩ := hman _ hplain
      exact ⟨_, _, hfrom, hto⟩
    | reversalRequestAccepted a =>
      obtain ⟨_, -, -, hheld⟩ := hman
      obtain ⟨⟨s, hs⟩, d, hd⟩ := hheld _ hplain
      exact ⟨s, d, hs, hd⟩
    | _ => exact hman.elim

section

variable (hA : Assumes R A)
include hA

/-- A Reversal's legs are those of a committed Transfer, turned around. -/
theorem reversalManifest_conducts {original : Id} :
    Conducts R A (reversalManifest original)
      (fun r w' => ∀ plan, r = .ok plan →
        Henceforth R (fun w'' => w''.outcome original = .committed) w' ∧
        ∃ legs, w'.legs original = .ok legs ∧ plan = legs.map turned ∧
          ∀ leg ∈ plan, (∃ wid, w'.MintedInto leg.sourceTokenID wid) ∧
            ∃ wid, w'.MintedInto leg.destTokenID wid) w := by
  refine Conducts.load_transfer hA fun w1 _ hinv => ?_
  split
  · exact Ensures.pure fun _ _ plan h => by simp at h
  · split
    · exact Ensures.pure fun _ _ plan h => by simp at h
    · rename_i hstate
      have hstate := not_not.mp hstate
      split
      · exact Ensures.throw
      · rename_i hne
        refine Ensures.pure fun w2 hle2 plan h => ?_
        cases h
        have hL := hinv.lifecycle original
        have hcommitted : w1.outcome original = .committed :=
          (outcome_of_state hL (by rw [hstate]; rfl)).2.1 hstate
        obtain ⟨legs, hlegs, heq⟩ :=
          (reversedLegs_eq hL).resolve_left (by simpa using hne)
        refine ⟨(henceforth_outcome hcommitted rfl).grow hle2, legs,
          World.legs_grow hle2 hlegs, heq, fun leg hleg => ?_⟩
        -- the original's own manifest says where its Tokens are
        rw [heq] at hleg
        obtain ⟨m, hm, rfl⟩ := List.mem_map.mp hleg
        obtain ⟨s, d, hs, hd⟩ := minted_of_legs hinv hlegs hm
        exact ⟨⟨d, hd.grow hle2⟩, s, hs.grow hle2⟩

end

/-! ### Ledger ids -/

theorem generateLegs_conducts : ∀ {plan : List Leg} {w : World},
    Conducts R A (generateLegs id plan)
      (fun legs w' => legs.map plain = plan ∧ (legs.map TransferLeg.ledgerTransferID).Nodup ∧
        ∀ leg ∈ legs, ∃ n, w.issued.length ≤ n ∧ leg.ledgerTransferID = .v7 n ∧
          w'.issued[n]? = some id) w
  | [], w => Ensures.pure fun _ _ => ⟨rfl, List.nodup_nil, nofun⟩
  | leg :: rest, w => by
    refine Conducts.newV7 fun w1 hle1 => ?_
    refine generateLegs_conducts.seq fun legs w2 hle2 hlegs => Ensures.pure fun w3 hle3 => ?_
    obtain ⟨hplain, hnd, hids⟩ := hlegs
    have hlen : w.issued.length ≤ w1.issued.length := hle1.issued.length_le
    refine ⟨by simp [hplain, plain], ?_, fun m hm => ?_⟩
    · rw [List.map_cons, List.nodup_cons]
      refine ⟨fun hmem => ?_, hnd⟩
      -- the ids after this one are all later
      obtain ⟨m, hm, heq⟩ := List.mem_map.mp hmem
      obtain ⟨n, hn, hid, -⟩ := hids m hm
      rw [hid] at heq
      have : n = w1.issued.length := Id.v7.inj heq
      simp at hn
      omega
    · have hkeep {n : Nat} {w0 : World} (hle0 : w0 ≤ w3) (h : w0.issued[n]? = some id) :
          w3.issued[n]? = some id := by
        obtain ⟨t, ht⟩ := hle0.issued
        rw [← ht, List.getElem?_append_left (List.getElem?_eq_some_iff.mp h).1]
        exact h
      rcases List.mem_cons.mp hm with rfl | hm
      · exact ⟨w1.issued.length, hlen, rfl, hkeep (hle2.trans hle3) (by simp)⟩
      · obtain ⟨n, hn, hid, hget⟩ := hids m hm
        refine ⟨n, ?_, hid, hkeep hle3 hget⟩
        simp at hn
        omega

/-! ### Plans -/

/-- A plan that may land on a stream that opens as `es` does. -/
def Plannable (w : World) (id : Id) (plan : List Leg) (ws : List StreamWrite)
    (es : List TransferEvent) : Prop :=
  Token.MintPlan w ws ∧ ManifestOf (HeldAfter w ws) w id plan es

theorem Plannable.grow {plan : List Leg} (h : Plannable w id plan ws es) (hle : w ≤ w') :
    Plannable w' id plan ws es :=
  ⟨h.1.grow hle, h.2.grow hle List.prefix_rfl fun _ _ hh => hh.mono hle fun _ hx => hx⟩

section

variable (hA : Assumes R A)
include hA

theorem planSources_conducts {a : TransferAccepted} :
    Conducts R A (planSources id a)
      (fun r w' => ∀ plan ws, r = .ok (plan, ws) → Token.MintPlan w' ws ∧
        ∀ leg ∈ plan, HeldAfter w' ws leg.sourceTokenID a.fromWalletID ∧
          (a.mintSource = true → leg.sourceTokenID = .sourceToken id)) w := by
  unfold planSources
  split
  · refine (validateMintSource_obeys contract_reads _ _ _).seq fun r w1 _ _ => ?_
    cases r with
    | some reason => exact Ensures.throw
    | none =>
      refine Conducts.load hA fun w2 _ hinv => ?_
      refine (Token.mintWrites_conducts List.prefix_rfl (hinv.wallet _).isUUID).seq ?_
      intro r w3 _ hmint
      cases r with
      | error reason => exact Ensures.throw
      | ok ws =>
        obtain ⟨hplan, hspecs⟩ := hmint ws rfl
        refine Ensures.pure fun w4 hle4 plan ws' h => ?_
        cases h
        refine ⟨hplan.grow hle4, fun leg hleg => ?_⟩
        obtain rfl := List.mem_singleton.mp hleg
        exact ⟨Or.inr ⟨_, hspecs _ List.mem_cons_self⟩, fun _ => rfl⟩
  · rename_i hmint
    refine (selectSourceTokens_conducts hA).seq fun r w1 _ hsel => ?_
    cases r with
    | error reason => exact Ensures.pure fun _ _ _ _ h => by simp at h
    | ok legs =>
      refine Ensures.pure fun w2 hle2 plan ws h => ?_
      cases h
      refine ⟨nofun, fun leg hleg => ⟨Or.inl ((hsel _ rfl leg hleg).grow hle2), fun h => ?_⟩⟩
      exact absurd h hmint

theorem planForward_conducts {a : TransferAccepted} (es : List TransferEvent) :
    Conducts R A (planForward id a)
      (fun r w' => ∀ plan ws, r = .ok (plan, ws) →
        Plannable w' id plan ws (.transferRequestAccepted a :: es)) w := by
  refine (planSources_conducts hA).seq fun r w1 _ hsrc => ?_
  cases r with
  | error reason => exact Ensures.pure fun _ _ _ _ h => by simp at h
  | ok p =>
    obtain ⟨plan, srcWs⟩ := p
    obtain ⟨hsrcPlan, hsrcHeld⟩ := hsrc plan srcWs rfl
    refine Conducts.load hA fun w2 hle2 hinv => ?_
    refine (Token.mintWrites_conducts List.prefix_rfl (hinv.wallet _).isUUID).seq ?_
    intro r w3 hle3 hmint
    cases r with
    | error reason => exact Ensures.throw
    | ok ws =>
      obtain ⟨hplan, hspecs⟩ := hmint ws rfl
      refine Ensures.pure fun w4 hle4 plan' ws' h => ?_
      cases h
      have hle14 := hle2.trans (hle3.trans hle4)
      refine ⟨(hsrcPlan.grow hle14).append (hplan.grow hle4), fun leg hleg => ?_⟩
      obtain ⟨m, hm, rfl⟩ := List.mem_map.mp hleg
      obtain ⟨hheld, hsource⟩ := hsrcHeld m hm
      refine ⟨rfl, Or.inr ⟨_, List.mem_append_right _ (hspecs _ List.mem_cons_self)⟩, ?_, hsource⟩
      exact hheld.mono hle14 (List.subset_append_left _ _)

theorem planReversal_conducts {a : ReversalAccepted} (es : List TransferEvent) :
    Conducts R A (planReversal id a)
      (fun r w' => ∀ plan ws, r = .ok (plan, ws) →
        Plannable w' id plan ws (.reversalRequestAccepted a :: es)) w := by
  refine (reversalManifest_conducts hA).seq fun r w1 _ hman => ?_
  cases r with
  | error reason => exact Ensures.throw
  | ok plan =>
    obtain ⟨-, legs, hlegs, hplan, hheld⟩ := hman plan rfl
    refine Ensures.pure fun w2 hle2 plan' ws h => ?_
    cases h
    refine ⟨nofun, legs, World.legs_grow hle2 hlegs, hplan, fun leg hleg => ?_⟩
    obtain ⟨⟨s, hs⟩, d, hd⟩ := hheld leg hleg
    exact ⟨⟨s, Or.inl (hs.grow hle2)⟩, d, Or.inl (hd.grow hle2)⟩

/-! ### Recording the plan -/

/-- What is known of a Transfer whose next step was claimed. -/
def ClaimedFor (w : World) (id : Id) (step : ClaimedStep) : Prop :=
  w.legs id = .ok step.legs ∧ w.stage id = .ok step.stage

omit hA in
theorem ClaimedFor.grow {step : ClaimedStep} (h : ClaimedFor w id step) (hle : w ≤ w') :
    ClaimedFor w' id step :=
  ⟨World.legs_grow hle h.1, World.stage_grow hle h.2⟩

omit hA in
/-- A plan that landed is what the stream says. -/
theorem claimedFor_of_landed {legs : List TransferLeg} {stage : Bool} {seq : Nat} {st : Store}
    (hinv : Inv R w) (heq : w.transfer id = rows) (hs : currentState (eventsOf rows) = .accepted)
    (hstage : stageRequested (eventsOf rows) = .ok stage)
    (hst : appendAtomic w.clock w.store (ws ++ [⟨.transfer, id, rows.length,
        [TransferEvent.transferPrepared id legs, nextMarker id stage]⟩]) = .ok st) :
    ClaimedFor { w with store := st } id ⟨seq, legs, stage⟩ := by
  obtain ⟨-, hland⟩ := appendAtomic_landed hst
    (List.mem_append_right _ (List.mem_singleton.mpr rfl)) (by simp)
  have hevents : eventsOf (World.transfer { w with store := st } id) =
      eventsOf rows ++ [.transferPrepared id legs, nextMarker id stage] := by
    change eventsOf (st .transfer id) = _
    rw [show st .transfer id = _ from hland, eventsOf_append, eventsOf_rowsFrom]
    rw [show w.store .transfer id = rows from heq]
  constructor
  · unfold World.legs
    rw [hevents, preparedLegs_append_of_none]
    · rfl
    · rw [← heq] at hs ⊢
      exact (hinv.lifecycle id).not_prepared (by rw [hs]; decide)
  · unfold World.stage
    rw [hevents]
    exact stageRequested_grow hstage (List.prefix_append _ _)

theorem landPlan_conducts {plan : List Leg} (hrows : rows <+: w.transfer id)
    (hs : currentState (eventsOf rows) = .accepted)
    (hplan : Plannable w id plan ws (eventsOf rows)) :
    Conducts R A (landPlan id rows plan ws)
      (fun r w' => ∀ step, r = .claimed step → ClaimedFor w' id step) w := by
  refine generateLegs_conducts.seq fun legs w1 hle1 hlegs => ?_
  obtain ⟨hplain, hnd, hids⟩ := hlegs
  refine Conducts.check_bind fun stage hstage => ?_
  refine Conducts.appendWrites hA (fun w2 st hle2 _ hinv hst => ?_) fun err w2 _ => ?_
  · -- the plan lands only where it was made
    obtain ⟨hlen, hland⟩ := appendAtomic_landed hst
      (List.mem_append_right _ (List.mem_singleton.mpr rfl)) (by simp)
    have heq : w2.transfer id = rows :=
      ((hrows.trans ((hle1.trans hle2).stream .transfer id)).eq_of_length hlen.symm).symm
    have hacc : currentState (eventsOf (w2.transfer id)) = .accepted := by rw [heq]; exact hs
    refine ⟨fun x hx _ => ?_, ?_⟩
    · obtain ⟨hmint, hman⟩ := hplan.grow (hle1.trans hle2)
      rcases List.mem_append.mp hx with hx | hx
      · exact hmint.legal (List.subset_append_left _ _) hst hx
      · obtain rfl := List.mem_singleton.mp hx
        refine TransferAppend.prepared hacc ?_ ⟨hnd, fun leg hleg => ?_⟩ ?_
        · unfold World.stage
          rw [heq]
          exact hstage
        · obtain ⟨n, -, hid, hget⟩ := hids leg hleg
          obtain ⟨t, ht⟩ := hle2.issued
          refine ⟨n, hid, ?_⟩
          rw [← ht, List.getElem?_append_left (List.getElem?_eq_some_iff.mp hget).1]
          exact hget
        · rw [hplain, heq]
          exact hman.grow le_rfl List.prefix_rfl fun _ _ hh =>
            hh.mono le_rfl (List.subset_append_left _ _)
    · refine Ensures.pure fun w3 hle3 step h => ?_
      obtain rfl := Planned.claimed.inj h
      exact (claimedFor_of_landed hinv heq hs hstage hst).grow hle3
  · cases err with
    | concurrencyConflict =>
      refine (overtaken_obeys contract_reads _ _).seq fun moved _ _ _ => ?_
      cases moved with
      | true => exact Ensures.pure fun _ _ step h => by simp at h
      | false => exact Ensures.throw
    | _ => exact Ensures.throw

theorem failUnprepared_conducts {reason : Text} (hrows : rows <+: w.transfer id)
    (hs : currentState (eventsOf rows) = .accepted) :
    Conducts R A (failUnprepared id rows.length reason)
      (fun r w' => ∀ step, r = .claimed step → ClaimedFor w' id step) w := by
  refine (tryAppend_conducts hA (P := True) hrows fun w1 _ _ hinv heq => ⟨?_, trivial⟩).seq ?_
  · have hacc : currentState (eventsOf (w1.transfer id)) = .accepted := by rw [heq]; exact hs
    exact .outcome (by rw [hacc]; simp [transitions, TransferEvent.eventType])
      (Or.inr (unprepared_of_accepted hinv hacc))
  · intro landed _ _ _
    cases landed <;> exact Ensures.pure fun _ _ step h => by simp at h

theorem finishPlan_conducts {r : Except Text (List Leg × List StreamWrite)}
    (hrows : rows <+: w.transfer id) (hs : currentState (eventsOf rows) = .accepted)
    (hplan : ∀ plan ws, r = .ok (plan, ws) → Plannable w id plan ws (eventsOf rows)) :
    Conducts R A (finishPlan id rows r)
      (fun r w' => ∀ step, r = .claimed step → ClaimedFor w' id step) w := by
  cases r with
  | error reason => exact failUnprepared_conducts hA hrows hs
  | ok p => exact landPlan_conducts hA hrows hs (hplan p.1 p.2 rfl)

theorem tryPrepare_conducts :
    Conducts R A (tryPrepare id)
      (fun r w' => ∀ step, r = .claimed step → ClaimedFor w' id step) w := by
  refine Conducts.load_transfer hA fun w1 _ _ => ?_
  split
  · exact Ensures.throw
  · rename_i first rest hes
    split
    · exact Ensures.pure fun _ _ step h => by simp at h
    · rename_i hacc
      have hacc := not_not.mp hacc
      split
      · rename_i a
        refine (planForward_conducts hA rest).seq fun r w2 hle2 hplan => ?_
        refine finishPlan_conducts hA (hle2.stream .transfer id) hacc fun plan ws hr => ?_
        rw [hes]
        exact hplan plan ws hr
      · rename_i a
        refine (planReversal_conducts hA rest).seq fun r w2 hle2 hplan => ?_
        refine finishPlan_conducts hA (hle2.stream .transfer id) hacc fun plan ws hr => ?_
        rw [hes]
        exact hplan plan ws hr
      · exact Ensures.throw

theorem prepare_conducts : ∀ (fuel : Nat) {w : World},
    Conducts R A (prepare id fuel)
      (fun r w' => ∀ step, r = some step → ClaimedFor w' id step) w
  | 0, _ => Ensures.halted
  | fuel + 1, w => by
    refine (tryPrepare_conducts hA).seq fun r w1 _ hr => ?_
    cases r with
    | overtaken => exact Conducts.wait fun _ _ => prepare_conducts fuel
    | nothing => exact Ensures.pure fun _ _ step h => by simp at h
    | claimed step =>
      refine Ensures.pure fun w2 hle2 step' h => ?_
      cases h
      exact (hr step rfl).grow hle2

end

end MoneyFlow.Transfer
