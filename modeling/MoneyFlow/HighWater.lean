import Mathlib

/-!
# MoneyFlow.HighWater

A read model that is guarded by a high-water mark.

A log is a list of numbered events, the numbers ascending; some events name a
state. The read model keeps the state named last and the number of the last event
it took (`Mark`): it opens with an event that names a state, takes an event only
if its number is above the mark, and an event that names nothing moves the mark
all the same. Events arrive in any order and more than once.

Nothing is ever taken back, but an event that arrives late is lost. What is on
record at the end is what the log names last if the last event to name a state
arrives before all later ones, or at least before all later ones that find the
read model open (`Timely`); and if the log names no state twice, only then
(`agrees_iff`).
-/

namespace MoneyFlow.HighWater

variable {ε σ : Type} {f : ε → Option σ}

/-- The state named last, and the number of the last event taken. -/
structure Mark (σ : Type) where
  state : σ
  last : Nat

/-- One event arrives. -/
def receive (f : ε → Option σ) (row : Option (Mark σ)) (d : Nat × ε) : Option (Mark σ) :=
  match row with
  | none => (f d.2).map fun s => ⟨s, d.1⟩
  | some r => if r.last < d.1 then some ⟨(f d.2).getD r.state, d.1⟩ else some r

/-- Events arrive in this order. -/
def receiveAll (f : ε → Option σ) (row : Option (Mark σ)) (ds : List (Nat × ε)) : Option (Mark σ) :=
  ds.foldl (receive f) row

/-- The state the log names last. -/
def named (f : ε → Option σ) (log : List (Nat × ε)) : Option σ :=
  (log.filterMap fun d => f d.2).getLast?

/-- The last event of the log to name a state. -/
def Last (f : ε → Option σ) (log : List (Nat × ε)) (t : Nat × ε) (s : σ) : Prop :=
  t ∈ log ∧ f t.2 = some s ∧ ∀ d ∈ log, t.1 < d.1 → f d.2 = none

/-- Once some event that names a state has arrived, no event after the last one to
name a state arrives before that one has. -/
def Timely (f : ε → Option σ) (log ds : List (Nat × ε)) : Prop :=
  ∀ t s, Last f log t s → ∀ before d after, ds = before ++ d :: after →
    (∃ a ∈ before, (f a.2).isSome = true) → t.1 < d.1 → t ∈ before

/-- The numbers ascend. -/
def Ascending (log : List (Nat × ε)) : Prop := log.Pairwise fun a b => a.1 < b.1

/-! ### The log -/

theorem named_append_none {log rest : List (Nat × ε)} (h : ∀ d ∈ rest, f d.2 = none) :
    named f (log ++ rest) = named f log := by
  have hrest : rest.filterMap (fun d => f d.2) = [] := by
    rw [List.filterMap_eq_nil_iff]
    exact h
  unfold named
  rw [List.filterMap_append, hrest, List.append_nil]

/-- A log that names a state has a last event that does. -/
theorem exists_last {log : List (Nat × ε)} (hlog : Ascending log) {s : σ}
    (h : named f log = some s) : ∃ t, Last f log t s := by
  induction log using List.reverseRecOn with
  | nil => cases h
  | append_singleton log d ih =>
    obtain ⟨hpre, -, hcross⟩ := List.pairwise_append.mp hlog
    cases hd : f d.2 with
    | some s' =>
      obtain rfl : s' = s := by simpa [named, hd] using h
      refine ⟨d, List.mem_append_right _ List.mem_cons_self, hd, fun d' hd' hlt => ?_⟩
      rcases List.mem_append.mp hd' with hd' | hd'
      · exact absurd (hcross d' hd' d List.mem_cons_self) (Nat.lt_asymm hlt)
      · obtain rfl := List.mem_singleton.mp hd'
        exact absurd hlt (Nat.lt_irrefl _)
    | none =>
      have hnone : ∀ d' ∈ [d], f d'.2 = none := by
        intro d' hd'
        obtain rfl := List.mem_singleton.mp hd'
        exact hd
      rw [named_append_none hnone] at h
      obtain ⟨t, ht, hs, hlate⟩ := ih hpre h
      refine ⟨t, List.mem_append_left _ ht, hs, fun d' hd' hlt => ?_⟩
      rcases List.mem_append.mp hd' with hd' | hd'
      · exact hlate d' hd' hlt
      · exact hnone d' hd'

theorem named_none {log : List (Nat × ε)} (h : named f log = none) {d : Nat × ε} (hd : d ∈ log) :
    f d.2 = none := by
  unfold named at h
  rw [List.getLast?_eq_none_iff, List.filterMap_eq_nil_iff] at h
  exact h d hd

theorem eq_of_number {log : List (Nat × ε)} (hlog : Ascending log) {a b : Nat × ε} (ha : a ∈ log)
    (hb : b ∈ log) (h : a.1 = b.1) : a = b := by
  have hne : log.Pairwise fun a b => a.1 ≠ b.1 :=
    List.Pairwise.imp (fun hlt => Nat.ne_of_lt hlt) hlog
  have : Std.Symm fun a b : Nat × ε => a.1 ≠ b.1 := ⟨fun _ _ h => h.symm⟩
  by_contra hab
  exact hne.forall ha hb hab h

/-- What the last event to name a state names is what the log names last. -/
theorem Last.named {log : List (Nat × ε)} (hlog : Ascending log) {t : Nat × ε} {s : σ}
    (h : Last f log t s) : named f log = some s := by
  obtain ⟨ht, hs, hlate⟩ := h
  cases hn : HighWater.named f log with
  | none =>
    rw [named_none hn ht] at hs
    cases hs
  | some s' =>
    obtain ⟨t', ht', hs', hlate'⟩ := exists_last hlog hn
    have hle : ¬ t.1 < t'.1 := fun hlt => nomatch hs'.symm.trans (hlate t' ht' hlt)
    have hge : ¬ t'.1 < t.1 := fun hlt => nomatch hs.symm.trans (hlate' t ht hlt)
    obtain rfl := eq_of_number hlog ht ht' (by omega)
    rw [← hs, ← hs']

/-! ### What has arrived -/

theorem receiveAll_snoc (row : Option (Mark σ)) (ds : List (Nat × ε)) (d : Nat × ε) :
    receiveAll f row (ds ++ [d]) = receive f (receiveAll f row ds) d := by
  unfold receiveAll
  rw [List.foldl_append]
  rfl

theorem receiveAll_append_cons (row : Option (Mark σ)) (ds after : List (Nat × ε)) (d : Nat × ε) :
    receiveAll f row (ds ++ d :: after) =
      receiveAll f (receive f (receiveAll f row ds) d) after := by
  unfold receiveAll
  rw [List.foldl_append]
  rfl

/-- What is on record was named by an event that arrived. -/
theorem named_of_received {ds : List (Nat × ε)} {r : Mark σ} (h : receiveAll f none ds = some r) :
    ∃ d ∈ ds, f d.2 = some r.state := by
  induction ds using List.reverseRecOn generalizing r with
  | nil => cases h
  | append_singleton ds d ih =>
    rw [receiveAll_snoc] at h
    have hhere {s : σ} (hd : f d.2 = some s) : ∃ d' ∈ ds ++ [d], f d'.2 = some s :=
      ⟨d, List.mem_append_right _ List.mem_cons_self, hd⟩
    cases hrow : receiveAll f none ds with
    | none =>
      rw [hrow] at h
      obtain ⟨s, hs, rfl⟩ := Option.map_eq_some_iff.mp h
      exact hhere hs
    | some r0 =>
      obtain ⟨d0, hd0, hs0⟩ := ih hrow
      have hthere : ∃ d' ∈ ds ++ [d], f d'.2 = some r0.state :=
        ⟨d0, List.mem_append_left _ hd0, hs0⟩
      rw [hrow, receive] at h
      split at h
      · cases h
        cases hd : f d.2 with
        | none => exact hthere
        | some s => exact hhere hd
      · cases h
        exact hthere

/-- An event that names a state finds the read model open, or opens it. -/
theorem received_of_named {ds : List (Nat × ε)} (h : ∃ a ∈ ds, (f a.2).isSome = true) :
    ∃ r, receiveAll f none ds = some r := by
  obtain ⟨a, ha, hs⟩ := h
  induction ds using List.reverseRecOn with
  | nil => cases ha
  | append_singleton ds d ih =>
    rw [receiveAll_snoc]
    cases hrow : receiveAll f none ds with
    | none =>
      rcases List.mem_append.mp ha with ha | ha
      · obtain ⟨r, hr⟩ := ih ha
        exact nomatch hrow.symm.trans hr
      · obtain rfl := List.mem_singleton.mp ha
        obtain ⟨s, hs⟩ := Option.isSome_iff_exists.mp hs
        exact ⟨⟨s, a.1⟩, by rw [receive, hs]; rfl⟩
    | some r =>
      rw [receive]
      split
      · exact ⟨_, rfl⟩
      · exact ⟨_, rfl⟩

/-- Past the last event to name a state, the state is settled. -/
theorem settled {t : Nat} {ds : List (Nat × ε)} (hlate : ∀ d ∈ ds, t < d.1 → f d.2 = none)
    {r : Mark σ} (hr : t ≤ r.last) : (receiveAll f (some r) ds).map Mark.state = some r.state := by
  induction ds generalizing r with
  | nil => rfl
  | cons d ds ih =>
    have ih {r : Mark σ} := ih (fun d' hd' => hlate d' (List.mem_cons_of_mem _ hd')) (r := r)
    change (receiveAll f (receive f (some r) d) ds).map Mark.state = _
    rw [receive]
    split
    · rename_i hlt
      rw [hlate d List.mem_cons_self (Nat.lt_of_le_of_lt hr hlt)]
      exact ih (r := ⟨r.state, d.1⟩) (Nat.le_of_lt (Nat.lt_of_le_of_lt hr hlt))
    · exact ih hr

/-- The mark stays below the last event to name a state as long as that one has
not arrived and is not overtaken. -/
theorem below {t : Nat} {ds : List (Nat × ε)} (hlate : ∀ d ∈ ds, t < d.1 → f d.2 = none)
    (hne : ∀ d ∈ ds, d.1 ≠ t)
    (hkept : ∀ before d after, ds = before ++ d :: after →
      (∃ a ∈ before, (f a.2).isSome = true) → ¬ t < d.1)
    {r : Mark σ} (h : receiveAll f none ds = some r) : r.last < t := by
  induction ds using List.reverseRecOn generalizing r with
  | nil => cases h
  | append_singleton ds d ih =>
    have hmem : d ∈ ds ++ [d] := List.mem_append_right _ List.mem_cons_self
    have hd : d.1 ≠ t := hne d hmem
    have ih {r : Mark σ} : receiveAll f none ds = some r → r.last < t := by
      refine ih (fun d' hd' => hlate d' (List.mem_append_left _ hd'))
        (fun d' hd' => hne d' (List.mem_append_left _ hd')) ?_
      intro before d' after heq hnamed
      exact hkept before d' (after ++ [d]) (by rw [heq]; simp) hnamed
    rw [receiveAll_snoc] at h
    cases hrow : receiveAll f none ds with
    | none =>
      rw [hrow] at h
      obtain ⟨s, hs, rfl⟩ := Option.map_eq_some_iff.mp h
      have hle : ¬ t < d.1 := fun hlt => nomatch hs.symm.trans (hlate d hmem hlt)
      change d.1 < t
      omega
    | some r0 =>
      have hr0 := ih hrow
      rw [hrow, receive] at h
      split at h
      · obtain ⟨a, ha, hs⟩ := named_of_received hrow
        have hle : ¬ t < d.1 := hkept ds d [] rfl ⟨a, ha, by rw [hs]; rfl⟩
        cases h
        change d.1 < t
        omega
      · cases h
        exact hr0

/-! ### At the end -/

variable {log ds : List (Nat × ε)}

/-- What arrives in order arrives in time. -/
theorem timely_of_sorted (hall : ∀ d ∈ log, d ∈ ds) (h : ds.Pairwise fun a b => a.1 ≤ b.1) :
    Timely f log ds := by
  intro t s ht before d after heq _ hlt
  subst heq
  have hsorted := (List.pairwise_append.mp h).2.1
  rcases List.mem_append.mp (hall t ht.1) with hm | hm
  · exact hm
  · rcases List.mem_cons.mp hm with rfl | hm
    · exact absurd hlt (Nat.lt_irrefl _)
    · exact absurd ((List.pairwise_cons.mp hsorted).1 t hm) (Nat.not_le_of_lt hlt)

section

variable (hlog : Ascending log) (hin : ∀ d ∈ ds, d ∈ log)
include hlog hin

/-- **What arrives in time is on record.** -/
theorem agrees_of_timely (hall : ∀ d ∈ log, d ∈ ds) (h : Timely f log ds) :
    (receiveAll f none ds).map Mark.state = named f log := by
  cases hn : named f log with
  | none =>
    cases hrow : receiveAll f none ds with
    | none => rfl
    | some r =>
      obtain ⟨d, hd, hs⟩ := named_of_received hrow
      exact nomatch hs.symm.trans (named_none hn (hin d hd))
  | some s =>
    obtain ⟨t, ht⟩ := exists_last hlog hn
    obtain ⟨before, after, rfl, hnot⟩ := List.eq_append_cons_of_mem (hall t ht.1)
    have hlate : ∀ d ∈ before ++ t :: after, t.1 < d.1 → f d.2 = none :=
      fun d hd => ht.2.2 d (hin d hd)
    -- `t` is taken when it first arrives
    have htaken : receive f (receiveAll f none before) t = some ⟨s, t.1⟩ := by
      cases hrow : receiveAll f none before with
      | none => rw [receive, ht.2.1]; rfl
      | some r =>
        have hlt : r.last < t.1 := by
          refine below (fun d hd => hlate d (List.mem_append_left _ hd)) ?_ ?_ hrow
          · intro d hd heq
            have hsame := eq_of_number hlog (hin d (List.mem_append_left _ hd)) ht.1 heq
            exact hnot (hsame ▸ hd)
          · intro b d a heq hnamed hlt
            refine hnot ?_
            rw [heq]
            refine List.mem_append_left _ (h t s ht b d (a ++ t :: after) ?_ hnamed hlt)
            rw [heq]
            simp
        rw [receive, if_pos hlt, ht.2.1]
        rfl
    rw [receiveAll_append_cons, htaken]
    exact settled (t := t.1)
      (fun d hd => hlate d (List.mem_append_right _ (List.mem_cons_of_mem _ hd))) (Nat.le_refl _)

/-- **What is on record at the end arrived in time**, if no state is named
twice. -/
theorem timely_of_agrees
    (hdistinct : log.Pairwise fun a b => ∀ s, f a.2 = some s → f b.2 ≠ some s)
    (h : (receiveAll f none ds).map Mark.state = named f log) : Timely f log ds := by
  intro t s ht before d after heq hnamed hlt
  by_contra hnot
  have hlate : ∀ d ∈ ds, t.1 < d.1 → f d.2 = none := fun d hd => ht.2.2 d (hin d hd)
  subst heq
  -- the read model was open, and `d` moved the mark past `t`
  obtain ⟨r, hr⟩ := received_of_named hnamed
  obtain ⟨a, ha, hs⟩ := named_of_received hr
  have hd : f d.2 = none := hlate d (List.mem_append_right _ List.mem_cons_self) hlt
  have hpast : ∃ r', receive f (some r) d = some r' ∧ r'.state = r.state ∧ t.1 ≤ r'.last := by
    rw [receive]
    split
    · exact ⟨_, rfl, by rw [hd]; rfl, Nat.le_of_lt hlt⟩
    · exact ⟨_, rfl, rfl, by omega⟩
  obtain ⟨r', hr', hstate, hlast⟩ := hpast
  rw [receiveAll_append_cons, hr, hr', settled
    (fun d' hd' => hlate d' (List.mem_append_right _ (List.mem_cons_of_mem _ hd'))) hlast,
    ht.named hlog, hstate] at h
  -- so the state on record is one an earlier event named
  have hat : a ≠ t := fun hat => hnot (hat ▸ ha)
  have : Std.Symm fun a b : Nat × ε => ∀ s, f a.2 = some s → f b.2 ≠ some s :=
    ⟨fun _ _ hxy s hy hx => hxy s hx hy⟩
  exact hdistinct.forall (hin a (List.mem_append_left _ ha)) ht.1 hat s (hs.trans h) ht.2.1

/-- **The read model ends where the log does exactly if the last event to name a
state is not overtaken.** -/
theorem agrees_iff (hall : ∀ d ∈ log, d ∈ ds)
    (hdistinct : log.Pairwise fun a b => ∀ s, f a.2 = some s → f b.2 ≠ some s) :
    (receiveAll f none ds).map Mark.state = named f log ↔ Timely f log ds :=
  ⟨timely_of_agrees hlog hin hdistinct, agrees_of_timely hlog hin hall⟩

end

end MoneyFlow.HighWater
