import Mathlib

/-!
# MoneyFlow.Concurrent.History

Append-only histories whose every event was allowed by what came before it.

`History F h` says that each event `e` of `h` satisfies `F pre e`, where `pre`
is the part of `h` before it. A history is closed under prefixes, and one more
allowed event extends it, so a property of histories is proved one event at a
time.

`History.stays_or_rises` is the lemma that orders two readings of one log: if
every allowed event leaves a summary `f` of the log as it is or raises its rank,
then a later reading has the same summary or one of higher rank.
-/

namespace MoneyFlow.Concurrent

variable {α β : Type} {F : List α → α → Prop}

/-- Every event of `h` was allowed by the events before it. -/
def History (F : List α → α → Prop) (h : List α) : Prop :=
  ∀ pre e, pre ++ [e] <+: h → F pre e

namespace History

theorem nil : History F [] := by
  intro pre e h
  simp at h

theorem snoc_iff {h : List α} {e : α} : History F (h ++ [e]) ↔ History F h ∧ F h e := by
  refine ⟨fun hh => ⟨fun pre a hp => hh pre a (hp.trans (List.prefix_append h [e])),
    hh h e List.prefix_rfl⟩, ?_⟩
  rintro ⟨hh, he⟩ pre a hp
  rcases List.prefix_concat_iff.mp hp with heq | hp
  · obtain ⟨rfl, hae⟩ := List.append_inj' heq rfl
    obtain rfl : a = e := by simpa using hae
    exact he
  · exact hh pre a hp

theorem snoc {h : List α} {e : α} (hh : History F h) (he : F h e) : History F (h ++ [e]) :=
  snoc_iff.mpr ⟨hh, he⟩

theorem earlier {h h' : List α} (hh : History F h') (hp : h <+: h') : History F h :=
  fun pre e hpre => hh pre e (hpre.trans hp)

/-- An event of a history, with the events before it and the fact that they
allowed it. -/
theorem of_mem {h : List α} (hh : History F h) {e : α} (he : e ∈ h) :
    ∃ pre, pre ++ [e] <+: h ∧ F pre e := by
  obtain ⟨pre, post, rfl⟩ := List.append_of_mem he
  have hp : pre ++ [e] <+: pre ++ e :: post := ⟨post, by simp⟩
  exact ⟨pre, hp, hh pre e hp⟩

/-- A property of histories, proved one event at a time. -/
theorem induct {P : List α → Prop} (hnil : P [])
    (hsnoc : ∀ h e, History F h → F h e → P h → P (h ++ [e])) {h : List α} (hh : History F h) :
    P h := by
  induction h using List.reverseRecOn with
  | nil => exact hnil
  | append_singleton h e ih =>
    obtain ⟨hpre, he⟩ := snoc_iff.mp hh
    exact hsnoc h e hpre he (ih hpre)

/-- What each event is to every event before it. -/
theorem pairwise {R : α → α → Prop}
    (hstep : ∀ pre e, History F pre → F pre e → ∀ a ∈ pre, R a e) {h : List α}
    (hh : History F h) : h.Pairwise R := by
  refine induct (P := List.Pairwise R) List.Pairwise.nil (fun h e hh he ih => ?_) hh
  refine List.pairwise_append.mpr ⟨ih, List.pairwise_singleton _ _, fun a ha b hb => ?_⟩
  rw [List.mem_singleton.mp hb]
  exact hstep h e hh he a ha

/-- What is allowed only where it has not occurred occurs at most once. -/
theorem countP_le_one {p : α → Bool}
    (hstep : ∀ pre e, History F pre → F pre e → p e = true → ∀ a ∈ pre, p a = false) {h : List α}
    (hh : History F h) : h.countP p ≤ 1 := by
  refine induct (P := fun h => h.countP p ≤ 1) (Nat.zero_le 1) (fun h e hh he ih => ?_) hh
  rw [List.countP_append, List.countP_singleton]
  split
  · rename_i hp
    have : h.countP p = 0 := List.countP_eq_zero.mpr fun a ha => by simp [hstep h e hh he hp a ha]
    omega
  · omega

/-- A later reading of a log has the same summary, or one of higher rank. -/
theorem stays_or_rises (f : List α → β) (rank : β → Nat)
    (hstep : ∀ pre e, History F pre → F pre e →
      f (pre ++ [e]) = f pre ∨ rank (f pre) < rank (f (pre ++ [e])))
    {h h' : List α} (hh : History F h') (hp : h <+: h') :
    f h' = f h ∨ rank (f h) < rank (f h') := by
  obtain ⟨t, rfl⟩ := hp
  induction t using List.reverseRecOn with
  | nil => simp
  | append_singleton t e ih =>
    rw [← List.append_assoc] at hh ⊢
    obtain ⟨hpre, he⟩ := snoc_iff.mp hh
    rcases ih hpre with heq | hlt
    · rcases hstep _ _ hpre he with hs | hs
      · exact Or.inl (hs.trans heq)
      · exact Or.inr (heq ▸ hs)
    · rcases hstep _ _ hpre he with hs | hs
      · exact Or.inr (hs.symm ▸ hlt)
      · exact Or.inr (hlt.trans hs)

end History

end MoneyFlow.Concurrent
