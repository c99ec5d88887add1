import PktDrop.FlowBuckets

/-! The aging of store entries, abstractly: at each report a hit sets an entry's credit to 3, a
quiet cycle takes one off, a kill sets it to 0, and the entry is gone at 0. The stores refine it
key by key (PktDrop.Lifetime). -/
namespace PktDrop

/-- What happened to one key in one cycle. -/
structure Obs where
  hit : Bool
  kill : Bool

/-- The credit after one more cycle. -/
def Obs.next (o : Obs) (c : ℕ) : ℕ := if o.kill then 0 else if o.hit then 3 else c - 1

/-- The credit after a history of cycles, newest first. -/
def credit : List Obs → ℕ
  | [] => 0
  | o :: os => o.next (credit os)

/-- A hit in one of the last three cycles of a history (newest first), with no kill in that
cycle or after it. -/
def Recent (os : List Obs) : Prop :=
  ∃ i < 3, (∃ o, os[i]? = some o ∧ o.hit) ∧ ∀ j ≤ i, ∀ o, os[j]? = some o → o.kill = false

/-- The same window, one cycle at a time from the newest. -/
def RecentWithin : ℕ → List Obs → Prop
  | 0, _ => False
  | _ + 1, [] => False
  | w + 1, o :: os => o.kill = false ∧ (o.hit = true ∨ RecentWithin w os)

theorem next_le_three (o : Obs) {c : ℕ} (hc : c ≤ 3) : o.next c ≤ 3 := by
  unfold Obs.next; split_ifs <;> omega

/-- A credit left after a cycle without kill comes from a hit or from a credit before it. -/
theorem next_pos {hit : Bool} {c : ℕ} (h : 0 < (Obs.mk hit false).next c) : hit = true ∨ 0 < c := by
  cases hit
  · exact .inr (by simp [Obs.next] at h; omega)
  · exact .inl rfl

/-- Credits keep their order through a quiet report. -/
theorem next_le_next {h h' : Bool} {c c' : ℕ} (hh : h = true → h' = true) (hc : c ≤ c')
    (h3 : c' ≤ 3) : (Obs.mk h false).next c ≤ (Obs.mk h' false).next c' := by
  cases h' with
  | true => exact next_le_three _ (hc.trans h3)
  | false =>
    have : h = false := Bool.eq_false_iff.mpr fun h1 => absurd (hh h1) (by decide)
    simp [Obs.next, this]
    omega

theorem credit_le_three (os : List Obs) : credit os ≤ 3 := by
  induction os with
  | nil => exact Nat.zero_le _
  | cons o os ih => exact next_le_three o ih

theorem recentWithin_iff (w : ℕ) (os : List Obs) :
    RecentWithin w os ↔
      ∃ i < w, (∃ o, os[i]? = some o ∧ o.hit) ∧ ∀ j ≤ i, ∀ o, os[j]? = some o → o.kill = false := by
  induction w generalizing os with
  | zero => simp [RecentWithin]
  | succ w ih =>
    cases os with
    | nil => simp [RecentWithin]
    | cons o os =>
      simp only [RecentWithin, ih]
      constructor
      · rintro ⟨hk, hh | ⟨i, hi, ⟨o', ho', hh⟩, hkill⟩⟩
        · refine ⟨0, Nat.succ_pos _, ⟨o, by simp, hh⟩, fun j hj o' ho' => ?_⟩
          obtain rfl := Nat.le_zero.mp hj
          simp only [List.getElem?_cons_zero, Option.some.injEq] at ho'
          exact ho' ▸ hk
        · refine ⟨i + 1, by omega, ⟨o', by simpa using ho', hh⟩, fun j hj o'' ho'' => ?_⟩
          cases j with
          | zero =>
            simp only [List.getElem?_cons_zero, Option.some.injEq] at ho''
            exact ho'' ▸ hk
          | succ j => exact hkill j (by omega) o'' (by simpa using ho'')
      · rintro ⟨i, hi, ⟨o', ho', hh⟩, hkill⟩
        refine ⟨hkill 0 (Nat.zero_le _) o (by simp), ?_⟩
        cases i with
        | zero =>
          simp only [List.getElem?_cons_zero, Option.some.injEq] at ho'
          exact .inl (ho' ▸ hh)
        | succ i =>
          exact .inr ⟨i, by omega, ⟨o', by simpa using ho', hh⟩,
            fun j hj o'' ho'' => hkill (j + 1) (by omega) o'' (by simpa using ho'')⟩

/-- A credit of at least m means a hit within the last 4 - m cycles and no kill since. -/
theorem le_credit_iff (os : List Obs) {m : ℕ} (hm : 0 < m) (hm3 : m ≤ 3) :
    m ≤ credit os ↔ RecentWithin (4 - m) os := by
  induction os generalizing m with
  | nil =>
    obtain ⟨w, hw⟩ : ∃ w, 4 - m = w + 1 := ⟨3 - m, by omega⟩
    simp [credit, hw, RecentWithin]; omega
  | cons o os ih =>
    obtain ⟨w, hw⟩ : ∃ w, 4 - m = w + 1 := ⟨3 - m, by omega⟩
    rw [hw, RecentWithin, credit, Obs.next]
    cases hk : o.kill <;> cases hh : o.hit <;> simp only [if_true, if_false, Bool.false_eq_true]
    · by_cases h3 : m = 3
      · subst h3
        have := credit_le_three os
        simp [show w = 0 by omega, RecentWithin]
        omega
      · rw [show w = 4 - (m + 1) by omega, ← ih (by omega) (by omega)]
        simp only [true_and, false_or]
        omega
    · simp; omega
    · simp; omega
    · simp; omega

/-- The window lemma: after a history, the credit is positive exactly when the key was hit in
one of the last three cycles and not killed since. -/
theorem credit_pos_iff (os : List Obs) : 0 < credit os ↔ Recent os := by
  rw [Recent, ← recentWithin_iff]
  exact le_credit_iff os (m := 1) (by decide) (by decide)

/-- The code's aging step is the credit step of a cycle without kill, when the count is zero
exactly in a cycle without hit and a quiet entry has a credit left: it then never decrements a
zero credit. -/
theorem age_next {total : UInt32} {aging : UInt8} {hit : Bool} (hhit : total = 0 ↔ hit = false)
    (hpos : hit = false → 0 < aging.toNat) :
    (age total aging).1.toNat = (Obs.mk hit false).next aging.toNat ∧
      ((age total aging).2 = true ↔ (Obs.mk hit false).next aging.toNat = 0) := by
  cases hit with
  | true =>
    have : total ≠ 0 := fun h => absurd (hhit.mp h) (by decide)
    simp [age, Obs.next, this]
  | false =>
    have hsub : (aging - 1).toNat = aging.toNat - 1 := UInt8.toNat_sub_of_le _ _ (hpos rfl)
    have ht : total = 0 := hhit.mpr rfl
    simp only [age, ht, ne_eq, not_true_eq_false, if_false, Obs.next, Bool.false_eq_true, hsub,
      decide_eq_true_eq, true_and]
    exact ⟨fun h => by rw [← hsub, h]; rfl, fun h => UInt8.toNat.inj (hsub.trans h)⟩

end PktDrop
