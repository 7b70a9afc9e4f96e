import KisAutotrader.Analytics
import KisAutotrader.RiskCharacterisation
import KisAutotrader.Stretches

/-!
# Two streaks of losses

The analytics end a streak at a sell that breaks even, the risk manager only at one with a
profit. Both count the amounts of one day in the order of the sells.
-/
namespace KisAutotrader.Analytics.LossStreaks
open RiskCharacterisation RiskManager Stretches

/-- The streak rule of `record_trade_result` trips at one of the amounts. -/
def StreakHalts (l : RiskLimits) (r : RiskManager) (amounts : List ℚ) : Prop :=
  ∃ p x, p ++ [x] <+: amounts ∧
    l.maxConsecutiveLosses ≤ ((recordAll l r.resetDailyRisk (p ++ [x])).consecutiveLosses : ℤ)

/-- The analytics of the day's amounts and the risk manager that recorded them agree. -/
structure Agree (l : RiskLimits) (r : RiskManager) (amounts : List ℚ) : Prop where
  current : (consecutiveLossesOf amounts).currentLossStreak =
    (recordAll l r.resetDailyRisk amounts).consecutiveLosses
  limit : l.maxConsecutiveLosses ≤ ((consecutiveLossesOf amounts).maxLossStreak : ℤ) ↔
    StreakHalts l r amounts

/-- No sell of the day breaks even on a streak of losses. -/
def EvenOffStreak (amounts : List ℚ) : Prop := ∀ p, p ++ [0] <+: amounts → lossStreak p = 0

/-- No sell that breaks even on a streak of losses comes after the last profit. -/
def EndsOffStreak (amounts : List ℚ) : Prop :=
  ∀ p q, amounts = p ++ 0::q → (∀ x ∈ q, x ≤ 0) → lossStreak p = 0

/-- So many losses with no profit between them. -/
def LossesApart (n : ℤ) (amounts : List ℚ) : Prop :=
  ∃ s, s <:+: amounts ∧ (∀ x ∈ s, x ≤ 0) ∧ n ≤ ((s.filter (· < 0)).length : ℤ)

/-- So many losses one after the other. -/
def LossesInARow (n : ℤ) (amounts : List ℚ) : Prop :=
  ∃ s, s <:+: amounts ∧ (∀ x ∈ s, x < 0) ∧ n ≤ (s.length : ℤ)

/-- What sells that break even do not disturb. -/
structure Undisturbed (limit : ℤ) (amounts : List ℚ) : Prop where
  last : EndsOffStreak amounts
  reached : LossesApart limit amounts → LossesInARow limit amounts
  begun : limit ≤ 0 → amounts ≠ []

def streaks (amounts : List ℚ) : Streaks := amounts.foldl Streaks.next {}

section Streaks
variable {xs : List ℚ} {x : ℚ}

theorem streaks_snoc (xs : List ℚ) (x : ℚ) : streaks (xs ++ [x]) = (streaks xs).next x := by
  simp [streaks]

theorem currentLoss_snoc (xs : List ℚ) (x : ℚ) : (streaks (xs ++ [x])).currentLoss =
    if x < 0 then (streaks xs).currentLoss + 1 else 0 := by
  rw [streaks_snoc]
  unfold Streaks.next
  rcases lt_trichotomy x 0 with hx | rfl | hx
  · simp [hx, hx.not_gt]
  · simp
  · simp [hx, hx.not_gt]

theorem maxLoss_snoc (xs : List ℚ) (x : ℚ) : (streaks (xs ++ [x])).maxLoss =
    max (streaks xs).maxLoss (streaks (xs ++ [x])).currentLoss := by
  rw [currentLoss_snoc, streaks_snoc]
  unfold Streaks.next
  rcases lt_trichotomy x 0 with hx | rfl | hx
  · simp [hx, hx.not_gt]
  · simp
  · simp [hx, hx.not_gt]

/-- The longest streak is the longest there was after some of the amounts. -/
theorem maxLoss_isGreatest (xs : List ℚ) :
    IsGreatest {n | ∃ p, p <+: xs ∧ (streaks p).currentLoss = n} (streaks xs).maxLoss := by
  induction xs using List.reverseRecOn with
  | nil => exact ⟨⟨[], List.prefix_rfl, rfl⟩, by simp [streaks, upperBounds]⟩
  | append_singleton xs x ih =>
    obtain ⟨⟨p, hp, hstreak⟩, hbound⟩ := ih
    rw [maxLoss_snoc]
    constructor
    · rcases max_choice (streaks xs).maxLoss (streaks (xs ++ [x])).currentLoss with hmax | hmax
      · exact ⟨p, hp.trans (List.prefix_append _ _), hstreak.trans hmax.symm⟩
      · exact ⟨xs ++ [x], List.prefix_rfl, hmax.symm⟩
    · rintro n ⟨q, hq, rfl⟩
      obtain rfl | hq := List.prefix_concat_iff.mp hq
      · exact le_max_right _ _
      · exact (hbound ⟨q, hq, rfl⟩).trans (le_max_left _ _)

theorem EvenOffStreak.of_prefix (h : EvenOffStreak xs) {p : List ℚ} (hp : p <+: xs) :
    EvenOffStreak p := fun q hq => h q (hq.trans hp)

/-- A profit alone ends the manager's streak. -/
theorem lossStreak_le_append (xs : List ℚ) {q : List ℚ} (hq : ∀ x ∈ q, x ≤ 0) :
    lossStreak xs ≤ lossStreak (xs ++ q) := by
  induction q using List.reverseRecOn with
  | nil => simp
  | append_singleton q x ih =>
    have hold := ih fun y hy => hq y (List.mem_append_left _ hy)
    have hx : x ≤ 0 := hq x (by simp)
    rw [← List.append_assoc, lossStreak_snoc]
    split_ifs with hloss hprofit
    · omega
    · exact absurd hprofit hx.not_gt
    · exact hold

theorem EndsOffStreak.of_zero (h : lossStreak xs = 0) : EndsOffStreak xs := by
  rintro p q rfl hq
  have hrest : ∀ x ∈ 0::q, x ≤ 0 := by
    intro x hx
    rcases List.mem_cons.mp hx with rfl | hx
    · exact le_rfl
    · exact hq x hx
  have hle := lossStreak_le_append p hrest
  omega

/-- A sell that breaks even is a later one, or the last. -/
theorem endsOffStreak_snoc : EndsOffStreak (xs ++ [x]) ↔
    (x = 0 → lossStreak xs = 0) ∧ (x ≤ 0 → EndsOffStreak xs) := by
  constructor
  · intro h
    constructor
    · rintro rfl
      exact h xs [] rfl (by simp)
    · rintro hx p q rfl hq
      apply h p (q ++ [x]) (by simp)
      intro y hy
      rcases List.mem_append.mp hy with hy | hy
      · exact hq y hy
      · exact List.mem_singleton.mp hy ▸ hx
  · rintro ⟨hzero, hrest⟩ p q hsplit hq
    rcases List.eq_nil_or_concat' q with rfl | ⟨q, y, rfl⟩
    · obtain ⟨rfl, hx⟩ := List.append_inj' hsplit rfl
      exact hzero (List.singleton_inj.mp hx)
    · rw [← List.cons_append, ← List.append_assoc] at hsplit
      obtain ⟨hxs, hx⟩ := List.append_inj' hsplit rfl
      have hlast : x ≤ 0 := List.singleton_inj.mp hx ▸ hq y (by simp)
      exact hrest hlast p q hxs fun z hz => hq z (List.mem_append_left _ hz)

/-- The two streaks are the same exactly if no sell breaks even on one since the last profit. -/
theorem currentLoss_eq_iff (xs : List ℚ) :
    (streaks xs).currentLoss = lossStreak xs ↔ EndsOffStreak xs := by
  induction xs using List.reverseRecOn with
  | nil => exact iff_of_true rfl (.of_zero rfl)
  | append_singleton xs x ih =>
    rw [currentLoss_snoc, lossStreak_snoc, endsOffStreak_snoc]
    rcases lt_trichotomy x 0 with hx | rfl | hx
    · simp [hx, hx.ne, hx.le, ih]
    · simp only [lt_irrefl, if_false, true_imp_iff, le_refl]
      exact ⟨fun h => ⟨h.symm, .of_zero h.symm⟩, fun h => h.1.symm⟩
    · simp [hx, hx.ne', hx.not_ge, hx.not_gt]

theorem EvenOffStreak.ends (h : EvenOffStreak xs) : EndsOffStreak xs := by
  rintro p q rfl -
  exact h p ⟨q, by simp⟩

theorem currentLoss_eq (h : EvenOffStreak xs) : (streaks xs).currentLoss = lossStreak xs :=
  (currentLoss_eq_iff xs).mpr h.ends

theorem currentLoss_eq_length (xs : List ℚ) :
    (streaks xs).currentLoss = (xs.rtakeWhile (· < 0)).length := by
  induction xs using List.reverseRecOn with
  | nil => rfl
  | append_singleton xs x ih =>
    rw [currentLoss_snoc, ih]
    split_ifs with hx
    · rw [List.rtakeWhile_concat_pos _ _ _ (by simpa using hx)]
      simp
    · rw [List.rtakeWhile_concat_neg _ _ _ (by simpa using hx)]
      rfl

theorem le_maxLoss_iff (n : ℤ) (xs : List ℚ) :
    n ≤ ((streaks xs).maxLoss : ℤ) ↔ LossesInARow n xs := by
  have hlength : ∀ s t : List ℚ, s <:+ t → (s.length : ℤ) ≤ t.length := fun s t h => by
    exact_mod_cast h.length_le
  have hparts := exists_prefix_iff (f := fun x : ℚ => decide (x < 0)) (l := xs) (n := n) hlength
  simp only [← currentLoss_eq_length, decide_eq_true_eq] at hparts
  rw [LossesInARow, ← hparts]
  obtain ⟨⟨p, hp, hstreak⟩, hbound⟩ := maxLoss_isGreatest xs
  constructor
  · intro hn
    exact ⟨p, hp, hstreak ▸ hn⟩
  · rintro ⟨q, hq, hn⟩
    have hle : (streaks q).currentLoss ≤ (streaks xs).maxLoss := hbound ⟨q, hq, rfl⟩
    exact hn.trans (by exact_mod_cast hle)

theorem LossesInARow.apart {n : ℤ} (h : LossesInARow n xs) : LossesApart n xs := by
  obtain ⟨s, hs, hloss, hn⟩ := h
  have hall : s.filter (· < 0) = s := List.filter_eq_self.mpr (by simpa using hloss)
  exact ⟨s, hs, fun x hx => (hloss x hx).le, by rwa [hall]⟩

theorem LossesInARow.of_nonpos {n : ℤ} (hn : n ≤ 0) (xs : List ℚ) : LossesInARow n xs :=
  ⟨[], List.nil_infix, by simp, hn⟩

end Streaks

section Agreement
variable {l : RiskLimits} {r : RiskManager} {xs : List ℚ}

theorem recordAll_streak (l : RiskLimits) (r : RiskManager) (xs : List ℚ) :
    (recordAll l r.resetDailyRisk xs).consecutiveLosses = lossStreak xs :=
  (recordAll_characterised l r xs).streak

theorem streakHalts_iff (hlimit : 0 < l.maxConsecutiveLosses) :
    StreakHalts l r xs ↔ LossesApart l.maxConsecutiveLosses xs := by
  have hcount : ∀ s t : List ℚ, s <:+ t →
      ((s.filter (· < 0)).length : ℤ) ≤ (t.filter (· < 0)).length := fun s t h => by
    exact_mod_cast (h.filter _).length_le
  have hparts := exists_prefix_iff (f := fun x : ℚ => decide (x ≤ 0)) (l := xs)
    (n := l.maxConsecutiveLosses) hcount
  simp only [decide_eq_true_eq] at hparts
  rw [LossesApart, ← hparts]
  constructor
  · rintro ⟨p, x, hp, hn⟩
    rw [recordAll_streak] at hn
    exact ⟨p ++ [x], hp, hn⟩
  · rintro ⟨p, hp, hn⟩
    rcases List.eq_nil_or_concat' p with rfl | ⟨q, x, rfl⟩
    · exact absurd hn (not_le.mpr hlimit)
    · exact ⟨q, x, hp, by rwa [recordAll_streak]⟩

/-- A limit of zero is reached by the first sell, whatever its amount. -/
theorem streakHalts_of_nonpos (hlimit : l.maxConsecutiveLosses ≤ 0) :
    StreakHalts l r xs ↔ xs ≠ [] := by
  constructor
  · rintro ⟨p, x, hp, -⟩ rfl
    simp at hp
  · intro hne
    obtain ⟨x, rest, rfl⟩ := List.exists_cons_of_ne_nil hne
    exact ⟨[], x, List.prefix_append [x] rest, hlimit.trans (Int.natCast_nonneg _)⟩

theorem agree_of_even (hlimit : 0 < l.maxConsecutiveLosses) (h : EvenOffStreak xs) : Agree l r xs := by
  refine ⟨(currentLoss_eq h).trans (recordAll_streak l r xs).symm, ?_⟩
  obtain ⟨⟨p, hp, hstreak⟩, hbound⟩ := maxLoss_isGreatest xs
  constructor
  · intro hreached
    have hlosses : l.maxConsecutiveLosses ≤ (lossStreak p : ℤ) := by
      rw [← currentLoss_eq (h.of_prefix hp), hstreak]
      exact hreached
    rcases List.eq_nil_or_concat' p with rfl | ⟨q, x, rfl⟩
    · exact absurd hlosses (not_le.mpr hlimit)
    · exact ⟨q, x, hp, by rwa [recordAll_streak]⟩
  · rintro ⟨q, x, hq, hreached⟩
    rw [recordAll_streak, ← currentLoss_eq (h.of_prefix hq)] at hreached
    have hle : (streaks (q ++ [x])).currentLoss ≤ (streaks xs).maxLoss := hbound ⟨_, hq, rfl⟩
    exact hreached.trans (by exact_mod_cast hle)

/-- The two agree all day exactly if the limit is positive and no sell breaks even on a streak
of losses. -/
theorem agree_throughout_iff (l : RiskLimits) (r : RiskManager) (amounts : List ℚ) :
    (∀ p, p <+: amounts → Agree l r p) ↔ 0 < l.maxConsecutiveLosses ∧ EvenOffStreak amounts := by
  constructor
  · intro h
    constructor
    · -- before the first sell the longest streak is zero and nothing has halted
      by_contra hlimit
      obtain ⟨p, x, hp, -⟩ := (h [] List.nil_prefix).limit.mp (not_lt.mp hlimit)
      simp at hp
    · intro p hp
      have hcurrent := (h (p ++ [0]) hp).current
      have hended : (streaks (p ++ [0])).currentLoss = 0 := by
        rw [currentLoss_snoc]
        exact if_neg (lt_irrefl 0)
      rw [recordAll_streak, lossStreak_snoc] at hcurrent
      simp only [lt_irrefl, if_false] at hcurrent
      exact hcurrent.symm.trans hended
  · rintro ⟨hlimit, heven⟩ p hp
    exact agree_of_even hlimit (heven.of_prefix hp)

end Agreement

end KisAutotrader.Analytics.LossStreaks
