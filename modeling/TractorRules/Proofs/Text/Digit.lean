import TractorRules.Card.Reader
import Mathlib.Algebra.Order.Ring.Nat

/-!
# Integers of texts

Each digit of a text adds one decimal place, so that an integer that was read can be written again.
-/

namespace TractorRules.Text

theorem lt_ten_of_digitValue? {c : CodePoint} {d : Nat} (h : digitValue? c = some d) : d < 10 := by
  unfold digitValue? at h
  split at h
  · split at h
    · rename_i hrange
      rw [← Option.some.inj h]
      exact Nat.sub_lt_left_of_lt_add hrange.1 (Nat.lt_succ_of_le hrange.2)
    · cases h
  · obtain ⟨z, hz, rfl⟩ := Option.map_eq_some_iff.1 h
    have hin := List.find?_some hz
    rw [Bool.and_eq_true, decide_eq_true_eq, decide_eq_true_eq] at hin
    exact Nat.sub_lt_left_of_lt_add hin.1 hin.2

theorem isDecimal_of_digitValue? {c : CodePoint} {d : Nat} (h : digitValue? c = some d) :
    isDecimal c := by
  rw [isDecimal, h]
  rfl

/-- Each digit adds one decimal place. -/
theorem lt_of_readDigits {value n : Nat} {points : List CodePoint}
    (h : readDigits value points = some n) : n < (value + 1) * 10 ^ points.countP isDecimal := by
  have step {c : CodePoint} {d value k : Nat} (hd : digitValue? c = some d)
      (hn : n < (10 * value + d + 1) * 10 ^ k) : n < (value + 1) * 10 ^ (k + 1) := by
    have hlt := lt_ten_of_digitValue? hd
    rw [Nat.pow_succ', ← Nat.mul_assoc]
    exact Nat.lt_of_lt_of_le hn (Nat.mul_le_mul_right _ (by omega))
  fun_induction readDigits value points with
  | case1 value =>
    rw [← Option.some.inj h]
    simp
  | case2 value => cases h
  | case3 value d rest ih =>
    obtain ⟨m, hd, hr⟩ := Option.bind_eq_some_iff.1 h
    rw [List.countP_cons_of_neg (by decide), List.countP_cons_of_pos (isDecimal_of_digitValue? hd)]
    exact step hd (ih m hr)
  | case4 value c rest hc ih =>
    obtain ⟨m, hd, hr⟩ := Option.bind_eq_some_iff.1 h
    rw [List.countP_cons_of_pos (isDecimal_of_digitValue? hd)]
    exact step hd (ih m hr)

theorem pow_le_digitBound {k : Nat} (h : k ≤ maxDigits) : 10 ^ k ≤ digitBound := by
  unfold digitBound
  -- The exponent is a numeral that would be evaluated.
  generalize maxDigits = most at h
  exact Nat.pow_le_pow_right (by decide) h

theorem lt_of_readNatural? {n : Nat} {points : List CodePoint} (h : readNatural? points = some n) :
    n < digitBound := by
  unfold readNatural? at h
  split at h
  · cases h
  · rename_i hfew
    split at h
    · cases h
    · rename_i c rest
      obtain ⟨d, hd, hr⟩ := Option.bind_eq_some_iff.1 h
      rw [List.countP_cons_of_pos (isDecimal_of_digitValue? hd), Nat.not_lt] at hfew
      have hlt := lt_ten_of_digitValue? hd
      calc n < (d + 1) * 10 ^ rest.countP isDecimal := lt_of_readDigits hr
        _ ≤ 10 * 10 ^ rest.countP isDecimal := Nat.mul_le_mul_right _ hlt
        _ = 10 ^ (rest.countP isDecimal + 1) := Nat.pow_succ'.symm
        _ ≤ digitBound := pow_le_digitBound hfew

/-- No integer is read that has more digits than are written. -/
theorem isWritable_of_toInteger? {t : Text} {n : Int} (h : t.toInteger? = some n) :
    isWritable n := by
  have abs {points : List CodePoint} {sign : Nat → Int} (hs : ∀ m, (sign m).natAbs = m)
      (hn : (readNatural? points).map sign = some n) : isWritable n := by
    obtain ⟨m, hm, rfl⟩ := Option.map_eq_some_iff.1 hn
    rw [isWritable, hs]
    exact decide_eq_true (lt_of_readNatural? hm)
  unfold toInteger? at h
  split at h
  · exact abs Int.natAbs_natCast h
  · exact abs (fun m => (Int.natAbs_neg m).trans (Int.natAbs_natCast m)) h
  · exact abs Int.natAbs_natCast h

theorem isWritable_of_readInteger {t : Text} {n : Int} (h : t.readInteger = .ok n) :
    isWritable n := by
  unfold readInteger at h
  split at h
  · rename_i hread
    exact Except.ok.inj h ▸ isWritable_of_toInteger? hread
  · split at h
    · cases h
    · cases h

end TractorRules.Text
