import Reckoner.Number.Power

namespace Reckoner

/-- The last `width` digits of a number, with leading zeros. -/
def lastDigits : Nat → Nat → List Char
  | 0, _ => []
  | width + 1, n => lastDigits width (n / 10) ++ [Nat.digitChar (n % 10)]

theorem lastDigits_add (a b n : Nat) :
    lastDigits (a + b) n = lastDigits a (n / tenTo b) ++ lastDigits b (n % tenTo b) := by
  induction b generalizing n with
  | zero => simp [lastDigits]
  | succ b ih =>
    have hdiv : n % (tenTo b * 10) / 10 = n / 10 % tenTo b :=
      Nat.mod_mul_left_div_self n 10 (tenTo b)
    have hmod : n % (tenTo b * 10) % 10 = n % 10 := Nat.mod_mul_left_mod n (tenTo b) 10
    rw [← Nat.add_assoc, lastDigits, lastDigits, ih, tenTo_succ, hdiv, hmod, Nat.mul_comm,
      ← Nat.div_div_eq_div_mul, List.append_assoc]

/-- The last `width` digits, found by halving a width that is too long to go digit by digit. -/
def halvedDigits (width n : Nat) : List Char :=
  if width ≤ 16 then lastDigits width n
  else
    halvedDigits (width - width / 2) (n / tenTo (width / 2)) ++
      halvedDigits (width / 2) (n % tenTo (width / 2))
termination_by width

theorem halvedDigits_eq (width n : Nat) : halvedDigits width n = lastDigits width n := by
  induction width using Nat.strongRecOn generalizing n with
  | _ width ih =>
    unfold halvedDigits
    split
    · rfl
    · rw [ih _ (by omega), ih _ (by omega), ← lastDigits_add]
      congr 1
      omega

/-- The digits of a number without leading zeros. -/
def natChars (n : Nat) : List Char :=
  if n = 0 then ['0'] else (halvedDigits ((n.log2 + 1) / 3 + 1) n).dropWhile (· = '0')

theorem lt_tenTo_width (n : Nat) : n < tenTo ((n.log2 + 1) / 3 + 1) := by
  have hle : n.log2 + 1 ≤ 3 * ((n.log2 + 1) / 3 + 1) := by omega
  exact Nat.lt_of_lt_of_le (lt_twoTo_log2 n)
    (Nat.le_trans (twoTo_le_twoTo hle) (twoTo_le_tenTo _))

theorem digitChar_eq_zero_iff {d : Nat} (h : d < 10) : Nat.digitChar d = '0' ↔ d = 0 := by
  revert h
  decide +revert

theorem dropWhile_lastDigits_zero (width : Nat) :
    (lastDigits width 0).dropWhile (· = '0') = [] := by
  induction width with
  | zero => rfl
  | succ width ih =>
    rw [lastDigits, Nat.zero_div, List.dropWhile_append, ih]
    rfl

theorem dropWhile_lastDigits {width n : Nat} (hpos : 0 < n) (hlt : n < tenTo width) :
    (lastDigits width n).dropWhile (· = '0') = Nat.toDigits 10 n := by
  induction width generalizing n with
  | zero => exact absurd (Nat.lt_one_iff.mp hlt) (Nat.ne_of_gt hpos)
  | succ width ih =>
    rw [lastDigits, List.dropWhile_append]
    by_cases hn : n < 10
    · rw [Nat.div_eq_of_lt hn, dropWhile_lastDigits_zero, Nat.mod_eq_of_lt hn,
        Nat.toDigits_of_lt_base hn]
      have hne : Nat.digitChar n ≠ '0' := fun h => by
        have := (digitChar_eq_zero_iff hn).mp h
        omega
      simp [hne]
    · have hdiv : n / 10 < tenTo width := by
        rw [tenTo_succ] at hlt
        omega
      rw [ih (by omega) hdiv, Nat.toDigits_of_base_le (by decide) (Nat.le_of_not_lt hn)]
      have hne : (Nat.toDigits 10 (n / 10)).isEmpty = false := by
        rw [Nat.toDigits_eq_if (by decide)]
        split <;> simp
      simp [hne]

theorem natChars_eq (n : Nat) : natChars n = Nat.toDigits 10 n := by
  unfold natChars
  split
  next h => subst h; rfl
  next h => rw [halvedDigits_eq, dropWhile_lastDigits (Nat.pos_of_ne_zero h) (lt_tenTo_width n)]

end Reckoner
