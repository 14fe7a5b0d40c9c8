import Mathlib.Data.Finset.Card
import Mathlib.Data.Nat.Prime.Basic
import Mathlib.Dynamics.PeriodicPts.Defs

/-!
# Linear feedback shift registers

A register is shifted to the right; if the bit that falls out is set, the taps are added.
The step is linear, so `n` steps from any state are a product with `n` steps from the state
in which the top bit alone is set, and many steps can be computed by squaring. If the period
of that state is as long as it can be, every state but zero lies on its orbit.
-/

namespace Lfsr

open Function

variable {w : Nat}

def step (taps x : BitVec w) : BitVec w :=
  if x.getLsbD 0 then x >>> 1 ^^^ taps else x >>> 1

/-- The top bit alone. -/
def top (w : Nat) : BitVec w := BitVec.twoPow w (w - 1)

/-- The part of the product that belongs to the low `k` bits of `x`. -/
def mulFrom (taps x : BitVec w) : Nat → BitVec w → BitVec w
  | 0, _ => 0
  | k + 1, y => (if x.getLsbD k then y else 0) ^^^ mulFrom taps x k (step taps y)

def mul (taps x y : BitVec w) : BitVec w := mulFrom taps x w y

/-- As many steps from the top bit as the bits say, the highest first. -/
def power (taps : BitVec w) : List Bool → BitVec w → BitVec w
  | [], y => y
  | b :: bs, y =>
      let z := mul taps y y
      power taps bs (if b then step taps z else z)

def value : List Bool → Nat → Nat
  | [], n => n
  | b :: bs, n => value bs (if b then 2 * n + 1 else 2 * n)

variable {taps : BitVec w}

/-! ## Linearity -/

theorem xor_left_comm (x y z : BitVec w) : x ^^^ (y ^^^ z) = y ^^^ (x ^^^ z) := by
  rw [← BitVec.xor_assoc, BitVec.xor_comm x y, BitVec.xor_assoc]

theorem step_xor (x y : BitVec w) : step taps (x ^^^ y) = step taps x ^^^ step taps y := by
  simp only [step, BitVec.getLsbD_xor, BitVec.ushiftRight_xor_distrib]
  cases x.getLsbD 0 <;> cases y.getLsbD 0
  · rfl
  · simp [BitVec.xor_assoc]
  · simp [BitVec.xor_assoc, BitVec.xor_comm taps]
  · simp [BitVec.xor_assoc, xor_left_comm taps]

theorem iterate_xor (n : Nat) (x y : BitVec w) :
    (step taps)^[n] (x ^^^ y) = (step taps)^[n] x ^^^ (step taps)^[n] y := by
  induction n generalizing x y with
  | zero => rfl
  | succ n ih => rw [iterate_succ_apply, step_xor, ih]; rfl

theorem step_zero : step taps 0 = 0 := by simp [step]

theorem iterate_zero (n : Nat) : (step taps)^[n] (0 : BitVec w) = 0 := by
  induction n with
  | zero => rfl
  | succ n ih => rw [iterate_succ_apply, step_zero, ih]

/-- A bit below the top one is some steps from it. -/
theorem iterate_top {k : Nat} (hk : k < w) :
    (step taps)^[k] (top w) = BitVec.twoPow w (w - 1 - k) := by
  induction k with
  | zero => rfl
  | succ k ih =>
      rw [iterate_succ_apply', ih (by omega), step]
      have hbit : (BitVec.twoPow w (w - 1 - k)).getLsbD 0 = false := by
        rw [BitVec.getLsbD_twoPow]
        simp only [Bool.and_eq_false_imp, decide_eq_true_eq, decide_eq_false_iff_not]
        omega
      rw [hbit]
      apply BitVec.eq_of_getLsbD_eq
      intro i hi
      simp only [Bool.false_eq_true, if_false, BitVec.getLsbD_ushiftRight,
        BitVec.getLsbD_twoPow]
      congr 1
      · simp only [decide_eq_decide]; omega
      · simp only [decide_eq_decide]; omega

/-! ## Many steps at once -/

/-- The low bits of a state. -/
def low (x : BitVec w) : Nat → BitVec w
  | 0 => 0
  | k + 1 => (if x.getLsbD k then BitVec.twoPow w k else 0) ^^^ low x k

theorem getLsbD_low (x : BitVec w) (k i : Nat) (hi : i < w) :
    (low x k).getLsbD i = (decide (i < k) && x.getLsbD i) := by
  induction k with
  | zero => simp [low]
  | succ k ih =>
      rw [low, BitVec.getLsbD_xor, ih]
      by_cases hik : k = i
      · subst hik
        cases x.getLsbD k <;> simp [hi]
      · have hsame : decide (i < k + 1) = decide (i < k) := by
          simp only [decide_eq_decide]; omega
        rw [hsame]
        cases x.getLsbD k <;> simp [BitVec.getLsbD_twoPow, hik]

theorem low_eq (x : BitVec w) : low x w = x := by
  apply BitVec.eq_of_getLsbD_eq
  intro i hi
  rw [getLsbD_low x w i hi]
  simp [hi]

theorem iterate_low (x : BitVec w) (n : Nat) :
    ∀ {k : Nat}, k ≤ w →
      (step taps)^[n] (low x k)
        = mulFrom taps x k ((step taps)^[w - k] ((step taps)^[n] (top w))) := by
  intro k
  induction k with
  | zero => intro _; exact iterate_zero n
  | succ k ih =>
      intro hk
      have hnext : step taps ((step taps)^[w - (k + 1)] ((step taps)^[n] (top w)))
          = (step taps)^[w - k] ((step taps)^[n] (top w)) := by
        rw [← iterate_succ_apply' (step taps), show (w - (k + 1)).succ = w - k by omega]
      rw [low, iterate_xor, ih (by omega), mulFrom, hnext]
      congr 1
      cases x.getLsbD k
      · exact iterate_zero n
      · have htop := @iterate_top w taps (w - (k + 1)) (by omega)
        rw [show w - 1 - (w - (k + 1)) = k by omega] at htop
        simp only [if_true]
        rw [← htop, ← iterate_add_apply, ← iterate_add_apply, Nat.add_comm]

/-- **`n` steps are one product.** -/
theorem iterate_eq_mul (x : BitVec w) (n : Nat) :
    (step taps)^[n] x = mul taps x ((step taps)^[n] (top w)) := by
  have h := @iterate_low w taps x n w (Nat.le_refl w)
  rw [low_eq, Nat.sub_self] at h
  exact h

theorem power_eq (bs : List Bool) :
    ∀ n : Nat, power taps bs ((step taps)^[n] (top w)) = (step taps)^[value bs n] (top w) := by
  induction bs with
  | nil => intro n; rfl
  | cons b bs ih =>
      intro n
      rw [power, value, ← iterate_eq_mul, ← iterate_add_apply, ← Nat.two_mul]
      cases b
      · exact ih (2 * n)
      · simp only [if_true]
        rw [← iterate_succ_apply' (step taps)]
        exact ih (2 * n + 1)

/-! ## The longest orbit -/

theorem top_ne_zero (hw : 0 < w) : top w ≠ 0 := by
  intro h
  have htop := congrArg (fun y => y.getLsbD (w - 1)) h
  simp [top, BitVec.getLsbD_twoPow] at htop
  omega

/-- A period is found by looking at the prime factors of a multiple of it. -/
theorem minimalPeriod_eq {α : Type} {f : α → α} {x : α} {n : Nat}
    (hper : f^[n] x = x) (hprime : ∀ p, p.Prime → p ∣ n → f^[n / p] x ≠ x) :
    minimalPeriod f x = n := by
  obtain ⟨m, hm⟩ := IsPeriodicPt.minimalPeriod_dvd (f := f) (x := x) hper
  by_cases hone : m = 1
  · rw [hone, Nat.mul_one] at hm
    exact hm.symm
  · obtain ⟨p, hp, l, rfl⟩ := Nat.exists_prime_and_dvd hone
    refine absurd ?_ (hprime p hp ⟨minimalPeriod f x * l, by rw [hm]; exact Nat.mul_left_comm _ _ _⟩)
    have hdiv : n / p = minimalPeriod f x * l := by
      rw [hm, Nat.mul_left_comm]
      exact Nat.mul_div_cancel_left _ hp.pos
    rw [hdiv]
    exact (isPeriodicPt_minimalPeriod f x).mul_const l

variable (hw : 0 < w) (htaps : taps.getLsbD (w - 1) = true)

include hw htaps

/-- With a tap at the top, no other state is followed by zero. -/
theorem eq_zero_of_step {x : BitVec w} (h : step taps x = 0) : x = 0 := by
  rw [step] at h
  cases hlow : x.getLsbD 0 with
  | true =>
      rw [hlow] at h
      have htop := congrArg (fun y => y.getLsbD (w - 1)) h
      simp only [if_true, BitVec.getLsbD_xor, BitVec.getLsbD_ushiftRight, htaps,
        show 1 + (w - 1) = w by omega, BitVec.getLsbD_of_ge x w (Nat.le_refl w)] at htop
      simp at htop
  | false =>
      rw [hlow] at h
      apply BitVec.eq_of_getLsbD_eq
      intro i hi
      cases i with
      | zero => simpa using hlow
      | succ i =>
          have hbit := congrArg (fun y => y.getLsbD i) h
          simpa [Nat.add_comm] using hbit

theorem iterate_ne_zero {x : BitVec w} (hx : x ≠ 0) (n : Nat) : (step taps)^[n] x ≠ 0 := by
  induction n with
  | zero => exact hx
  | succ n ih =>
      rw [iterate_succ_apply']
      exact fun h => ih (eq_zero_of_step hw htaps h)

/-- **All states but zero lie on one orbit**, if it has the length for it. -/
theorem exists_iterate (hper : minimalPeriod (step taps) (top w) = 2 ^ w - 1) {x : BitVec w}
    (hx : x ≠ 0) : ∃ k < 2 ^ w - 1, (step taps)^[k] (top w) = x := by
  have hinj : Set.InjOn (fun k => ((step taps)^[k] (top w)).toNat)
      (Finset.range (2 ^ w - 1)) := by
    intro a ha b hb hab
    rw [Finset.coe_range, ← hper] at ha hb
    exact iterate_injOn_Iio_minimalPeriod ha hb (BitVec.eq_of_toNat_eq hab)
  have hsub : (Finset.range (2 ^ w - 1)).image (fun k => ((step taps)^[k] (top w)).toNat)
      ⊆ (Finset.range (2 ^ w)).erase 0 := by
    intro m hm
    obtain ⟨k, _, rfl⟩ := Finset.mem_image.mp hm
    refine Finset.mem_erase.mpr ⟨fun hzero => ?_, Finset.mem_range.mpr (BitVec.isLt _)⟩
    exact iterate_ne_zero hw htaps (top_ne_zero hw) k (BitVec.eq_of_toNat_eq hzero)
  have hall := Finset.eq_of_subset_of_card_le hsub (by
    rw [Finset.card_image_of_injOn hinj, Finset.card_range,
      Finset.card_erase_of_mem (Finset.mem_range.mpr (Nat.two_pow_pos w)), Finset.card_range])
  have hmem : x.toNat ∈ (Finset.range (2 ^ w)).erase 0 :=
    Finset.mem_erase.mpr ⟨fun hzero => hx (BitVec.eq_of_toNat_eq hzero),
      Finset.mem_range.mpr x.isLt⟩
  rw [← hall] at hmem
  obtain ⟨k, hk, hkx⟩ := Finset.mem_image.mp hmem
  exact ⟨k, Finset.mem_range.mp hk, BitVec.eq_of_toNat_eq hkx⟩

/-- From any state but zero every other one is reached, at the latest after a whole round. -/
theorem exists_iterate_between (hper : minimalPeriod (step taps) (top w) = 2 ^ w - 1)
    {x y : BitVec w} (hx : x ≠ 0) (hy : y ≠ 0) :
    ∃ k < 2 ^ w - 1, (step taps)^[k + 1] x = y := by
  obtain ⟨a, ha, rfl⟩ := exists_iterate hw htaps hper hx
  obtain ⟨b, hb, rfl⟩ := exists_iterate hw htaps hper hy
  have hround : (step taps)^[2 ^ w - 1] (top w) = top w := by
    rw [← hper]
    exact iterate_minimalPeriod
  by_cases hlt : a < b
  · refine ⟨b - a - 1, by omega, ?_⟩
    rw [← iterate_add_apply]
    congr 1
    omega
  · refine ⟨2 ^ w - 1 - a + b - 1, by omega, ?_⟩
    rw [← iterate_add_apply, show 2 ^ w - 1 - a + b - 1 + 1 + a = b + (2 ^ w - 1) by omega,
      iterate_add_apply, hround]

end Lfsr
