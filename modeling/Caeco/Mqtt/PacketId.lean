import Mathlib.Data.Nat.Prime.Basic
import Mathlib.Tactic.NormNum.Prime
import Caeco.Kit.Lfsr

/-!
# Packet identifiers

The client draws its packet identifiers from a shift register of sixteen bits, and draws
again while some record of the queue carries the number. The register goes through all
numbers but zero, so that a free one is found as long as there is one.
-/

namespace Caeco.Mqtt

open Function

/-- `0xB400u` -/
def taps : BitVec 16 := 0xB400

/-- The loop of `__mqtt_next_pid`: `none` if the fuel runs out before a free number. -/
def nextPidLoop (inUse : List (BitVec 16)) : Nat → BitVec 16 → Option (BitVec 16)
  | 0, _ => none
  | fuel + 1, pidLfsr =>
      let pidLfsr := Lfsr.step taps pidLfsr
      if pidLfsr ∈ inUse then nextPidLoop inUse fuel pidLfsr else some pidLfsr

def pidSeed (pidLfsr : BitVec 16) : BitVec 16 := if pidLfsr = 0 then 163 else pidLfsr

/-- `__mqtt_next_pid`. What it returns is also the new `pid_lfsr`. After 65535 draws it has
seen all numbers. -/
def mqttNextPid (pidLfsr : BitVec 16) (inUse : List (BitVec 16)) : Option (BitVec 16) :=
  nextPidLoop inUse 65535 (pidSeed pidLfsr)

/-! ## The period of the register -/

theorem power_taps (bs : List Bool) {n : Nat} (hn : Lfsr.value bs 0 = n) :
    (Lfsr.step taps)^[n] (Lfsr.top 16) = Lfsr.power taps bs (Lfsr.top 16) := by
  rw [← hn]
  exact (Lfsr.power_eq bs 0).symm

/-- The bits of a number, `k` of them. -/
def bitsOf (n : Nat) : Nat → List Bool
  | 0 => []
  | k + 1 => n.testBit k :: bitsOf n k

theorem iterate_65535 : (Lfsr.step taps)^[65535] (Lfsr.top 16) = Lfsr.top 16 := by
  rw [power_taps (bitsOf 65535 16) (by decide)]
  decide +kernel

theorem iterate_65535_div {p : Nat} (hp : p.Prime) (hdvd : p ∣ 65535) :
    (Lfsr.step taps)^[65535 / p] (Lfsr.top 16) ≠ Lfsr.top 16 := by
  have hfactors : p = 3 ∨ p = 5 ∨ p = 17 ∨ p = 257 := by
    rw [show 65535 = 3 * (5 * (17 * 257)) by norm_num, hp.dvd_mul, hp.dvd_mul, hp.dvd_mul,
      Nat.prime_dvd_prime_iff_eq hp (by norm_num), Nat.prime_dvd_prime_iff_eq hp (by norm_num),
      Nat.prime_dvd_prime_iff_eq hp (by norm_num),
      Nat.prime_dvd_prime_iff_eq hp (by norm_num)] at hdvd
    exact hdvd
  rcases hfactors with rfl | rfl | rfl | rfl
  · rw [power_taps (bitsOf 21845 16) (by decide)]
    decide +kernel
  · rw [power_taps (bitsOf 13107 16) (by decide)]
    decide +kernel
  · rw [power_taps (bitsOf 3855 16) (by decide)]
    decide +kernel
  · rw [power_taps (bitsOf 255 16) (by decide)]
    decide +kernel

theorem minimalPeriod_taps : minimalPeriod (Lfsr.step taps) (Lfsr.top 16) = 2 ^ 16 - 1 :=
  Lfsr.minimalPeriod_eq iterate_65535 fun _ hp hdvd => iterate_65535_div hp hdvd

theorem pidSeed_ne_zero (pidLfsr : BitVec 16) : pidSeed pidLfsr ≠ 0 := by
  rw [pidSeed]
  split
  · decide
  · assumption

theorem taps_top : taps.getLsbD (16 - 1) = true := by decide

/-! ## The search -/

variable {inUse : List (BitVec 16)}

/-- The search takes the first number on the orbit that is free. -/
theorem nextPidLoop_some {fuel : Nat} :
    ∀ {pidLfsr id : BitVec 16}, nextPidLoop inUse fuel pidLfsr = some id →
      ∃ k < fuel, (Lfsr.step taps)^[k + 1] pidLfsr = id ∧ id ∉ inUse ∧
        ∀ j < k, (Lfsr.step taps)^[j + 1] pidLfsr ∈ inUse := by
  induction fuel with
  | zero => intro pidLfsr id h; cases h
  | succ fuel ih =>
      intro pidLfsr id h
      rw [nextPidLoop] at h
      by_cases hused : Lfsr.step taps pidLfsr ∈ inUse
      · rw [if_pos hused] at h
        obtain ⟨k, hk, hid, hfree, hbefore⟩ := ih h
        refine ⟨k + 1, by omega, hid, hfree, fun j hj => ?_⟩
        cases j with
        | zero => exact hused
        | succ j => exact hbefore j (by omega)
      · rw [if_neg hused] at h
        cases h
        exact ⟨0, by omega, rfl, hused, fun j hj => absurd hj (Nat.not_lt_zero j)⟩

theorem nextPidLoop_none {fuel : Nat} :
    ∀ {pidLfsr : BitVec 16}, nextPidLoop inUse fuel pidLfsr = none →
      ∀ k < fuel, (Lfsr.step taps)^[k + 1] pidLfsr ∈ inUse := by
  induction fuel with
  | zero => intro pidLfsr _ k hk; omega
  | succ fuel ih =>
      intro pidLfsr h k hk
      rw [nextPidLoop] at h
      by_cases hused : Lfsr.step taps pidLfsr ∈ inUse
      · rw [if_pos hused] at h
        cases k with
        | zero => exact hused
        | succ k => exact ih h k (by omega)
      · rw [if_neg hused] at h
        cases h

theorem mqttNextPid_some {pidLfsr id : BitVec 16} (h : mqttNextPid pidLfsr inUse = some id) :
    id ≠ 0 ∧ id ∉ inUse := by
  obtain ⟨k, _, rfl, hfree, _⟩ := nextPidLoop_some h
  exact ⟨Lfsr.iterate_ne_zero (by decide) taps_top (pidSeed_ne_zero _) _, hfree⟩

/-- The search has tried every number. -/
theorem mqttNextPid_none {pidLfsr : BitVec 16} (h : mqttNextPid pidLfsr inUse = none) :
    ∀ id, id ≠ 0 → id ∈ inUse := by
  intro id hid
  obtain ⟨k, hk, rfl⟩ := Lfsr.exists_iterate_between (by decide) taps_top minimalPeriod_taps
    (pidSeed_ne_zero pidLfsr) hid
  exact nextPidLoop_none h k (by omega)

/-- **A number is found exactly if there is a free one.** It is not zero and no record
carries it. Without a free number the loop goes on for ever. -/
theorem mqttNextPid_spec (pidLfsr : BitVec 16) (inUse : List (BitVec 16)) :
    (∀ id, mqttNextPid pidLfsr inUse = some id → id ≠ 0 ∧ id ∉ inUse) ∧
      ((∃ id, mqttNextPid pidLfsr inUse = some id) ↔ ∃ id, id ≠ 0 ∧ id ∉ inUse) ∧
      (mqttNextPid pidLfsr inUse = none →
        ∀ fuel, nextPidLoop inUse fuel (pidSeed pidLfsr) = none) := by
  refine ⟨fun id h => mqttNextPid_some h, ⟨?_, ?_⟩, ?_⟩
  · rintro ⟨id, h⟩
    exact ⟨id, mqttNextPid_some h⟩
  · rintro ⟨id, hid, hfree⟩
    cases hnext : mqttNextPid pidLfsr inUse with
    | none => exact absurd (mqttNextPid_none hnext id hid) hfree
    | some id' => exact ⟨id', rfl⟩
  · intro hnone fuel
    cases hloop : nextPidLoop inUse fuel (pidSeed pidLfsr) with
    | none => rfl
    | some id =>
        obtain ⟨k, _, rfl, hfree, _⟩ := nextPidLoop_some hloop
        have hne := Lfsr.iterate_ne_zero (by decide) taps_top (pidSeed_ne_zero pidLfsr) (k + 1)
        exact absurd (mqttNextPid_none hnone _ hne) hfree

/-- Fewer than 65535 records leave a number free. -/
theorem mqttNextPid_of_few (pidLfsr : BitVec 16) (hlen : inUse.length < 65535) :
    ∃ id, mqttNextPid pidLfsr inUse = some id := by
  by_contra hfree
  have hnone := mqttNextPid_none (Option.eq_none_iff_forall_ne_some.mpr fun id hid =>
    hfree ⟨id, hid⟩)
  have hsub : (Finset.range (2 ^ 16)).erase 0 ⊆ (inUse.map BitVec.toNat).toFinset := by
    intro m hm
    obtain ⟨hne, hlt⟩ := Finset.mem_erase.mp hm
    have hlt' := Finset.mem_range.mp hlt
    rw [List.mem_toFinset, List.mem_map]
    refine ⟨BitVec.ofNat 16 m, hnone _ ?_, ?_⟩
    · intro hzero
      have htoNat := congrArg BitVec.toNat hzero
      rw [BitVec.toNat_ofNat, Nat.mod_eq_of_lt hlt'] at htoNat
      exact hne htoNat
    · rw [BitVec.toNat_ofNat, Nat.mod_eq_of_lt hlt']
  have hcard := Finset.card_le_card hsub
  rw [Finset.card_erase_of_mem (Finset.mem_range.mpr (by decide)), Finset.card_range] at hcard
  have hle := List.toFinset_card_le (inUse.map BitVec.toNat)
  rw [List.length_map] at hle
  omega

end Caeco.Mqtt
