import Mathlib.Data.BitVec
import Mathlib.Tactic.Ring

/-!
# Stretches of addresses

Addresses are words, and what is added to them wraps. A stretch that ends before the last
address is compared as numbers are. What is copied or mapped from one stretch to another
keeps its distance from the start.
-/

/-- The addresses from `start` on. The one behind the last is an address too. -/
structure Segment (w : Nat) where
  start : BitVec w
  size : BitVec w
  fits : start.toNat + size.toNat < 2 ^ w
deriving DecidableEq

namespace Segment

variable {w : Nat} {s t : Segment w} {a b size : BitVec w} {len i : Nat}

/-- The address behind the last, as a number. -/
def stop (s : Segment w) : Nat := s.start.toNat + s.size.toNat

instance : Membership (BitVec w) (Segment w) :=
  ⟨fun s a => s.start.toNat ≤ a.toNat ∧ a.toNat < s.stop⟩

instance (a : BitVec w) (s : Segment w) : Decidable (a ∈ s) := inferInstanceAs (Decidable (_ ∧ _))

/-- The `len` addresses from `a` on belong to the segment. -/
def Covers (s : Segment w) (a : BitVec w) (len : Nat) : Prop :=
  s.start.toNat ≤ a.toNat ∧ a.toNat + len ≤ s.stop

instance (s : Segment w) (a : BitVec w) (len : Nat) : Decidable (s.Covers a len) :=
  inferInstanceAs (Decidable (_ ∧ _))

/-- The segments have no address in common. -/
def Apart (s t : Segment w) : Prop := s.stop ≤ t.start.toNat ∨ t.stop ≤ s.start.toNat

instance (s t : Segment w) : Decidable (s.Apart t) := inferInstanceAs (Decidable (_ ∨ _))

theorem Apart.symm (h : s.Apart t) : t.Apart s := Or.symm h

theorem Apart.not_mem (h : s.Apart t) (ha : a ∈ s) : a ∉ t := by
  rintro ⟨hlo, hhi⟩
  obtain ⟨hlo', hhi'⟩ := ha
  rcases h with h | h
  · omega
  · omega

theorem toNat_add (h : a.toNat + b.toNat < 2 ^ w) : (a + b).toNat = a.toNat + b.toNat := by
  rw [BitVec.toNat_add, Nat.mod_eq_of_lt h]

theorem Covers.toNat_add (h : s.Covers a len) (hi : i ≤ len) :
    (a + BitVec.ofNat w i).toNat = a.toNat + i := by
  have hfits := s.fits
  obtain ⟨_, hhi⟩ := h
  rw [stop] at hhi
  rw [BitVec.toNat_add, BitVec.toNat_ofNat, Nat.add_mod_mod, Nat.mod_eq_of_lt (by omega)]

/-- Each of the addresses. -/
theorem Covers.mem (h : s.Covers a len) (hi : i < len) : a + BitVec.ofNat w i ∈ s := by
  have hadd := h.toNat_add (Nat.le_of_lt hi)
  obtain ⟨hlo, hhi⟩ := h
  constructor
  · rw [hadd]
    omega
  · rw [hadd]
    omega

/-- What lies in a part lies in the whole. -/
theorem Covers.trans (h : s.Covers b size.toNat) (hlo : b.toNat ≤ a.toNat)
    (hhi : a.toNat + len ≤ b.toNat + size.toNat) : s.Covers a len := by
  obtain ⟨hlo', hhi'⟩ := h
  exact ⟨by omega, by omega⟩

/-! ## The test in code -/

/-- `start <= a && a + size <= start' + size'`, computed with words. -/
def within (start' size' a size : BitVec w) : Bool := start' ≤ a && a + size ≤ start' + size'

/-- Only where the stretch in question does not wrap, the test says that it is covered. -/
theorem within_iff (ha : a.toNat + size.toNat < 2 ^ w) :
    within s.start s.size a size = true ↔ s.Covers a size.toNat := by
  rw [within, Bool.and_eq_true, decide_eq_true_iff, decide_eq_true_iff, BitVec.le_def,
    BitVec.le_def, toNat_add ha, toNat_add s.fits]
  exact Iff.rfl

/-! ## Moving -/

/-- Where `a` comes to lie when `start` comes to lie at `target`. -/
def moved (start target a : BitVec w) : BitVec w := target + (a - start)

theorem moved_add (start target a d : BitVec w) :
    moved start target (a + d) = moved start target a + d := by
  rw [moved, moved]
  ring

/-- A move of a part that has been moved. -/
theorem moved_moved (start target b a : BitVec w) :
    moved b (moved start target b) a = moved start target a := by
  rw [moved, moved, moved]
  ring

end Segment

/-! ## Tables of mappings -/

/-- A segment that lies at `target` elsewhere. -/
structure Mapping (w : Nat) where
  segment : Segment w
  target : BitVec w
deriving DecidableEq

namespace Mapping

variable {w : Nat} {m : Mapping w} {ms : List (Mapping w)} {a : BitVec w} {len : Nat}

/-- Where an address of the segment lies. -/
def place (m : Mapping w) (a : BitVec w) : BitVec w := Segment.moved m.segment.start m.target a

/-- The place of an address, if it belongs to a segment of the table. -/
def lookup (ms : List (Mapping w)) (a : BitVec w) : Option (BitVec w) :=
  (ms.find? (a ∈ ·.segment)).map (·.place a)

/-- No address has two places. -/
def Disjoint (ms : List (Mapping w)) : Prop := ms.Pairwise fun m n => m.segment.Apart n.segment

theorem lookup_eq (h : Disjoint ms) (hm : m ∈ ms) (ha : a ∈ m.segment) :
    lookup ms a = some (m.place a) := by
  induction h with
  | nil => cases hm
  | @cons n ms hn _ ih =>
      by_cases hfirst : a ∈ n.segment
      · rw [lookup, List.find?_cons_of_pos (by simpa using hfirst)]
        rcases List.mem_cons.mp hm with rfl | hm
        · rfl
        · exact absurd ha ((hn m hm).not_mem hfirst)
      · rcases List.mem_cons.mp hm with rfl | hm
        · exact absurd ha hfirst
        · rw [lookup, List.find?_cons_of_neg (by simpa using hfirst)]
          exact ih hm

/-- A stretch that one segment covers keeps together. -/
theorem lookup_covered (h : Disjoint ms) (hm : m ∈ ms) (hcovers : m.segment.Covers a len)
    {i : Nat} (hi : i < len) :
    lookup ms (a + BitVec.ofNat w i) = some (m.place a + BitVec.ofNat w i) := by
  rw [lookup_eq h hm (hcovers.mem hi), place, Segment.moved_add, place]

end Mapping
