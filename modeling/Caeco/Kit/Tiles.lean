import Mathlib.Algebra.GroupWithZero.Nat
import Mathlib.Data.List.Flatten
import Mathlib.Data.List.Nodup
import Mathlib.Data.List.Range

/-!
# Tiling the indices of an array

A loop that works through an array stretch by stretch treats every element once if each
stretch begins where the one before it ends. Then the stretches have no index in common,
and written one after the other they are the indices in order.
-/

namespace Tiling

/-- `length` indices from `first` on. -/
structure Stretch where
  first : Nat
  length : Nat
deriving Repr, DecidableEq

def Stretch.indices (s : Stretch) : List Nat := List.range' s.first s.length

/-- The stretches follow each other from `a` up to, but not including, `b`. -/
def Tiles : Nat → List Stretch → Nat → Prop
  | a, [], b => a = b
  | a, s :: ss, b => s.first = a ∧ Tiles (a + s.length) ss b

theorem tiles_singleton (a n : Nat) : Tiles a [⟨a, n⟩] (a + n) := ⟨rfl, rfl⟩

theorem Tiles.append {ss ts : List Stretch} {b c : Nat} (ht : Tiles b ts c) :
    ∀ {a : Nat}, Tiles a ss b → Tiles a (ss ++ ts) c := by
  induction ss with
  | nil =>
      intro a h
      cases h
      exact ht
  | cons s ss ih =>
      intro a h
      exact ⟨h.1, ih h.2⟩

/-- Stretches of one length, one after the other. -/
theorem tiles_map_range (w n : Nat) :
    Tiles 0 ((List.range n).map fun i => ⟨w * i, w⟩) (w * n) := by
  induction n with
  | zero => rfl
  | succ n ih =>
      rw [List.range_succ, List.map_append, Nat.mul_succ]
      exact (tiles_singleton (w * n) w).append ih

theorem Tiles.le {ss : List Stretch} {b : Nat} : ∀ {a : Nat}, Tiles a ss b → a ≤ b := by
  induction ss with
  | nil =>
      intro a h
      exact Nat.le_of_eq h
  | cons s ss ih =>
      intro a h
      exact Nat.le_trans (Nat.le_add_right a s.length) (ih h.2)

/-- The lengths add up. -/
theorem Tiles.sum {ss : List Stretch} {b : Nat} :
    ∀ {a : Nat}, Tiles a ss b → a + (ss.map Stretch.length).sum = b := by
  induction ss with
  | nil => intro a h; exact h
  | cons s ss ih =>
      intro a h
      rw [List.map_cons, List.sum_cons, ← ih h.2, Nat.add_assoc]

/-- A stretch lies between the ends. -/
theorem Tiles.mem {ss : List Stretch} {s : Stretch} {b : Nat} :
    ∀ {a : Nat}, Tiles a ss b → s ∈ ss → a ≤ s.first ∧ s.first + s.length ≤ b := by
  induction ss with
  | nil => intro a _ hs; cases hs
  | cons t ss ih =>
      intro a h hs
      obtain ⟨rfl, hrest⟩ := h
      rcases List.mem_cons.mp hs with rfl | hs
      · exact ⟨Nat.le_refl _, hrest.le⟩
      · obtain ⟨hle, hend⟩ := ih hrest hs
        exact ⟨by omega, hend⟩

/-- An earlier stretch ends where a later one begins, or before. -/
theorem Tiles.order {ss : List Stretch} {b : Nat} :
    ∀ {a i j : Nat} {s t : Stretch}, Tiles a ss b → i < j → ss[i]? = some s → ss[j]? = some t →
      s.first + s.length ≤ t.first := by
  induction ss with
  | nil => intro a i j s t _ _ hi; cases hi
  | cons u ss ih =>
      intro a i j s t h hij hi hj
      obtain ⟨rfl, hrest⟩ := h
      cases j with
      | zero => omega
      | succ j =>
          rw [List.getElem?_cons_succ] at hj
          cases i with
          | zero =>
              cases hi
              exact (hrest.mem (List.mem_of_getElem? hj)).1
          | succ i => exact ih hrest (by omega) hi hj

/-- The stretches before and after a place. -/
theorem Tiles.of_append {ss ts : List Stretch} {c : Nat} :
    ∀ {a : Nat}, Tiles a (ss ++ ts) c → ∃ b, Tiles a ss b ∧ Tiles b ts c := by
  induction ss with
  | nil => intro a h; exact ⟨a, rfl, h⟩
  | cons s ss ih =>
      intro a h
      obtain ⟨rfl, hrest⟩ := h
      obtain ⟨b, hss, hts⟩ := ih hrest
      exact ⟨b, ⟨rfl, hss⟩, hts⟩

/-- The stretches moved down. -/
theorem Tiles.sub {ss : List Stretch} {b d : Nat} :
    ∀ {a : Nat}, d ≤ a → Tiles a ss b →
      Tiles (a - d) (ss.map fun s => ⟨s.first - d, s.length⟩) (b - d) := by
  induction ss with
  | nil => intro a _ h; cases h; rfl
  | cons s ss ih =>
      intro a hd h
      obtain ⟨rfl, hrest⟩ := h
      refine ⟨rfl, ?_⟩
      have hmoved := ih (by omega) hrest
      rwa [show s.first + s.length - d = s.first - d + s.length by omega] at hmoved

/-- **In order and complete**: the stretches' indices are those from `a` to `b`. -/
theorem Tiles.flatMap_indices {ss : List Stretch} {b : Nat} :
    ∀ {a : Nat}, Tiles a ss b → ss.flatMap Stretch.indices = List.range' a (b - a) := by
  induction ss with
  | nil =>
      intro a h
      cases h
      simp
  | cons s ss ih =>
      intro a h
      obtain ⟨rfl, hrest⟩ := h
      have hle := hrest.le
      have hsplit : b - s.first = s.length + (b - (s.first + s.length)) := by omega
      rw [List.flatMap_cons, ih hrest, Stretch.indices, hsplit, List.range'_append_1]

/-- **At most once**: no index is in two of the stretches. -/
theorem Tiles.disjoint {ss : List Stretch} {a b : Nat} (h : Tiles a ss b) :
    (ss.map Stretch.indices).Pairwise List.Disjoint := by
  have hnodup : (ss.map Stretch.indices).flatten.Nodup := by
    rw [← List.flatMap_def, h.flatMap_indices]
    exact List.nodup_range'
  exact (List.nodup_flatten.mp hnodup).2

end Tiling
