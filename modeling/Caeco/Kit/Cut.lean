import Mathlib.Data.List.Basic
import Mathlib.Data.List.Induction

/-!
# Cutting a list into pieces

One left-to-right pass that grows a piece letter by letter and closes it as soon as it is
full. The two cuts a framed stream needs are instances: `cutAfter p` closes a piece at
each letter satisfying `p`, `groups n` closes a piece at `n` letters. Both return the
closed pieces and the piece still open at the end of the input.
-/

namespace Cut

variable {α β : Type}

/-- Close the open piece as soon as `full` holds of it; `g` is the piece open so far. -/
def cutWhen (full : List α → Bool) : List α → List α → List (List α) × List α
  | g, [] => ([], g)
  | g, a :: as =>
      if full (g ++ [a]) then
        let r := cutWhen full [] as
        ((g ++ [a]) :: r.1, r.2)
      else cutWhen full (g ++ [a]) as

/-- Does the piece end in a letter satisfying `p`? -/
def endsIn (p : α → Bool) (g : List α) : Bool := g.getLast?.any p

/-- Cut after every letter satisfying `p`. -/
def cutAfter (p : α → Bool) : List α → List (List α) × List α :=
  cutWhen (endsIn p) []

/-- Has the piece exactly `n` letters? -/
def hasLength (n : Nat) (g : List α) : Bool := g.length == n

/-- Cut into groups of `n` letters, counted from the start. -/
def groups (n : Nat) : List α → List (List α) × List α :=
  cutWhen (hasLength n) []

/-- The closed pieces and, unless it is empty, the open one. -/
def pieces (r : List (List α) × List α) : List (List α) :=
  if r.2.isEmpty then r.1 else r.1 ++ [r.2]

@[simp] theorem cutWhen_nil (full : List α → Bool) (g : List α) :
    cutWhen full g [] = ([], g) := rfl

theorem cutWhen_cons_full {full : List α → Bool} {g : List α} {a : α} (as : List α)
    (h : full (g ++ [a]) = true) :
    cutWhen full g (a :: as)
      = ((g ++ [a]) :: (cutWhen full [] as).1, (cutWhen full [] as).2) := by
  simp [cutWhen, h]

theorem cutWhen_cons_open {full : List α → Bool} {g : List α} {a : α} (as : List α)
    (h : full (g ++ [a]) = false) :
    cutWhen full g (a :: as) = cutWhen full (g ++ [a]) as := by
  simp [cutWhen, h]

/-- Cutting a concatenation: the second part goes on with the piece the first left open. -/
theorem cutWhen_append (full : List α → Bool) (g xs ys : List α) :
    cutWhen full g (xs ++ ys)
      = ((cutWhen full g xs).1 ++ (cutWhen full (cutWhen full g xs).2 ys).1,
          (cutWhen full (cutWhen full g xs).2 ys).2) := by
  induction xs generalizing g with
  | nil => simp
  | cons a as ih =>
      cases h : full (g ++ [a]) with
      | true => simp [cutWhen_cons_full _ h, ih]
      | false => simp [cutWhen_cons_open _ h, ih]

/-- Nothing is lost and nothing is reordered. -/
theorem cutWhen_flatten (full : List α → Bool) (g xs : List α) :
    (cutWhen full g xs).1.flatten ++ (cutWhen full g xs).2 = g ++ xs := by
  induction xs generalizing g with
  | nil => simp
  | cons a as ih =>
      cases h : full (g ++ [a]) with
      | true => simp [cutWhen_cons_full _ h, ih]
      | false => simp [cutWhen_cons_open _ h, ih]

/-- A piece is closed only when it is full. -/
theorem cutWhen_full (full : List α → Bool) (g xs : List α) :
    ∀ q ∈ (cutWhen full g xs).1, full q = true := by
  induction xs generalizing g with
  | nil => simp
  | cons a as ih =>
      cases h : full (g ++ [a]) with
      | true => simpa [cutWhen_cons_full _ h, h] using ih []
      | false => simpa [cutWhen_cons_open _ h] using ih (g ++ [a])

/-- While no piece fills up, the letters only pile up in the open piece. -/
theorem cutWhen_none {full : List α → Bool} {g xs : List α}
    (h : ∀ p, p <+: xs → p ≠ [] → full (g ++ p) = false) :
    cutWhen full g xs = ([], g ++ xs) := by
  induction xs generalizing g with
  | nil => simp
  | cons a as ih =>
      have ha : full (g ++ [a]) = false := h [a] (by simp) (by simp)
      rw [cutWhen_cons_open _ ha, ih]
      · simp
      · intro p hp _
        simpa using h (a :: p) (by simpa using hp) (by simp)

/-! ## The cut after marked letters -/

@[simp] theorem endsIn_concat (p : α → Bool) (g : List α) (a : α) :
    endsIn p (g ++ [a]) = p a := by
  simp [endsIn]

theorem endsIn_of_forall {p : α → Bool} {g : List α} (h : ∀ a ∈ g, p a = false) :
    endsIn p g = false := by
  cases g using List.reverseRecOn with
  | nil => rfl
  | append_singleton as a => rw [endsIn_concat]; exact h a (by simp)

/-- Letters without a mark stay in the open piece. -/
theorem cutAfter_unmarked {p : α → Bool} {xs : List α} (h : ∀ a ∈ xs, p a = false) :
    cutAfter p xs = ([], xs) :=
  cutWhen_none (fun q hq _ => endsIn_of_forall fun a ha =>
    h a (hq.subset (by simpa using ha)))

/-- The first marked letter closes the first piece. -/
theorem cutAfter_marked {p : α → Bool} {xs : List α} {a : α}
    (h : ∀ b ∈ xs, p b = false) (ha : p a = true) (ys : List α) :
    cutAfter p (xs ++ a :: ys) = ((xs ++ [a]) :: (cutAfter p ys).1, (cutAfter p ys).2) := by
  have hopen : cutWhen (endsIn p) [] xs = ([], xs) := cutAfter_unmarked h
  rw [cutAfter, cutWhen_append, hopen,
    cutWhen_cons_full ys (show endsIn p (xs ++ [a]) = true by simpa using ha)]
  rfl

/-- Every list is unmarked, or splits at its first marked letter. -/
theorem unmarked_or_first (p : α → Bool) (xs : List α) :
    (∀ a ∈ xs, p a = false) ∨
      ∃ pre a post, xs = pre ++ a :: post ∧ (∀ b ∈ pre, p b = false) ∧ p a = true := by
  induction xs with
  | nil => exact .inl (by simp)
  | cons a as ih =>
      cases ha : p a with
      | true => exact .inr ⟨[], a, as, rfl, by simp, ha⟩
      | false =>
          rcases ih with h | ⟨pre, b, post, rfl, hpre, hb⟩
          · exact .inl (by simpa [ha] using h)
          · exact .inr ⟨a :: pre, b, post, rfl, by simpa [ha] using hpre, hb⟩

theorem pieces_closed (qs : List (List α)) : pieces (qs, []) = qs := rfl

theorem pieces_cons (q : List α) (r : List (List α) × List α) :
    pieces (q :: r.1, r.2) = q :: pieces r := by
  unfold pieces
  split <;> simp

theorem pieces_open (qs : List (List α)) {g : List α} (hg : g ≠ []) :
    pieces (qs, g) = qs ++ [g] := by
  simp [pieces, hg]

/-! ## Groups of a fixed length -/

@[simp] theorem groups_nil (n : Nat) : groups n ([] : List α) = ([], []) := rfl

/-- Fewer than `n` letters make no group. -/
theorem groups_short {n : Nat} {xs : List α} (h : xs.length < n) :
    groups n xs = ([], xs) := by
  refine cutWhen_none (g := []) fun p hp _ => ?_
  have := hp.length_le
  simp only [hasLength, List.nil_append, beq_eq_false_iff_ne]
  omega

/-- Every group closed has exactly `n` letters. -/
theorem groups_length (n : Nat) (xs : List α) :
    ∀ q ∈ (groups n xs).1, q.length = n := by
  intro q hq
  simpa [hasLength] using cutWhen_full (hasLength n) [] xs q hq

/-- Fewer than `n` letters are left over. -/
theorem groups_rest_length {n : Nat} (hn : 0 < n) (xs : List α) :
    (groups n xs).2.length < n := by
  induction xs using List.reverseRecOn with
  | nil => simpa using hn
  | append_singleton as a ih =>
      rw [groups, cutWhen_append, ← groups]
      cases h : hasLength n ((groups n as).2 ++ [a]) with
      | true => simpa [cutWhen_cons_full _ h] using hn
      | false =>
          rw [cutWhen_cons_open _ h, cutWhen_nil]
          simp only [hasLength, beq_eq_false_iff_ne] at h
          simp only [List.length_append, List.length_singleton] at h ⊢
          omega

theorem groups_ne_nil {n : Nat} (hn : 0 < n) {xs g : List α} (hg : g ∈ (groups n xs).1) :
    g ≠ [] := by
  intro hnil
  have hlen := groups_length n xs g hg
  rw [hnil, List.length_nil] at hlen
  omega

theorem groups_flatten (n : Nat) (xs : List α) :
    (groups n xs).1.flatten ++ (groups n xs).2 = xs :=
  cutWhen_flatten (hasLength n) [] xs

/-- The letters of a group are letters of the list. -/
theorem mem_of_mem_groups {n : Nat} {xs g : List α} {a : α} (hg : g ∈ (groups n xs).1)
    (h : a ∈ g) : a ∈ xs := by
  rw [← groups_flatten n xs]
  exact List.mem_append_left _ (List.mem_flatten.mpr ⟨g, hg, h⟩)

/-- So are the letters left over. -/
theorem mem_of_mem_groups_rest {n : Nat} {xs : List α} {a : α}
    (h : a ∈ (groups n xs).2) : a ∈ xs := by
  rw [← groups_flatten n xs]
  exact List.mem_append_right _ h

/-- The first `n` letters make the first group. -/
theorem groups_full {n : Nat} (hn : 0 < n) {g : List α} (hg : g.length = n)
    (xs : List α) : groups n (g ++ xs) = (g :: (groups n xs).1, (groups n xs).2) := by
  cases g using List.reverseRecOn with
  | nil => simp at hg; omega
  | append_singleton as a =>
      have hlen : as.length < n := by simp at hg; omega
      -- the group stays open up to its last letter, which closes it
      have hopen : cutWhen (hasLength n) [] as = ([], as) := groups_short hlen
      have hfull : hasLength n (as ++ [a]) = true := by simpa [hasLength] using hg
      rw [List.append_assoc, List.singleton_append, groups, cutWhen_append, hopen,
        cutWhen_cons_full xs hfull]
      rfl

theorem pieces_groups_ne_nil {n : Nat} (hn : 0 < n) {xs g : List α}
    (hg : g ∈ pieces (groups n xs)) : g ≠ [] := by
  unfold pieces at hg
  split at hg
  · exact groups_ne_nil hn hg
  · rename_i hopen
    rcases List.mem_append.mp hg with hg | hg
    · exact groups_ne_nil hn hg
    · rw [List.mem_singleton.mp hg]
      simpa using hopen

theorem hasLength_map (f : α → β) (n : Nat) (g : List α) :
    hasLength n (g.map f) = hasLength n g := by
  simp [hasLength]

/-- Grouping looks at positions only: it commutes with `map`. -/
theorem cutWhen_hasLength_map (f : α → β) (n : Nat) (g xs : List α) :
    cutWhen (hasLength n) (g.map f) (xs.map f)
      = ((cutWhen (hasLength n) g xs).1.map (List.map f),
          (cutWhen (hasLength n) g xs).2.map f) := by
  induction xs generalizing g with
  | nil => rfl
  | cons a as ih =>
      have hmap : g.map f ++ [f a] = (g ++ [a]).map f := by simp
      have hnil := ih []
      rw [List.map_nil] at hnil
      cases h : hasLength n (g ++ [a]) with
      | true =>
          have hfull : hasLength n (g.map f ++ [f a]) = true := by
            rw [hmap, hasLength_map, h]
          rw [List.map_cons, cutWhen_cons_full _ h, cutWhen_cons_full _ hfull, hnil, hmap]
          rfl
      | false =>
          have hopen : hasLength n (g.map f ++ [f a]) = false := by
            rw [hmap, hasLength_map, h]
          rw [List.map_cons, cutWhen_cons_open _ h, cutWhen_cons_open _ hopen, hmap,
            ih (g ++ [a])]

theorem pieces_groups_map (f : α → β) (n : Nat) (xs : List α) :
    pieces (groups n (xs.map f)) = (pieces (groups n xs)).map (List.map f) := by
  have h := cutWhen_hasLength_map f n [] xs
  rw [List.map_nil] at h
  rw [groups, h, groups]
  unfold pieces
  split <;> rename_i hc <;> simp at hc <;> simp [hc]

/-- One more letter at the end joins the last group, full or not. -/
theorem pieces_groups_concat (n : Nat) (xs : List α) (a : α) :
    pieces (groups n (xs ++ [a])) = (groups n xs).1 ++ [(groups n xs).2 ++ [a]] := by
  rw [groups, cutWhen_append, ← groups]
  cases h : hasLength n ((groups n xs).2 ++ [a]) with
  | true => simp [cutWhen_cons_full _ h, pieces]
  | false => simp [cutWhen_cons_open _ h, pieces]

/-- Groups by position: group `i` is the letters from `n * i` on, `n` of them. -/
theorem groups_eq_slices {n : Nat} (hn : 0 < n) (xs : List α) :
    groups n xs
      = ((List.range (xs.length / n)).map fun i => (xs.drop (n * i)).take n,
          xs.drop (n * (xs.length / n))) := by
  induction hk : xs.length / n generalizing xs with
  | zero =>
      have hlt : xs.length < n := by
        rcases Nat.div_eq_zero_iff.mp hk with h | h <;> omega
      simp [groups_short hlt]
  | succ k ih =>
      have hge : n ≤ xs.length := by
        by_contra hlt
        rw [Nat.div_eq_of_lt (by omega)] at hk
        cases hk
      have htake : (xs.take n).length = n := by simp; omega
      have hrest : (xs.drop n).length / n = k := by
        have hsub := Nat.sub_mul_div xs.length n 1
        rw [Nat.mul_one, hk] at hsub
        rw [List.length_drop, hsub, Nat.add_sub_cancel]
      -- peel the first group off; the rest has one group fewer
      have hcut := groups_full hn htake (xs.drop n)
      rw [List.take_append_drop, ih (xs.drop n) hrest] at hcut
      rw [hcut, List.range_succ_eq_map]
      simp [Function.comp_def, Nat.mul_succ, Nat.add_comm]

end Cut
