import Caeco.Kit.CInt
import Caeco.Hls.Stream

/-!
# `sum_330` from moment to moment

The values of `cnt` and `sum` after each statement, while the kernel is invoked again and
again. Both are reset at every way out of a group, so what they hold is bounded by one
group.
-/

namespace Caeco.Hls

open Cut CInt

/-- The locals at some moment, and the beats added up so far of the group in work. -/
structure Moment where
  group : List SideChan
  locals : Locals
deriving Repr, DecidableEq

/-- The moments of the loop body once `in.read()` has returned `tmp1`, one behind each
statement that assigns to `sum` or `cnt`. -/
def bodyMoments (g : List SideChan) (l : Locals) (tmp1 : SideChan) : List Moment :=
  let sum := l.sum + tmp1.data
  let cnt := l.cnt + 1
  [⟨g ++ [tmp1], { cnt := l.cnt, sum := sum }⟩, ⟨g ++ [tmp1], { cnt := cnt, sum := sum }⟩] ++
    if tmp1.last ≠ 0 ∨ cnt = N then
      -- `cnt` is reset before the group's beat is written, `sum` behind
      [⟨g ++ [tmp1], { cnt := 0, sum := sum }⟩, ⟨[], { cnt := 0, sum := 0 }⟩]
    else []

/-- The group in work once `tmp1` has been dealt with. -/
def nextGroup (g : List SideChan) (tmp1 : SideChan) : List SideChan :=
  if completed (g ++ [tmp1]) then [] else g ++ [tmp1]

/-- The locals at the next loop head, of this invocation or of the next one. -/
def nextLocals (l : Locals) (tmp1 : SideChan) : Locals :=
  (iteration l tmp1).2.getD { cnt := 0, sum := 0 }

/-- The moments from a loop head on, until the stream is used up. -/
def moments (g : List SideChan) (l : Locals) : List SideChan → List Moment
  | [] => [⟨g, l⟩]
  | tmp1 :: rest =>
      ⟨g, l⟩ :: bodyMoments g l tmp1 ++ moments (nextGroup g tmp1) (nextLocals l tmp1) rest

/-! ## The accumulator -/

/-- The sum of the group's samples, as integers. -/
def exactSum (g : List SideChan) : Int := (g.map fun b => b.data.toInt).sum

/-- The samples of the beats lie in `[-B, B]`. -/
def SamplesWithin (B : Int) (beats : List SideChan) : Prop :=
  Within B (beats.map fun b => b.data.toInt)

instance (B : Int) (beats : List SideChan) : Decidable (SamplesWithin B beats) :=
  inferInstanceAs (Decidable (Within B _))

theorem SamplesWithin.left {B : Int} {g h : List SideChan} (hw : SamplesWithin B (g ++ h)) :
    SamplesWithin B g := by
  intro v hv
  apply hw
  rw [List.map_append]
  exact List.mem_append_left _ hv

theorem SamplesWithin.right {B : Int} {g h : List SideChan} (hw : SamplesWithin B (g ++ h)) :
    SamplesWithin B h := by
  intro v hv
  apply hw
  rw [List.map_append]
  exact List.mem_append_right _ hv

/-- A moment at which neither variable has left its range. -/
structure Exact (m : Moment) : Prop where
  cnt_nonneg : 0 ≤ m.locals.cnt
  cnt_le : m.locals.cnt ≤ 330
  sum : m.locals.sum.toInt = exactSum m.group

theorem sum_localsOf {B : Int} {g : List SideChan} (hB : 330 * B ≤ intMax)
    (hlen : g.length ≤ 330) (h : SamplesWithin B g) :
    (localsOf g).sum.toInt = exactSum g := by
  have hdata : Within B ((g.map SideChan.data).map BitVec.toInt) := by
    simpa [SamplesWithin, Function.comp_def] using h
  have hsum := toInt_sum (n := 330) hdata (by simpa using hlen) hB
  simpa [localsOf, exactSum, Function.comp_def] using hsum

/-- At the loop head. -/
theorem exact_localsOf {B : Int} (hB : 330 * B ≤ intMax) {g : List SideChan}
    (hg : g.length < 330) (h : SamplesWithin B g) : Exact ⟨g, localsOf g⟩ where
  cnt_nonneg := Int.natCast_nonneg _
  cnt_le := by simp only [localsOf]; omega
  sum := sum_localsOf hB (Nat.le_of_lt hg) h

theorem localsOf_concat (g : List SideChan) (b : SideChan) :
    localsOf (g ++ [b]) = { cnt := (localsOf g).cnt + 1, sum := (localsOf g).sum + b.data } := by
  simp [localsOf]

theorem completed_concat (g : List SideChan) (b : SideChan) :
    completed (g ++ [b]) = (hasLength 330 (g ++ [b]) || isLast b) := by
  rw [completed, endsIn_concat]

theorem nextLocals_localsOf (g : List SideChan) (tmp1 : SideChan) :
    nextLocals (localsOf g) tmp1 = localsOf (nextGroup g tmp1) := by
  rw [nextGroup, completed_concat]
  by_cases hlast : isLast tmp1 = true
  · rw [nextLocals, iteration_last g hlast, hlast, Bool.or_true, if_pos rfl]
    rfl
  · have hlast' : isLast tmp1 = false := by simpa using hlast
    by_cases hfull : (g ++ [tmp1]).length = 330
    · rw [nextLocals, iteration_full hlast' hfull, hasLength, hfull]
      rfl
    · have hopen : (hasLength 330 (g ++ [tmp1]) || isLast tmp1) = false := by
        rw [hlast', Bool.or_false, hasLength]
        simpa using hfull
      rw [nextLocals, iteration_open hlast' hfull, hopen]
      rfl

theorem length_nextGroup {g : List SideChan} (hg : g.length < 330) (tmp1 : SideChan) :
    (nextGroup g tmp1).length < 330 := by
  rw [nextGroup, completed_concat]
  by_cases hfull : (g ++ [tmp1]).length = 330
  · rw [hasLength, hfull]
    simp
  · by_cases hlast : isLast tmp1 = true
    · simp [hlast]
    · have hopen : (hasLength 330 (g ++ [tmp1]) || isLast tmp1) = false := by
        simpa [hasLength, hlast] using hfull
      rw [hopen, if_neg (by simp)]
      simp only [List.length_append, List.length_singleton] at hfull ⊢
      omega

/-- **One pass through the body**: the beat joins the group, and at each way out both
variables are reset. -/
theorem bodyMoments_exact {B : Int} (hB : 330 * B ≤ intMax) {g : List SideChan}
    (hg : g.length < 330) {tmp1 : SideChan} (h : SamplesWithin B (g ++ [tmp1])) :
    ∀ m ∈ bodyMoments g (localsOf g) tmp1, Exact m := by
  have hlen : (g ++ [tmp1]).length ≤ 330 := by
    rw [List.length_append, List.length_singleton]
    omega
  have hsum := sum_localsOf hB hlen h
  rw [localsOf_concat] at hsum
  have hlo : 0 ≤ (localsOf g).cnt := Int.natCast_nonneg _
  have hhi : (localsOf g).cnt < 330 := by
    simp only [localsOf]
    omega
  intro m hm
  rcases List.mem_append.mp hm with hm | hm
  · rcases List.mem_cons.mp hm with rfl | hm
    · exact ⟨hlo, Int.le_of_lt hhi, hsum⟩
    · rw [List.mem_singleton.mp hm]
      exact ⟨Int.add_nonneg hlo Int.one_nonneg, hhi, hsum⟩
  · split at hm
    · rcases List.mem_cons.mp hm with rfl | hm
      · exact ⟨Int.le_refl 0, Int.natCast_nonneg 330, hsum⟩
      · rw [List.mem_singleton.mp hm]
        exact ⟨Int.le_refl 0, Int.natCast_nonneg 330, rfl⟩
    · cases hm

theorem moments_exact {B : Int} (hB : 330 * B ≤ intMax) :
    ∀ (input g : List SideChan), g.length < 330 → SamplesWithin B (g ++ input) →
      ∀ m ∈ moments g (localsOf g) input, Exact m := by
  intro input
  induction input with
  | nil =>
      intro g hg h m hm
      rw [List.mem_singleton.mp hm]
      exact exact_localsOf hB hg h.left
  | cons tmp1 rest ih =>
      intro g hg h m hm
      have hall : SamplesWithin B ((g ++ [tmp1]) ++ rest) := by simpa using h
      rw [moments, nextLocals_localsOf] at hm
      rcases List.mem_append.mp hm with hm | hm
      · rcases List.mem_cons.mp hm with rfl | hm
        · exact exact_localsOf hB hg h.left
        · exact bodyMoments_exact hB hg hall.left m hm
      · -- the group left open is no longer than the beats of it
        apply ih (nextGroup g tmp1) (length_nextGroup hg tmp1) _ m hm
        rw [nextGroup]
        split
        · exact hall.right
        · exact hall

end Caeco.Hls
