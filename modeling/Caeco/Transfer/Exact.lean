import Caeco.Hls.Moments
import Caeco.Transfer.CalcOutput

/-!
# No sum overflows

In C the accumulator of `sum_buffer` is an `int`, and an overflow has no value. Each call
of `calc_output` adds up 330 elements at most, so samples that leave enough room for that
many of them are added up exactly.
-/

namespace Caeco.Transfer

open CInt Caeco.Hls

/-! ## The calls, and their sums -/

/-- The arguments of a call of `sum_buffer`. -/
structure Call where
  start : Int
  end_ : Int
deriving Repr, DecidableEq

/-- The calls that `calc_output` makes. -/
def sumCalls (size : Int) : List Call :=
  let j := size.tdiv vibBuffMax
  let r := size.tmod vibBuffMax
  (List.range j.toNat).map (fun i => ⟨vibBuffMax * i, (i + 1) * vibBuffMax⟩) ++
    if r ≠ 0 then [⟨vibBuffMax * j, vibBuffMax * j + r⟩] else []

/-- The elements that a call adds up. -/
def Call.group (buffer : List (BitVec 32)) (c : Call) : List (BitVec 32) :=
  slice buffer (c.start.toNat / sizeofInt) (c.end_.toNat / sizeofInt)

/-- The sum as an integer, which does not wrap. -/
def total (vs : List (BitVec 32)) : Int := (vs.map BitVec.toInt).sum

/-- The loop of `sum_buffer` with an accumulator of type `int`. -/
def sumLoopInt (buffer : List (BitVec 32)) (end_ : Int) : Nat → Int → Int → Option Int
  | 0, _, _ => none
  | fuel + 1, i, ret =>
      if toSize i < toSize end_ / sizeofInt then do
        let v ← load buffer i
        let ret' ← checked (ret + v.toInt)
        let i' ← checked (i + 1)
        sumLoopInt buffer end_ fuel i' ret'
      else some ret

/-- `sum_buffer` on integers: the sum that the words stand for. -/
def sumBufferInt (buffer : List (BitVec 32)) (c : Call) : Option Int :=
  sumLoopInt buffer c.end_ (buffer.length + 1) (ofSize (toSize c.start / sizeofInt)) 0

/-- The register of `sumLoop` holds what the `int` would, as long as that has a value. -/
theorem sumLoop_of_int {buffer : List (BitVec 32)} {end_ : Int} :
    ∀ {fuel : Nat} {i ret v : Int}, sumLoopInt buffer end_ fuel i ret = some v →
      sumLoop buffer end_ fuel i (BitVec.ofInt 32 ret) = some (BitVec.ofInt 32 v) := by
  intro fuel
  induction fuel with
  | zero => intro i ret v h; cases h
  | succ fuel ih =>
      intro i ret v h
      rw [sumLoopInt] at h
      rw [sumLoop]
      by_cases hlt : toSize i < toSize end_ / sizeofInt
      · rw [if_pos hlt] at h ⊢
        simp only [Option.bind_eq_bind, Option.bind_eq_some_iff] at h
        obtain ⟨x, hx, ret', hret, i', hi, h⟩ := h
        have hadd : BitVec.ofInt 32 ret + x = BitVec.ofInt 32 ret' := by
          rw [eq_of_checked hret, BitVec.ofInt_add, BitVec.ofInt_toInt]
        refine bind_eq_of_some hx (bind_eq_of_some hi ?_)
        rw [hadd]
        exact ih h
      · rw [if_neg hlt] at h ⊢
        cases h
        rfl

theorem sumBuffer_of_int {buffer : List (BitVec 32)} {c : Call} {v : Int}
    (h : sumBufferInt buffer c = some v) :
    sumBuffer buffer c.start c.end_ = some (BitVec.ofInt 32 v) :=
  sumLoop_of_int h

/-! ## One call -/

theorem slice_concat {buffer : List (BitVec 32)} {s i : Nat} (hsi : s ≤ i)
    (hi : i < buffer.length) : slice buffer s (i + 1) = slice buffer s i ++ [buffer[i]] := by
  unfold slice
  rw [show i + 1 - s = (i - s) + 1 by omega,
    List.take_succ_eq_append_getElem (by rw [List.length_drop]; omega)]
  simp [show s + (i - s) = i by omega]

theorem total_concat (vs : List (BitVec 32)) (v : BitVec 32) :
    total (vs ++ [v]) = total vs + v.toInt := by
  simp [total]

theorem within_slice {B : Int} {buffer : List (BitVec 32)}
    (h : Within B (buffer.map BitVec.toInt)) (s e : Nat) :
    Within B ((slice buffer s e).map BitVec.toInt) := by
  intro v hv
  apply h
  obtain ⟨x, hx, rfl⟩ := List.mem_map.mp hv
  exact List.mem_map_of_mem (List.mem_of_mem_drop (List.mem_of_mem_take hx))

/-- From index `i` on the accumulator holds the sum of the elements so far, up to the
bound. -/
theorem sumLoopInt_slice {B : Int} (hB : 330 * B ≤ intMax) {buffer : List (BitVec 32)}
    (h : Within B (buffer.map BitVec.toInt)) {s end_ : Nat} (hmax : (end_ : Int) ≤ intMax)
    (hlen : end_ / sizeofInt ≤ buffer.length) (hwidth : end_ / sizeofInt ≤ s + 330) :
    ∀ (fuel i : Nat), s ≤ i → i ≤ end_ / sizeofInt → end_ / sizeofInt - i < fuel →
      sumLoopInt buffer (end_ : Int) fuel (i : Int) (total (slice buffer s i))
        = some (total (slice buffer s (end_ / sizeofInt))) := by
  have hle : end_ / sizeofInt ≤ end_ := Nat.div_le_self _ _
  intro fuel
  induction fuel with
  | zero => intro i _ _ hf; omega
  | succ fuel ih =>
      intro i hsi hi hf
      have hisz : toSize (i : Int) = i := toSize_natCast (by omega)
      rw [sumLoopInt, hisz, toSize_natCast hmax]
      by_cases hlt : i < end_ / sizeofInt
      · have hin : i < buffer.length := by omega
        have hload := load_natCast hin
        -- the new partial sum is that of 330 elements at most
        have hnew : checked (total (slice buffer s i) + buffer[i].toInt)
            = some (total (slice buffer s (i + 1))) := by
          rw [slice_concat hsi hin, total_concat]
          have hshort : ((slice buffer s (i + 1)).map BitVec.toInt).length ≤ 330 := by
            simp only [slice, List.length_map, List.length_take, List.length_drop]
            omega
          have hrange := (within_slice h s (i + 1)).sum_int hshort hB
          rw [slice_concat hsi hin, show ((slice buffer s i ++ [buffer[i]]).map BitVec.toInt).sum
            = _ from total_concat _ _] at hrange
          exact checked_eq_some hrange.1 hrange.2
        have hnext := checked_succ (show ((i + 1 : Nat) : Int) ≤ intMax by omega)
        rw [if_pos hlt]
        exact bind_eq_of_some hload (bind_eq_of_some hnew (bind_eq_of_some hnext
          (ih (i + 1) (by omega) (by omega) (by omega))))
      · rw [if_neg hlt, show i = end_ / sizeofInt by omega]

/-- A call that `calc_output` can make on a buffer of `size` bytes. -/
structure Call.Fits (size : Nat) (c : Call) : Prop where
  start_nonneg : 0 ≤ c.start
  start_le : c.start ≤ c.end_
  end_le : c.end_ ≤ size
  width : c.end_.toNat / sizeofInt ≤ c.start.toNat / sizeofInt + 330

theorem Call.Fits.exists_bytes {size : Nat} {c : Call} (hc : c.Fits size) :
    ∃ start end_ : Nat, c = ⟨start, end_⟩ ∧ start ≤ end_ ∧ end_ ≤ size := by
  obtain ⟨start, end_⟩ := c
  obtain ⟨hstart, hle, hend, -⟩ := hc
  obtain ⟨start, rfl⟩ := Int.eq_ofNat_of_zero_le hstart
  obtain ⟨end_, rfl⟩ := Int.eq_ofNat_of_zero_le (Int.le_trans hstart hle)
  exact ⟨start, end_, rfl, Int.ofNat_le.mp hle, Int.ofNat_le.mp hend⟩

theorem sumBufferInt_exact {B : Int} (hB : 330 * B ≤ intMax) {buffer : List (BitVec 32)}
    (h : Within B (buffer.map BitVec.toInt)) {size : Nat} (hmax : (size : Int) ≤ intMax)
    (hlen : size / sizeofInt ≤ buffer.length) {c : Call} (hc : c.Fits size) :
    sumBufferInt buffer c = some (total (c.group buffer)) := by
  obtain ⟨start, end_, rfl, hle, hend⟩ := hc.exists_bytes
  have hwidth : end_ / sizeofInt ≤ start / sizeofInt + 330 := hc.width
  have hse : start / sizeofInt ≤ end_ / sizeofInt := Nat.div_le_div_right hle
  have hes : end_ / sizeofInt ≤ size / sizeofInt := Nat.div_le_div_right hend
  have hfuel : end_ / sizeofInt - start / sizeofInt < buffer.length + 1 :=
    Nat.lt_succ_of_le (Nat.le_trans (Nat.sub_le _ _) (Nat.le_trans hes hlen))
  have hloop := sumLoopInt_slice hB h (show (end_ : Int) ≤ intMax by omega)
    (Nat.le_trans hes hlen) hwidth _ _ (Nat.le_refl _) hse hfuel
  rw [slice_empty, show total [] = 0 from rfl] at hloop
  rw [sumBufferInt, ofSize_div (by omega)]
  exact hloop

/-! ## All calls -/

/-- The call for chunk `i`. -/
def chunkCall (i : Nat) : Call where
  start := (1320 * i : Nat)
  end_ := (1320 * (i + 1) : Nat)

/-- The call for what the chunks of `size` bytes leave. -/
def restCall (size : Nat) : Call where
  start := (1320 * (size / 1320) : Nat)
  end_ := size

theorem sumCalls_natCast (size : Nat) :
    sumCalls (size : Int) = (List.range (size / 1320)).map chunkCall ++
      if size % 1320 = 0 then [] else [restCall size] := by
  rw [sumCalls, tdiv_vibBuffMax, tmod_vibBuffMax, Int.toNat_natCast]
  congr 1
  · apply List.map_congr_left
    intro i _
    rw [vibBuffMax_eq, chunkCall]
    congr 1
    omega
  · by_cases hz : size % 1320 = 0
    · rw [if_pos hz, if_neg (by omega)]
    · rw [if_neg hz, if_pos (by omega), vibBuffMax_eq, restCall]
      congr 2
      omega

theorem chunkCall_fits {size i : Nat} (hi : i < size / 1320) : (chunkCall i).Fits size where
  start_nonneg := Int.natCast_nonneg _
  start_le := by simp only [chunkCall]; omega
  end_le := by simp only [chunkCall]; omega
  width := by simp only [chunkCall, Int.toNat_natCast, sizeofInt]; omega

theorem restCall_fits (size : Nat) : (restCall size).Fits size where
  start_nonneg := Int.natCast_nonneg _
  start_le := by simp only [restCall]; omega
  end_le := Int.le_refl _
  width := by simp only [restCall, Int.toNat_natCast, sizeofInt]; omega

theorem sumCalls_fit (size : Nat) : ∀ c ∈ sumCalls (size : Int), c.Fits size := by
  intro c hc
  rw [sumCalls_natCast] at hc
  rcases List.mem_append.mp hc with hc | hc
  · obtain ⟨i, hi, rfl⟩ := List.mem_map.mp hc
    exact chunkCall_fits (List.mem_range.mp hi)
  · split at hc
    · cases hc
    · rw [List.mem_singleton.mp hc]
      exact restCall_fits size

theorem chunkCall_group (buffer : List (BitVec 32)) (i : Nat) :
    (chunkCall i).group buffer = slice buffer (330 * i) (330 * (i + 1)) := by
  simp only [Call.group, chunkCall, Int.toNat_natCast, sizeofInt]
  rw [show 1320 * i / 4 = 330 * i by omega, show 1320 * (i + 1) / 4 = 330 * (i + 1) by omega]

theorem restCall_group (buffer : List (BitVec 32)) (size : Nat) :
    (restCall size).group buffer = slice buffer (330 * (size / 1320)) (size / 4) := by
  simp only [Call.group, restCall, Int.toNat_natCast, sizeofInt]
  rw [show 1320 * (size / 1320) / 4 = 330 * (size / 1320) by omega]

/-- `calc_output` prints what its calls of `sum_buffer` return. -/
theorem calcOutput_calls {buffer : List (BitVec 32)} {size : Nat}
    (hmax : (size : Int) ≤ intMax) (hlen : size / sizeofInt ≤ buffer.length) :
    ∃ out, calcOutput buffer (size : Int) = some out ∧
      values out = (sumCalls (size : Int)).map fun c => (c.group buffer).sum := by
  refine ⟨_, calcOutput_slices hmax hlen, ?_⟩
  rw [sumCalls_natCast, List.map_append, List.map_map]
  by_cases hz : size % 1320 = 0
  · rw [if_pos hz, if_pos hz]
    simp [values, Function.comp_def, List.filterMap_map, chunkCall_group]
  · rw [if_neg hz, if_neg hz]
    simp [values, Function.comp_def, List.filterMap_map, chunkCall_group, restCall_group]

/-- **Exact accumulators**: with samples of which 330 fit into an `int`, at every moment of
the free-running kernel `cnt` is between 0 and 330 and `sum` the sum of the group in work;
and every call of `sum_buffer` that `calc_output` makes gets by without an overflow, so
that the numbers it prints are the sums of their groups. -/
theorem accumulators_exact {B : Int} (hB : 330 * B ≤ intMax) :
    (∀ input, SamplesWithin B input →
        ∀ m ∈ moments [] { cnt := 0, sum := 0 } input, Exact m) ∧
      ∀ (buffer : List (BitVec 32)) (size : Int), Within B (buffer.map BitVec.toInt) →
        0 ≤ size → size ≤ intMax → size.toNat / sizeofInt ≤ buffer.length →
        (∀ c ∈ sumCalls size, sumBufferInt buffer c = some (total (c.group buffer)) ∧
            sumBuffer buffer c.start c.end_
              = some (BitVec.ofInt 32 (total (c.group buffer)))) ∧
          ∃ out, calcOutput buffer size = some out ∧
            (values out).map BitVec.toInt
              = (sumCalls size).map fun c => total (c.group buffer) := by
  constructor
  · intro input h
    rw [← localsOf_nil]
    exact moments_exact hB input [] (by decide) h
  · intro buffer size h hsize hmax hlen
    obtain ⟨size, rfl⟩ := Int.eq_ofNat_of_zero_le hsize
    rw [Int.toNat_natCast] at hlen
    constructor
    · intro c hc
      have hint := sumBufferInt_exact hB h hmax hlen (sumCalls_fit size c hc)
      exact ⟨hint, sumBuffer_of_int hint⟩
    · obtain ⟨out, hout, hvalues⟩ := calcOutput_calls hmax hlen
      refine ⟨out, hout, ?_⟩
      rw [hvalues, List.map_map]
      apply List.map_congr_left
      intro c hc
      have hshort : (c.group buffer).length ≤ 330 := by
        have hwidth := (sumCalls_fit size c hc).width
        simp only [Call.group, slice, List.length_take, List.length_drop]
        omega
      exact toInt_sum (within_slice h _ _) hshort hB

/-- Two samples as one packet, and as a buffer. -/
theorem accumulators_exact_two_samples :
    (∀ m ∈ moments [] { cnt := 0, sum := 0 }
        [⟨-13375, 0, 0, 0, 0, 0, 0⟩, ⟨194, 0, 0, 0, 1, 0, 0⟩], Exact m) ∧
      ∃ out, calcOutput [-13375, 194] 8 = some out ∧
        (values out).map BitVec.toInt
          = (sumCalls 8).map fun c => total (c.group [-13375, 194]) := by
  obtain ⟨hhard, hsoft⟩ := accumulators_exact (B := 16384) (by decide)
  exact ⟨hhard _ (by decide), (hsoft [-13375, 194] 8 (by decide) (by decide) (by decide)
    (by decide)).2⟩

end Caeco.Transfer
