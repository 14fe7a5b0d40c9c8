import Mathlib.Data.BitVec
import Caeco.Kit.CInt

/-!
# The software reference: `sum_buffer` and `calc_output`

The C functions that print what the kernel is expected to answer. Index arithmetic has
the types of the source: bounds are `int` byte counts, divided as `size_t` and compared
with an `int` index that is converted for the comparison. Undefined behaviour (a read
outside the buffer, a signed overflow in the index arithmetic) is `none`. The accumulator
is read as a 32-bit register, so `ret += buffer[i]` wraps.
-/

namespace Caeco.Transfer

open CInt

/-- `int const VIB_BUFF_MAX = 330 * sizeof(int)` -/
def vibBuffMax : Int := ofSize (330 * sizeofInt)

/-- `buffer[i]` -/
def load (buffer : List (BitVec 32)) (i : Int) : Option (BitVec 32) :=
  if i < 0 then none else buffer[i.toNat]?

/-- `for(; i < end / sizeof(int); i++) ret += buffer[i];` — a round reads the next element
of the buffer, so one round more than the buffer has elements is never reached. -/
def sumLoop (buffer : List (BitVec 32)) (end_ : Int) :
    Nat → Int → BitVec 32 → Option (BitVec 32)
  | 0, _, _ => none
  | fuel + 1, i, ret =>
      -- both sides are `size_t`: a negative `i` would compare as a huge one
      if toSize i < toSize end_ / sizeofInt then do
        let v ← load buffer i
        let i' ← checked (i + 1)
        sumLoop buffer end_ fuel i' (ret + v)
      else some ret

/-- `sum_buffer`: the words from `start` to `end_`, as far as the buffer may be read. The sum
wraps. -/
def sumBuffer (buffer : List (BitVec 32)) (start end_ : Int) : Option (BitVec 32) :=
  sumLoop buffer end_ (buffer.length + 1) (ofSize (toSize start / sizeofInt)) 0

/-- What a `printf` call of `calc_output` puts out. -/
inductive Printed where
  | text (s : String)
  /-- `%d` followed by a separator -/
  | int (v : BitVec 32) (sep : String)
deriving Repr, DecidableEq

/-- `printf("%d\t", sum_buffer(buffer, VIB_BUFF_MAX*i, (i+1) * VIB_BUFF_MAX))` -/
def printChunk (buffer : List (BitVec 32)) (i : Nat) : Option Printed := do
  let start ← checked (vibBuffMax * i)
  let next ← checked ((i : Int) + 1)
  let end_ ← checked (next * vibBuffMax)
  let v ← sumBuffer buffer start end_
  return .int v "\t"

/-- `if(r) printf("%d\n", sum_buffer(..., VIB_BUFF_MAX*j+r)); else printf("\n");` -/
def printRest (buffer : List (BitVec 32)) (j r : Int) : Option Printed :=
  if r ≠ 0 then do
    let start ← checked (vibBuffMax * j)
    let end_ ← checked (start + r)
    let v ← sumBuffer buffer start end_
    return .int v "\n"
  else some (.text "\n")

/-- `calc_output`: one sum for each full chunk and one for the rest. Nothing comes out where an
index leaves the range of `int` or the buffer. -/
def calcOutput (buffer : List (BitVec 32)) (size : Int) : Option (List Printed) := do
  let j := size.tdiv vibBuffMax
  let r := size.tmod vibBuffMax
  let chunks ← (List.range j.toNat).mapM (printChunk buffer)
  let rest ← printRest buffer j r
  return .text "Calculated Output =>\t" :: chunks ++ [rest]

/-- The numbers printed, in order. -/
def values (out : List Printed) : List (BitVec 32) :=
  out.filterMap fun
    | .int v _ => some v
    | .text _ => none

/-! ## What one call of `sum_buffer` adds up -/

/-- Elements `s` to `e - 1` of the buffer. -/
def slice (buffer : List (BitVec 32)) (s e : Nat) : List (BitVec 32) :=
  (buffer.drop s).take (e - s)

theorem slice_cons {buffer : List (BitVec 32)} {s e : Nat} (hse : s < e)
    (hs : s < buffer.length) : slice buffer s e = buffer[s] :: slice buffer (s + 1) e := by
  unfold slice
  rw [List.drop_eq_getElem_cons hs, show e - s = (e - (s + 1)) + 1 from by omega]
  rfl

theorem slice_empty (buffer : List (BitVec 32)) (s : Nat) : slice buffer s s = [] := by
  simp [slice]

theorem load_natCast {buffer : List (BitVec 32)} {i : Nat} (h : i < buffer.length) :
    load buffer (i : Int) = some buffer[i] := by
  have hneg : ¬ ((i : Int) < 0) := by omega
  simp [load, hneg, h]

/-- From index `i` the loop adds the elements up to the bound, provided they exist. -/
theorem sumLoop_slice {buffer : List (BitVec 32)} {end_ : Nat} (hmax : (end_ : Int) ≤ intMax)
    (hlen : end_ / sizeofInt ≤ buffer.length) :
    ∀ (fuel i : Nat) (ret : BitVec 32), i ≤ end_ / sizeofInt →
      end_ / sizeofInt - i < fuel →
      sumLoop buffer (end_ : Int) fuel (i : Int) ret
        = some (ret + (slice buffer i (end_ / sizeofInt)).sum) := by
  have hle : end_ / sizeofInt ≤ end_ := Nat.div_le_self _ _
  intro fuel
  induction fuel with
  | zero => intro i ret _ hf; omega
  | succ fuel ih =>
      intro i ret hi hf
      have hisz : toSize (i : Int) = i := toSize_natCast (by omega)
      rw [sumLoop, hisz, toSize_natCast hmax]
      by_cases hlt : i < end_ / sizeofInt
      · -- one round: the element exists, and the index does not overflow
        have hload := load_natCast (show i < buffer.length by omega)
        have hnext := checked_succ (show ((i + 1 : Nat) : Int) ≤ intMax by omega)
        have hstep := ih (i + 1) (ret + buffer[i]) (by omega) (by omega)
        rw [if_pos hlt, slice_cons hlt (by omega), List.sum_cons, ← BitVec.add_assoc]
        exact bind_eq_of_some hload (bind_eq_of_some hnext hstep)
      · have hie : i = end_ / sizeofInt := by omega
        rw [if_neg hlt, ← hie, slice_empty]
        simp

/-- `(int) (start / sizeof(int))` -/
theorem ofSize_div {start : Nat} (hmax : (start : Int) ≤ intMax) :
    ofSize (toSize (start : Int) / sizeofInt) = ((start / sizeofInt : Nat) : Int) := by
  have hle : start / sizeofInt ≤ start := Nat.div_le_self _ _
  rw [toSize_natCast hmax, ofSize_eq (by omega)]

/-- **`sum_buffer` on byte bounds**: it adds the elements from `start / 4` up to, but not
including, `end / 4`. -/
theorem sumBuffer_slice {buffer : List (BitVec 32)} {start end_ : Nat} (hse : start ≤ end_)
    (hmax : (end_ : Int) ≤ intMax) (hlen : end_ / sizeofInt ≤ buffer.length) :
    sumBuffer buffer (start : Int) (end_ : Int)
      = some (slice buffer (start / sizeofInt) (end_ / sizeofInt)).sum := by
  have hdiv : start / sizeofInt ≤ end_ / sizeofInt := Nat.div_le_div_right hse
  have hfuel : end_ / sizeofInt - start / sizeofInt < buffer.length + 1 :=
    Nat.lt_succ_of_le (Nat.le_trans (Nat.sub_le _ _) hlen)
  rw [sumBuffer, ofSize_div (by omega), sumLoop_slice hmax hlen _ _ _ hdiv hfuel]
  simp

/-! ## The calls of `calc_output` -/

theorem vibBuffMax_eq : vibBuffMax = 1320 := by decide

theorem tdiv_vibBuffMax (size : Nat) :
    (size : Int).tdiv vibBuffMax = ((size / 1320 : Nat) : Int) := by
  rw [vibBuffMax_eq, Int.tdiv_eq_ediv_of_nonneg (by omega)]
  omega

theorem tmod_vibBuffMax (size : Nat) :
    (size : Int).tmod vibBuffMax = ((size % 1320 : Nat) : Int) := by
  rw [vibBuffMax_eq, Int.tmod_eq_emod_of_nonneg (by omega)]
  omega

/-- `VIB_BUFF_MAX*i` -/
theorem checked_start {i : Nat} (hmax : ((1320 * i : Nat) : Int) ≤ intMax) :
    checked (vibBuffMax * i) = some ((1320 * i : Nat) : Int) :=
  checked_eq_natCast (by rw [vibBuffMax_eq]; omega) hmax

/-- `(i+1) * VIB_BUFF_MAX` -/
theorem checked_end {i : Nat} (hmax : ((1320 * (i + 1) : Nat) : Int) ≤ intMax) :
    checked (((i + 1 : Nat) : Int) * vibBuffMax) = some ((1320 * (i + 1) : Nat) : Int) :=
  checked_eq_natCast (by rw [vibBuffMax_eq]; omega) hmax

/-- `VIB_BUFF_MAX*j+r` is the size again. -/
theorem checked_restEnd {size : Nat} (hmax : (size : Int) ≤ intMax) :
    checked (((1320 * (size / 1320) : Nat) : Int) + ((size % 1320 : Nat) : Int))
      = some (size : Int) :=
  checked_eq_natCast (by omega) hmax

/-- Chunk `i` is the elements `330 * i` to `330 * (i + 1) - 1`. -/
theorem printChunk_slice {buffer : List (BitVec 32)} {i : Nat}
    (hmax : ((1320 * (i + 1) : Nat) : Int) ≤ intMax)
    (hlen : 330 * (i + 1) ≤ buffer.length) :
    printChunk buffer i = some (.int (slice buffer (330 * i) (330 * (i + 1))).sum "\t") := by
  have hstart := checked_start (show ((1320 * i : Nat) : Int) ≤ intMax by omega)
  have hnext := checked_succ (show ((i + 1 : Nat) : Int) ≤ intMax by omega)
  have hend := checked_end hmax
  have hlo : 1320 * i / sizeofInt = 330 * i := by simp only [sizeofInt]; omega
  have hhi : 1320 * (i + 1) / sizeofInt = 330 * (i + 1) := by simp only [sizeofInt]; omega
  have hsum := sumBuffer_slice (show 1320 * i ≤ 1320 * (i + 1) by omega) hmax
    (show 1320 * (i + 1) / sizeofInt ≤ buffer.length by rw [hhi]; exact hlen)
  rw [hlo, hhi] at hsum
  exact bind_eq_of_some hstart (bind_eq_of_some hnext (bind_eq_of_some hend
    (bind_eq_of_some hsum rfl)))

/-- The rest is the elements after the last full chunk, if there are bytes left. -/
theorem printRest_slice {buffer : List (BitVec 32)} {size : Nat}
    (hmax : (size : Int) ≤ intMax) (hlen : size / 4 ≤ buffer.length) :
    printRest buffer ((size / 1320 : Nat) : Int) ((size % 1320 : Nat) : Int)
      = some (if size % 1320 = 0 then .text "\n"
          else .int (slice buffer (330 * (size / 1320)) (size / 4)).sum "\n") := by
  unfold printRest
  by_cases hr : size % 1320 = 0
  · have hz : ¬ (((size % 1320 : Nat) : Int) ≠ 0) := by omega
    rw [if_neg hz, if_pos hr]
  · have hz : ((size % 1320 : Nat) : Int) ≠ 0 := by omega
    have hstart := checked_start (show ((1320 * (size / 1320) : Nat) : Int) ≤ intMax by omega)
    have hend := checked_restEnd hmax
    have hlo : 1320 * (size / 1320) / sizeofInt = 330 * (size / 1320) := by
      simp only [sizeofInt]; omega
    have hsum := sumBuffer_slice (show 1320 * (size / 1320) ≤ size by omega) hmax hlen
    rw [hlo] at hsum
    rw [if_pos hz, if_neg hr]
    exact bind_eq_of_some hstart (bind_eq_of_some hend (bind_eq_of_some hsum rfl))

/-- **`calc_output` on a buffer of `size` bytes**: one number per chunk of 330 elements,
and one for the elements left over. -/
theorem calcOutput_slices {buffer : List (BitVec 32)} {size : Nat}
    (hmax : (size : Int) ≤ intMax) (hlen : size / 4 ≤ buffer.length) :
    calcOutput buffer (size : Int)
      = some (.text "Calculated Output =>\t"
          :: ((List.range (size / 1320)).map fun i =>
              .int (slice buffer (330 * i) (330 * (i + 1))).sum "\t")
          ++ [if size % 1320 = 0 then .text "\n"
              else .int (slice buffer (330 * (size / 1320)) (size / 4)).sum "\n"]) := by
  have hchunks := mapM_eq_map (f := printChunk buffer)
    (g := fun i => .int (slice buffer (330 * i) (330 * (i + 1))).sum "\t")
    (List.range (size / 1320)) (by
      intro i hi
      have hi := List.mem_range.mp hi
      exact printChunk_slice (by omega) (by omega))
  unfold calcOutput
  simp only [tdiv_vibBuffMax, tmod_vibBuffMax, Int.toNat_natCast]
  exact bind_eq_of_some hchunks (bind_eq_of_some (printRest_slice hmax hlen) rfl)

end Caeco.Transfer
