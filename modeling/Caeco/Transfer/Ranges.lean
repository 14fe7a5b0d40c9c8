import Caeco.Kit.Tiles
import Caeco.Transfer.Exact

/-!
# Which elements are read

`calc_output` goes from bytes to elements in every call of `sum_buffer`, and the loop there
compares an `int` with a `size_t`. The log of the calls keeps the comparisons and the
indices, and leaves the sums out; it does not depend on the buffer.
-/

namespace Caeco.Transfer

open CInt Tiling

/-! ## The log -/

/-- What `sum_buffer` does in its loop. -/
inductive LoopEvent where
  /-- `i < end / sizeof(int)` -/
  | compare (i end_ : Int)
  /-- `buffer[i]` -/
  | read (i : Int)
deriving Repr, DecidableEq

/-- `for(; i < end / sizeof(int); i++) ret += buffer[i];` from the index `i` on. -/
def loopEvents (end_ : Int) : Nat → Int → Option (List LoopEvent)
  | 0, _ => none
  | fuel + 1, i =>
      if toSize i < toSize end_ / sizeofInt then do
        let i' ← checked (i + 1)
        let events ← loopEvents end_ fuel i'
        return .compare i end_ :: .read i :: events
      else some [.compare i end_]

/-- The log of a call. The loop makes no more rounds than its bound says. -/
def sumEvents (start end_ : Int) : Option (List LoopEvent) :=
  loopEvents end_ (toSize end_ / sizeofInt + 1) (ofSize (toSize start / sizeofInt))

/-- `sum_buffer(buffer, VIB_BUFF_MAX*i, (i+1) * VIB_BUFF_MAX)` -/
def chunkEvents (i : Nat) : Option (List LoopEvent) := do
  let start ← checked (vibBuffMax * i)
  let next ← checked ((i : Int) + 1)
  let end_ ← checked (next * vibBuffMax)
  sumEvents start end_

/-- `sum_buffer(buffer, VIB_BUFF_MAX*j, VIB_BUFF_MAX*j+r)`, if `r` is not 0. -/
def restEvents (j r : Int) : Option (List (List LoopEvent)) :=
  if r ≠ 0 then do
    let start ← checked (vibBuffMax * j)
    let end_ ← checked (start + r)
    let events ← sumEvents start end_
    return [events]
  else some []

/-- One log for each call that `calc_output` makes. -/
def calcEvents (size : Int) : Option (List (List LoopEvent)) := do
  let j := size.tdiv vibBuffMax
  let r := size.tmod vibBuffMax
  let chunks ← (List.range j.toNat).mapM chunkEvents
  let rest ← restEvents j r
  return chunks ++ rest

/-- The indices read, in order. -/
def reads (events : List LoopEvent) : List Int :=
  events.filterMap fun
    | .compare .. => none
    | .read i => some i

/-- The comparison of `size_t` values comes out as that of the integers. -/
def ComparedAsInt (i end_ : Int) : Prop :=
  toSize i < toSize end_ / sizeofInt ↔ i < end_ / sizeofInt

@[simp] theorem reads_compare (i end_ : Int) (events : List LoopEvent) :
    reads (.compare i end_ :: events) = reads events := rfl

@[simp] theorem reads_read (i : Int) (events : List LoopEvent) :
    reads (.read i :: events) = i :: reads events := rfl

/-! ## The log is that of `calc_output` -/

/-- Load and add up the elements with these indices. -/
def addUp (buffer : List (BitVec 32)) : BitVec 32 → List Int → Option (BitVec 32)
  | ret, [] => some ret
  | ret, i :: is => (load buffer i).bind fun v => addUp buffer (ret + v) is

theorem load_eq_none {buffer : List (BitVec 32)} {i : Int} (h : buffer.length ≤ i.toNat) :
    load buffer i = none := by
  rw [load]
  split
  · rfl
  · exact List.getElem?_eq_none h

theorem nonneg_of_load {buffer : List (BitVec 32)} {i : Int} {v : BitVec 32}
    (h : load buffer i = some v) : 0 ≤ i := by
  by_contra hneg
  rw [load, if_pos (by omega)] at h
  cases h

/-- Nothing else can go wrong: the sum wraps. -/
theorem addUp_eq_some_iff {buffer : List (BitVec 32)} {is : List Int} :
    ∀ {ret : BitVec 32}, (∃ v, addUp buffer ret is = some v) ↔
      ∀ i ∈ is, 0 ≤ i ∧ i < buffer.length := by
  induction is with
  | nil => simp [addUp]
  | cons i is ih =>
      intro ret
      rw [List.forall_mem_cons, addUp]
      by_cases hi : 0 ≤ i ∧ i < buffer.length
      · obtain ⟨k, rfl⟩ := Int.eq_ofNat_of_zero_le hi.1
        rw [load_natCast (by omega), Option.bind_some, ih]
        exact (and_iff_right hi).symm
      · have hload : load buffer i = none := by
          by_cases hneg : i < 0
          · exact if_pos hneg
          · exact load_eq_none (by omega)
        rw [hload, Option.bind_none]
        refine iff_of_false ?_ fun h => hi h.1
        rintro ⟨v, hv⟩
        cases hv

theorem sumLoop_of_events (buffer : List (BitVec 32)) {end_ : Int} :
    ∀ {n fuel : Nat} {i : Int} {events : List LoopEvent} (ret : BitVec 32),
      loopEvents end_ n i = some events → n ≤ fuel →
        sumLoop buffer end_ fuel i ret = addUp buffer ret (reads events) := by
  intro n
  induction n with
  | zero => intro fuel i events ret h _; cases h
  | succ n ih =>
      intro fuel i events ret h hfuel
      obtain ⟨fuel, rfl⟩ : ∃ k, fuel = k + 1 := ⟨fuel - 1, by omega⟩
      rw [loopEvents] at h
      rw [sumLoop]
      by_cases hlt : toSize i < toSize end_ / sizeofInt
      · rw [if_pos hlt] at h ⊢
        simp only [Option.bind_eq_bind, Option.bind_eq_some_iff] at h
        obtain ⟨i', hi', rest, hrest, hevents⟩ := h
        cases hevents
        rw [reads_compare, reads_read, addUp]
        cases hload : load buffer i with
        | none => rfl
        | some v =>
            have hround := ih (ret + v) hrest (Nat.le_of_succ_le_succ hfuel)
            exact bind_eq_of_some rfl (bind_eq_of_some hi' hround)
      · rw [if_neg hlt] at h ⊢
        cases h
        rfl

/-- More rounds than the buffer has elements from `i` on are never made. -/
theorem sumLoop_succ (buffer : List (BitVec 32)) (end_ : Int) :
    ∀ {n : Nat} {i : Int} (ret : BitVec 32), buffer.length ≤ n + i.toNat →
      sumLoop buffer end_ (n + 2) i ret = sumLoop buffer end_ (n + 1) i ret := by
  intro n
  induction n with
  | zero =>
      intro i ret hlen
      rw [sumLoop, sumLoop, load_eq_none (by omega)]
      rfl
  | succ n ih =>
      intro i ret hlen
      rw [sumLoop, sumLoop]
      by_cases hlt : toSize i < toSize end_ / sizeofInt
      · rw [if_pos hlt, if_pos hlt]
        cases hload : load buffer i with
        | none => rfl
        | some v =>
            have hi := nonneg_of_load hload
            cases hnext : checked (i + 1) with
            | none => rfl
            | some i' =>
                have hi' := eq_of_checked hnext
                exact ih (ret + v) (by omega)
      · rw [if_neg hlt, if_neg hlt]

theorem sumLoop_enough {buffer : List (BitVec 32)} {i : Int} {n : Nat} (end_ : Int)
    (ret : BitVec 32) (hlen : buffer.length ≤ n + i.toNat) (k : Nat) :
    sumLoop buffer end_ (n + 1 + k) i ret = sumLoop buffer end_ (n + 1) i ret := by
  induction k with
  | zero => rfl
  | succ k ih =>
      have hlen' : buffer.length ≤ n + k + i.toNat := by omega
      have hmore := sumLoop_succ buffer end_ ret hlen'
      rw [← ih, show n + 1 + (k + 1) = n + k + 2 by omega, hmore,
        show n + 1 + k = n + k + 1 by omega]

/-- A call returns what the elements read add up to, whatever the buffer. -/
theorem sumBuffer_of_events {start end_ : Int} {events : List LoopEvent}
    (h : sumEvents start end_ = some events) (buffer : List (BitVec 32)) :
    sumBuffer buffer start end_ = addUp buffer 0 (reads events) := by
  have hloop := sumLoop_of_events buffer 0 h
    (show _ ≤ buffer.length + 1 + toSize end_ / sizeofInt by omega)
  rw [sumLoop_enough _ _ (Nat.le_add_right _ _)] at hloop
  exact hloop

theorem printChunk_of_events {i : Nat} {events : List LoopEvent}
    (h : chunkEvents i = some events) (buffer : List (BitVec 32)) :
    printChunk buffer i
      = (addUp buffer 0 (reads events)).bind fun v => some (.int v "\t") := by
  simp only [chunkEvents, Option.bind_eq_bind, Option.bind_eq_some_iff] at h
  obtain ⟨start, hstart, next, hnext, end_, hend, hsum⟩ := h
  have hcall := sumBuffer_of_events hsum buffer
  rw [← hcall]
  exact bind_eq_of_some hstart (bind_eq_of_some hnext (bind_eq_of_some hend rfl))

theorem printRest_of_events {j r : Int} {runs : List (List LoopEvent)}
    (h : restEvents j r = some runs) (buffer : List (BitVec 32)) :
    (printRest buffer j r).map (fun p => values [p])
      = runs.mapM fun events => addUp buffer 0 (reads events) := by
  rw [restEvents] at h
  by_cases hr : r ≠ 0
  · rw [if_pos hr] at h
    simp only [Option.bind_eq_bind, Option.bind_eq_some_iff] at h
    obtain ⟨start, hstart, end_, hend, events, hsum, hruns⟩ := h
    cases hruns
    have hprinted : printRest buffer j r
        = (sumBuffer buffer start end_).bind fun v => some (.int v "\n") := by
      rw [printRest, if_pos hr]
      exact bind_eq_of_some hstart (bind_eq_of_some hend rfl)
    rw [hprinted, sumBuffer_of_events hsum, List.mapM_cons, List.mapM_nil]
    cases addUp buffer 0 (reads events) with
    | none => rfl
    | some v => rfl
  · rw [if_neg hr] at h
    cases h
    rw [printRest, if_neg hr]
    rfl

theorem values_append (out out' : List Printed) :
    values (out ++ out') = values out ++ values out' := List.filterMap_append

/-- The numbers that a loop of `printf` calls puts out. -/
theorem values_mapM {α : Type} (sum : α → Option (BitVec 32)) (sep : String) (l : List α) :
    (l.mapM fun a => (sum a).bind fun v => some (.int v sep)).map values = l.mapM sum := by
  induction l with
  | nil => rfl
  | cons a l ih =>
      rw [List.mapM_cons, List.mapM_cons, ← ih]
      cases sum a with
      | none => rfl
      | some v =>
          cases l.mapM fun a => (sum a).bind fun v => some (Printed.int v sep) with
          | none => rfl
          | some out => rfl

/-- **The log is that of the code**: for every buffer, also one that is too short,
`calc_output` prints what the elements read in its calls add up to. -/
theorem calcOutput_of_events {size : Int} {runs : List (List LoopEvent)}
    (h : calcEvents size = some runs) (buffer : List (BitVec 32)) :
    (calcOutput buffer size).map values
      = runs.mapM fun events => addUp buffer 0 (reads events) := by
  simp only [calcEvents, Option.bind_eq_bind, Option.bind_eq_some_iff] at h
  obtain ⟨chunks, hchunks, rest, hrest, hruns⟩ := h
  cases hruns
  have hprinted := mapM_of_mapM (fun i events hi => printChunk_of_events hi buffer) hchunks
  have hvalues := values_mapM (fun events => addUp buffer 0 (reads events)) "\t" chunks
  rw [← hprinted] at hvalues
  rw [List.mapM_append, ← hvalues, ← printRest_of_events hrest, calcOutput]
  cases (List.range (size.tdiv vibBuffMax).toNat).mapM (printChunk buffer) with
  | none => rfl
  | some out =>
      cases printRest buffer (size.tdiv vibBuffMax) (size.tmod vibBuffMax) with
      | none => rfl
      | some p => exact congrArg some (values_append out [p])

/-! ## One call -/

/-- What the loop logs while it goes through a stretch of the buffer. -/
def stretchLog (end_ : Int) (s : Stretch) : List LoopEvent :=
  (s.indices.flatMap fun i => [.compare i end_, .read i]) ++
    [.compare (s.first + s.length : Nat) end_]

/-- From index `i` on the loop goes through the `n` elements up to its bound. -/
theorem loopEvents_eq {end_ : Nat} (hmax : (end_ : Int) ≤ intMax) :
    ∀ {n fuel i : Nat}, i + n = end_ / sizeofInt → n < fuel →
      loopEvents (end_ : Int) fuel (i : Int) = some (stretchLog end_ ⟨i, n⟩) := by
  have hle : end_ / sizeofInt ≤ end_ := Nat.div_le_self _ _
  intro n
  induction n with
  | zero =>
      intro fuel i hi hfuel
      obtain ⟨fuel, rfl⟩ : ∃ k, fuel = k + 1 := ⟨fuel - 1, by omega⟩
      have hisz : toSize (i : Int) = i := toSize_natCast (by omega)
      rw [loopEvents, hisz, toSize_natCast hmax, if_neg (by omega)]
      rfl
  | succ n ih =>
      intro fuel i hi hfuel
      obtain ⟨fuel, rfl⟩ : ∃ k, fuel = k + 1 := ⟨fuel - 1, by omega⟩
      have hisz : toSize (i : Int) = i := toSize_natCast (by omega)
      have hnext := checked_succ (show ((i + 1 : Nat) : Int) ≤ intMax by omega)
      have hrest := @ih fuel (i + 1) (by omega) (by omega)
      rw [loopEvents, hisz, toSize_natCast hmax, if_pos (by omega)]
      refine bind_eq_of_some hnext (bind_eq_of_some hrest ?_)
      simp only [stretchLog, Stretch.indices, List.range'_succ, List.flatMap_cons]
      rw [show i + 1 + n = i + (n + 1) by omega]
      rfl

theorem reads_stretchLog (end_ : Int) (s : Stretch) :
    reads (stretchLog end_ s) = s.indices.map Nat.cast := by
  rw [List.map_eq_flatMap]
  simp [reads, stretchLog, List.filterMap_flatMap]

/-- The loop compares its own bound with no index past the stretch. -/
theorem compare_mem_stretchLog {bound i end_ : Int} {s : Stretch}
    (h : .compare i end_ ∈ stretchLog bound s) :
    end_ = bound ∧ 0 ≤ i ∧ i ≤ (s.first + s.length : Nat) := by
  rcases List.mem_append.mp h with h | h
  · obtain ⟨k, hk, h⟩ := List.mem_flatMap.mp h
    have hrange := List.mem_range'_1.mp hk
    simp only [List.mem_cons, LoopEvent.compare.injEq, reduceCtorEq, List.not_mem_nil,
      or_false] at h
    omega
  · simp only [List.mem_singleton, LoopEvent.compare.injEq] at h
    omega

/-- Values that are not negative are compared as what they are. -/
theorem comparedAsInt_of_nonneg {i end_ : Int} (hi : 0 ≤ i) (himax : i ≤ intMax)
    (hend : 0 ≤ end_) (hmax : end_ ≤ intMax) : ComparedAsInt i end_ := by
  obtain ⟨i, rfl⟩ := Int.eq_ofNat_of_zero_le hi
  obtain ⟨end_, rfl⟩ := Int.eq_ofNat_of_zero_le hend
  rw [ComparedAsInt, toSize_natCast himax, toSize_natCast hmax]
  simp only [sizeofInt]
  omega

/-! ## All calls -/

/-- The elements that a call reads. -/
def Call.stretch (c : Call) : Stretch where
  first := c.start.toNat / sizeofInt
  length := c.end_.toNat / sizeofInt - c.start.toNat / sizeofInt

def Call.log (c : Call) : List LoopEvent := stretchLog c.end_ c.stretch

theorem sumEvents_fits {size : Nat} (hmax : (size : Int) ≤ intMax) {c : Call}
    (hc : c.Fits size) : sumEvents c.start c.end_ = some c.log := by
  obtain ⟨start, end_, rfl, hle, hend⟩ := hc.exists_bytes
  have hse : start / sizeofInt ≤ end_ / sizeofInt := Nat.div_le_div_right hle
  have hcount : start / sizeofInt + (end_ / sizeofInt - start / sizeofInt)
      = end_ / sizeofInt := by omega
  have hfuel : end_ / sizeofInt - start / sizeofInt < end_ / sizeofInt + 1 :=
    Nat.lt_succ_of_le (Nat.sub_le _ _)
  rw [sumEvents, ofSize_div (by omega), toSize_natCast (n := end_) (by omega)]
  exact loopEvents_eq (by omega) hcount hfuel

theorem Call.Fits.stretch_end {size : Nat} {c : Call} (hc : c.Fits size) :
    c.stretch.first + c.stretch.length = c.end_.toNat / sizeofInt := by
  have hle := hc.start_le
  have hdiv : c.start.toNat / sizeofInt ≤ c.end_.toNat / sizeofInt :=
    Nat.div_le_div_right (by omega)
  simp only [Call.stretch]
  omega

theorem Call.Fits.comparedAsInt {size : Nat} (hmax : (size : Int) ≤ intMax) {c : Call}
    (hc : c.Fits size) {i end_ : Int} (h : .compare i end_ ∈ c.log) :
    ComparedAsInt i end_ := by
  obtain ⟨rfl, hi, hle⟩ := compare_mem_stretchLog h
  have hstart := hc.start_nonneg
  have hse := hc.start_le
  have hend := hc.end_le
  have hdiv : c.end_.toNat / sizeofInt ≤ c.end_.toNat := Nat.div_le_self _ _
  rw [hc.stretch_end] at hle
  exact comparedAsInt_of_nonneg hi (by omega) (by omega) (by omega)

theorem chunkEvents_eq {size i : Nat} (hmax : (size : Int) ≤ intMax)
    (hi : i < size / 1320) : chunkEvents i = some (chunkCall i).log := by
  have hstart := checked_start (show ((1320 * i : Nat) : Int) ≤ intMax by omega)
  have hnext := checked_succ (show ((i + 1 : Nat) : Int) ≤ intMax by omega)
  have hend := checked_end (show ((1320 * (i + 1) : Nat) : Int) ≤ intMax by omega)
  have hsum : sumEvents ((1320 * i : Nat) : Int) ((1320 * (i + 1) : Nat) : Int)
      = some (chunkCall i).log := sumEvents_fits (c := chunkCall i) hmax (chunkCall_fits hi)
  exact bind_eq_of_some hstart (bind_eq_of_some hnext (bind_eq_of_some hend hsum))

theorem restEvents_eq {size : Nat} (hmax : (size : Int) ≤ intMax) :
    restEvents ((size / 1320 : Nat) : Int) ((size % 1320 : Nat) : Int)
      = some ((if size % 1320 = 0 then [] else [restCall size]).map Call.log) := by
  rw [restEvents]
  by_cases hr : size % 1320 = 0
  · rw [if_neg (by omega), if_pos hr]
    rfl
  · have hstart := checked_start (show ((1320 * (size / 1320) : Nat) : Int) ≤ intMax by omega)
    have hend := checked_restEnd hmax
    have hsum : sumEvents ((1320 * (size / 1320) : Nat) : Int) (size : Int)
        = some (restCall size).log :=
      sumEvents_fits (c := restCall size) hmax (restCall_fits size)
    rw [if_pos (by omega), if_neg hr]
    exact bind_eq_of_some hstart (bind_eq_of_some hend (bind_eq_of_some hsum rfl))

/-- Every call of `calc_output` goes through its loop, and none of the `int` expressions on
the way overflows. -/
theorem calcEvents_eq {size : Nat} (hmax : (size : Int) ≤ intMax) :
    calcEvents (size : Int) = some ((sumCalls (size : Int)).map Call.log) := by
  have hchunks := mapM_eq_map (f := chunkEvents) (g := fun i => (chunkCall i).log)
    (List.range (size / 1320)) fun i hi => chunkEvents_eq hmax (List.mem_range.mp hi)
  rw [sumCalls_natCast, List.map_append, List.map_map]
  unfold calcEvents
  simp only [tdiv_vibBuffMax, tmod_vibBuffMax, Int.toNat_natCast]
  exact bind_eq_of_some hchunks (bind_eq_of_some (restEvents_eq hmax) rfl)

theorem chunkCall_stretch (i : Nat) : (chunkCall i).stretch = ⟨330 * i, 330⟩ := by
  simp only [Call.stretch, chunkCall, Int.toNat_natCast, sizeofInt, Stretch.mk.injEq]
  omega

theorem restCall_stretch (size : Nat) :
    (restCall size).stretch = ⟨330 * (size / 1320), size / 4 - 330 * (size / 1320)⟩ := by
  simp only [Call.stretch, restCall, Int.toNat_natCast, sizeofInt, Stretch.mk.injEq]
  omega

/-- No gap and no overlap: the calls tile the whole elements among the `size` bytes. -/
theorem tiles_sumCalls (size : Nat) :
    Tiles 0 ((sumCalls (size : Int)).map Call.stretch) (size / sizeofInt) := by
  rw [sumCalls_natCast, List.map_append, List.map_map]
  have hchunks := tiles_map_range 330 (size / 1320)
  have hstretch : (fun i => ⟨330 * i, 330⟩) = Call.stretch ∘ chunkCall :=
    funext fun i => (chunkCall_stretch i).symm
  rw [hstretch] at hchunks
  refine Tiles.append ?_ hchunks
  simp only [sizeofInt]
  by_cases hr : size % 1320 = 0
  · rw [if_pos hr]
    exact show 330 * (size / 1320) = size / 4 by omega
  · have hrest := tiles_singleton (330 * (size / 1320)) (size / 4 - 330 * (size / 1320))
    rw [show 330 * (size / 1320) + (size / 4 - 330 * (size / 1320)) = size / 4 by omega]
      at hrest
    rw [if_neg hr, List.map_singleton, restCall_stretch]
    exact hrest

theorem map_reads_log (size : Nat) :
    ((sumCalls (size : Int)).map Call.log).map reads
      = ((sumCalls (size : Int)).map Call.stretch).map fun s => s.indices.map Nat.cast := by
  rw [List.map_map, List.map_map]
  exact List.map_congr_left fun c _ => reads_stretchLog c.end_ c.stretch

/-- Call after call, the elements are read in the order of the buffer. -/
theorem flatten_reads_log (size : Nat) :
    (((sumCalls (size : Int)).map Call.log).map reads).flatten
      = (List.range (size / sizeofInt)).map Nat.cast := by
  have hall := (tiles_sumCalls size).flatMap_indices
  rw [Nat.sub_zero, ← List.range_eq_range'] at hall
  rw [map_reads_log, ← List.flatMap_def, ← List.map_flatMap, hall]

/-- Exactly the buffers that hold the whole elements of the `size` bytes are long enough. -/
theorem calcOutput_eq_some_iff {buffer : List (BitVec 32)} {size : Nat}
    (hmax : (size : Int) ≤ intMax) :
    (∃ out, calcOutput buffer (size : Int) = some out) ↔
      size / sizeofInt ≤ buffer.length := by
  have hvalues := calcOutput_of_events (calcEvents_eq hmax) buffer
  have hdefined : (∃ out, calcOutput buffer (size : Int) = some out) ↔
      ∃ vs, (calcOutput buffer (size : Int)).map values = some vs := by
    simp [Option.map_eq_some_iff]
  rw [hdefined, hvalues, mapM_eq_some_iff]
  simp only [addUp_eq_some_iff]
  -- all calls are defined if each index in the list of all reads is in the buffer
  rw [← List.forall_mem_map (f := reads)
    (P := fun is => ∀ i ∈ is, 0 ≤ i ∧ i < (buffer.length : Int)),
    ← List.forall_mem_flatten, flatten_reads_log, List.forall_mem_map]
  constructor
  · intro h
    by_contra hlen
    have hlast := h _ (List.mem_range.mpr (Nat.not_le.mp hlen))
    omega
  · intro hlen k hk
    have hk := List.mem_range.mp hk
    omega

/-- **The elements that `calc_output` reads**, for every size that is not negative: no
`int` expression on the way overflows; what is printed is computed from the elements read
and from no others; the calls read stretches of 330 elements at most, each beginning where
the one before it ends, and together every whole element of the `size` bytes once and in
order; and no comparison in the loops comes out otherwise than on the integers. -/
theorem calcOutput_ranges {size : Int} (h : 0 ≤ size) (hmax : size ≤ intMax) :
    ∃ (runs : List (List LoopEvent)) (ranges : List Stretch),
      calcEvents size = some runs ∧
      (∀ buffer, (calcOutput buffer size).map values
        = runs.mapM fun events => addUp buffer 0 (reads events)) ∧
      runs.map reads = ranges.map (fun s => s.indices.map Nat.cast) ∧
      Tiles 0 ranges (size.toNat / sizeofInt) ∧
      (∀ s ∈ ranges, s.length ≤ 330) ∧
      (runs.map reads).Pairwise List.Disjoint ∧
      (runs.map reads).flatten = (List.range (size.toNat / sizeofInt)).map Nat.cast ∧
      ∀ events ∈ runs, ∀ i end_, .compare i end_ ∈ events → ComparedAsInt i end_ := by
  obtain ⟨size, rfl⟩ := Int.eq_ofNat_of_zero_le h
  have hruns := calcEvents_eq hmax
  have htiles := tiles_sumCalls size
  refine ⟨_, _, hruns, calcOutput_of_events hruns, map_reads_log size, htiles, ?_, ?_,
    flatten_reads_log size, ?_⟩
  · intro s hs
    obtain ⟨c, hc, rfl⟩ := List.mem_map.mp hs
    have hwidth := (sumCalls_fit size c hc).width
    simp only [Call.stretch]
    omega
  · have hdisjoint := List.pairwise_map.mp htiles.disjoint
    rw [map_reads_log, List.pairwise_map]
    exact hdisjoint.imp fun hst => List.Disjoint.map Nat.cast_injective hst
  · intro events hevents i end_ hcompare
    obtain ⟨c, hc, rfl⟩ := List.mem_map.mp hevents
    exact (sumCalls_fit size c hc).comparedAsInt hmax hcompare

/-- A size that is not a multiple of four: 331 elements, the last in a call of its own. -/
theorem calcOutput_ranges_1326 :
    ∃ runs ranges, calcEvents 1326 = some runs ∧ Tiles 0 ranges 331 ∧
      (runs.map reads).flatten = (List.range 331).map Nat.cast := by
  obtain ⟨runs, ranges, hruns, -, -, htiles, -, -, hall, -⟩ :=
    calcOutput_ranges (show (0 : Int) ≤ 1326 by decide) (by decide)
  exact ⟨runs, ranges, hruns, htiles, hall⟩

end Caeco.Transfer
