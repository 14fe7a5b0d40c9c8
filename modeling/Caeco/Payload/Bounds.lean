import Caeco.Payload.Acceptance

/-!
# Where a fill stores

A round makes three stores after one test of the bound. So a fill that comes through stores
at the indices from 0 on, up to the next multiple of three.
-/

namespace Caeco.Payload

open Search CInt

/-! ## `fill_buffers` -/

/-- `while(cnt < rx_buff_size / sizeof(int)) { receive_buffer[cnt++] = cnt; }` with `n` for
the bound. The `cnt` on the right is not sequenced with the increment; `seen` is what it
reads as. -/
def receiveLoop (seen : Nat → Nat) (n : Nat) : Nat → List (BitVec 32) → C (List (BitVec 32))
  | 0, receiveBuffer => pure receiveBuffer
  | fuel + 1, receiveBuffer => do
      let cnt := (← get).cnt
      if cnt < n then
        modify fun s => { s with cnt := cnt + 1 }
        receiveLoop seen n fuel (receiveBuffer.set cnt (BitVec.ofNat 32 (seen cnt)))
      else
        return receiveBuffer

/-- The receive buffer comes back; the transmit buffer is part of the state. -/
def fillBuffers (malloc : Malloc) (seen : Nat → Nat) (txBuffer : List (BitVec 32))
    (txBuffSize : Nat) (rxBuffer : List (BitVec 32)) (rxBuffSize : Nat)
    (payload : List UInt8) (heap : Heap) : EStateM.Result Fault State (List (BitVec 32)) :=
  (do fillLoop malloc (txBuffSize / sizeofInt) (txBuffSize / sizeofInt)
      modify fun s => { s with cnt := 0 }
      receiveLoop seen (rxBuffSize / sizeofInt) (rxBuffSize / sizeofInt) rxBuffer : C _).run
    { cnt := 0, txBuffer := txBuffer, payload := some payload, heap := heap, trace := [] }

/-- The receive loop tests its bound before each store, and touches nothing but `cnt` and
the receive buffer. -/
theorem receiveLoop_run (seen : Nat → Nat) (n : Nat) :
    ∀ (fuel : Nat) (receiveBuffer : List (BitVec 32)) (s : State),
      ∃ filled cnt, (receiveLoop seen n fuel receiveBuffer).run s
          = .ok filled { s with cnt := cnt } ∧
        filled.drop n = receiveBuffer.drop n := by
  intro fuel
  induction fuel with
  | zero => intro receiveBuffer s; exact ⟨receiveBuffer, s.cnt, rfl, rfl⟩
  | succ fuel ih =>
      intro receiveBuffer s
      simp only [receiveLoop, EStateM.run_bind, EStateM.run_get]
      by_cases hlt : s.cnt < n
      · obtain ⟨filled, cnt, hrun, hdrop⟩ :=
          ih (receiveBuffer.set s.cnt (BitVec.ofNat 32 (seen s.cnt)))
            { s with cnt := s.cnt + 1 }
        rw [if_pos hlt]
        refine ⟨filled, cnt, hrun, ?_⟩
        rw [hdrop, List.drop_set_of_lt hlt]
      · rw [if_neg hlt]
        exact ⟨receiveBuffer, s.cnt, rfl, rfl⟩

/-! ## The stores of a fill -/

def Event.storedAt : Event → Option Nat
  | .store i => some i
  | _ => none

/-- The indices stored to, in order. -/
def stores (trace : List Event) : List Nat := trace.filterMap Event.storedAt

/-- Stores stay below `n` and reach each index there once. -/
structure StoresEach (n : Nat) (trace : List Event) : Prop where
  below : ∀ i ∈ stores trace, i < n
  once : ∀ i < n, (stores trace).count i = 1

theorem stores_append (t₁ t₂ : List Event) : stores (t₁ ++ t₂) = stores t₁ ++ stores t₂ :=
  List.filterMap_append

/-- An assignment that comes through makes one store, at `cnt`. -/
theorem assign_stores {malloc : Malloc} {key : List UInt8} {s s' : State} {u : Unit}
    (h : (assign malloc key).run s = .ok u s') :
    stores s'.trace = stores s.trace ++ [s.cnt] := by
  obtain ⟨text, token, rest, bytes, _, _, rfl⟩ := assign_ok h
  exact stores_append _ _

theorem assigns_stores {malloc : Malloc} :
    ∀ (ks : List (List UInt8)) {s s' : State} {u : Unit},
      (assigns malloc ks).run s = .ok u s' →
        stores s'.trace = stores s.trace ++ List.range' s.cnt ks.length := by
  intro ks
  induction ks with
  | nil =>
      intro s s' u h
      cases h
      simp
  | cons key rest ih =>
      intro s s' u h
      obtain ⟨s₁, hrun, h⟩ := exists_of_assigns_cons h
      rw [ih h, assign_stores hrun, assign_cnt hrun, List.length_cons, List.range'_succ]
      simp

theorem fillTxBuffer_stores_range {malloc : Malloc} {txBuffer : List (BitVec 32)}
    {txBuffSize : Nat} {payload : List UInt8} {heap : Heap} {u : Unit} {s : State}
    (h : fillTxBuffer malloc txBuffer txBuffSize payload heap = .ok u s) :
    stores s.trace = List.range (3 * rounds (txBuffSize / sizeofInt)) := by
  rw [fillTxBuffer_unrolled] at h
  rw [assigns_stores _ h, length_keys, List.range_eq_range']
  rfl

/-- The transmit loop of `fill_buffers` is the loop of `fill_tx_buffer`. -/
theorem fillBuffers_transmit {malloc : Malloc} {seen : Nat → Nat}
    {txBuffer rxBuffer rx : List (BitVec 32)} {txBuffSize rxBuffSize : Nat}
    {payload : List UInt8} {heap : Heap} {s : State}
    (h : fillBuffers malloc seen txBuffer txBuffSize rxBuffer rxBuffSize payload heap
      = .ok rx s) :
    ∃ s', fillTxBuffer malloc txBuffer txBuffSize payload heap = .ok ⟨⟩ s' ∧
      s.trace = s'.trace ∧ s.txBuffer = s'.txBuffer ∧
      rx.drop (rxBuffSize / sizeofInt) = rxBuffer.drop (rxBuffSize / sizeofInt) := by
  rw [fillBuffers, EStateM.run_bind] at h
  rw [fillTxBuffer]
  cases hfill : (fillLoop malloc (txBuffSize / sizeofInt) (txBuffSize / sizeofInt)).run
      { cnt := 0, txBuffer := txBuffer, payload := some payload, heap := heap,
        trace := [] } with
  | error f s₁ => rw [hfill] at h; cases h
  | ok u s₁ =>
      rw [hfill] at h
      obtain ⟨filled, cnt, hrun, hdrop⟩ := receiveLoop_run seen (rxBuffSize / sizeofInt)
        (rxBuffSize / sizeofInt) rxBuffer { s₁ with cnt := 0 }
      simp only [EStateM.run_bind, EStateM.run_modify, hrun] at h
      cases h
      exact ⟨s₁, rfl, rfl, rfl, hdrop⟩

/-- Stores at 0, 1, 2 and so on, in whole rounds, fit exactly if there are no odd ones. -/
theorem storesEach_iff {n : Nat} {trace : List Event}
    (h : stores trace = List.range (3 * rounds n)) : StoresEach n trace ↔ 3 ∣ n := by
  constructor
  · intro hstores
    -- the last store of the last round has to be below `n`
    by_contra hdvd
    have hlast : n ∈ stores trace := by
      rw [h, List.mem_range, rounds]
      omega
    exact absurd (hstores.below n hlast) (Nat.lt_irrefl n)
  · intro hdvd
    have hrounds : 3 * rounds n = n := by
      rw [rounds]
      omega
    rw [hrounds] at h
    constructor
    · intro i hi
      rw [h] at hi
      exact List.mem_range.mp hi
    · intro i hi
      rw [h]
      exact List.count_eq_one_of_mem List.nodup_range (List.mem_range.mpr hi)

/-- **When the stores fit**: a fill that comes through, by `fill_tx_buffer` or by the
transmit loop of `fill_buffers`, stores once to each index of the buffer and nowhere else
exactly if the buffer takes whole triples. -/
theorem stores_fit_iff (malloc : Malloc) (txBuffer : List (BitVec 32)) (txBuffSize : Nat)
    (payload : List UInt8) (heap : Heap) :
    (∀ s, fillTxBuffer malloc txBuffer txBuffSize payload heap = .ok ⟨⟩ s →
        (StoresEach (txBuffSize / sizeofInt) s.trace ↔ 3 ∣ txBuffSize / sizeofInt)) ∧
      ∀ seen rxBuffer rxBuffSize rx s,
        fillBuffers malloc seen txBuffer txBuffSize rxBuffer rxBuffSize payload heap
          = .ok rx s →
        (StoresEach (txBuffSize / sizeofInt) s.trace ↔ 3 ∣ txBuffSize / sizeofInt) := by
  constructor
  · intro s h
    exact storesEach_iff (fillTxBuffer_stores_range h)
  · intro seen rxBuffer rxBuffSize rx s h
    obtain ⟨s', hs', htrace, _, _⟩ := fillBuffers_transmit h
    rw [htrace]
    exact storesEach_iff (fillTxBuffer_stores_range hs')

/-- The text of one triple. -/
def oneTriple : List UInt8 := lit "x\":1,y\":2,z\":3,"

theorem splits_oneTriple : Splits comma (keys 1) oneTriple :=
  .cons [] (lit "1") (.cons [] (lit "2") (.cons [] (lit "3") (.nil [])))

/-- One triple in a buffer for it. -/
theorem stores_fit_one_triple :
    ∃ s, fillTxBuffer (fun _ _ => some []) [0, 0, 0] 12 oneTriple ⟨0, []⟩ = .ok ⟨⟩ s ∧
      StoresEach 3 s.trace := by
  obtain ⟨s, hs⟩ := (fillTxBuffer_ok_iff_splits (fun _ _ => ⟨[], rfl⟩) [0, 0, 0] 12 oneTriple
    ⟨0, []⟩).mpr splits_oneTriple
  have hfit := stores_fit_iff (fun _ _ => some []) [0, 0, 0] 12 oneTriple ⟨0, []⟩
  exact ⟨s, hs, (hfit.1 s hs).mpr (by decide)⟩

/-- One triple in a buffer of one `int`: two of its stores go beyond the end. -/
theorem one_int_overrun :
    ¬ ∀ (malloc : Malloc) (txBuffer : List (BitVec 32)) (txBuffSize : Nat)
      (payload : List UInt8) (heap : Heap) (s : State),
        fillTxBuffer malloc txBuffer txBuffSize payload heap = .ok ⟨⟩ s →
          StoresEach (txBuffSize / sizeofInt) s.trace := by
  intro h
  obtain ⟨s, hs⟩ := (fillTxBuffer_ok_iff_splits (fun _ _ => ⟨[], rfl⟩) [7] 4 oneTriple
    ⟨0, []⟩).mpr splits_oneTriple
  have hfit := h (fun _ _ => some []) [7] 4 oneTriple ⟨0, []⟩ s hs
  have hmem : 1 ∈ stores s.trace := by
    rw [fillTxBuffer_stores_range hs]
    decide
  exact absurd (hfit.below 1 hmem) (by decide)

end Caeco.Payload
