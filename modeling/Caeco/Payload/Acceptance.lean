import Caeco.Payload.Stored

/-!
# Which payloads a fill accepts

The lookups search leftmost from a moving cursor. That never costs a payload which another
choice of occurrences would accept, and what is found in a payload is found in every longer
one.
-/

namespace Caeco.Payload

open Search CInt

/-- `malloc` does not fail. -/
def Malloc.Succeeds (malloc : Malloc) : Prop := ∀ k n, ∃ bytes, malloc k n = some bytes

/-- A fill that comes through has made one assignment per key. -/
theorem fillTxBuffer_cnt {malloc : Malloc} {txBuffer : List (BitVec 32)} {txBuffSize : Nat}
    {payload : List UInt8} {heap : Heap} {u : Unit} {s : State}
    (h : fillTxBuffer malloc txBuffer txBuffSize payload heap = .ok u s) :
    s.cnt = 3 * rounds (txBuffSize / sizeofInt) := by
  rw [fillTxBuffer_unrolled] at h
  rw [assigns_cnt _ h, length_keys]
  exact Nat.zero_add _

/-- A fill comes through exactly if there is a value for each key. -/
theorem fillTxBuffer_ok_iff (malloc : Malloc) (txBuffer : List (BitVec 32)) (txBuffSize : Nat)
    (payload : List UInt8) (heap : Heap) :
    (∃ s, fillTxBuffer malloc txBuffer txBuffSize payload heap = .ok ⟨⟩ s) ↔
      (stored malloc (keys (rounds (txBuffSize / sizeofInt))) heap.calls payload).length
        = (keys (rounds (txBuffSize / sizeofInt))).length := by
  rw [fillTxBuffer_unrolled]
  exact (assigns_run malloc _
    { cnt := 0, txBuffer := txBuffer, payload := some payload, heap := heap, trace := [] }
    payload rfl).2.2

/-- The values are stored from index 0 on. -/
theorem fillTxBuffer_stores (malloc : Malloc) (txBuffer : List (BitVec 32)) (txBuffSize : Nat)
    (payload : List UInt8) (heap : Heap) :
    (final (fillTxBuffer malloc txBuffer txBuffSize payload heap)).txBuffer
      = storeAll txBuffer 0
          (stored malloc (keys (rounds (txBuffSize / sizeofInt))) heap.calls payload) := by
  rw [fillTxBuffer_unrolled]
  exact (assigns_run malloc _
    { cnt := 0, txBuffer := txBuffer, payload := some payload, heap := heap, trace := [] }
    payload rfl).2.1

theorem fillTxBuffer_ok_iff_splits {malloc : Malloc} (hmalloc : malloc.Succeeds)
    (txBuffer : List (BitVec 32)) (txBuffSize : Nat) (payload : List UInt8) (heap : Heap) :
    (∃ s, fillTxBuffer malloc txBuffer txBuffSize payload heap = .ok ⟨⟩ s) ↔
      Splits comma (keys (rounds (txBuffSize / sizeofInt))) payload := by
  rw [fillTxBuffer_ok_iff, ← scan_isSome_iff (key_ok _)]
  constructor
  · intro h
    exact scan_of_stored h
  · rintro ⟨tokens, h⟩
    exact stored_of_scan hmalloc heap.calls h

/-- **Exact acceptance**: all lookups of a fill succeed exactly if the payload is `r`
repetitions of `x":` … `,` `y":` … `,` `z":` … `,` with any text in between and behind, `r`
being the rounds the buffer takes. Then more text behind the payload changes nothing. -/
theorem fillTxBuffer_accepts_iff (malloc : Malloc) (hmalloc : malloc.Succeeds)
    (p : List UInt8) (hz : 0 ∉ p) (behind : List UInt8) (txBuffSize : Nat)
    (txBuffer : List (BitVec 32)) (heap : Heap) :
    ((∃ s, fillTxBuffer malloc txBuffer txBuffSize (cstr (p ++ 0 :: behind)) heap = .ok ⟨⟩ s) ↔
        Splits comma (keys (rounds (txBuffSize / sizeofInt))) p) ∧
      ∀ s, fillTxBuffer malloc txBuffer txBuffSize (cstr (p ++ 0 :: behind)) heap = .ok ⟨⟩ s →
        s.cnt = 3 * rounds (txBuffSize / sizeofInt) ∧
        ∀ more, ∃ s', fillTxBuffer malloc txBuffer txBuffSize
            (cstr (p ++ more ++ 0 :: behind)) heap = .ok ⟨⟩ s' ∧
          s'.txBuffer = s.txBuffer := by
  rw [cstr_terminated hz]
  refine ⟨fillTxBuffer_ok_iff_splits hmalloc txBuffer txBuffSize p heap, fun s hs => ?_⟩
  refine ⟨fillTxBuffer_cnt hs, fun more => ?_⟩
  have hlen := (fillTxBuffer_ok_iff malloc txBuffer txBuffSize p heap).mp ⟨s, hs⟩
  obtain ⟨tokens, hscan⟩ := scan_of_stored hlen
  have hsame := stored_append malloc heap.calls hscan (cstr (more ++ 0 :: behind))
  have hmem : cstr (p ++ more ++ 0 :: behind) = p ++ cstr (more ++ 0 :: behind) := by
    rw [List.append_assoc]
    exact cstr_append_of_not_mem hz _
  rw [hmem]
  obtain ⟨s', hs'⟩ := (fillTxBuffer_ok_iff malloc txBuffer txBuffSize
    (p ++ cstr (more ++ 0 :: behind)) heap).mpr (by rw [hsame]; exact hlen)
  refine ⟨s', hs', ?_⟩
  have hbuf := fillTxBuffer_stores malloc txBuffer txBuffSize p heap
  have hbuf' := fillTxBuffer_stores malloc txBuffer txBuffSize
    (p ++ cstr (more ++ 0 :: behind)) heap
  rw [hs, show final (.ok ⟨⟩ s) = s from rfl] at hbuf
  rw [hs', show final (.ok ⟨⟩ s') = s' from rfl] at hbuf'
  rw [hbuf', hbuf, hsame]

/-- A round with text in between, and one behind it that adds a second round. -/
theorem fillTxBuffer_accepts_one_round :
    (∃ s, fillTxBuffer (fun _ _ => some []) [0, 0, 0] 12
        (cstr (lit "\x7b\"x\":1,\"y\":2,\"z\":-3,4" ++ 0 :: lit ",")) ⟨0, []⟩ = .ok ⟨⟩ s ∧
      s.cnt = 3 ∧
      ∃ s', fillTxBuffer (fun _ _ => some []) [0, 0, 0] 12
          (cstr (lit "\x7b\"x\":1,\"y\":2,\"z\":-3,4" ++ lit "\"x\":5,"
            ++ 0 :: lit ",")) ⟨0, []⟩ = .ok ⟨⟩ s' ∧
        s'.txBuffer = s.txBuffer) := by
  obtain ⟨hiff, hmore⟩ := fillTxBuffer_accepts_iff (fun _ _ => some []) (fun _ _ => ⟨[], rfl⟩)
    (lit "\x7b\"x\":1,\"y\":2,\"z\":-3,4") (by decide) (lit ",") 12 [0, 0, 0] ⟨0, []⟩
  obtain ⟨s, hs⟩ := hiff.mpr
    (.cons (lit "\x7b\"") (lit "1") (.cons (lit "\"") (lit "2")
      (.cons (lit "\"") (lit "-3") (.nil (lit "4")))))
  obtain ⟨hcnt, happend⟩ := hmore s hs
  exact ⟨s, hs, hcnt, happend (lit "\"x\":5,")⟩

end Caeco.Payload
