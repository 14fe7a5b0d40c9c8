import Caeco.Client.Received

/-!
# What one message puts into the transmit buffer

`publish_callback` fills the buffer from the C string at the message's address. The size
that comes with the message is not used, so the C string may go on in the residue.
-/

namespace Caeco.Client

open Payload Search CInt

/-- `const size_t tx_size = 330 * sizeof(int);` -/
def txSize : Nat := 330 * sizeofInt

/-- The keys that a fill of the transmit buffer looks up. -/
def frameKeys : List (List UInt8) := keys (rounds (txSize / sizeofInt))

theorem length_frameKeys : frameKeys.length = 330 := length_keys _

theorem frameKeys_ok : ∀ key ∈ frameKeys, key ≠ [] ∧ comma ∉ key := key_ok _

/-- `fill_tx_buffer(tx_buf, tx_size, (char *) published->application_message);` -/
def fillFrame (malloc : Malloc) (published : ResponsePublish) (txBuf : List (BitVec 32))
    (heap : Heap) : EStateM.Result Fault State Unit :=
  fillTxBuffer malloc txBuf txSize (cstr published.applicationMessage) heap

/-- The values found in the memory at a message's address. -/
def frameValues (malloc : Malloc) (calls : Nat) (mem : List UInt8) : List (BitVec 32) :=
  stored malloc frameKeys calls (cstr mem)

/-- The fill is determined by the values found. -/
theorem fillFrame_spec (malloc : Malloc) (published : ResponsePublish)
    (txBuf : List (BitVec 32)) (heap : Heap) :
    let values := frameValues malloc heap.calls published.applicationMessage
    (final (fillFrame malloc published txBuf heap)).cnt = values.length ∧
      (final (fillFrame malloc published txBuf heap)).txBuffer = storeAll txBuf 0 values ∧
      ((∃ s, fillFrame malloc published txBuf heap = .ok ⟨⟩ s) ↔ values.length = 330) := by
  intro values
  rw [fillFrame, fillTxBuffer_unrolled]
  obtain ⟨hcnt, hbuf, hok⟩ := assigns_run malloc frameKeys
    { cnt := 0, txBuffer := txBuf, payload := some (cstr published.applicationMessage),
      heap := heap, trace := [] } _ rfl
  rw [length_frameKeys] at hok
  exact ⟨hcnt.trans (Nat.zero_add _), hbuf, hok⟩

/-! ## The residue behind a message -/

/-- What a fill leaves behind for its caller. -/
structure Outcome where
  lookups : Nat
  txBuf : List (BitVec 32)
deriving Repr, DecidableEq

/-- The outcome of the fill for packet `p`, when it is received with `residue` behind it. -/
def fillOutcome (malloc : Malloc) (txBuf : List (BitVec 32)) (heap : Heap)
    (p : PublishPacket) (residue : List UInt8) : Except MqttError Outcome :=
  (p.response residue).map fun (published, _) =>
    let s := final (fillFrame malloc published txBuf heap)
    { lookups := s.cnt, txBuf := s.txBuffer }

theorem fillOutcome_eq (malloc : Malloc) (txBuf : List (BitVec 32)) (heap : Heap)
    (p : PublishPacket) (residue : List UInt8) :
    fillOutcome malloc txBuf heap p residue
      = .ok (let values := frameValues malloc heap.calls (p.applicationMessage ++ residue)
             { lookups := values.length, txBuf := storeAll txBuf 0 values }) := by
  obtain ⟨published, consumed, hresponse, hmem, _⟩ := p.response_eq residue
  obtain ⟨hcnt, hbuf, _⟩ := fillFrame_spec malloc published txBuf heap
  rw [fillOutcome, hresponse, ← hmem]
  show Except.ok (_ : Outcome) = .ok _
  simp only [hcnt, hbuf]

/-- A text that serves every key and has no NUL in it. -/
def fullFrame : List UInt8 := frameKeys.flatMap (· ++ [comma])

/-- A response whose message is one full frame. -/
def fullMessage : ResponsePublish where
  dupFlag := 0
  qosLevel := 0
  retainFlag := 0
  topicNameSize := 0
  topicName := []
  packetId := none
  applicationMessage := fullFrame
  applicationMessageSize := fullFrame.length

theorem zero_not_mem_keys {r : Nat} {key : List UInt8} (h : key ∈ keys r) : 0 ∉ key := by
  rcases mem_keys h with rfl | rfl | rfl
  · decide
  · decide
  · decide

theorem cstr_fullFrame : cstr fullFrame = fullFrame := by
  refine cstr_eq_self fun h => ?_
  obtain ⟨key, hkey, hmem⟩ := List.mem_flatMap.mp h
  rcases List.mem_append.mp hmem with hmem | hmem
  · exact zero_not_mem_keys hkey hmem
  · simp [comma] at hmem

theorem frameValues_prepend_fullFrame {m : List UInt8} (hz : 0 ∉ m) {malloc : Malloc}
    (hmalloc : ∀ k n, ∃ bytes, malloc k n = some bytes) (calls : Nat) :
    (frameValues malloc calls (m ++ fullFrame)).length = 330 := by
  obtain ⟨tokens, hscan⟩ :=
    scan_of_splits ((Splits.flatMap comma frameKeys).prepend m) _ (List.suffix_refl _)
  rw [frameValues, cstr_append_of_not_mem hz, cstr_fullFrame, ← length_frameKeys]
  exact stored_of_scan hmalloc calls hscan

/-- The values do not depend on the residue if the message is terminated or serves every
key by itself. -/
theorem frameValues_append {m : List UInt8} (h : 0 ∈ m ∨ Splits comma frameKeys m)
    (malloc : Malloc) (calls : Nat) (r : List UInt8) :
    frameValues malloc calls (m ++ r) = frameValues malloc calls m := by
  by_cases hz : 0 ∈ m
  · rw [frameValues, frameValues, cstr_append_of_mem hz]
  · have hsplits := h.resolve_left hz
    obtain ⟨tokens, hscan⟩ := (scan_isSome_iff frameKeys_ok m).mpr hsplits
    rw [frameValues, frameValues, cstr_append_of_not_mem hz, cstr_eq_self hz]
    exact stored_append malloc calls hscan (cstr r)

/-- Otherwise one residue completes the message and another does not. -/
theorem frameValues_completed {m : List UInt8} (hz : 0 ∉ m)
    (h : ¬ Splits comma frameKeys m) {malloc : Malloc}
    (hmalloc : ∀ k n, ∃ bytes, malloc k n = some bytes) (calls : Nat) :
    (frameValues malloc calls (m ++ fullFrame)).length ≠
      (frameValues malloc calls (m ++ [])).length := by
  rw [frameValues_prepend_fullFrame hz hmalloc, frameValues, cstr_append_of_not_mem hz,
    ← length_frameKeys]
  intro hlen
  apply h
  refine (scan_isSome_iff frameKeys_ok m).mp ?_
  simpa [cstr] using scan_of_stored hlen.symm

/-- **When a frame depends on its own message only**: the fill comes out the same for every
residue exactly if the message holds a NUL or serves all 330 lookups by itself. -/
theorem fillOutcome_residue_iff (p : PublishPacket) (txBuf : List (BitVec 32))
    (heap : Heap) :
    (∀ malloc residue₁ residue₂,
        fillOutcome malloc txBuf heap p residue₁ = fillOutcome malloc txBuf heap p residue₂) ↔
      0 ∈ p.applicationMessage ∨ Splits comma frameKeys p.applicationMessage := by
  constructor
  · intro h
    by_cases hz : 0 ∈ p.applicationMessage
    · exact .inl hz
    · refine .inr ?_
      by_contra hsplits
      have hmalloc : ∀ k n, ∃ bytes, (fun _ _ => some [] : Malloc) k n = some bytes :=
        fun _ _ => ⟨[], rfl⟩
      have hsame := h (fun _ _ => some []) fullFrame []
      rw [fillOutcome_eq, fillOutcome_eq] at hsame
      injection hsame with hsame
      exact frameValues_completed hz hsplits hmalloc heap.calls (congrArg Outcome.lookups hsame)
  · intro h malloc r₁ r₂
    rw [fillOutcome_eq, fillOutcome_eq, frameValues_append h, frameValues_append h]

/-- A message cut off before the comma of its first value. -/
def cutOffPacket : PublishPacket where
  controlFlags := 0
  topicName := lit "vibration"
  packetId := 0
  applicationMessage := lit "\x7b\"x\":-1"
  topic_fits := by decide
  long_enough := by decide

/-- A comma left behind by another packet makes its first lookup succeed. -/
theorem cutOffPacket_depends :
    ¬ ∀ (p : PublishPacket) (txBuf : List (BitVec 32)) (heap : Heap) (malloc : Malloc)
      (residue₁ residue₂ : List UInt8),
        fillOutcome malloc txBuf heap p residue₁
          = fillOutcome malloc txBuf heap p residue₂ := by
  intro h
  have hsame := h cutOffPacket [0] ⟨0, []⟩ (fun _ _ => some []) [] (lit "5,")
  have hnone : fillOutcome (fun _ _ => some []) [0] ⟨0, []⟩ cutOffPacket []
      = .ok { lookups := 0, txBuf := [0] } := by
    rfl
  have hone : fillOutcome (fun _ _ => some []) [0] ⟨0, []⟩ cutOffPacket (lit "5,")
      = .ok { lookups := 1, txBuf := [-15] } := by
    rfl
  rw [hnone, hone] at hsame
  injection hsame with hsame
  cases hsame

end Caeco.Client
