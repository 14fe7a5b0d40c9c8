import Mathlib.Data.BitVec
import Caeco.Kit.Search

/-!
# The payload scanner: `extract_val` and the assignments of `fill_tx_buffer`

A `char *` into text is modelled by the C string it points at. The three functions from
the C library that the scanner rests on keep their documented meaning: `strstr` is
leftmost search, `malloc` either fails or hands out a block with unspecified contents,
and `atoi` is `(int) strtol(s, NULL, 10)`. Undefined behaviour is a fault, with the state
it happened in.
-/

namespace Caeco.Payload

open Search

/-! ## The C library -/

/-- The C string at a pointer, `mem` being the memory from there on. The memory listed is
followed by a NUL. -/
def cstr (mem : List UInt8) : List UInt8 := mem.takeWhile (· ≠ 0)

theorem cstr_append_of_mem {m : List UInt8} (h : 0 ∈ m) (r : List UInt8) :
    cstr (m ++ r) = cstr m := by
  induction m with
  | nil => cases h
  | cons b bs ih =>
      have hcons : ∀ l, cstr (b :: l) = if b ≠ 0 then b :: cstr l else [] := by
        intro l
        simp [cstr, List.takeWhile_cons]
      rw [List.cons_append, hcons, hcons]
      by_cases hb : b = 0
      · rw [if_neg (not_not.mpr hb), if_neg (not_not.mpr hb)]
      · have hmem : 0 ∈ bs := by
          rcases List.mem_cons.mp h with h | h
          · exact absurd h.symm hb
          · exact h
        rw [ih hmem]

theorem cstr_append_of_not_mem {m : List UInt8} (h : 0 ∉ m) (r : List UInt8) :
    cstr (m ++ r) = m ++ cstr r := by
  refine List.takeWhile_append_of_pos fun b hb => ?_
  have hne : b ≠ 0 := fun h0 => h (h0 ▸ hb)
  simpa using hne

theorem cstr_eq_self {m : List UInt8} (h : 0 ∉ m) : cstr m = m := by
  simpa [cstr] using cstr_append_of_not_mem h []

theorem cstr_terminated {m : List UInt8} (h : 0 ∉ m) (behind : List UInt8) :
    cstr (m ++ 0 :: behind) = m := by
  rw [cstr_append_of_not_mem h]
  simp [cstr]

/-- The bytes of a string literal. -/
def lit (s : String) : List UInt8 := s.toList.map Char.toUInt8

def isspace (b : UInt8) : Bool := b = 0x20 || (0x09 ≤ b && b ≤ 0x0D)

def isdigit (b : UInt8) : Bool := 0x30 ≤ b && b ≤ 0x39

/-- The value of the leading decimal digits. -/
def digits (s : List UInt8) : Nat :=
  (s.takeWhile isdigit).foldl (fun v d => 10 * v + (d.toNat - 0x30)) 0

/-- `strtol(s, NULL, 10)` for a 64-bit `long`: out-of-range values saturate. -/
def strtol (s : List UInt8) : Int :=
  let v : Int :=
    match s.dropWhile isspace with
    | 0x2D :: r => -(digits r : Int)
    | 0x2B :: r => digits r
    | r => digits r
  max (-2 ^ 63) (min (2 ^ 63 - 1) v)

def atoi (s : List UInt8) : BitVec 32 := BitVec.ofInt 32 (strtol s)

/-- How `malloc` behaves: `malloc k n` is the answer to call number `k`, for `n` bytes.
`none` is `NULL`; otherwise the bytes found from the block's address on, in the block and
behind it. -/
abbrev Malloc := Nat → Nat → Option (List UInt8)

/-- A block from `malloc`: the call that it came from, and its bytes. -/
structure Block where
  id : Nat
  bytes : List UInt8
deriving Repr, DecidableEq

/-- The heap as the program sees it: the blocks it holds, newest first. -/
structure Heap where
  calls : Nat
  blocks : List Block
deriving Repr, DecidableEq

/-- Overwrite the first bytes of block `id`. -/
def writeBlock (id : Nat) (src : List UInt8) : List Block → List Block
  | [] => []
  | b :: bs =>
      if b.id = id then ⟨id, src ++ b.bytes.drop src.length⟩ :: bs
      else b :: writeBlock id src bs

/-- The bytes of a block, or none where the program holds no such block. -/
def Heap.read (h : Heap) (id : Nat) : List UInt8 :=
  match h.blocks.find? (·.id = id) with
  | some b => b.bytes
  | none => []

/-! ## The program state -/

/-- What `extract_val` returns. `noValue`: control reached the end of its body without a
`return`, so the caller uses an indeterminate pointer. -/
inductive Returned where
  | noValue
  | null
  | block (id : Nat)
deriving Repr, DecidableEq

/-- What happened, in order. -/
inductive Event where
  | strstr (cursor : Option (List UInt8))
  | malloc (block : Option Nat)
  | atoi (arg : Returned)
  | store (index : Nat)
deriving Repr, DecidableEq

/-- Undefined behaviour. -/
inductive Fault where
  | strstrNull
  | memcpyNull
  | atoiNull
  | atoiNoValue
deriving Repr, DecidableEq

/-- `fill_tx_buffer`'s locals, the transmit buffer with the memory behind it, the heap, and
the history of library calls and stores. -/
structure State where
  cnt : Nat
  txBuffer : List (BitVec 32)
  payload : Option (List UInt8)
  heap : Heap
  trace : List Event
deriving Repr, DecidableEq

abbrev C := EStateM Fault State

def emit (e : Event) : C Unit := modify fun s => { s with trace := s.trace ++ [e] }

def strstr (hay : Option (List UInt8)) (needle : List UInt8) : C (Option (List UInt8)) := do
  emit (.strstr hay)
  match hay with
  | none => throw .strstrNull
  | some text => return find needle text

/-- The block comes with the bytes found at its address. -/
def callMalloc (malloc : Malloc) (n : Nat) : C (Option Nat) := do
  let h := (← get).heap
  match malloc h.calls n with
  | none =>
      emit (.malloc none)
      modify fun s => { s with heap := { h with calls := h.calls + 1 } }
      return none
  | some bytes =>
      emit (.malloc (some h.calls))
      modify fun s =>
        { s with heap := { calls := h.calls + 1, blocks := ⟨h.calls, bytes⟩ :: h.blocks } }
      return some h.calls

/-- `memcpy` into a block of the heap; undefined where `malloc` has returned none. -/
def memcpy (target : Option Nat) (src : List UInt8) : C Unit :=
  match target with
  | none => throw .memcpyNull
  | some id =>
      modify fun s =>
        { s with heap := { s.heap with blocks := writeBlock id src s.heap.blocks } }

def callAtoi (arg : Returned) : C (BitVec 32) := do
  emit (.atoi arg)
  match arg with
  | .noValue => throw .atoiNoValue
  | .null => throw .atoiNull
  | .block id => return atoi ((← get).heap.read id)

/-! ## `extract_val` -/

def comma : UInt8 := 0x2C

def patternEnd : List UInt8 := lit ","

/-- `extract_val`: the text between a pattern and the next comma, in a block of its own. What the
block holds before is up to `malloc`, and the last byte is not written. -/
def extractVal (malloc : Malloc) (pattern : List UInt8) : C Returned := do
  match ← strstr (← get).payload pattern with
  -- the body ends without a `return`
  | none => return .noValue
  | some found =>
      let start := found.drop pattern.length
      let next ← strstr (some start) patternEnd
      modify fun s => { s with payload := next }
      match next with
      -- the error message is all that happens: `target` is still `NULL`
      | none => return .null
      | some rest =>
          let len := start.length - rest.length
          -- one byte more than is copied, and nothing writes it
          let target ← callMalloc malloc (len + 1)
          memcpy target (start.take len)
          match target with
          | none => return .null
          | some id => return .block id

/-- `trans_buffer[cnt++] = atoi(extract_val(pattern, &payload));` -/
def assign (malloc : Malloc) (pattern : List UInt8) : C Unit := do
  let v ← callAtoi (← extractVal malloc pattern)
  let cnt := (← get).cnt
  emit (.store cnt)
  modify fun s => { s with txBuffer := s.txBuffer.set cnt v, cnt := cnt + 1 }

/-! ## The library calls, run -/

/-- `s` with more events in its history. -/
def State.logged (s : State) (es : List Event) : State := { s with trace := s.trace ++ es }

@[simp] theorem State.logged_logged (s : State) (es fs : List Event) :
    (s.logged es).logged fs = s.logged (es ++ fs) := by
  simp [State.logged]

theorem run_emit (e : Event) (s : State) : (emit e).run s = .ok ⟨⟩ (s.logged [e]) := rfl

theorem run_strstr (text needle : List UInt8) (s : State) :
    (strstr (some text) needle).run s
      = .ok (find needle text) (s.logged [.strstr (some text)]) := rfl

theorem run_callAtoi_noValue (s : State) :
    (callAtoi .noValue).run s = .error .atoiNoValue (s.logged [.atoi .noValue]) := rfl

theorem run_callAtoi_null (s : State) :
    (callAtoi .null).run s = .error .atoiNull (s.logged [.atoi .null]) := rfl

theorem run_callAtoi_block (id : Nat) (s : State) :
    (callAtoi (.block id)).run s
      = .ok (atoi (s.heap.read id)) (s.logged [.atoi (.block id)]) := rfl

theorem run_memcpy_null (src : List UInt8) (s : State) :
    (memcpy none src).run s = .error .memcpyNull s := rfl

theorem run_memcpy_block (id : Nat) (src : List UInt8) (s : State) :
    (memcpy (some id) src).run s
      = .ok ⟨⟩ { s with heap := { s.heap with
          blocks := writeBlock id src s.heap.blocks } } := rfl

theorem run_callMalloc_null {malloc : Malloc} {n : Nat} {s : State}
    (h : malloc s.heap.calls n = none) :
    (callMalloc malloc n).run s
      = .ok none { s.logged [.malloc none] with
          heap := { s.heap with calls := s.heap.calls + 1 } } := by
  simp only [callMalloc, EStateM.run_bind, EStateM.run_get, h, run_emit]
  rfl

theorem run_callMalloc_block {malloc : Malloc} {n : Nat} {s : State} {bytes : List UInt8}
    (h : malloc s.heap.calls n = some bytes) :
    (callMalloc malloc n).run s
      = .ok (some s.heap.calls) { s.logged [.malloc (some s.heap.calls)] with
          heap := { calls := s.heap.calls + 1,
                    blocks := ⟨s.heap.calls, bytes⟩ :: s.heap.blocks } } := by
  simp only [callMalloc, EStateM.run_bind, EStateM.run_get, h, run_emit]
  rfl

/-! ## One call of `extract_val` -/

/-- What the copied token reads as: the token, then the byte `memcpy` left unwritten and
whatever follows the block. -/
def copied (token bytes : List UInt8) : List UInt8 := token ++ bytes.drop token.length

theorem patternEnd_eq : patternEnd = [comma] := by decide

/-- The pattern does not occur: no value comes back, the cursor stays. -/
theorem extractVal_absent (malloc : Malloc) {pattern text : List UInt8} {s : State}
    (hs : s.payload = some text) (h : find pattern text = none) :
    (extractVal malloc pattern).run s = .ok .noValue (s.logged [.strstr (some text)]) := by
  simp only [extractVal, EStateM.run_bind, EStateM.run_get, hs, run_strstr, h]
  rfl

/-- No comma follows the pattern: `NULL` comes back, and the cursor is `NULL` too. -/
theorem extractVal_unclosed (malloc : Malloc) {pattern text found : List UInt8} {s : State}
    (hs : s.payload = some text) (h : find pattern text = some found)
    (hend : find [comma] (found.drop pattern.length) = none) :
    (extractVal malloc pattern).run s
      = .ok .null { s.logged [.strstr (some text), .strstr (some (found.drop pattern.length))]
          with payload := none } := by
  simp only [extractVal, EStateM.run_bind, EStateM.run_get, hs, run_strstr, h,
    patternEnd_eq, hend, EStateM.run_modify, State.logged_logged]
  rfl

/-- The lookup succeeds but `malloc` fails: the copy goes to `NULL`. -/
theorem extractVal_outOfMemory {malloc : Malloc} {pattern text token rest : List UInt8}
    {s : State} (hs : s.payload = some text)
    (h : lookup comma pattern text = some (token, rest))
    (hm : malloc s.heap.calls (token.length + 1) = none) :
    (extractVal malloc pattern).run s
      = .error .memcpyNull
          { s.logged [.strstr (some text), .strstr (some (token ++ rest)), .malloc none]
            with payload := some rest, heap := { s.heap with calls := s.heap.calls + 1 } } := by
  obtain ⟨hfound, hrest⟩ := find_of_lookup h
  simp only [extractVal, EStateM.run_bind, EStateM.run_get, hs, run_strstr, hfound,
    List.drop_left, patternEnd_eq, hrest, EStateM.run_modify, State.logged_logged,
    List.length_append, Nat.add_sub_cancel, List.take_left]
  rw [run_callMalloc_null (by exact hm)]
  simp only [run_memcpy_null]
  simp [State.logged]

/-- The lookup succeeds: a fresh block comes back that starts with the token. -/
theorem extractVal_found {malloc : Malloc} {pattern text token rest bytes : List UInt8}
    {s : State} (hs : s.payload = some text)
    (h : lookup comma pattern text = some (token, rest))
    (hm : malloc s.heap.calls (token.length + 1) = some bytes) :
    (extractVal malloc pattern).run s
      = .ok (.block s.heap.calls)
          { s.logged [.strstr (some text), .strstr (some (token ++ rest)),
              .malloc (some s.heap.calls)] with
            payload := some rest
            heap := { calls := s.heap.calls + 1
                      blocks := ⟨s.heap.calls, copied token bytes⟩ :: s.heap.blocks } } := by
  obtain ⟨hfound, hrest⟩ := find_of_lookup h
  simp only [extractVal, EStateM.run_bind, EStateM.run_get, hs, run_strstr, hfound,
    List.drop_left, patternEnd_eq, hrest, EStateM.run_modify, State.logged_logged,
    List.length_append, Nat.add_sub_cancel, List.take_left]
  rw [run_callMalloc_block (by exact hm)]
  simp only [run_memcpy_block, EStateM.run_pure]
  simp [State.logged, writeBlock, copied]

/-! ## One assignment -/

/-- A lookup that fails hands `atoi` a pointer that is no block. -/
theorem assign_failed (malloc : Malloc) {pattern text : List UInt8} {s : State}
    (hs : s.payload = some text) (h : lookup comma pattern text = none) :
    ∃ f s' arg pre, (assign malloc pattern).run s = .error f s' ∧ s'.cnt = s.cnt ∧
      s'.txBuffer = s.txBuffer ∧ s'.trace = pre ++ [.atoi arg] ∧
      (arg = .noValue ∨ arg = .null) := by
  rcases lookup_eq_none_iff.mp h with h | ⟨found, hfound, hend⟩
  · have hrun := extractVal_absent malloc hs h
    refine ⟨.atoiNoValue, (s.logged [.strstr (some text)]).logged [.atoi .noValue], .noValue,
      s.trace ++ [.strstr (some text)], ?_, rfl, rfl, rfl, .inl rfl⟩
    simp only [assign, EStateM.run_bind, hrun, run_callAtoi_noValue]
  · have hrun := extractVal_unclosed malloc hs hfound hend
    refine ⟨.atoiNull, { s.logged [.strstr (some text),
        .strstr (some (found.drop pattern.length)), .atoi .null] with payload := none }, .null,
      s.trace ++ [.strstr (some text), .strstr (some (found.drop pattern.length))], ?_,
      rfl, rfl, by simp [State.logged], .inr rfl⟩
    simp only [assign, EStateM.run_bind, hrun, run_callAtoi_null]
    simp [State.logged]

/-- The state after an assignment whose lookup took `token` from `text` and left the cursor
at `rest`, with `bytes` in the block. -/
def State.assigned (s : State) (text start token rest bytes : List UInt8) : State :=
  { cnt := s.cnt + 1
    txBuffer := s.txBuffer.set s.cnt (atoi (copied token bytes))
    payload := some rest
    heap := { calls := s.heap.calls + 1
              blocks := ⟨s.heap.calls, copied token bytes⟩ :: s.heap.blocks }
    trace := s.trace ++ [.strstr (some text), .strstr (some start),
      .malloc (some s.heap.calls), .atoi (.block s.heap.calls), .store s.cnt] }

theorem assign_found {malloc : Malloc} {pattern text token rest bytes : List UInt8}
    {s : State} (hs : s.payload = some text)
    (h : lookup comma pattern text = some (token, rest))
    (hm : malloc s.heap.calls (token.length + 1) = some bytes) :
    (assign malloc pattern).run s
      = .ok ⟨⟩ (s.assigned text (token ++ rest) token rest bytes) := by
  have hrun := extractVal_found hs h hm
  simp only [assign, EStateM.run_bind, hrun, run_callAtoi_block, EStateM.run_get, run_emit,
    EStateM.run_modify]
  simp [State.logged, State.assigned, Heap.read]

theorem assign_outOfMemory {malloc : Malloc} {pattern text token rest : List UInt8}
    {s : State} (hs : s.payload = some text)
    (h : lookup comma pattern text = some (token, rest))
    (hm : malloc s.heap.calls (token.length + 1) = none) :
    ∃ s', (assign malloc pattern).run s = .error .memcpyNull s' ∧ s'.cnt = s.cnt ∧
      s'.txBuffer = s.txBuffer ∧
      s'.trace
        = s.trace ++ [.strstr (some text), .strstr (some (token ++ rest)), .malloc none] := by
  have hrun := extractVal_outOfMemory hs h hm
  refine ⟨{ s.logged [.strstr (some text), .strstr (some (token ++ rest)), .malloc none] with
    payload := some rest, heap := { s.heap with calls := s.heap.calls + 1 } }, ?_, rfl, rfl, rfl⟩
  simp only [assign, EStateM.run_bind, hrun]

/-- What one assignment can do from a cursor at `text`: use what a failed lookup returned,
die in the copy to `NULL`, or come through. -/
inductive AssignResult (malloc : Malloc) (key text : List UInt8) (s : State) :
    EStateM.Result Fault State Unit → Prop where
  | failed {f : Fault} {s' : State} {arg : Returned} {pre : List Event}
      (hl : lookup comma key text = none) (hcnt : s'.cnt = s.cnt)
      (hbuf : s'.txBuffer = s.txBuffer) (htrace : s'.trace = pre ++ [.atoi arg])
      (harg : arg = .noValue ∨ arg = .null) : AssignResult malloc key text s (.error f s')
  | outOfMemory {token rest start : List UInt8} {s' : State}
      (hl : lookup comma key text = some (token, rest))
      (hm : malloc s.heap.calls (token.length + 1) = none) (hcnt : s'.cnt = s.cnt)
      (hbuf : s'.txBuffer = s.txBuffer)
      (htrace : s'.trace
        = s.trace ++ [.strstr (some text), .strstr (some start), .malloc none]) :
      AssignResult malloc key text s (.error .memcpyNull s')
  | found {token rest start bytes : List UInt8}
      (hl : lookup comma key text = some (token, rest))
      (hm : malloc s.heap.calls (token.length + 1) = some bytes) :
      AssignResult malloc key text s (.ok ⟨⟩ (s.assigned text start token rest bytes))

theorem assign_run (malloc : Malloc) (key : List UInt8) {text : List UInt8} {s : State}
    (hs : s.payload = some text) : AssignResult malloc key text s ((assign malloc key).run s) := by
  cases hl : lookup comma key text with
  | none =>
      obtain ⟨f, s', arg, pre, hrun, hcnt, hbuf, htrace, harg⟩ := assign_failed malloc hs hl
      rw [hrun]
      exact .failed hl hcnt hbuf htrace harg
  | some r =>
      obtain ⟨token, rest⟩ := r
      cases hm : malloc s.heap.calls (token.length + 1) with
      | none =>
          obtain ⟨s', hrun, hcnt, hbuf, htrace⟩ := assign_outOfMemory hs hl hm
          rw [hrun]
          exact .outOfMemory hl hm hcnt hbuf htrace
      | some bytes =>
          rw [assign_found hs hl hm]
          exact .found hl hm

end Caeco.Payload
