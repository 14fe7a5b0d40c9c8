import Caeco.Kit.Runs
import Caeco.Client.Frame

/-!
# The program: `publish_callback` and `signal_caeco`

The client thread runs `publish_callback` for one message after the other, statement by
statement; `signal_caeco` runs in the main thread, between any two statements. This is the
open program: when signals come and what the transfer returns is left to its environment.

The fields after `heap` are history. No step reads them, apart from `message` and `calls`,
which name the message being handled.
-/

namespace Caeco.Client

open Payload

/-- Where the client thread is. -/
inductive Pc where
  | idle
  | filled
  | ready
  | counted
  | transferring
  | returned (ok : Bool)
deriving Repr, DecidableEq

/-- A message that was tested, the `malloc` calls made before its fill, and what the test
saw. -/
structure Tested where
  message : List UInt8
  calls : Nat
  ready : Bool
deriving Repr, DecidableEq

/-- The state of `transfer-accelero-caeco`: its flag and its count, the transmit buffer, the heap,
and where the client thread is with which message. The last four fields are history: what has
been tested and handed to the library, and the transfers that succeeded and the signals handled. -/
structure Program where
  caecoRdy : Bool
  cnt : BitVec 32
  txBuf : List (BitVec 32)
  heap : Heap
  pc : Pc
  message : List UInt8
  calls : Nat
  tested : List Tested
  handed : List (List (BitVec 32))
  succeeded : Nat
  handled : Nat
deriving Repr, DecidableEq

/-- The program at its start. The transmit buffer holds whatever `axidma_malloc` found. -/
def Program.init (txBuf : Vector (BitVec 32) 330) : Program where
  caecoRdy := true
  cnt := 0
  txBuf := txBuf.toList
  heap := { calls := 0, blocks := [] }
  pc := .idle
  message := []
  calls := 0
  tested := []
  handed := []
  succeeded := 0
  handled := 0

/-- The transmit buffer and the heap that an undefined fill leaves behind. -/
abbrev Junk := Vector (BitVec 32) 330 × Heap

/-- The stretches of `publish_callback` between which a signal can come, and the handler of the
signal. What the library returns, and what an undefined fill leaves behind, is left open. -/
inductive Action where
  | publish (published : ResponsePublish) (junk : Junk)
  | test
  | count
  | transfer
  | returns (ok : Bool)
  | reset
  | signal
deriving DecidableEq

/-- The transmit buffer and the heap after the fill. -/
def filledWith (malloc : Malloc) (published : ResponsePublish) (junk : Junk) (s : Program) :
    List (BitVec 32) × Heap :=
  match fillFrame malloc published s.txBuf s.heap with
  | .ok _ f => (f.txBuffer, f.heap)
  -- undefined behaviour: the program may go on with anything in them
  | .error _ _ => (junk.1.toList, junk.2)

/-- `fill_tx_buffer(tx_buf, tx_size, (char *) published->application_message);` -/
def Program.publish (malloc : Malloc) (published : ResponsePublish) (junk : Junk)
    (s : Program) : Program :=
  { s with
    pc := .filled
    message := published.applicationMessage
    calls := s.heap.calls
    txBuf := (filledWith malloc published junk s).1
    heap := (filledWith malloc published junk s).2 }

/-- `if(caeco_rdy)` -/
def Program.test (s : Program) : Program :=
  { s with
    pc := if s.caecoRdy then .ready else .idle
    tested := s.tested ++ [⟨s.message, s.calls, s.caecoRdy⟩] }

/-- `cnt++;` -/
def Program.count (s : Program) : Program := { s with pc := .counted, cnt := s.cnt + 1 }

/-- `axidma_oneway_transfer(axidma_dev, tx_channel, tx_buf, tx_size, true)` is called. -/
def Program.transfer (s : Program) : Program :=
  { s with pc := .transferring, handed := s.handed ++ [s.txBuf] }

/-- The call returns; `ok` says that the result is zero. -/
def Program.returns (ok : Bool) (s : Program) : Program :=
  { s with pc := .returned ok, succeeded := s.succeeded + if ok then 1 else 0 }

/-- `caeco_rdy = false;` whatever the call has returned. -/
def Program.reset (s : Program) : Program := { s with pc := .idle, caecoRdy := false }

/-- `signal_caeco`, the handler that is installed for the accelerator's signal. -/
def Program.signalCaeco (s : Program) : Program :=
  { s with caecoRdy := true, handled := s.handled + 1 }

/-- A stretch of the callback runs when the client thread has come to it; the handler can run at
any time. When it does, and what the broker sends, is up to the environment. -/
def Program.step (malloc : Malloc) (s : Program) (a : Action) : Option Program :=
  match a, s.pc with
  | .publish published junk, .idle => some (s.publish malloc published junk)
  | .test, .filled => some s.test
  | .count, .ready => some s.count
  | .transfer, .counted => some s.transfer
  | .returns ok, .transferring => some (s.returns ok)
  | .reset, .returned _ => some s.reset
  | .signal, _ => some s.signalCaeco
  | _, _ => none

/-- What a step can do. -/
inductive Program.Steps (malloc : Malloc) (s : Program) : Action → Program → Prop where
  | publish (published : ResponsePublish) (junk : Junk) (hpc : s.pc = .idle) :
      Steps malloc s (.publish published junk) (s.publish malloc published junk)
  | test (hpc : s.pc = .filled) : Steps malloc s .test s.test
  | count (hpc : s.pc = .ready) : Steps malloc s .count s.count
  | transfer (hpc : s.pc = .counted) : Steps malloc s .transfer s.transfer
  | returns (ok : Bool) (hpc : s.pc = .transferring) :
      Steps malloc s (.returns ok) (s.returns ok)
  | reset (ok : Bool) (hpc : s.pc = .returned ok) : Steps malloc s .reset s.reset
  | signal : Steps malloc s .signal s.signalCaeco

theorem Program.steps_of_step {malloc : Malloc} {s s' : Program} {a : Action}
    (h : s.step malloc a = some s') : s.Steps malloc a s' := by
  cases a <;> cases hpc : s.pc <;> simp only [Program.step, hpc] at h <;> cases h
  case publish.idle published junk => exact .publish published junk hpc
  case test.filled => exact .test hpc
  case count.ready => exact .count hpc
  case transfer.counted => exact .transfer hpc
  case returns.transferring ok => exact .returns ok hpc
  case reset.returned ok => exact .reset ok hpc
  all_goals exact .signal

end Caeco.Client
