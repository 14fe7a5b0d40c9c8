import Caeco.Client.Program
import Caeco.Dma.Channels

/-!
# The channel that `main` chooses

`main` opens the AXI DMA library and settles on `tx_channel` before the client thread
starts; `publish_callback` then names this channel in every transfer. The test programs
start from `tx_channel = -1`, which stands for the first listed channel, and the program
itself from 0.
-/

namespace Caeco.Client

open Payload Runs Dma

/-- `static int tx_channel = 0` -/
def txChannel : BitVec 32 := 0

/-- The channel `main` goes on with; `none` when no transmit channel was found. -/
def chooseTxChannel (txChannel : BitVec 32) (txChans : IdArray) : Option (BitVec 32) :=
  match txChans.data with
  | [] => none
  | id :: _ => some (if txChannel = -1 then id else txChannel)

/-- The device and the channel of the transfers, with the initial `tx_channel`. -/
def mainChannel (txChannel : BitVec 32) (table : ChannelTable) :
    Option (AxidmaDev × BitVec 32) := do
  let dev ← axidmaInit table
  let channel ← chooseTxChannel txChannel (axidmaGetDmaTx dev)
  some (dev, channel)

/-! ## The calls of the program -/

/-- The program with the calls that its transfers have made. -/
structure Sender where
  program : Program
  calls : List (Option Ioctl)

/-- Before the first message: no call has been made. -/
def Sender.init (txBuf : Vector (BitVec 32) 330) : Sender where
  program := .init txBuf
  calls := []

/-- A step of the program; a transfer calls `axidma_oneway_transfer`. -/
def Sender.step (malloc : Malloc) (dev : AxidmaDev) (txChannel : BitVec 32) (s : Sender)
    (a : Action) : Option Sender :=
  -- a failed assertion ends the process
  if none ∈ s.calls then none
  else
    (s.program.step malloc a).map fun program =>
      { program
        calls := match a with
          | .transfer =>
              s.calls ++ [axidmaOnewayTransfer dev txChannel s.program.txBuf txSize true]
          | _ => s.calls }

/-- Each call was made for a buffer handed over, on this channel. -/
def CallsFor (dev : AxidmaDev) (txChannel : BitVec 32) (s : Sender) : Prop :=
  s.calls = s.program.handed.map fun buf => axidmaOnewayTransfer dev txChannel buf txSize true

theorem callsFor_step {malloc : Malloc} {dev : AxidmaDev} {txChannel : BitVec 32}
    {s s' : Sender} {a : Action} (hs : CallsFor dev txChannel s)
    (h : s.step malloc dev txChannel a = some s') : CallsFor dev txChannel s' := by
  unfold Sender.step at h
  split at h
  · cases h
  obtain ⟨program, hprogram, rfl⟩ := Option.map_eq_some_iff.mp h
  cases Program.steps_of_step hprogram with
  | transfer hpc =>
      show s.calls ++ _ = (s.program.handed ++ [s.program.txBuf]).map _
      rw [List.map_append, hs]
      rfl
  | publish published junk hpc => exact hs
  | test hpc => exact hs
  | count hpc => exact hs
  | returns ok hpc => exact hs
  | reset ok hpc => exact hs
  | signal => exact hs

theorem callsFor_run {malloc : Malloc} {dev : AxidmaDev} {txChannel : BitVec 32}
    {txBuf : Vector (BitVec 32) 330} {as : List Action} {t : Sender}
    (h : run (Sender.step malloc dev txChannel) (.init txBuf) as = some t) :
    CallsFor dev txChannel t := by
  have hinit : CallsFor dev txChannel (.init txBuf) := rfl
  exact run_invariant (fun _ _ _ => callsFor_step) hinit h

/-- The first message is transferred, whatever is in it. -/
theorem exists_call (malloc : Malloc) (dev : AxidmaDev) (txChannel : BitVec 32)
    (txBuf : Vector (BitVec 32) 330) :
    ∃ as t buf, run (Sender.step malloc dev txChannel) (.init txBuf) as = some t ∧
      t.calls = [axidmaOnewayTransfer dev txChannel buf txSize true] :=
  ⟨[.publish fullMessage (txBuf, ⟨0, []⟩), .test, .count, .transfer], _, _, rfl, rfl⟩

/-! ## Transfers on listed channels -/

/-- `main` chooses a channel, and every call of every run behind that writes to a listed
one. -/
def TransfersListed (malloc : Malloc) (txBuf : Vector (BitVec 32) 330)
    (txChannel : BitVec 32) (table : ChannelTable) : Prop :=
  ∃ dev channel, mainChannel txChannel table = some (dev, channel) ∧
    ∀ as t, run (Sender.step malloc dev channel) (.init txBuf) as = some t →
      ∀ call ∈ t.calls, WritesListed dev call

/-- In a table with a DMA transmit channel `main` finds one. -/
theorem mainChannel_eq {table : ChannelTable}
    (htx : ∃ chan ∈ table.channels, chan.Is .write .dma) (txChannel : BitVec 32) :
    ∃ dev id, Sorted table dev ∧ id ∈ (axidmaGetDmaTx dev).data ∧
      mainChannel txChannel table = some (dev, if txChannel = -1 then id else txChannel) := by
  obtain ⟨chan, hchan, hkind⟩ := htx
  obtain ⟨dev, hdev, hsorted⟩ := axidmaInit_sorted (List.ne_nil_of_mem hchan)
  have hlisted := hsorted.mem_dmaTx.mpr ⟨chan, hchan, hkind, rfl⟩
  cases hdata : (axidmaGetDmaTx dev).data with
  | nil =>
      rw [hdata] at hlisted
      cases hlisted
  | cons id ids =>
      refine ⟨dev, id, hsorted, ?_, ?_⟩
      · rw [hdata]
        exact List.mem_cons_self
      · simp [mainChannel, hdev, chooseTxChannel, hdata]

theorem transfersListed_iff {malloc : Malloc} {txBuf : Vector (BitVec 32) 330}
    {txChannel channel : BitVec 32} {table : ChannelTable} {dev : AxidmaDev}
    (hmain : mainChannel txChannel table = some (dev, channel)) (h : Sorted table dev) :
    TransfersListed malloc txBuf txChannel table ↔ channel ∈ (axidmaGetDmaTx dev).data := by
  constructor
  · rintro ⟨dev', channel', hmain', hcalls⟩
    rw [hmain] at hmain'
    cases hmain'
    obtain ⟨as, t, buf, ht, hcall⟩ := exists_call malloc dev channel txBuf
    have hwrites := hcalls as t ht _ (by rw [hcall]; exact List.mem_singleton_self _)
    exact (h.writesListed_iff channel buf txSize true).mp hwrites
  · intro hlisted
    refine ⟨dev, channel, hmain, fun as t ht call hcall => ?_⟩
    rw [callsFor_run ht] at hcall
    obtain ⟨buf, _, rfl⟩ := List.mem_map.mp hcall
    exact (h.writesListed_iff channel buf txSize true).mpr hlisted

/-- Started with `tx_channel = -1`, as in the test programs, the transfers are right for
every table with a DMA transmit channel. -/
theorem transfersListed_unset (malloc : Malloc) (txBuf : Vector (BitVec 32) 330)
    {table : ChannelTable} (htx : ∃ chan ∈ table.channels, chan.Is .write .dma) :
    TransfersListed malloc txBuf (-1) table := by
  obtain ⟨dev, id, hsorted, hid, hmain⟩ := mainChannel_eq htx (-1)
  rw [if_pos rfl] at hmain
  exact (transfersListed_iff hmain hsorted).mpr hid

/-- **When the transfers reach a transmit channel**: in a table with a DMA transmit channel
exactly if one of them has the id 0. -/
theorem transfers_listed_iff (malloc : Malloc) (txBuf : Vector (BitVec 32) 330)
    {table : ChannelTable} (htx : ∃ chan ∈ table.channels, chan.Is .write .dma) :
    TransfersListed malloc txBuf txChannel table ↔
      ∃ chan ∈ table.channels, chan.Is .write .dma ∧ chan.channelId = 0 := by
  obtain ⟨dev, id, hsorted, _, hmain⟩ := mainChannel_eq htx txChannel
  rw [if_neg (by decide)] at hmain
  rw [transfersListed_iff hmain hsorted, hsorted.mem_dmaTx]
  rfl

/-- A device whose transmit channel comes first. -/
def transmitFirst : ChannelTable where
  channels := [⟨.write, .dma, 0⟩, ⟨.read, .dma, 1⟩]
  distinct := by decide

theorem transfers_listed_transmitFirst :
    TransfersListed (fun _ _ => some []) (.replicate 330 0) txChannel transmitFirst := by
  have htx : ∃ chan ∈ transmitFirst.channels, chan.Is .write .dma :=
    ⟨⟨.write, .dma, 0⟩, by decide, by decide⟩
  apply (transfers_listed_iff (fun _ _ => some []) (.replicate 330 0) htx).mpr
  exact ⟨⟨.write, .dma, 0⟩, by decide, by decide, rfl⟩

/-- A device whose receive channel comes first. -/
def receiveFirst : ChannelTable where
  channels := [⟨.read, .dma, 0⟩, ⟨.write, .dma, 1⟩]
  distinct := by decide

/-- There the first transfer asks for a read into the transmit buffer. -/
theorem receiveFirst_reads :
    (∃ chan ∈ receiveFirst.channels, chan.Is .write .dma) ∧
      (∃ dev as t buf, mainChannel txChannel receiveFirst = some (dev, 0) ∧
        run (Sender.step (fun _ _ => some []) dev 0) (.init (.replicate 330 0)) as = some t ∧
        t.calls = [some ⟨.dmaRead, ⟨true, 0, buf, txSize⟩⟩]) ∧
      ¬ TransfersListed (fun _ _ => some []) (.replicate 330 0) txChannel receiveFirst := by
  have htx : ∃ chan ∈ receiveFirst.channels, chan.Is .write .dma :=
    ⟨⟨.write, .dma, 1⟩, by decide, by decide⟩
  obtain ⟨dev, id, hsorted, _, hmain⟩ := mainChannel_eq htx txChannel
  rw [if_neg (by decide)] at hmain
  refine ⟨htx, ?_, ?_⟩
  · obtain ⟨as, t, buf, ht, hcalls⟩ := exists_call (fun _ _ => some []) dev 0 (.replicate 330 0)
    refine ⟨dev, as, t, buf, hmain, ht, ?_⟩
    have hread : (⟨.read, .dma, 0⟩ : AxidmaChan) ∈ receiveFirst.channels := by decide
    have hfound := hsorted.findChannel_of_mem hread
    rw [hcalls, axidmaOnewayTransfer, hfound]
    rfl
  · rw [transfersListed_iff hmain hsorted, hsorted.mem_dmaTx]
    rintro ⟨chan, hchan, hkind, hid⟩
    revert chan
    decide

end Caeco.Client
