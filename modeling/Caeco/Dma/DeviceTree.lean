import Caeco.Dma.Buffers
import Caeco.Dma.Channels
import Mathlib.Data.List.Forall2

/-!
# The channels of the AXI DMA driver in the device tree

At its start the driver counts the entries of the properties `dmas` and `dma-names`, reads the
node of each channel, and tells from the property `compatible` the channel's direction and
type. The counts for the directions and types are what the library later allocates its arrays
by. Here every call of `kmalloc` succeeds.

`none` stands for undefined behaviour: a message that names a node which does not exist.
-/

namespace Caeco.Dma

/-- The strings of a property `compatible`, as far as the driver tells them apart. -/
inductive Compatible where
  | axiDmaMm2sChannel
  | axiDmaS2mmChannel
  | axiVdmaMm2sChannel
  | axiVdmaS2mmChannel
  | other
deriving Repr, DecidableEq

/-- A child node of a DMA node. -/
structure ChannelNode where
  /-- The property `xlnx,device-id`, and its value, if it can be read. -/
  deviceId : Option (Option (BitVec 32))
  compatible : Option (List Compatible)
deriving Repr, DecidableEq

/-- `struct of_phandle_args`; `np` are the child nodes of the DMA node. -/
structure PhandleArgs where
  np : List ChannelNode
  args : List (BitVec 32)
deriving Repr, DecidableEq

/-- The node of the driver. -/
structure DriverNode where
  dmaNames : Option (Except Int (List (Option String)))
  dmas : Option (Except Int (List (Except Int PhandleArgs)))

/-- `struct axidma_chan` while it is read; `kind` is what has been stored into `dir` and
`type`, which `kmalloc` leaves undefined. -/
structure OfChan where
  channelId : BitVec 32
  kind : Option (AxidmaDir × AxidmaType)
deriving Repr, DecidableEq

/-- The channels of `struct axidma_device`, as far as they have been read. -/
structure OfDevice where
  numDmaTxChans : Nat
  numDmaRxChans : Nat
  numVdmaTxChans : Nat
  numVdmaRxChans : Nat
  numChans : Nat
  channels : List OfChan
deriving Repr, DecidableEq

namespace OfDevice

def count (dev : OfDevice) : AxidmaDir → AxidmaType → Nat
  | .write, .dma => dev.numDmaTxChans
  | .read, .dma => dev.numDmaRxChans
  | .write, .vdma => dev.numVdmaTxChans
  | .read, .vdma => dev.numVdmaRxChans

end OfDevice

/-- The node that a phandle leads to, if there is one. -/
def channelNode (phandle : Except Int PhandleArgs) : Option ChannelNode :=
  match phandle with
  | .error _ => none
  | .ok phandleArgs => phandleArgs.args.head?.bind fun channel => phandleArgs.np[channel.toNat]?

/-- The entries of the two properties. -/
def DriverNode.entries (driverNode : DriverNode) : List (Except Int PhandleArgs × Option String) :=
  match driverNode.dmas, driverNode.dmaNames with
  | some (.ok dmas), some (.ok names) => dmas.zip names
  | _, _ => []

namespace OfDevice

variable {dev dev' : OfDevice}

/-- The channel has been read from the node that the entry leads to. -/
def ReadFrom (chan : OfChan) (entry : Except Int PhandleArgs × Option String) : Prop :=
  ∃ np, channelNode entry.1 = some np ∧ chan.kind.isSome = np.compatible.isSome

/-- The counts are those of the channels that have been read. -/
def Counted (dev : OfDevice) : Prop :=
  ∀ dir type, dev.count dir type = dev.channels.countP (·.kind = some (dir, type))

/-- One channel more has been read. -/
structure Reads (dev : OfDevice) (entry : Except Int PhandleArgs × Option String)
    (dev' : OfDevice) : Prop where
  channel : ∃ chan, ReadFrom chan entry ∧ dev'.channels = dev.channels ++ [chan]
  numChans : dev'.numChans = dev.numChans
  counted : dev.Counted → dev'.Counted

end OfDevice

/-- What a start that succeeds leaves. -/
structure OfDevice.Probed (dev : OfDevice) (driverNode : DriverNode) : Prop where
  channels : List.Forall₂ ReadFrom dev.channels driverNode.entries
  distinct : (dev.channels.map OfChan.channelId).Nodup
  length : dev.channels.length = dev.numChans
  nonempty : dev.numChans ≠ 0
  counted : dev.Counted

/-- The structure that the library gets for a channel: what has not been stored is any direction
and any type. With a value that is neither, the assertion of the library fails at once. -/
structure Shows (chan : AxidmaChan) (read : OfChan) : Prop where
  channelId : chan.channelId = read.channelId
  kind : ∀ k, read.kind = some k → k = (chan.dir, chan.type)

variable {chans : List AxidmaChan} {reads : List OfChan}

theorem Shows.is {chan : AxidmaChan} {read : OfChan} (h : Shows chan read) {dir : AxidmaDir}
    {type : AxidmaType} (hkind : read.kind = some (dir, type)) : chan.Is dir type := by
  have hsame := h.kind _ hkind
  rw [Prod.mk.injEq] at hsame
  exact ⟨hsame.1.symm, hsame.2.symm⟩

end Caeco.Dma
