import Mathlib.Data.BitVec
import Mathlib.Data.List.Nodup

/-!
# The channels of the AXI DMA library

`axidma_init` asks the driver for its channels and sorts their ids into one array for each
direction and type, `axidma_oneway_transfer` looks a channel up by its id and takes the
request from its direction. Here every call of `malloc` and `ioctl` succeeds: where one of
them fails, `axidma_init` returns no device.

`none` is a failed assertion, a store behind the end of an array, or no device.
-/

namespace Caeco.Dma

/-- `write` transmits from memory to a device, `read` from a device to memory. -/
inductive AxidmaDir where
  | write
  | read
deriving Repr, DecidableEq

inductive AxidmaType where
  | dma
  | vdma
deriving Repr, DecidableEq

/-- `struct axidma_chan` as the driver reports it to the library. -/
structure AxidmaChan where
  dir : AxidmaDir
  type : AxidmaType
  channelId : BitVec 32
deriving Repr, DecidableEq

/-- The channel sends or receives in this direction and is of this type. -/
def AxidmaChan.Is (dir : AxidmaDir) (type : AxidmaType) (chan : AxidmaChan) : Prop :=
  chan.dir = dir ∧ chan.type = type

instance (dir : AxidmaDir) (type : AxidmaType) : DecidablePred (AxidmaChan.Is dir type) :=
  fun _ => inferInstanceAs (Decidable (_ ∧ _))

/-- `struct axidma_num_channels`, by which the library allocates its arrays. -/
structure AxidmaNumChannels where
  numChannels : Nat
  numDmaTxChannels : Nat
  numDmaRxChannels : Nat
  numVdmaTxChannels : Nat
  numVdmaRxChannels : Nat
deriving Repr, DecidableEq

/-- A channel table that the driver can report. -/
structure ChannelTable where
  channels : List AxidmaChan
  distinct : (channels.map AxidmaChan.channelId).Nodup

/-- The ids of the channels of one direction and type. -/
def idsOf (dir : AxidmaDir) (type : AxidmaType) (channels : List AxidmaChan) :
    List (BitVec 32) :=
  (channels.filter (AxidmaChan.Is dir type)).map AxidmaChan.channelId

def ChannelTable.count (table : ChannelTable) (dir : AxidmaDir) (type : AxidmaType) : Nat :=
  (idsOf dir type table.channels).length

/-- What the driver answers to `AXIDMA_GET_NUM_DMA_CHANNELS`. -/
def ChannelTable.numChannels (table : ChannelTable) : AxidmaNumChannels where
  numChannels := table.channels.length
  numDmaTxChannels := table.count .write .dma
  numDmaRxChannels := table.count .read .dma
  numVdmaTxChannels := table.count .write .vdma
  numVdmaRxChannels := table.count .read .vdma

/-! ## The device -/

/-- An `array_t` with the room that was allocated for `data`. -/
structure IdArray where
  capacity : Nat
  data : List (BitVec 32)
deriving Repr, DecidableEq

def IdArray.len (array : IdArray) : Nat := array.data.length

/-- `array->data[array->len] = id; array->len += 1;` -/
def IdArray.push (id : BitVec 32) (array : IdArray) : Option IdArray :=
  if array.len < array.capacity then some { array with data := array.data ++ [id] } else none

structure DmaChannel where
  dir : AxidmaDir
  type : AxidmaType
  channelId : BitVec 32
deriving Repr, DecidableEq

/-- The channel structure that is made for a reported channel. -/
def AxidmaChan.dmaChannel (chan : AxidmaChan) : DmaChannel :=
  ⟨chan.dir, chan.type, chan.channelId⟩

/-- `struct axidma_dev` of the library: a record for each channel, and their ids by kind. -/
structure AxidmaDev where
  dmaTxChans : IdArray
  dmaRxChans : IdArray
  vdmaTxChans : IdArray
  vdmaRxChans : IdArray
  channels : List DmaChannel
deriving Repr, DecidableEq

/-- The arrays as `categorize_channels` allocates them. -/
def AxidmaDev.allocated (numChan : AxidmaNumChannels) : AxidmaDev where
  dmaTxChans := ⟨numChan.numDmaTxChannels, []⟩
  dmaRxChans := ⟨numChan.numDmaRxChannels, []⟩
  vdmaTxChans := ⟨numChan.numVdmaTxChannels, []⟩
  vdmaRxChans := ⟨numChan.numVdmaRxChannels, []⟩
  channels := []

/-- The array that is selected for a channel. -/
def AxidmaDev.array (dev : AxidmaDev) : AxidmaDir → AxidmaType → IdArray
  | .write, .dma => dev.dmaTxChans
  | .read, .dma => dev.dmaRxChans
  | .write, .vdma => dev.vdmaTxChans
  | .read, .vdma => dev.vdmaRxChans

def AxidmaDev.setArray (dev : AxidmaDev) (array : IdArray) :
    AxidmaDir → AxidmaType → AxidmaDev
  | .write, .dma => { dev with dmaTxChans := array }
  | .read, .dma => { dev with dmaRxChans := array }
  | .write, .vdma => { dev with vdmaTxChans := array }
  | .read, .vdma => { dev with vdmaRxChans := array }

/-- The body of the loop. -/
def categorizeChannel (dev : AxidmaDev) (chan : AxidmaChan) : Option AxidmaDev := do
  let array ← (dev.array chan.dir chan.type).push chan.channelId
  let dev := dev.setArray array chan.dir chan.type
  some { dev with channels := dev.channels ++ [chan.dmaChannel] }

/-- `for (i = 0; i < num_chan->num_channels; i++)`, from the channel `channels[i]` on. -/
def categorizeLoop (dev : AxidmaDev) : List AxidmaChan → Option AxidmaDev
  | [] => some dev
  | chan :: channels =>
      (categorizeChannel dev chan).bind fun dev => categorizeLoop dev channels

/-- `categorize_channels`, where no `malloc` fails. Nothing comes out where an id would be stored
behind the end of its array. -/
def categorizeChannels (channels : List AxidmaChan) (numChan : AxidmaNumChannels) :
    Option AxidmaDev :=
  categorizeLoop (.allocated numChan) channels

def probeChannels (channels : List AxidmaChan) (numChan : AxidmaNumChannels) :
    Option AxidmaDev :=
  if numChan.numChannels = 0 then none else categorizeChannels channels numChan

def axidmaInit (table : ChannelTable) : Option AxidmaDev :=
  probeChannels table.channels table.numChannels

def axidmaGetDmaTx (dev : AxidmaDev) : IdArray := dev.dmaTxChans

/-! ## Transfers -/

def findChannel (dev : AxidmaDev) (channelId : BitVec 32) : Option DmaChannel :=
  dev.channels.find? (·.channelId = channelId)

inductive AxidmaCmd where
  | dmaRead
  | dmaWrite
deriving Repr, DecidableEq

def dirToIoctl : AxidmaDir → AxidmaCmd
  | .read => .dmaRead
  | .write => .dmaWrite

structure AxidmaTransaction where
  wait : Bool
  channelId : BitVec 32
  buf : List (BitVec 32)
  bufLen : Nat
deriving Repr, DecidableEq

/-- A call `ioctl(dev->fd, axidma_cmd, &trans)`. -/
structure Ioctl where
  axidmaCmd : AxidmaCmd
  trans : AxidmaTransaction
deriving Repr, DecidableEq

/-- The call that `axidma_oneway_transfer` makes. -/
def axidmaOnewayTransfer (dev : AxidmaDev) (channel : BitVec 32) (buf : List (BitVec 32))
    (len : Nat) (wait : Bool) : Option Ioctl :=
  (findChannel dev channel).map fun dmaChan =>
    { axidmaCmd := dirToIoctl dmaChan.dir
      trans := { wait, channelId := channel, buf, bufLen := len } }

/-! ## What the categorising loop leaves -/

@[simp] theorem AxidmaDev.array_setArray (dev : AxidmaDev) (array : IdArray)
    (dir dir' : AxidmaDir) (type type' : AxidmaType) :
    (dev.setArray array dir type).array dir' type'
      = if dir = dir' ∧ type = type' then array else dev.array dir' type' := by
  cases dir <;> cases type <;> cases dir' <;> cases type' <;> rfl

@[simp] theorem AxidmaDev.channels_setArray (dev : AxidmaDev) (array : IdArray)
    (dir : AxidmaDir) (type : AxidmaType) :
    (dev.setArray array dir type).channels = dev.channels := by
  cases dir <;> cases type <;> rfl

@[simp] theorem AxidmaDev.array_withChannels (dev : AxidmaDev) (channels : List DmaChannel)
    (dir : AxidmaDir) (type : AxidmaType) :
    { dev with channels }.array dir type = dev.array dir type := by
  cases dir <;> cases type <;> rfl

theorem idsOf_append (dir : AxidmaDir) (type : AxidmaType) (cs ds : List AxidmaChan) :
    idsOf dir type (cs ++ ds) = idsOf dir type cs ++ idsOf dir type ds := by
  rw [idsOf, List.filter_append, List.map_append]
  rfl

/-- `dev'` has the channels `cs` more than `dev`, in the same arrays. -/
structure Recorded (dev : AxidmaDev) (cs : List AxidmaChan) (dev' : AxidmaDev) : Prop where
  channels : dev'.channels = dev.channels ++ cs.map AxidmaChan.dmaChannel
  capacity (dir : AxidmaDir) (type : AxidmaType) :
    (dev'.array dir type).capacity = (dev.array dir type).capacity
  data (dir : AxidmaDir) (type : AxidmaType) :
    (dev'.array dir type).data = (dev.array dir type).data ++ idsOf dir type cs

theorem Recorded.nil (dev : AxidmaDev) : Recorded dev [] dev where
  channels := (List.append_nil _).symm
  capacity _ _ := rfl
  data _ _ := (List.append_nil _).symm

theorem Recorded.append {dev dev' dev'' : AxidmaDev} {cs ds : List AxidmaChan}
    (h : Recorded dev cs dev') (h' : Recorded dev' ds dev'') :
    Recorded dev (cs ++ ds) dev'' := by
  constructor
  · rw [h'.channels, h.channels, List.map_append, List.append_assoc]
  · intro dir type
    rw [h'.capacity, h.capacity]
  · intro dir type
    rw [h'.data, h.data, idsOf_append, List.append_assoc]

theorem idsOf_singleton (dir : AxidmaDir) (type : AxidmaType) (chan : AxidmaChan) :
    idsOf dir type [chan] = if chan.Is dir type then [chan.channelId] else [] := by
  by_cases h : chan.Is dir type <;> simp [idsOf, h]

theorem categorizeChannel_recorded {dev : AxidmaDev} {chan : AxidmaChan}
    (hroom : (dev.array chan.dir chan.type).len < (dev.array chan.dir chan.type).capacity) :
    ∃ dev', categorizeChannel dev chan = some dev' ∧ Recorded dev [chan] dev' := by
  have hpush : (dev.array chan.dir chan.type).push chan.channelId = some
      { dev.array chan.dir chan.type with
        data := (dev.array chan.dir chan.type).data ++ [chan.channelId] } := if_pos hroom
  refine ⟨_, by rw [categorizeChannel, hpush]; rfl, ?_⟩
  constructor
  · simp
  · intro dir type
    rw [AxidmaDev.array_withChannels, AxidmaDev.array_setArray]
    by_cases h : chan.dir = dir ∧ chan.type = type
    · obtain ⟨rfl, rfl⟩ := h
      simp
    · rw [if_neg h]
  · intro dir type
    rw [AxidmaDev.array_withChannels, AxidmaDev.array_setArray, idsOf_singleton]
    by_cases h : chan.dir = dir ∧ chan.type = type
    · obtain ⟨rfl, rfl⟩ := h
      simp [AxidmaChan.Is]
    · simp [AxidmaChan.Is, h]

/-- The stores stay inside arrays that were allocated for the channels. -/
theorem categorizeLoop_recorded :
    ∀ {cs : List AxidmaChan} {dev : AxidmaDev},
      (∀ dir type, (dev.array dir type).len + (idsOf dir type cs).length
        ≤ (dev.array dir type).capacity) →
      ∃ dev', categorizeLoop dev cs = some dev' ∧ Recorded dev cs dev' := by
  intro cs
  induction cs with
  | nil => intro dev _; exact ⟨dev, rfl, .nil dev⟩
  | cons chan cs ih =>
      intro dev hroom
      have hsplit (dir : AxidmaDir) (type : AxidmaType) :=
        idsOf_append dir type [chan] cs
      have hself : chan.Is chan.dir chan.type := ⟨rfl, rfl⟩
      have hroom₀ : (dev.array chan.dir chan.type).len
          < (dev.array chan.dir chan.type).capacity := by
        have h := hroom chan.dir chan.type
        rw [← List.singleton_append, hsplit, idsOf_singleton, if_pos hself] at h
        simp only [List.length_append, List.length_singleton] at h
        omega
      obtain ⟨dev₁, hdev₁, hrecorded⟩ := categorizeChannel_recorded hroom₀
      have hroom₁ (dir : AxidmaDir) (type : AxidmaType) :
          (dev₁.array dir type).len + (idsOf dir type cs).length
            ≤ (dev₁.array dir type).capacity := by
        have h := hroom dir type
        rw [← List.singleton_append, hsplit, List.length_append] at h
        rw [hrecorded.capacity, IdArray.len, hrecorded.data, List.length_append]
        simp only [IdArray.len] at h
        omega
      obtain ⟨dev', hdev', hrest⟩ := ih hroom₁
      refine ⟨dev', ?_, hrecorded.append hrest⟩
      rw [categorizeLoop, hdev₁]
      exact hdev'

/-- The device holds a record of every channel, and its id in the array of its kind. -/
structure Sorted (table : ChannelTable) (dev : AxidmaDev) : Prop where
  channels : dev.channels = table.channels.map AxidmaChan.dmaChannel
  data (dir : AxidmaDir) (type : AxidmaType) :
    (dev.array dir type).data = idsOf dir type table.channels

/-- **The library sorts every table**: no store leaves its array. -/
theorem axidmaInit_sorted {table : ChannelTable} (h : table.channels ≠ []) :
    ∃ dev, axidmaInit table = some dev ∧ Sorted table dev := by
  have hroom (dir : AxidmaDir) (type : AxidmaType) :
      ((AxidmaDev.allocated table.numChannels).array dir type).len
        + (idsOf dir type table.channels).length
        ≤ ((AxidmaDev.allocated table.numChannels).array dir type).capacity := by
    cases dir <;> cases type <;> exact (Nat.zero_add _).le
  obtain ⟨dev, hdev, hrecorded⟩ := categorizeLoop_recorded hroom
  refine ⟨dev, ?_, hrecorded.channels, fun dir type => ?_⟩
  · have hnum : table.numChannels.numChannels ≠ 0 := by
      simpa [ChannelTable.numChannels] using h
    rw [axidmaInit, probeChannels, if_neg hnum]
    exact hdev
  · rw [hrecorded.data]
    cases dir <;> cases type <;> rfl

theorem Sorted.mem_dmaTx {table : ChannelTable} {dev : AxidmaDev} (h : Sorted table dev)
    {id : BitVec 32} :
    id ∈ (axidmaGetDmaTx dev).data ↔
      ∃ chan ∈ table.channels, chan.Is .write .dma ∧ chan.channelId = id := by
  have hdata : (axidmaGetDmaTx dev).data = idsOf .write .dma table.channels :=
    h.data .write .dma
  simp [hdata, idsOf, and_assoc]

/-! ## Looking a channel up -/

/-- With distinct ids a channel is found under its own. -/
theorem Sorted.findChannel_of_mem {table : ChannelTable} {dev : AxidmaDev}
    (h : Sorted table dev) {chan : AxidmaChan} (hchan : chan ∈ table.channels) :
    findChannel dev chan.channelId = some chan.dmaChannel := by
  rw [findChannel, h.channels, List.find?_map]
  cases hfound : table.channels.find? _ with
  | none =>
      have hnone := List.find?_eq_none.mp hfound chan hchan
      simp [AxidmaChan.dmaChannel] at hnone
  | some other =>
      have hmem := List.mem_of_find?_eq_some hfound
      have hfound := List.find?_some hfound
      have hid : other.channelId = chan.channelId := of_decide_eq_true hfound
      rw [List.inj_on_of_nodup_map table.distinct hmem hchan hid]
      rfl

/-- The call has found its channel, asks for a write, and names a channel that
`axidma_get_dma_tx` lists. -/
def WritesListed (dev : AxidmaDev) : Option Ioctl → Prop
  | none => False
  | some call => call.axidmaCmd = .dmaWrite ∧ call.trans.channelId ∈ (axidmaGetDmaTx dev).data

instance (dev : AxidmaDev) : DecidablePred (WritesListed dev)
  | none => inferInstanceAs (Decidable False)
  | some _ => inferInstanceAs (Decidable (_ ∧ _))

/-- **A transfer does what it should** exactly if its channel is listed. -/
theorem Sorted.writesListed_iff {table : ChannelTable} {dev : AxidmaDev}
    (h : Sorted table dev) (channel : BitVec 32) (buf : List (BitVec 32)) (len : Nat)
    (wait : Bool) :
    WritesListed dev (axidmaOnewayTransfer dev channel buf len wait) ↔
      channel ∈ (axidmaGetDmaTx dev).data := by
  constructor
  · intro hwrites
    cases hfound : findChannel dev channel with
    | none => simp [axidmaOnewayTransfer, hfound, WritesListed] at hwrites
    | some dmaChan =>
        rw [axidmaOnewayTransfer, hfound] at hwrites
        exact hwrites.2
  · intro hlisted
    obtain ⟨chan, hchan, hkind, rfl⟩ := h.mem_dmaTx.mp hlisted
    rw [axidmaOnewayTransfer, h.findChannel_of_mem hchan]
    refine ⟨?_, hlisted⟩
    show dirToIoctl chan.dir = .dmaWrite
    rw [hkind.1]
    rfl

end Caeco.Dma
