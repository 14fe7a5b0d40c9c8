import Caeco.Dma.Engine
import Caeco.Kit.CInt
import Caeco.Kit.Runs

/-!
# The transfers of the AXI DMA driver

A transfer is submitted to the engine, which works through the transfers of each channel and
calls back when one has completed. The data for the callback is kept once for each channel and
written anew for every transfer. A call that waits has its completion on its own stack. One
thread of the program makes the calls, one after the other; while it waits, the engine goes on.
The results are about every engine that keeps to what is documented.

`none` stands for undefined behaviour: among others, a callback that completes what belongs to
a call that has returned.
-/

namespace Caeco.Dma

open CInt

structure AxidmaVideoFrame where
  height : Int
  width : Int
  depth : Int
deriving Repr, DecidableEq

/-- `struct axidma_cb_data`; `comp` is the call whose completion it is. -/
structure CbData where
  channelId : BitVec 32
  notifySignal : Int
  process : Option Nat
  comp : Option Nat
deriving Repr, DecidableEq

/-- The call that waits, for the transfer with this cookie. -/
structure Waiting where
  call : Nat
  channelId : BitVec 32
  cookie : Nat
  woken : Bool
deriving Repr, DecidableEq

/-- What a call that has waited has returned, with the transfer that it has waited for. -/
structure Returned where
  channelId : BitVec 32
  cookie : Nat
  result : Int
deriving Repr, DecidableEq

/-- `struct axidma_device`, with the engine behind it and the thread before it. The signals
that have been sent are kept with number, value and process. -/
structure AxidmaDevice (ε : Type) where
  channels : List AxidmaChan
  cbData : List CbData
  notifySignal : Int
  buffers : Buffers
  /-- The process that has opened the device. -/
  current : Nat
  engine : ε
  calls : Nat
  waiting : Option Waiting
  returned : List Returned
  signals : List (Int × BitVec 32 × Option Nat)

variable {ε : Type}

namespace AxidmaDevice

variable (E : Engine ε) (s : AxidmaDevice ε)

def axidmaGetChan (channelId : BitVec 32) : Option AxidmaChan :=
  s.channels.find? (·.channelId = channelId)

/-- `dmaengine_terminate_all` -/
def terminateAll (channelId : BitVec 32) : AxidmaDevice ε :=
  { s with engine := E.terminateAll channelId s.engine }

/-- `dma_async_issue_pending` -/
def issuePending (channelId : BitVec 32) : AxidmaDevice ε :=
  { s with engine := E.issuePending channelId s.engine }

end AxidmaDevice

/-- `struct axidma_transfer`; the completion is that of the call `comp`. -/
structure AxidmaTransfer where
  sgList : List SgEntry
  wait : Bool
  comp : Nat
  dir : AxidmaDir
  type : AxidmaType
  channelId : BitVec 32
  notifySignal : Int
  process : Nat
  /-- Nothing, where the function does not set it. -/
  frame : Option AxidmaVideoFrame

/-- What the kernel answers while a transfer is prepared. Whether the descriptor is accepted,
the engine says. -/
structure PrepAnswers where
  setConfig : Int
  prepared : Bool
deriving Repr, DecidableEq

/-- The data for the callback of a transfer. -/
def AxidmaTransfer.callbackData (tfr : AxidmaTransfer) : CbData :=
  if tfr.wait then ⟨tfr.channelId, -1, none, some tfr.comp⟩
  else ⟨tfr.channelId, tfr.notifySignal, some tfr.process, none⟩

/-- The descriptor's work, or why there is none. -/
def AxidmaTransfer.prepare (tfr : AxidmaTransfer) (answers : PrepAnswers) :
    Option (Except Int Work) :=
  match tfr.type with
  | .dma => some (if answers.prepared then .ok (.slaveSg tfr.sgList) else .error (-ebusy))
  | .vdma =>
      if answers.setConfig < 0 then some (.error answers.setConfig)
      else do
        let frame ← tfr.frame
        let first ← tfr.sgList.head?
        let size ← checked (frame.width * frame.depth)
        some (if answers.prepared then
            .ok (.interleaved first.dmaAddress (toSize frame.height) (toSize size))
          else .error (-ebusy))

/-- The cookie of the transfer, or why it has not been submitted. The data for the callback is
written before the engine says whether it accepts the descriptor. -/
def axidmaPrepTransfer (E : Engine ε) (chan : AxidmaChan) (tfr : AxidmaTransfer)
    (answers : PrepAnswers) (s : AxidmaDevice ε) : Option (Except Int Nat × AxidmaDevice ε) := do
  match ← tfr.prepare answers with
  | .error rc => some (.error rc, s.terminateAll E chan.channelId)
  | .ok work =>
      let i := tfr.channelId.toNat
      if i < s.cbData.length then
        let s := { s with cbData := s.cbData.set i tfr.callbackData }
        match E.submit ⟨chan.channelId, tfr.dir, work, i⟩ s.engine with
        | some (cookie, engine) => some (.ok cookie, { s with engine })
        | none => some (.error (-ebusy), s.terminateAll E chan.channelId)
      else none

/-- The call that will wait for the transfer. -/
def AxidmaTransfer.waiter (tfr : AxidmaTransfer) (chan : AxidmaChan) (cookie : Nat) :
    Option Waiting :=
  if tfr.wait then some ⟨tfr.comp, chan.channelId, cookie, false⟩ else none

/-- Up to the wait, if there is one. -/
def axidmaStartTransfer (E : Engine ε) (chan : AxidmaChan) (tfr : AxidmaTransfer) (cookie : Nat)
    (s : AxidmaDevice ε) : AxidmaDevice ε :=
  let s := s.issuePending E chan.channelId
  if tfr.wait then { s with waiting := some ⟨tfr.comp, chan.channelId, cookie, false⟩ } else s

/-- The waiting call returns. -/
def AxidmaDevice.settle (s : AxidmaDevice ε) (w : Waiting) (result : Int) : AxidmaDevice ε :=
  { s with waiting := none, returned := s.returned ++ [⟨w.channelId, w.cookie, result⟩] }

/-- From the wait on, when the completion has come. -/
def startTransferWoken (E : Engine ε) (w : Waiting) (s : AxidmaDevice ε) : AxidmaDevice ε :=
  if E.isTxComplete w.channelId w.cookie s.engine then s.settle w 0
  else (s.terminateAll E w.channelId).settle w (-ebusy)

/-- From the wait on, when the time is up. The state of the transfer is asked for, but not
looked at. -/
def startTransferTimedOut (E : Engine ε) (w : Waiting) (s : AxidmaDevice ε) : AxidmaDevice ε :=
  (s.terminateAll E w.channelId).settle w (-etime)

/-! ## Calls -/

/-- `struct axidma_transaction` of the kernel. -/
structure Transaction where
  wait : Bool
  channelId : BitVec 32
  buf : Addr
  bufLen : Addr
deriving Repr, DecidableEq

structure InoutTransaction where
  wait : Bool
  txChannelId : BitVec 32
  txBuf : Addr
  txBufLen : Addr
  txFrame : AxidmaVideoFrame
  rxChannelId : BitVec 32
  rxBuf : Addr
  rxBufLen : Addr
  rxFrame : AxidmaVideoFrame
deriving Repr, DecidableEq

/-- The channel for a request, if it exists and has the direction. -/
def AxidmaDevice.chanFor (s : AxidmaDevice ε) (channelId : BitVec 32) (dir : AxidmaDir) :
    Option AxidmaChan :=
  (s.axidmaGetChan channelId).filter (·.dir = dir)

/-- The transfer that a call of this device asks for. -/
def AxidmaDevice.transfer (s : AxidmaDevice ε) (chan : AxidmaChan) (channelId : BitVec 32)
    (wait : Bool) (entry : SgEntry) (frame : Option AxidmaVideoFrame) : AxidmaTransfer where
  sgList := [entry]
  wait
  comp := s.calls
  dir := chan.dir
  type := chan.type
  channelId
  notifySignal := s.notifySignal
  process := s.current
  frame

/-- `axidma_read_transfer` and `axidma_write_transfer`, which differ in the direction. A
return value is not recorded here unless the call has waited. -/
def onewayTransfer (E : Engine ε) (dir : AxidmaDir) (trans : Transaction) (answers : PrepAnswers)
    (s : AxidmaDevice ε) : Option (AxidmaDevice ε) :=
  match s.chanFor trans.channelId dir with
  | none => some s
  | some chan => do
      match ← axidmaInitSgEntry trans.buf trans.bufLen s.buffers with
      | .error _ => some s
      | .ok entry =>
          let tfr := s.transfer chan trans.channelId trans.wait entry none
          match ← axidmaPrepTransfer E chan tfr answers { s with calls := s.calls + 1 } with
          | (.error _, s) => some s
          | (.ok cookie, s) => some (axidmaStartTransfer E chan tfr cookie s)

def axidmaReadTransfer (E : Engine ε) :
    Transaction → PrepAnswers → AxidmaDevice ε → Option (AxidmaDevice ε) :=
  onewayTransfer E .read

def axidmaWriteTransfer (E : Engine ε) :
    Transaction → PrepAnswers → AxidmaDevice ε → Option (AxidmaDevice ε) :=
  onewayTransfer E .write

def axidmaRwTransfer (E : Engine ε) (trans : InoutTransaction) (txAnswers rxAnswers : PrepAnswers)
    (s : AxidmaDevice ε) : Option (AxidmaDevice ε) :=
  match s.chanFor trans.txChannelId .write, s.chanFor trans.rxChannelId .read with
  | some txChan, some rxChan => do
      match ← axidmaInitSgEntry trans.txBuf trans.txBufLen s.buffers with
      | .error _ => some s
      | .ok txEntry =>
          match ← axidmaInitSgEntry trans.rxBuf trans.rxBufLen s.buffers with
          | .error _ => some s
          | .ok rxEntry =>
              -- both frames are copied according to the type of the transmit channel
              let video := txChan.type = .vdma
              let tx := s.transfer txChan trans.txChannelId false txEntry
                (if video then some trans.txFrame else none)
              let rx := s.transfer rxChan trans.rxChannelId trans.wait rxEntry
                (if video then some trans.rxFrame else none)
              match ← axidmaPrepTransfer E txChan tx txAnswers { s with calls := s.calls + 1 } with
              | (.error _, s) => some s
              | (.ok txCookie, s) =>
                  match ← axidmaPrepTransfer E rxChan rx rxAnswers s with
                  | (.error _, s) => some s
                  | (.ok rxCookie, s) =>
                      some (axidmaStartTransfer E rxChan rx rxCookie
                        (axidmaStartTransfer E txChan tx txCookie s))
  | _, _ => some s

/-- The test lets a missing channel through, and then looks into it. -/
def axidmaStopChannel (E : Engine ε) (channelId : BitVec 32) (s : AxidmaDevice ε) :
    Option (AxidmaDevice ε) :=
  (s.axidmaGetChan channelId).map fun chan => s.terminateAll E chan.channelId

def sigrtmin : Int := 32
def sigrtmax : Int := 64

def validNotifySignal (signal : Int) : Bool := sigrtmin ≤ signal && signal ≤ sigrtmax

def axidmaSetSignal (signal : Int) (s : AxidmaDevice ε) : AxidmaDevice ε :=
  if validNotifySignal signal then { s with notifySignal := signal } else s

/-! ## Callbacks -/

/-- `complete` writes to the completion of a call, which is gone when the call is. -/
def complete (call : Nat) (s : AxidmaDevice ε) : Option (AxidmaDevice ε) :=
  match s.waiting with
  | some w =>
      if w.call = call then some { s with waiting := some { w with woken := true } } else none
  | none => none

def axidmaDmaCallback (cbData : CbData) (s : AxidmaDevice ε) : Option (AxidmaDevice ε) :=
  match cbData.comp with
  | some call => complete call s
  | none =>
      if validNotifySignal cbData.notifySignal then
        some { s with
          signals := s.signals ++ [(cbData.notifySignal, cbData.channelId, cbData.process)] }
      else some s

inductive DmaAction where
  | setSignal (signal : Int)
  | read (trans : Transaction) (answers : PrepAnswers)
  | write (trans : Transaction) (answers : PrepAnswers)
  | readWrite (trans : InoutTransaction) (txAnswers rxAnswers : PrepAnswers)
  | stop (channelId : BitVec 32)
  /-- The engine goes on with a channel. -/
  | work (channelId : BitVec 32)
  /-- It calls back for a transfer of the channel. -/
  | callback (channelId : BitVec 32)
  /-- The thread runs on. -/
  | wake
  | timeout

namespace AxidmaDevice

/-- What the thread does, unless it waits. -/
def free (s : AxidmaDevice ε) (f : AxidmaDevice ε → Option (AxidmaDevice ε)) :
    Option (AxidmaDevice ε) :=
  if s.waiting.isNone then f s else some s

/-- The calls of the program, the moves of the engine and what wakes the thread, in any order. An
action that is not possible changes nothing. -/
def step (E : Engine ε) (s : AxidmaDevice ε) : DmaAction → Option (AxidmaDevice ε)
  | .setSignal signal => s.free fun s => some (axidmaSetSignal signal s)
  | .read request answers => s.free (axidmaReadTransfer E request answers)
  | .write request answers => s.free (axidmaWriteTransfer E request answers)
  | .readWrite request txAnswers rxAnswers =>
      s.free (axidmaRwTransfer E request txAnswers rxAnswers)
  | .stop channelId => s.free (axidmaStopChannel E channelId)
  | .work channelId => some { s with engine := E.work channelId s.engine }
  | .callback channelId =>
      match E.callBack channelId s.engine with
      | none => some s
      | some (d, engine) =>
          (s.cbData[d.callbackParam]?).bind fun cbData =>
            axidmaDmaCallback cbData { s with engine }
  | .wake =>
      match s.waiting with
      | some w => if w.woken then some (startTransferWoken E w s) else some s
      | none => some s
  | .timeout =>
      match s.waiting with
      | some w => if w.woken then some s else some (startTransferTimedOut E w s)
      | none => some s

/-! ## What holds while transfers are under way -/

variable (E : Engine ε)

/-- Nothing on the channel may still be called back. -/
def Idle (channelId : BitVec 32) (s : AxidmaDevice ε) : Prop :=
  ∀ d ∈ E.queue s.engine, d.channelId ≠ channelId

/-- A call that has waited has its transfer complete, or the time was up. -/
def Settled (e : ε) (r : Returned) : Prop :=
  (r.result = 0 ∧ E.isTxComplete r.channelId r.cookie e = true) ∨ r.result = -etime

/-- `w` is the call that waits, or that is about to. A callback that will complete something
belongs to its transfer. -/
structure Inv (s : AxidmaDevice ε) (w : Option Waiting) : Prop where
  slots : ∀ c ∈ s.channels, c.channelId.toNat < s.cbData.length
  dma : ∀ c ∈ s.channels, c.type = .dma
  live : ∀ e ∈ s.buffers.externalDmabufs, e.freed = false
  param : ∀ d ∈ E.queue s.engine,
    d.callbackParam = d.channelId.toNat ∧ d.callbackParam < s.cbData.length
  nodup : ((E.queue s.engine).map Submitted.key).Nodup
  comp : ∀ d ∈ E.queue s.engine, ∀ cb, s.cbData[d.callbackParam]? = some cb → ∀ call,
    cb.comp = some call → ∃ x, w = some x ∧ x.call = call ∧ x.cookie = d.cookie ∧
      x.channelId = d.channelId ∧ x.woken = false
  woken : ∀ x, w = some x → x.woken = true →
    E.isTxComplete x.channelId x.cookie s.engine = true
  returned : ∀ r ∈ s.returned, Settled E s.engine r

variable {E} {s : AxidmaDevice ε} {w : Option Waiting}

theorem Settled.mono {e e' : ε} {r : Returned} (h : Settled E e r)
    (hmono : ∀ channelId k, E.isTxComplete channelId k e = true →
      E.isTxComplete channelId k e' = true) : Settled E e' r :=
  h.imp_left fun hok => ⟨hok.1, hmono _ _ hok.2⟩

/-- The engine may go on. -/
theorem Inv.goesOn (h : s.Inv E w) {e' : ε} (hgo : E.GoesOn s.engine e') :
    { s with engine := e' }.Inv E w where
  slots := h.slots
  dma := h.dma
  live := h.live
  param := fun d hd => h.param d (hgo.queue.subset hd)
  nodup := h.nodup.sublist (hgo.queue.map _)
  comp := fun d hd => h.comp d (hgo.queue.subset hd)
  woken := fun x hx hwoken => hgo.complete _ _ (h.woken x hx hwoken)
  returned := fun r hr => (h.returned r hr).mono hgo.complete

theorem Inv.start (hE : E.Documented) (h : s.Inv E w) (chan : AxidmaChan) (tfr : AxidmaTransfer)
    (cookie : Nat) : (axidmaStartTransfer E chan tfr cookie s).Inv E w := by
  have hissued := h.goesOn (hE.issuePending chan.channelId s.engine)
  rw [axidmaStartTransfer]
  split
  · exact { hissued with }
  · exact hissued

/-- The data for the callback of a transfer is in its place. -/
def withCallback (tfr : AxidmaTransfer) (s : AxidmaDevice ε) : AxidmaDevice ε :=
  { s with cbData := s.cbData.set tfr.channelId.toNat tfr.callbackData }

/-- It may be written over that of transfers which are still to be called back, unless it has a
completion. -/
theorem Inv.withCallback (h : s.Inv E none) {chan : AxidmaChan} {tfr : AxidmaTransfer}
    (hid : tfr.channelId = chan.channelId) (hidle : tfr.wait = true → s.Idle E chan.channelId) :
    (s.withCallback tfr).Inv E none where
  slots := fun c hc => by
    rw [AxidmaDevice.withCallback, List.length_set]
    exact h.slots c hc
  dma := h.dma
  live := h.live
  param := fun d hd => by
    rw [AxidmaDevice.withCallback, List.length_set]
    exact h.param d hd
  nodup := h.nodup
  comp := by
    intro d hd cb hcb call hcall
    obtain ⟨hslot, hlt⟩ := h.param d hd
    change (s.cbData.set tfr.channelId.toNat tfr.callbackData)[d.callbackParam]? = some cb at hcb
    by_cases hsame : d.callbackParam = tfr.channelId.toNat
    · rw [← hsame, List.getElem?_set_self hlt] at hcb
      cases hcb
      rw [AxidmaTransfer.callbackData] at hcall
      split at hcall
      · rename_i hwait
        rw [hslot, hid] at hsame
        exact absurd (BitVec.eq_of_toNat_eq hsame) (hidle hwait d hd)
      · cases hcall
    · rw [List.getElem?_set_ne (Ne.symm hsame)] at hcb
      exact h.comp d hd cb hcb call hcall
  woken := h.woken
  returned := h.returned

/-- A descriptor joins the queue, with the data for its callback. -/
theorem Inv.submit (hE : E.Documented) (h : s.Inv E none) {d : TxDescriptor} {cookie : Nat}
    {e' : ε} (hsubmit : E.submit d s.engine = some (cookie, e')) {cb : CbData}
    (hparam : d.callbackParam = d.channelId.toNat ∧ d.callbackParam < s.cbData.length)
    (hcb : s.cbData[d.callbackParam]? = some cb)
    (hw : ∀ x, w = some x → x.woken = false)
    (hcall : ∀ call, cb.comp = some call → ∃ x, w = some x ∧ x.call = call ∧
      x.cookie = cookie ∧ x.channelId = d.channelId ∧ x.woken = false) :
    { s with engine := e' }.Inv E w := by
  obtain ⟨hqueue, hnew, hmono⟩ := hE.submit hsubmit
  refine ⟨h.slots, h.dma, h.live, ?param, ?nodup, ?comp, ?woken,
    fun r hr => (h.returned r hr).mono hmono⟩
  case param =>
    show ∀ x ∈ E.queue e', _
    rw [hqueue]
    exact List.forall_mem_append.mpr ⟨h.param, List.forall_mem_singleton.mpr hparam⟩
  case nodup =>
    show ((E.queue e').map Submitted.key).Nodup
    rw [hqueue, List.map_append, List.map_singleton, ← List.concat_eq_append]
    exact List.Nodup.concat hnew h.nodup
  case comp =>
    show ∀ x ∈ E.queue e', _
    rw [hqueue]
    refine List.forall_mem_append.mpr ⟨fun x hx cb' hcb' call hcall => ?_,
      List.forall_mem_singleton.mpr fun cb' hcb' call hcomp => ?_⟩
    · obtain ⟨y, hy, _⟩ := h.comp x hx cb' hcb' call hcall
      cases hy
    · have hsame : some cb = some cb' := hcb.symm.trans hcb'
      cases hsame
      exact hcall call hcomp
  case woken =>
    intro x hx hwoken
    rw [hw x hx] at hwoken
    cases hwoken

/-- What a preparation comes to, on a channel that is not for video. -/
inductive Prep (E : Engine ε) (s : AxidmaDevice ε) (chan : AxidmaChan) (tfr : AxidmaTransfer) :
    Option (Except Int Nat × AxidmaDevice ε) → Prop
  | unprepared : Prep E s chan tfr (some (.error (-ebusy), s.terminateAll E chan.channelId))
  | refused : Prep E s chan tfr
      (some (.error (-ebusy), (s.withCallback tfr).terminateAll E chan.channelId))
  | ready (cookie : Nat) (engine : ε)
      (hsubmit : E.submit ⟨chan.channelId, tfr.dir, .slaveSg tfr.sgList, tfr.channelId.toNat⟩
        s.engine = some (cookie, engine)) :
      Prep E s chan tfr (some (.ok cookie, { s.withCallback tfr with engine }))

theorem axidmaPrepTransfer_cases (chan : AxidmaChan) {tfr : AxidmaTransfer}
    (hdma : tfr.type = .dma) (hslot : tfr.channelId.toNat < s.cbData.length)
    (answers : PrepAnswers) : Prep E s chan tfr (axidmaPrepTransfer E chan tfr answers s) := by
  rw [axidmaPrepTransfer, AxidmaTransfer.prepare, hdma]
  cases answers.prepared with
  | false => exact .unprepared
  | true =>
      simp only [if_true, Option.bind_eq_bind, Option.bind_some, if_pos hslot]
      split
      · rename_i cookie engine hsubmit
        exact .ready cookie engine hsubmit
      · exact .refused

/-- The call that is to wait for a transfer waits for its own. -/
theorem Inv.ready (hE : E.Documented) (h : s.Inv E none) {chan : AxidmaChan}
    {tfr : AxidmaTransfer} (hchan : chan ∈ s.channels) (hid : tfr.channelId = chan.channelId)
    (hidle : tfr.wait = true → s.Idle E chan.channelId) {cookie : Nat} {engine : ε}
    (hsubmit : E.submit ⟨chan.channelId, tfr.dir, .slaveSg tfr.sgList, tfr.channelId.toNat⟩
      s.engine = some (cookie, engine)) :
    { s.withCallback tfr with engine }.Inv E (tfr.waiter chan cookie) := by
  have hslot : tfr.channelId.toNat < s.cbData.length := hid ▸ h.slots chan hchan
  have hset := h.withCallback hid hidle
  refine hset.submit hE hsubmit ?_ (List.getElem?_set_self hslot) ?_ ?_
  · rw [AxidmaDevice.withCallback, List.length_set, ← hid]
    exact ⟨rfl, hslot⟩
  · intro x hx
    rw [AxidmaTransfer.waiter] at hx
    split at hx
    · cases hx
      rfl
    · cases hx
  · intro call hcall
    rw [AxidmaTransfer.callbackData] at hcall
    split at hcall
    · rename_i hwait
      cases hcall
      exact ⟨_, if_pos hwait, rfl, rfl, rfl, rfl⟩
    · cases hcall

/-- A preparation that fails leaves no call waiting, and otherwise there is a descriptor. -/
theorem Prep.failed_or_ready (hE : E.Documented) (h : s.Inv E none) {chan : AxidmaChan}
    {tfr : AxidmaTransfer} (hid : tfr.channelId = chan.channelId)
    (hidle : tfr.wait = true → s.Idle E chan.channelId)
    {result : Option (Except Int Nat × AxidmaDevice ε)} (hprep : Prep E s chan tfr result) :
    (∃ rc s', result = some (.error rc, s') ∧ s'.Inv E none ∧ s'.waiting = s.waiting) ∨
      ∃ cookie engine, result = some (.ok cookie, { s.withCallback tfr with engine }) ∧
        E.submit ⟨chan.channelId, tfr.dir, .slaveSg tfr.sgList, tfr.channelId.toNat⟩ s.engine
          = some (cookie, engine) := by
  have hset := h.withCallback hid hidle
  cases hprep with
  | unprepared =>
      exact .inl ⟨_, _, rfl, h.goesOn (hE.terminateAll chan.channelId s.engine), rfl⟩
  | refused =>
      exact .inl ⟨_, _, rfl, hset.goesOn (hE.terminateAll chan.channelId s.engine), rfl⟩
  | ready cookie engine hsubmit => exact .inr ⟨cookie, engine, rfl, hsubmit⟩

variable (E) in
/-- Between two steps. -/
def Ok (s : AxidmaDevice ε) : Prop := s.Inv E s.waiting

theorem Inv.ok (h : s.Inv E w) (hwaiting : s.waiting = w) : s.Ok E := by
  cases hwaiting
  exact h

theorem axidmaInitSgEntry_live (h : ∀ e ∈ s.buffers.externalDmabufs, e.freed = false)
    (buf bufLen : Addr) : ∃ r, axidmaInitSgEntry buf bufLen s.buffers = some r := by
  rw [axidmaInitSgEntry, axidmaUservirtToDma]
  split
  · exact ⟨_, rfl⟩
  · rw [firstExternal_live h]
    exact ⟨_, rfl⟩

theorem chanFor_spec {channelId : BitVec 32} {dir : AxidmaDir} {chan : AxidmaChan}
    (h : s.chanFor channelId dir = some chan) :
    chan ∈ s.channels ∧ channelId = chan.channelId ∧ chan.dir = dir ∧
      s.axidmaGetChan channelId = some chan := by
  obtain ⟨hfound, hdir⟩ := Option.filter_eq_some_iff.mp h
  have hid := List.find?_some hfound
  exact ⟨List.mem_of_find?_eq_some hfound, (of_decide_eq_true hid).symm, of_decide_eq_true hdir,
    hfound⟩

/-- No channel sends and receives. -/
theorem chanFor_ne {txId rxId : BitVec 32} {txChan rxChan : AxidmaChan}
    (htx : s.chanFor txId .write = some txChan) (hrx : s.chanFor rxId .read = some rxChan) :
    txChan.channelId ≠ rxChan.channelId := by
  obtain ⟨_, htxId, htxDir, htxFound⟩ := chanFor_spec htx
  obtain ⟨_, hrxId, hrxDir, hrxFound⟩ := chanFor_spec hrx
  intro heq
  rw [htxId, heq, ← hrxId, hrxFound] at htxFound
  cases htxFound
  rw [htxDir] at hrxDir
  cases hrxDir

/-- A new call has its number. -/
theorem Inv.called (h : s.Inv E w) (n : Nat) : { s with calls := n }.Inv E w :=
  { h with }

/-- The start of a transfer leaves the call waiting that is to wait. -/
theorem waiting_start (chan : AxidmaChan) (tfr : AxidmaTransfer) (cookie : Nat)
    (hwaiting : s.waiting = none) :
    (axidmaStartTransfer E chan tfr cookie s).waiting = tfr.waiter chan cookie := by
  rw [axidmaStartTransfer, AxidmaTransfer.waiter]
  split
  · rfl
  · exact hwaiting

/-- What follows the preparation of a transfer. -/
def started (E : Engine ε) (chan : AxidmaChan) (tfr : AxidmaTransfer) :
    Except Int Nat × AxidmaDevice ε → AxidmaDevice ε
  | (.error _, s) => s
  | (.ok cookie, s) => axidmaStartTransfer E chan tfr cookie s

theorem onewayTransfer_cases (h : s.Inv E none) (dir : AxidmaDir) (request : Transaction)
    (answers : PrepAnswers) :
    onewayTransfer E dir request answers s = some s ∨
      ∃ chan entry result, chan ∈ s.channels ∧ request.channelId = chan.channelId ∧
        Prep E { s with calls := s.calls + 1 } chan
          (s.transfer chan request.channelId request.wait entry none) result ∧
        onewayTransfer E dir request answers s
          = result.map (started E chan
            (s.transfer chan request.channelId request.wait entry none)) := by
  rw [onewayTransfer]
  cases hfound : s.chanFor request.channelId dir with
  | none => exact .inl rfl
  | some chan =>
      obtain ⟨hchan, hid, _, _⟩ := chanFor_spec hfound
      obtain ⟨r, hentry⟩ := axidmaInitSgEntry_live h.live request.buf request.bufLen
      simp only [hentry, Option.bind_eq_bind, Option.bind_some]
      cases r with
      | error rc => exact .inl rfl
      | ok entry =>
          refine .inr ⟨chan, entry, _, hchan, hid, axidmaPrepTransfer_cases chan
            (h.dma chan hchan) (hid ▸ h.slots chan hchan) answers, ?_⟩
          simp only
          cases axidmaPrepTransfer E chan _ answers { s with calls := s.calls + 1 } with
          | none => rfl
          | some result =>
              obtain ⟨result, s'⟩ := result
              cases result with
              | error rc => rfl
              | ok cookie => rfl

theorem onewayTransfer_ok (hE : E.Documented) (h : s.Inv E none) (hwaiting : s.waiting = none)
    (dir : AxidmaDir) (request : Transaction)
    (hidle : request.wait = true → s.Idle E request.channelId) (answers : PrepAnswers) :
    ∃ s', onewayTransfer E dir request answers s = some s' ∧ s'.Ok E := by
  rcases onewayTransfer_cases h dir request answers with
    hsame | ⟨chan, entry, result, hchan, hid, hprep, heq⟩
  · exact ⟨s, hsame, h.ok hwaiting⟩
  · rw [heq]
    generalize htfr : s.transfer chan request.channelId request.wait entry none = tfr at *
    have hsame : tfr.channelId = chan.channelId := by rw [← htfr]; exact hid
    have hcalled := h.called (s.calls + 1)
    have hidle' : tfr.wait = true → s.Idle E chan.channelId := by
      rw [← htfr, ← hid]
      exact hidle
    rcases hprep.failed_or_ready hE hcalled hsame hidle' with
      ⟨rc, s', rfl, hinv, hwaiting'⟩ | ⟨cookie, engine, rfl, hsubmit⟩
    · exact ⟨s', rfl, hinv.ok (hwaiting'.trans hwaiting)⟩
    · have hready := hcalled.ready hE hchan hsame hidle' hsubmit
      exact ⟨_, rfl, (hready.start hE chan tfr cookie).ok
        (waiting_start chan tfr cookie hwaiting)⟩

theorem axidmaRwTransfer_ok (hE : E.Documented) (h : s.Inv E none) (hwaiting : s.waiting = none)
    (request : InoutTransaction) (hidle : request.wait = true → s.Idle E request.rxChannelId)
    (txAnswers rxAnswers : PrepAnswers) :
    ∃ s', axidmaRwTransfer E request txAnswers rxAnswers s = some s' ∧ s'.Ok E := by
  have hsame : s.Ok E := h.ok hwaiting
  rw [axidmaRwTransfer]
  cases htx : s.chanFor request.txChannelId .write with
  | none => exact ⟨s, rfl, hsame⟩
  | some txChan =>
      cases hrx : s.chanFor request.rxChannelId .read with
      | none => exact ⟨s, rfl, hsame⟩
      | some rxChan =>
          obtain ⟨htxChan, htxId, _, _⟩ := chanFor_spec htx
          obtain ⟨hrxChan, hrxId, _, _⟩ := chanFor_spec hrx
          obtain ⟨txResult, htxEntry⟩ :=
            axidmaInitSgEntry_live h.live request.txBuf request.txBufLen
          obtain ⟨rxResult, hrxEntry⟩ :=
            axidmaInitSgEntry_live h.live request.rxBuf request.rxBufLen
          simp only [htxEntry, hrxEntry, Option.bind_eq_bind, Option.bind_some]
          cases txResult with
          | error rc => exact ⟨s, rfl, hsame⟩
          | ok txEntry =>
          cases rxResult with
          | error rc => exact ⟨s, rfl, hsame⟩
          | ok rxEntry =>
          simp only
          generalize htxTfr : s.transfer txChan request.txChannelId false txEntry _ = tx
          generalize hrxTfr : s.transfer rxChan request.rxChannelId request.wait rxEntry _ = rx
          have htxWait : tx.wait = false := by rw [← htxTfr]; rfl
          have hrxWait : rx.wait = request.wait := by rw [← hrxTfr]; rfl
          have htxSame : tx.channelId = txChan.channelId := by rw [← htxTfr]; exact htxId
          have hrxSame : rx.channelId = rxChan.channelId := by rw [← hrxTfr]; exact hrxId
          have hcalled := h.called (s.calls + 1)
          have htxIdle : tx.wait = true → s.Idle E txChan.channelId := fun hwait =>
            (Bool.false_ne_true (htxWait.symm.trans hwait)).elim
          have htxPrep := axidmaPrepTransfer_cases (E := E) (s := { s with calls := s.calls + 1 })
            txChan (show tx.type = .dma by rw [← htxTfr]; exact h.dma txChan htxChan)
            (htxSame ▸ h.slots txChan htxChan) txAnswers
          generalize axidmaPrepTransfer E txChan tx txAnswers _ = prepared at htxPrep
          rcases htxPrep.failed_or_ready hE hcalled htxSame htxIdle with
            ⟨rc, s', rfl, hinv, hwaiting'⟩ | ⟨txCookie, engine, rfl, hsubmit⟩
          · exact ⟨s', rfl, hinv.ok (hwaiting'.trans hwaiting)⟩
          have hnone : tx.waiter txChan txCookie = none := by
            rw [AxidmaTransfer.waiter, htxWait]
            rfl
          have hready := hcalled.ready hE htxChan htxSame htxIdle hsubmit
          rw [hnone] at hready
          -- the receive channel is as idle as before
          have hrxIdle : rx.wait = true → ∀ d ∈ E.queue engine,
              d.channelId ≠ rxChan.channelId := by
            intro hwait
            rw [(hE.submit hsubmit).1]
            refine List.forall_mem_append.mpr ⟨?_, List.forall_mem_singleton.mpr ?_⟩
            · exact hrxId ▸ hidle (hrxWait ▸ hwait)
            · exact chanFor_ne htx hrx
          simp only [Option.bind_some]
          generalize hmiddle : { withCallback tx { s with calls := s.calls + 1 } with
            engine } = s₁ at hready ⊢
          have hengine : s₁.engine = engine := by rw [← hmiddle]
          have hchannels : s₁.channels = s.channels := by rw [← hmiddle]; rfl
          have hwaits : s₁.waiting = none := by rw [← hmiddle]; exact hwaiting
          have hrxChan₁ : rxChan ∈ s₁.channels := hchannels ▸ hrxChan
          have hrxIdle₁ : rx.wait = true → s₁.Idle E rxChan.channelId := by
            rw [Idle, hengine]
            exact hrxIdle
          have hrxPrep := axidmaPrepTransfer_cases (E := E) (s := s₁) rxChan
            (show rx.type = .dma by rw [← hrxTfr]; exact h.dma rxChan hrxChan)
            (hrxSame ▸ hready.slots rxChan hrxChan₁) rxAnswers
          generalize axidmaPrepTransfer E rxChan rx rxAnswers s₁ = prepared at hrxPrep
          rcases hrxPrep.failed_or_ready hE hready hrxSame hrxIdle₁ with
            ⟨rc, s', rfl, hinv, hwaiting'⟩ | ⟨rxCookie, engine₂, rfl, hsubmit₂⟩
          · exact ⟨s', rfl, hinv.ok (hwaiting'.trans hwaits)⟩
          have hends := hready.ready hE hrxChan₁ hrxSame hrxIdle₁ hsubmit₂
          have hwaits₂ : { withCallback rx s₁ with engine := engine₂ }.waiting = none := hwaits
          refine ⟨_, rfl, ((hends.start hE txChan tx txCookie).start hE rxChan rx rxCookie).ok ?_⟩
          exact waiting_start rxChan rx rxCookie
            ((waiting_start txChan tx txCookie hwaits₂).trans hnone)

/-! ## Steps and runs -/

/-- The discipline of a program: it waits only for a transfer on a channel where nothing is left
to be called back, and stops only channels that there are. And the time is not up between the
completion of the transfer that is waited for and its callback. -/
def Orderly (E : Engine ε) (s : AxidmaDevice ε) : DmaAction → Prop
  | .read request _ => request.wait = true → s.Idle E request.channelId
  | .write request _ => request.wait = true → s.Idle E request.channelId
  | .readWrite request _ _ => request.wait = true → s.Idle E request.rxChannelId
  | .stop channelId => (s.axidmaGetChan channelId).isSome
  | .timeout => ∀ w, s.waiting = some w → w.woken = false →
      E.isTxComplete w.channelId w.cookie s.engine = false
  | _ => True

/-- What the thread does keeps the invariant, if it does so where the thread does not wait. -/
theorem free_ok {f : AxidmaDevice ε → Option (AxidmaDevice ε)} (h : s.Ok E)
    (hf : s.Inv E none → s.waiting = none → ∃ s', f s = some s' ∧ s'.Ok E) :
    ∃ s', s.free f = some s' ∧ s'.Ok E := by
  rw [free]
  cases hwaiting : s.waiting with
  | none =>
      rw [Ok, hwaiting] at h
      exact hf h hwaiting
  | some w => exact ⟨s, rfl, h⟩

/-- A transfer that has been called back is not called back again. -/
theorem Inv.key_ne (h : s.Inv E w) {before behind : List Submitted} {d d' : Submitted}
    (hsplit : E.queue s.engine = before ++ d :: behind) (hd' : d' ∈ before ++ behind) :
    d'.key ≠ d.key := by
  have hnodup := h.nodup
  rw [hsplit, List.map_append, List.map_cons, List.nodup_middle, List.nodup_cons,
    ← List.map_append] at hnodup
  intro hsame
  exact hnodup.1 (hsame ▸ List.mem_map_of_mem hd')

/-- A callback that completes something finds the call waiting. -/
theorem callback_ok (hE : E.Documented) (h : s.Ok E) {channelId : BitVec 32} {d : Submitted}
    {e' : ε} (hcall : E.callBack channelId s.engine = some (d, e')) :
    ∃ s', ((s.cbData[d.callbackParam]?).bind fun cbData =>
      axidmaDmaCallback cbData { s with engine := e' }) = some s' ∧ s'.Ok E := by
  obtain ⟨hchannel, ⟨before, behind, hsplit, hsub⟩, hmono, hcomplete⟩ := hE.callBack hcall
  have hmem : d ∈ E.queue s.engine := hsplit ▸ List.mem_append_right _ (List.mem_cons_self ..)
  have hgo : E.GoesOn s.engine e' := by
    refine ⟨hsub.trans ?_, hmono⟩
    rw [hsplit]
    exact (List.Sublist.refl _).append (List.sublist_cons_self _ _)
  have hrest : { s with engine := e' }.Inv E s.waiting := Inv.goesOn h hgo
  obtain ⟨cb, hcb⟩ : ∃ cb, s.cbData[d.callbackParam]? = some cb :=
    ⟨_, List.getElem?_eq_getElem (h.param d hmem).2⟩
  rw [hcb, Option.bind_some, axidmaDmaCallback]
  cases hcomp : cb.comp with
  | some call =>
      obtain ⟨x, hx, hsame, hcookie, hchan, _⟩ := h.comp d hmem cb hcb call hcomp
      refine ⟨{ s with engine := e', waiting := some { x with woken := true } }, ?_, ?_⟩
      · show complete call _ = _
        rw [complete, hx]
        exact if_pos hsame
      · refine { hrest with comp := ?_, woken := ?_ }
        · -- no other descriptor is that of the call
          intro d' hd' cb' hcb' call' hcall'
          obtain ⟨y, hy, _, hcookie', hchan', _⟩ := hrest.comp d' hd' cb' hcb' call' hcall'
          rw [hx] at hy
          cases hy
          refine absurd ?_ (Inv.key_ne h hsplit (hsub.subset hd'))
          rw [Submitted.key, Submitted.key, ← hcookie, ← hchan, hcookie', hchan']
        · rintro y ⟨⟩ _
          show E.isTxComplete x.channelId x.cookie e' = true
          rw [hchan, hcookie, hchannel]
          exact hcomplete
  | none =>
      simp only
      split
      · exact ⟨_, rfl, { hrest with }⟩
      · exact ⟨_, rfl, hrest⟩

/-- A call may return once nothing is left in the queue that would complete it. -/
theorem Inv.settle (h : s.Inv E w) {x : Waiting} {result : Int}
    (hcomp : ∀ d ∈ E.queue s.engine, ∀ cb, s.cbData[d.callbackParam]? = some cb → ∀ call,
      cb.comp ≠ some call)
    (hr : Settled E s.engine ⟨x.channelId, x.cookie, result⟩) : (s.settle x result).Ok E where
  slots := h.slots
  dma := h.dma
  live := h.live
  param := h.param
  nodup := h.nodup
  comp := fun d hd cb hcb call hcall => absurd hcall (hcomp d hd cb hcb call)
  woken := fun x hx => by cases hx
  returned := List.forall_mem_append.mpr ⟨h.returned, List.forall_mem_singleton.mpr hr⟩

/-- A call that is woken has its own transfer complete. -/
theorem wake_ok (h : s.Ok E) {x : Waiting} (hwaiting : s.waiting = some x)
    (hwoken : x.woken = true) : (startTransferWoken E x s).Ok E := by
  rw [Ok, hwaiting] at h
  have hcompleted := h.woken x rfl hwoken
  rw [startTransferWoken, if_pos hcompleted]
  refine h.settle (fun d hd cb hcb call hcall => ?_) (.inl ⟨rfl, hcompleted⟩)
  -- its callback has been, and comes once
  obtain ⟨y, hy, _, _, _, hnot⟩ := h.comp d hd cb hcb call hcall
  cases hy
  rw [hwoken] at hnot
  cases hnot

/-- A call that gives up takes its transfer along, which is not complete. -/
theorem timeout_ok (hE : E.Documented) (h : s.Ok E) {x : Waiting} (hwaiting : s.waiting = some x)
    (hnot : E.isTxComplete x.channelId x.cookie s.engine = false) :
    (startTransferTimedOut E x s).Ok E := by
  rw [Ok, hwaiting] at h
  have hrest := h.goesOn (hE.terminateAll x.channelId s.engine)
  refine Inv.settle (s := s.terminateAll E x.channelId) hrest
    (fun d hd cb hcb call hcall => ?_) (.inr rfl)
  obtain ⟨y, hy, _, hcookie, hchannel, _⟩ := hrest.comp d hd cb hcb call hcall
  cases hy
  have hcomplete := hE.dropped x.channelId s.engine d hd hchannel.symm
  rw [← hcookie, hnot] at hcomplete
  cases hcomplete

theorem stop_ok (hE : E.Documented) (h : s.Inv E none) (hwaiting : s.waiting = none)
    {channelId : BitVec 32} (hfound : (s.axidmaGetChan channelId).isSome) :
    ∃ s', axidmaStopChannel E channelId s = some s' ∧ s'.Ok E := by
  obtain ⟨chan, hchan⟩ := Option.isSome_iff_exists.mp hfound
  refine ⟨s.terminateAll E chan.channelId, by rw [axidmaStopChannel, hchan]; rfl, ?_⟩
  exact (h.goesOn (hE.terminateAll chan.channelId s.engine)).ok hwaiting

theorem setSignal_ok (h : s.Inv E none) (hwaiting : s.waiting = none) (signal : Int) :
    (axidmaSetSignal signal s).Ok E := by
  rw [axidmaSetSignal]
  split
  · have hset : { s with notifySignal := signal }.Inv E none := { h with }
    exact hset.ok hwaiting
  · exact h.ok hwaiting

/-- An orderly step is defined. -/
theorem step_ok (hE : E.Documented) (h : s.Ok E) {a : DmaAction} (ha : s.Orderly E a) :
    ∃ s', s.step E a = some s' ∧ s'.Ok E := by
  cases a with
  | setSignal signal =>
      exact free_ok (f := fun s => some (axidmaSetSignal signal s)) h fun hinv hwaiting =>
        ⟨_, rfl, setSignal_ok hinv hwaiting signal⟩
  | read request answers =>
      exact free_ok h fun hinv hwaiting =>
        onewayTransfer_ok hE hinv hwaiting .read request ha answers
  | write request answers =>
      exact free_ok h fun hinv hwaiting =>
        onewayTransfer_ok hE hinv hwaiting .write request ha answers
  | readWrite request txAnswers rxAnswers =>
      exact free_ok h fun hinv hwaiting =>
        axidmaRwTransfer_ok hE hinv hwaiting request ha txAnswers rxAnswers
  | stop channelId => exact free_ok h fun hinv hwaiting => stop_ok hE hinv hwaiting ha
  | work channelId => exact ⟨_, rfl, Inv.goesOn h (hE.work channelId s.engine)⟩
  | callback channelId =>
      rw [step]
      cases hcall : E.callBack channelId s.engine with
      | none => exact ⟨s, rfl, h⟩
      | some called => exact callback_ok hE h hcall
  | wake =>
      rw [step]
      cases hwaiting : s.waiting with
      | none => exact ⟨s, rfl, h⟩
      | some x =>
          simp only
          split
          · rename_i hwoken
            exact ⟨_, rfl, wake_ok h hwaiting hwoken⟩
          · exact ⟨s, rfl, h⟩
  | timeout =>
      rw [step]
      cases hwaiting : s.waiting with
      | none => exact ⟨s, rfl, h⟩
      | some x =>
          simp only
          split
          · exact ⟨s, rfl, h⟩
          · rename_i hwoken
            exact ⟨_, rfl, timeout_ok hE h hwaiting
              (ha x hwaiting (Bool.not_eq_true _ ▸ hwoken))⟩

variable (E) in
/-- A device on which no call has been made yet, and whose engine has nothing to call back. -/
structure Ready (s : AxidmaDevice ε) : Prop where
  slots : ∀ c ∈ s.channels, c.channelId.toNat < s.cbData.length
  dma : ∀ c ∈ s.channels, c.type = .dma
  live : ∀ e ∈ s.buffers.externalDmabufs, e.freed = false
  queue : E.queue s.engine = []
  waiting : s.waiting = none
  returned : s.returned = []

theorem Ready.ok (h : s.Ready E) : s.Ok E where
  slots := h.slots
  dma := h.dma
  live := h.live
  param := by simp [h.queue]
  nodup := by simp [h.queue]
  comp := by simp [h.queue]
  woken := by simp [h.waiting]
  returned := by simp [h.returned]

/-- A device with a channel in each direction, and one buffer. -/
def twoChannels : AxidmaDevice QueueState where
  channels := [⟨.write, .dma, 0⟩, ⟨.read, .dma, 1⟩]
  cbData := [⟨0, 0, none, none⟩, ⟨0, 0, none, none⟩]
  notifySignal := 40
  buffers := { Buffers.empty with dmabufList := [⟨0, 0x1000, 0x1000, 7, 0x50000000⟩] }
  current := 1
  engine := .empty
  calls := 0
  waiting := none
  returned := []
  signals := []

def granted : PrepAnswers := ⟨0, true⟩

theorem ready_twoChannels : twoChannels.Ready queueEngine where
  slots := by decide
  dma := by decide
  live := by decide
  queue := rfl
  waiting := rfl
  returned := rfl

/-- A call of `axidma_read_transfer` or `axidma_write_transfer`. -/
def oneway : AxidmaDir → Transaction → PrepAnswers → DmaAction
  | .read => .read
  | .write => .write

variable (E) in
/-- The call waits for one of several transfers of a channel, and they all have its completion.
They are complete, but none of them has been called back. -/
structure Behind (s : AxidmaDevice ε) (x : Waiting) : Prop where
  waiting : s.waiting = some x
  queue : 2 ≤ (E.queue s.engine).countP (·.channelId = x.channelId)
  complete : ∀ d ∈ E.queue s.engine, d.channelId = x.channelId →
    E.isTxComplete x.channelId d.cookie s.engine = true
  comp : ∀ d ∈ E.queue s.engine, d.channelId = x.channelId →
    ∃ cb, s.cbData[d.callbackParam]? = some cb ∧ cb.comp = some x.call
  cookie : E.isTxComplete x.channelId x.cookie s.engine = true

variable {x : Waiting}

/-- While there are such transfers, one of them is called back next. -/
theorem next_callback (hE : E.Documented) (hlags : E.Lags) (channelId : BitVec 32) {e : ε}
    (hsome : 0 < (E.queue e).countP (·.channelId = channelId))
    (hcomplete : ∀ d ∈ E.queue e, d.channelId = channelId →
      E.isTxComplete channelId d.cookie e = true) :
    ∃ d e', E.callBack channelId e = some (d, e') ∧ d ∈ E.queue e ∧ d.channelId = channelId ∧
      E.queue e' = (E.queue e).erase d ∧
      ∀ channelId k, E.isTxComplete channelId k e = true →
        E.isTxComplete channelId k e' = true := by
  obtain ⟨y, hy, hchannel⟩ := List.countP_pos_iff.mp hsome
  obtain ⟨d, e', hcall, hqueue⟩ :=
    hlags.callBack ⟨y, hy, of_decide_eq_true hchannel⟩ hcomplete
  obtain ⟨hchan, ⟨before, behind, hsplit, _⟩, hmono, _⟩ := hE.callBack hcall
  have hmem : d ∈ E.queue e := hsplit ▸ List.mem_append_right _ (List.mem_cons_self ..)
  exact ⟨d, e', hcall, hmem, hchan, hqueue, hmono⟩

/-- The first callback wakes the call, which finds its transfer complete and returns; the
second one comes too late. -/
theorem Behind.stuck (hE : E.Documented) (hlags : E.Lags) (h : s.Behind E x) :
    ∃ t d e', Runs.run (step E) s [.callback x.channelId, .wake] = some t ∧ t.waiting = none ∧
      t.returned = s.returned ++ [⟨x.channelId, x.cookie, 0⟩] ∧
      E.callBack x.channelId t.engine = some (d, e') ∧
      (t.cbData[d.callbackParam]?).bind CbData.comp = some x.call ∧
      t.step E (.callback x.channelId) = none := by
  have hqueue := h.queue
  obtain ⟨d, e₁, hcall, hd, hchannel, hrest, hmono⟩ :=
    next_callback hE hlags x.channelId (by omega) h.complete
  obtain ⟨cb, hcb, hcomp⟩ := h.comp d hd hchannel
  have hcompleted := hmono _ _ h.cookie
  -- the call is gone, but not the transfer
  have hleft : ∀ {y}, y ∈ E.queue e₁ → y ∈ E.queue s.engine := fun hy =>
    List.mem_of_mem_erase (hrest ▸ hy)
  obtain ⟨d', e₂, hcall', hd', hchannel', _, _⟩ := next_callback hE hlags x.channelId
    (e := e₁)
    (by rw [hrest, List.countP_erase]; split <;> omega)
    (fun y hy hsame => hmono _ _ (h.complete y (hleft hy) hsame))
  obtain ⟨cb', hcb', hcomp'⟩ := h.comp d' (hleft hd') hchannel'
  have hbind : (s.cbData[d'.callbackParam]?).bind CbData.comp = some x.call := by
    rw [hcb', Option.bind_some, hcomp']
  refine ⟨{ s with engine := e₁ }.settle x 0, d', e₂, ?_, rfl, rfl, hcall', hbind, ?_⟩
  · refine Runs.run_cons_eq_some.mpr ⟨{ s with
      engine := e₁
      waiting := some { x with woken := true } }, ?_, Runs.run_cons_eq_some.mpr ⟨_, ?_, rfl⟩⟩
    · rw [step, hcall]
      simp only [hcb, Option.bind_some, axidmaDmaCallback, hcomp, Dma.complete,
        h.waiting, if_true]
    · exact congrArg some (if_pos hcompleted)
  · rw [step]
    simp only [settle, hcall', hcb', Option.bind_some, axidmaDmaCallback, hcomp', Dma.complete]

/-- Runs of the engine alone. -/
theorem run_work (channelId : BitVec 32) (n : Nat) : ∀ s : AxidmaDevice ε,
    Runs.run (step E) s (List.replicate n (.work channelId))
      = some { s with engine := (E.work channelId)^[n] s.engine } := by
  induction n with
  | zero => exact fun _ => rfl
  | succ n ih =>
      intro s
      rw [List.replicate_succ, Runs.run, step, Option.bind_some, ih, Function.iterate_succ_apply]

/-- A call that waits has its descriptor behind what has been in the queue, and the data for the
callbacks of the channel is its own. -/
theorem onewayTransfer_waits (hE : E.Documented) (h : s.Inv E none) (hwaiting : s.waiting = none)
    {dir : AxidmaDir} {request : Transaction} {answers : PrepAnswers} {s₁ : AxidmaDevice ε}
    (hstep : onewayTransfer E dir request answers s = some s₁) (hx : s₁.waiting = some x) :
    x.channelId = request.channelId ∧ x.call = s.calls ∧ s₁.returned = s.returned ∧
      ∃ e d, E.queue e = E.queue s.engine ++ [d] ∧ d.channelId = x.channelId ∧
        d.cookie = x.cookie ∧ s₁.engine = E.issuePending x.channelId e ∧
        ∀ y ∈ E.queue e, y.channelId = x.channelId →
          ∃ cb, s₁.cbData[y.callbackParam]? = some cb ∧ cb.comp = some x.call := by
  rcases onewayTransfer_cases h dir request answers with
    hsame | ⟨chan, entry, result, hchan, hid, hprep, heq⟩
  · rw [hsame] at hstep
    cases hstep
    rw [hwaiting] at hx
    cases hx
  · rw [heq] at hstep
    cases hprep with
    | unprepared =>
        cases hstep
        have hnone : some x = none := hx.symm.trans hwaiting
        cases hnone
    | refused =>
        cases hstep
        have hnone : some x = none := hx.symm.trans hwaiting
        cases hnone
    | ready cookie engine hsubmit =>
        cases hstep
        generalize htfr : s.transfer chan request.channelId request.wait entry none = tfr at *
        have hcall : tfr.comp = s.calls := by rw [← htfr]; rfl
        have hsame : tfr.channelId = chan.channelId := by rw [← htfr]; exact hid
        have hslot : tfr.channelId.toNat < s.cbData.length := hsame ▸ h.slots chan hchan
        cases hwait : tfr.wait with
        | false =>
            have hnone : some x = none := by
              rw [← hx]
              simp only [started, axidmaStartTransfer, hwait]
              exact hwaiting
            cases hnone
        | true =>
            simp only [started, axidmaStartTransfer, hwait, if_true] at hx ⊢
            cases hx
            obtain ⟨hqueue, _, _⟩ := hE.submit hsubmit
            refine ⟨hid.symm, hcall, rfl, engine, _, hqueue, rfl, rfl, rfl, fun y hy hchannel => ?_⟩
            refine ⟨tfr.callbackData, ?_, by rw [AxidmaTransfer.callbackData, if_pos hwait]⟩
            have hparam : y.callbackParam = tfr.channelId.toNat := by
              rw [hqueue] at hy
              rcases List.mem_append.mp hy with hy | hy
              · rw [(h.param y hy).1, hsame]
                exact congrArg BitVec.toNat hchannel
              · rw [List.mem_singleton.mp hy]
            rw [hparam]
            exact List.getElem?_set_self hslot

/-- **The discipline is needed**: where a call waits for a transfer on a channel that is not
idle, an engine that is late with its callbacks can go on so that the first one wakes the call,
the call returns 0, and the next one completes what belongs to the call that has returned. -/
theorem overtaken (hE : E.Documented) (hlags : E.Lags) {s' s₁ : AxidmaDevice ε} (h : s.Ready E)
    {actions : List DmaAction} (horderly : Runs.Obeys (step E) (Orderly E) s actions)
    (hrun : Runs.run (step E) s actions = some s') (hwaiting : s'.waiting = none)
    (dir : AxidmaDir) (request : Transaction) (answers : PrepAnswers)
    (hbusy : ¬ s'.Idle E request.channelId)
    (hstep : s'.step E (oneway dir request answers) = some s₁) (hx : s₁.waiting = some x) :
    ∃ n t d e', Runs.run (step E) s₁ (List.replicate n (.work request.channelId) ++
        [.callback request.channelId, .wake]) = some t ∧ t.waiting = none ∧
      t.returned = s'.returned ++ [⟨request.channelId, x.cookie, 0⟩] ∧
      E.callBack request.channelId t.engine = some (d, e') ∧
      (t.cbData[d.callbackParam]?).bind CbData.comp = some x.call ∧
      t.step E (.callback request.channelId) = none := by
  obtain ⟨t, ht, hok⟩ := Runs.run_of_obeys (fun _ _ hok ha => step_ok hE hok ha) h.ok horderly
  rw [hrun] at ht
  cases ht
  rw [Ok, hwaiting] at hok
  have honeway : onewayTransfer E dir request answers s' = some s₁ := by
    rw [← hstep]
    cases dir with
    | read => exact (if_pos (Option.isNone_iff_eq_none.mpr hwaiting)).symm
    | write => exact (if_pos (Option.isNone_iff_eq_none.mpr hwaiting)).symm
  obtain ⟨hchannel, _, hreturned, e, d, hqueue, hd, hcookie, hengine, hcomp⟩ :=
    onewayTransfer_waits hE hok hwaiting honeway hx
  obtain ⟨n, hsame, hcomplete⟩ := hlags.work x.channelId e
  rw [← hengine] at hsame hcomplete
  have hmem : d ∈ E.queue e := hqueue ▸ List.mem_append_right _ (List.mem_singleton_self d)
  have hbehind : { s₁ with engine := (E.work x.channelId)^[n] s₁.engine }.Behind E x := by
    refine ⟨hx, ?_, ?_, ?_, hcookie ▸ hcomplete d hmem hd⟩
    · obtain ⟨y, hy, hbefore⟩ : ∃ y ∈ E.queue s'.engine, y.channelId = x.channelId := by
        simpa [Idle, hchannel] using hbusy
      have hpos : 0 < (E.queue s'.engine).countP (·.channelId = x.channelId) :=
        List.countP_pos_iff.mpr ⟨y, hy, decide_eq_true hbefore⟩
      have hlast : [d].countP (·.channelId = x.channelId) = 1 :=
        List.countP_cons_of_pos (decide_eq_true hd)
      show 2 ≤ (E.queue ((E.work x.channelId)^[n] s₁.engine)).countP _
      rw [hsame, hqueue, List.countP_append]
      omega
    · show ∀ y ∈ E.queue ((E.work x.channelId)^[n] s₁.engine), _
      rw [hsame]
      exact hcomplete
    · show ∀ y ∈ E.queue ((E.work x.channelId)^[n] s₁.engine), _
      rw [hsame]
      exact hcomp
  obtain ⟨t, d', e', hrun', hgone, hresult, hcall, hdead, hstuck⟩ := hbehind.stuck hE hlags
  rw [← hchannel]
  refine ⟨n, t, d', e', ?_, hgone, ?_, hcall, hdead, hstuck⟩
  · rw [Runs.run_append_of_run (run_work x.channelId n s₁)]
    exact hrun'
  · rw [hresult]
    exact congrArg (· ++ _) hreturned

/-- So is its last condition: where the time is up between the completion of the transfer and its
callback, which the engine still makes when the channel has been terminated, the callback finds
that the call has returned. -/
theorem late_timeout (hwaiting : s.waiting = some x) (hwoken : x.woken = false) {d : Submitted}
    {e' : ε} (hcall : E.callBack x.channelId (E.terminateAll x.channelId s.engine) = some (d, e'))
    {cb : CbData} (hcb : s.cbData[d.callbackParam]? = some cb) (hcomp : cb.comp.isSome) :
    Runs.run (step E) s [.timeout, .callback x.channelId] = none := by
  obtain ⟨call, hcomp⟩ := Option.isSome_iff_exists.mp hcomp
  have hgone : s.step E .timeout = some (startTransferTimedOut E x s) := by
    rw [step, hwaiting]
    simp only [hwoken, Bool.false_eq_true, if_false]
  have hlast : (startTransferTimedOut E x s).step E (.callback x.channelId) = none := by
    rw [step]
    simp only [startTransferTimedOut, settle, terminateAll, hcall, hcb, Option.bind_some,
      axidmaDmaCallback, hcomp, Dma.complete]
  rw [Runs.run, hgone, Option.bind_some, Runs.run, hlast, Option.bind_none]

/-- A transfer out that nobody waits for. -/
def oneTransfer : List DmaAction := [.write ⟨false, 0, 0x1000, 16⟩ granted]

theorem orderly_oneTransfer :
    Runs.Obeys (step queueEngine) (Orderly queueEngine) twoChannels oneTransfer :=
  ⟨fun hwait => (Bool.false_ne_true hwait).elim, fun _ _ => trivial⟩

/-- A call waits for the second of two transfers out. -/
theorem overtaken_write :
    ∃ s₁ n t, Runs.run (step queueEngine) twoChannels
        (oneTransfer ++ [.write ⟨true, 0, 0x1010, 16⟩ granted]) = some s₁ ∧
      Runs.run (step queueEngine) s₁ (List.replicate n (.work 0) ++ [.callback 0, .wake])
        = some t ∧
      t.waiting = none ∧ t.returned = [⟨0, 1, 0⟩] ∧ t.step queueEngine (.callback 0) = none := by
  obtain ⟨s', hrun⟩ : ∃ s', Runs.run (step queueEngine) twoChannels oneTransfer = some s' :=
    ⟨_, rfl⟩
  have hs' := hrun
  cases hs'
  obtain ⟨n, t, _, _, hrun', hgone, hresult, _, _, hstuck⟩ :=
    overtaken documented_queueEngine lags_queueEngine ready_twoChannels orderly_oneTransfer hrun
      rfl .write ⟨true, 0, 0x1010, 16⟩ granted
      (fun hidle => hidle _ (List.mem_singleton_self _) rfl) rfl rfl
  exact ⟨_, n, t, rfl, hrun', hgone, hresult, hstuck⟩

end AxidmaDevice

end Caeco.Dma
