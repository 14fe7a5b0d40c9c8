import Caeco.Mqtt.Delivery
import Caeco.Mqtt.PacketId
import Caeco.Mqtt.Protocol

/-!
# The client

The functions of the MQTT client over its queue of messages: the calls of the application,
the switch of `__mqtt_recv`, and `__mqtt_send`, which goes through the queue and sends what
is due. A packet may go out in several portions; `send_offset` says how much of one is gone.
-/

namespace Caeco.Mqtt

open Client (ResponsePublish)
open Protocol (publishId)

/-! ## `mqtt_pal_sendall` -/

/-- What a `send` on the non-blocking socket comes upon. -/
inductive Sending where
  /-- so many bytes are taken, or all there are -/
  | accepted (n : Nat)
  /-- `EAGAIN` -/
  | again
  | failed
deriving Repr, DecidableEq

/-- What the loop of `mqtt_pal_sendall` comes to: how much has gone, whether `send` has failed, and
what the socket has still in store. -/
structure Sendall where
  sent : Nat
  failed : Bool
  sendings : List Sending
deriving Repr, DecidableEq

/-- The loop of `mqtt_pal_sendall`. -/
def sendLoop : List Sending → Nat → Sendall
  | sendings, 0 => ⟨0, false, sendings⟩
  | [], _ + 1 => ⟨0, false, []⟩
  | .again :: sendings, _ + 1 => ⟨0, false, sendings⟩
  | .failed :: sendings, _ + 1 => ⟨0, true, sendings⟩
  | .accepted n :: sendings, len + 1 =>
      -- `send` returns 0
      if n = 0 then ⟨0, true, sendings⟩
      else
        let r := sendLoop sendings (len + 1 - n)
        { r with sent := min n (len + 1) + r.sent }

/-- An error is returned only if nothing was sent before it. -/
def mqttPalSendall (sendings : List Sending) (buf : List UInt8) :
    Except Error Nat × List Sending :=
  let r := sendLoop sendings buf.length
  if r.sent = 0 ∧ r.failed then (.error .socketError, r.sendings) else (.ok r.sent, r.sendings)

/-! ## The client -/

/-- What the client finds outside: the readings of its clock, what is in the memory that a
new record takes, and the application's callback. -/
structure Platform (α : Type) where
  time : Nat → Nat
  leftover : Nat → QueuedMessage
  publishResponseCallback : α → ResponsePublish → α

/-- `struct mqtt_client` but for its receive buffer; no error is `MQTT_OK`. The mutex is
`locked` if somebody holds it although no call is under way. Then what is outside: the socket,
the bytes written to it, and how often the clock has been read and a record been made. -/
structure MqttClient (α : Type) where
  error : Option Error
  locked : Bool
  pidLfsr : BitVec 16
  keepAlive : BitVec 16
  sendOffset : Nat
  timeOfLastSend : Nat
  responseTimeout : Nat
  numberOfTimeouts : Nat
  publishResponseCallbackState : α
  mq : MessageQueue
  sendings : List Sending
  wire : List UInt8
  readings : Nat
  records : Nat
deriving Repr, DecidableEq

/-- `mqtt_init`. It leaves `keep_alive` and `time_of_last_send` as they are, and it returns
with the mutex locked: `mqtt_connect` unlocks it. -/
def mqttInit {α : Type} (keepAlive : BitVec 16) (timeOfLastSend : Nat) (state : α)
    (sendbuf : List UInt8) (sizeofMessage : Nat) : MqttClient α where
  error := some .connectNotCalled
  locked := true
  pidLfsr := 0
  keepAlive := keepAlive
  sendOffset := 0
  timeOfLastSend := timeOfLastSend
  responseTimeout := 30
  numberOfTimeouts := 0
  publishResponseCallbackState := state
  mq := .init sendbuf sizeofMessage
  sendings := []
  wire := []
  readings := 0
  records := 0

namespace MqttClient

variable {α : Type} (P : Platform α)

/-- `MQTT_PAL_TIME` -/
def readTime (c : MqttClient α) : Nat × MqttClient α :=
  (P.time c.readings, { c with readings := c.readings + 1 })

/-- An error is left in the client and returned. -/
def fail (c : MqttClient α) (e : Error) : Option Error × MqttClient α :=
  (some e, { c with error := some e })

/-! ### Queueing -/

/-- `mqtt_mq_register`, and what the caller then saves in the record. -/
def register (c : MqttClient α) (bytes : List UInt8) (controlType : ControlPacketType)
    (packetId : Option (BitVec 16)) : MqttClient α :=
  let leftover := P.leftover c.records
  let leftover := { leftover with
    controlType := controlType, packetId := packetId.getD leftover.packetId }
  { c with
    mq := (c.mq.write bytes).register leftover bytes.length
    records := c.records + 1 }

/-- `MQTT_CLIENT_TRY_PACK`. Where a packet does not fit, the queue is cleaned and the packet
packed again. -/
def tryPack (c : MqttClient α) (r : Request) (controlType : ControlPacketType)
    (packetId : Option (BitVec 16)) : Option Error × MqttClient α :=
  match c.error with
  | some e => (some e, c)
  | none =>
      match r.pack c.mq.currSz with
      | .error e => c.fail e
      | .ok (some bytes) => (none, c.register P bytes controlType packetId)
      | .ok none =>
          let c := { c with mq := c.mq.clean }
          match r.pack c.mq.currSz with
          | .error e => c.fail e
          | .ok none => c.fail .sendBufferIsFull
          | .ok (some bytes) => (none, c.register P bytes controlType packetId)

/-- `__mqtt_next_pid`; without a free number it never returns. -/
def nextPid (c : MqttClient α) : Option (BitVec 16 × MqttClient α) :=
  (mqttNextPid c.pidLfsr (c.mq.messages.map QueuedMessage.packetId)).map fun id =>
    (id, { c with pidLfsr := id })

/-- `mqtt_connect` takes it that the mutex is locked, and unlocks it on every way out. -/
def mqttConnect (c : MqttClient α) (r : ConnectRequest) : Option Error × MqttClient α :=
  let c := { c with keepAlive := r.keepAlive }
  let c := if c.error = some .connectNotCalled then { c with error := none } else c
  let (result, c) := c.tryPack P (.connect r) .connect none
  (result, { c with locked := false })

def mqttPublish (c : MqttClient α) (topicName applicationMessage : List UInt8)
    (publishFlags : UInt8) : Option (Option Error × MqttClient α) :=
  c.nextPid.map fun (id, c) =>
    c.tryPack P (.publish topicName id applicationMessage publishFlags) .publish (some id)

def mqttSubscribe (c : MqttClient α) (topicName : List UInt8) (maxQosLevel : UInt8) :
    Option (Option Error × MqttClient α) :=
  c.nextPid.map fun (id, c) =>
    c.tryPack P (.subscribe id [(topicName, maxQosLevel)]) .subscribe (some id)

def mqttUnsubscribe (c : MqttClient α) (topicName : List UInt8) :
    Option (Option Error × MqttClient α) :=
  c.nextPid.map fun (id, c) => c.tryPack P (.unsubscribe id [topicName]) .unsubscribe (some id)

def mqttPing (c : MqttClient α) : Option Error × MqttClient α :=
  c.tryPack P .pingreq .pingreq none

def mqttDisconnect (c : MqttClient α) : Option Error × MqttClient α :=
  c.tryPack P .disconnect .disconnect none

/-- The four that answer the broker. -/
def mqttPubxxx (controlType : ControlPacketType) (c : MqttClient α) (packetId : BitVec 16) :
    Option Error × MqttClient α :=
  c.tryPack P (.pubxxx controlType packetId) controlType (some packetId)

def mqttPuback : MqttClient α → BitVec 16 → Option Error × MqttClient α := mqttPubxxx P .puback

def mqttPubrec : MqttClient α → BitVec 16 → Option Error × MqttClient α := mqttPubxxx P .pubrec

def mqttPubrel : MqttClient α → BitVec 16 → Option Error × MqttClient α := mqttPubxxx P .pubrel

def mqttPubcomp : MqttClient α → BitVec 16 → Option Error × MqttClient α :=
  mqttPubxxx P .pubcomp

/-! ### The switch of `__mqtt_recv` -/

/-- A message is released, if it is there. -/
def release (c : MqttClient α) (controlType : ControlPacketType)
    (packetId : Option (BitVec 16)) (next : MqttClient α → Option Error × MqttClient α) :
    Option Error × MqttClient α :=
  match c.mq.find controlType packetId with
  | none => c.fail .ackOfUnknown
  | some i => next { c with mq := c.mq.modify i fun m => { m with state := .complete } }

/-- An answer has been staged, or not. -/
def staged (r : Option Error × MqttClient α)
    (next : MqttClient α → Option Error × MqttClient α) : Option Error × MqttClient α :=
  match r with
  | (some e, c) => c.fail e
  | (none, c) => next c

def ok (c : MqttClient α) : Option Error × MqttClient α := (none, c)

/-- The message goes to `publish_response_callback`. -/
def deliver (p : ResponsePublish) (c : MqttClient α) : Option Error × MqttClient α :=
  (none, { c with publishResponseCallbackState :=
    P.publishResponseCallback c.publishResponseCallbackState p })

/-- The switch. The unpacker has turned down the control types that a broker does not send. -/
def handle (c : MqttClient α) (r : Response) : Option Error × MqttClient α :=
  match r.decoded with
  | .connack _ returnCode =>
      c.release .connect none fun c =>
        if returnCode ≠ 0 then
          if returnCode = 2 then c.fail .connectClientIdRefused else c.fail .connectionRefused
        else c.ok
  | .publish p =>
      if p.qosLevel = 1 then staged (c.mqttPuback P (publishId p)) (deliver P p)
      else if p.qosLevel = 2 then
        if (c.mq.find .pubrec (some (publishId p))).isSome then c.ok
        else staged (c.mqttPubrec P (publishId p)) (deliver P p)
      else c.deliver P p
  | .puback id => c.release .publish (some id) ok
  | .pubrec id =>
      if (c.mq.find .pubrel (some id)).isSome then c.ok
      else c.release .publish (some id) fun c => staged (c.mqttPubrel P id) ok
  | .pubrel id => c.release .pubrec (some id) fun c => staged (c.mqttPubcomp P id) ok
  | .pubcomp id => c.release .pubrel (some id) ok
  | .suback id returnCodes =>
      c.release .subscribe (some id) fun c =>
        if returnCodes.getD 0 0 = 128 then c.fail .subscribeFailed else c.ok
  | .unsuback id => c.release .unsubscribe (some id) ok
  | .pingresp => c.release .pingreq none ok

/-! ### `__mqtt_send` -/

/-- Whether a message is to be sent: it never was, or its time has run out. -/
def due (c : MqttClient α) (msg : QueuedMessage) : Bool × MqttClient α :=
  match msg.state with
  | .unsent => (true, c)
  | .awaitingAck =>
      let (now, c) := c.readTime P
      if now > msg.timeSent + c.responseTimeout then
        (true, { c with numberOfTimeouts := c.numberOfTimeouts + 1, sendOffset := 0 })
      else (false, c)
  | .complete => (false, c)

/-- A PUBLISH message of level 2 that has not been completed. -/
def inflightQos2 (c : MqttClient α) (msg : QueuedMessage) : Bool :=
  msg.controlType = .publish && msg.state ≠ .complete &&
    c.mq.mem.getD msg.start 0 >>> 1 &&& 0x03 = 2

/-- The state in which a message is put once it has been sent. -/
def afterSend (mq : MessageQueue) (i : Nat) (msg : QueuedMessage) : Option MessageQueue :=
  let complete := mq.modify i fun m => { m with state := .complete }
  let awaiting := mq.modify i fun m => { m with state := .awaitingAck }
  match msg.controlType with
  | .puback | .pubcomp | .disconnect => some complete
  | .publish =>
      let inspected := (0x06 &&& mq.mem.getD msg.start 0) >>> 1
      if inspected = 0 then some complete
      -- the DUP flag, for the next time
      else if inspected = 1 then some (awaiting.modifyFirst i fun b => b ||| 0x08)
      else some awaiting
  | .connect | .pubrec | .pubrel | .subscribe | .unsubscribe | .pingreq => some awaiting
  | _ => none

/-- How a turn of the loop ends. -/
inductive Turn (α : Type) where
  | undefined
  | returns (e : Error) (c : MqttClient α)
  | breaks (c : MqttClient α)
  | continues (c : MqttClient α)
deriving Repr, DecidableEq

/-- A message is sent from `send_offset` on. The number of bytes left is computed without a
check. -/
def sendMessage (c : MqttClient α) (i : Nat) (msg : QueuedMessage) : Turn α :=
  if msg.size < c.sendOffset then .undefined
  else
    let rest := (c.mq.mem.drop (msg.start + c.sendOffset)).take (msg.size - c.sendOffset)
    match mqttPalSendall c.sendings rest with
    | (.error e, sendings) => .returns e { c with error := some e, sendings := sendings }
    | (.ok sent, sendings) =>
        let c := { c with
          sendings := sendings
          wire := c.wire ++ rest.take sent
          sendOffset := c.sendOffset + sent }
        -- the rest is for another call
        if c.sendOffset < msg.size then .breaks c
        else
          let (now, c) := c.readTime P
          let c := { c with
            sendOffset := 0
            timeOfLastSend := now
            mq := c.mq.modify i fun m => { m with timeSent := now } }
          match afterSend c.mq i msg with
          | none => .returns .malformedRequest { c with error := some .malformedRequest }
          | some mq => .continues { c with mq := mq }

/-- How the loop over the queue ends. -/
inductive Sent (α : Type) where
  | undefined
  | returned (e : Error) (c : MqttClient α)
  | done (c : MqttClient α)
deriving Repr, DecidableEq

/-- The loop over the queue: `n` messages from the `i`th on. A message of level 2 is only
sent if no earlier one is under way. -/
def sendMessages : Nat → Nat → Bool → MqttClient α → Sent α
  | 0, _, _, c => .done c
  | n + 1, i, inflight, c =>
      match c.mq.messages[i]? with
      | none => .undefined
      | some msg =>
          let (resend, c) := c.due P msg
          let qos2 := c.inflightQos2 msg
          if resend && !(qos2 && inflight) then
            match c.sendMessage P i msg with
            | .undefined => .undefined
            | .returns e c => .returned e c
            | .breaks c => .done c
            | .continues c => sendMessages n (i + 1) (inflight || qos2) c
          else sendMessages n (i + 1) (inflight || qos2) c

/-- The end of `__mqtt_send`: a ping, if nothing has been sent for too long. -/
def keepAlivePing (c : MqttClient α) : Option Error × MqttClient α :=
  let keepAliveTimeout := c.timeOfLastSend + c.keepAlive.toNat
  let (now, c) := c.readTime P
  if now > keepAliveTimeout then staged (c.mqttPing P) ok else c.ok

def Sent.finish : Sent α → Option (Option Error × MqttClient α)
  | .undefined => none
  | .returned e c => some (some e, c)
  | .done c => some (c.keepAlivePing P)

/-- `__mqtt_send`, unless its behaviour is undefined. A full send buffer is no reason not to
send. -/
def mqttSend (c : MqttClient α) : Option (Option Error × MqttClient α) :=
  if c.error = none ∨ c.error = some .sendBufferIsFull then
    (c.sendMessages P c.mq.messages.length 0 false).finish P
  else some (c.error, c)

end MqttClient

/-! ## Sessions -/

/-- The client with its receive buffer, and the packets that it has been handed. -/
abbrev Session (α : Type) := Receiver (MqttClient α × List Packet)

/-- What happens to a session: bytes come in, the socket takes bytes, the client is called.
`mqtt_sync` is the call of `__mqtt_recv` and, if this succeeds, that of `__mqtt_send`: the mutex
is free between the two, and another thread may call. -/
inductive Action where
  | arrive (arrivals : List Arrival)
  | accept (sendings : List Sending)
  | connect (r : ConnectRequest)
  | publish (topicName applicationMessage : List UInt8) (publishFlags : UInt8)
  | subscribe (topicName : List UInt8) (maxQosLevel : UInt8)
  | unsubscribe (topicName : List UInt8)
  | ping
  | disconnect
  | recv
  | send
deriving Repr, DecidableEq

/-- Whether a call comes through when the mutex is, or is not, locked. `mqtt_connect` unlocks a
mutex that has to be locked; all other calls lock it first, and would wait for ever. -/
def Action.callable (locked : Bool) : Action → Bool
  | .arrive _ | .accept _ => true
  | .connect _ => locked
  | .publish .. | .subscribe .. | .unsubscribe _ | .ping | .disconnect | .recv | .send => !locked

namespace Session

variable {α : Type} (P : Platform α)

def withClient (s : Session α) (c : MqttClient α) : Session α :=
  { s with client := (c, s.client.2) }

/-- `__mqtt_recv`. An error goes into `client->error`. -/
def mqttRecv (s : Session α) : Option (Option Error × Session α) :=
  match Mqtt.mqttRecv (logging (MqttClient.handle P)) s with
  | some (.returned (some e) s) => some (some e, withClient s { s.client.1 with error := some e })
  | some (.returned none s) => some (none, s)
  | _ => none

/-- `mqtt_sync`, for a client without an inspector and without a reconnect callback. -/
def mqttSync (s : Session α) : Option (Option Error × Session α) :=
  match mqttRecv P s with
  | some (none, s) => (s.client.1.mqttSend P).map fun (e, c) => (e, withClient s c)
  | result => result

/-- What a call does that finds the mutex as it has to be, from the moment at which it has it
until it gives it back. -/
def call (s : Session α) : Action → Option (Session α)
  | .arrive arrivals => some { s with arrivals := s.arrivals ++ arrivals }
  | .accept sendings =>
      some (withClient s { s.client.1 with sendings := s.client.1.sendings ++ sendings })
  | .connect r => some (withClient s (s.client.1.mqttConnect P r).2)
  | .publish topicName applicationMessage publishFlags =>
      (s.client.1.mqttPublish P topicName applicationMessage publishFlags).map fun r =>
        withClient s r.2
  | .subscribe topicName maxQosLevel =>
      (s.client.1.mqttSubscribe P topicName maxQosLevel).map fun r => withClient s r.2
  | .unsubscribe topicName =>
      (s.client.1.mqttUnsubscribe P topicName).map fun r => withClient s r.2
  | .ping => some (withClient s (s.client.1.mqttPing P).2)
  | .disconnect => some (withClient s (s.client.1.mqttDisconnect P).2)
  | .recv => (mqttRecv P s).map Prod.snd
  | .send => (s.client.1.mqttSend P).map fun r => withClient s r.2

/-- One action. What comes in, what the socket takes and what the application calls for is left
to the environment, but the calls are made one after the other, as the mutex has it (only
`mqtt_unsubscribe` draws its number before it locks). A run ends at undefined behaviour, and
where a call does not return. -/
def step (s : Session α) (a : Action) : Option (Session α) :=
  if a.callable s.client.1.locked then call P s a else none

variable {P} {s s' : Session α} {a : Action}

theorem step_eq_some :
    step P s a = some s' ↔ a.callable s.client.1.locked = true ∧ call P s a = some s' :=
  Option.ite_none_right_eq_some

end Session

end Caeco.Mqtt
