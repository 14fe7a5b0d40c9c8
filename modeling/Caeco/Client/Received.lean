import Caeco.Payload.Stored

/-!
# From the receive buffer to the transmit buffer

The MQTT client parses a PUBLISH packet in place: the response it hands to
`publish_callback` holds pointers into the receive buffer, with sizes beside them. The
callback passes the pointer to the message on to `fill_tx_buffer`, which reads a C string.
-/

namespace Caeco.Client

open Payload Search CInt

/-! ## `mqtt_unpack_publish_response` -/

/-- The part of the fixed header that the unpacker reads; `remainingLength` is a
`uint32_t`. -/
structure FixedHeader where
  controlFlags : UInt8
  remainingLength : Nat
deriving Repr, DecidableEq

/-- `struct mqtt_response_publish`. A pointer into the receive buffer is the memory from
there on; `packetId` is not written for level 0. -/
structure ResponsePublish where
  dupFlag : UInt8
  qosLevel : UInt8
  retainFlag : UInt8
  topicNameSize : Nat
  topicName : List UInt8
  packetId : Option Nat
  applicationMessage : List UInt8
  applicationMessageSize : Nat
deriving Repr, DecidableEq

inductive MqttError where
  | malformedResponse
deriving Repr, DecidableEq

/-- Two bytes in network order. -/
def mqttUnpackUint16 (buf : List UInt8) : Nat :=
  (buf.getD 0 0).toNat * 256 + (buf.getD 1 0).toNat

def mqttPackUint16 (n : Nat) : List UInt8 := [UInt8.ofNat (n / 256), UInt8.ofNat n]

def qosLevel (controlFlags : UInt8) : UInt8 := (controlFlags &&& 0x06) >>> 1

/-- The bytes of the packet identifier. -/
def packetIdSize (qos : UInt8) : Nat := if qos > 0 then 2 else 0

/-- `application_message_size`, a `uint32_t` difference whatever the lengths in the packet
are. -/
def messageSize (fixedHeader : FixedHeader) (qos : UInt8) (topicNameSize : Nat) : Nat :=
  let size : Int :=
    if qos = 0 then (fixedHeader.remainingLength : Int) - topicNameSize - 2
    else (fixedHeader.remainingLength : Int) - topicNameSize - 4
  (size % 2 ^ 32).toNat

/-- The response and the number of bytes consumed. -/
def mqttUnpackPublishResponse (fixedHeader : FixedHeader) (buf : List UInt8) :
    Except MqttError (ResponsePublish × Nat) :=
  let qos := qosLevel fixedHeader.controlFlags
  if fixedHeader.remainingLength < 4 then
    .error .malformedResponse
  else
    -- taken from the packet as it is, whatever its remaining length
    let topicNameSize := mqttUnpackUint16 buf
    let topicName := buf.drop 2
    let rest := topicName.drop topicNameSize
    let size := messageSize fixedHeader qos topicNameSize
    .ok ({ dupFlag := (fixedHeader.controlFlags &&& 0x08) >>> 3
           qosLevel := qos
           retainFlag := fixedHeader.controlFlags &&& 0x01
           topicNameSize := topicNameSize
           topicName := topicName
           packetId := if qos > 0 then some (mqttUnpackUint16 rest) else none
           applicationMessage := rest.drop (packetIdSize qos)
           applicationMessageSize := size },
         2 + topicNameSize + packetIdSize qos + size)

/-! ## The packets the broker sends -/

/-- A well-formed PUBLISH packet. A topic has at most `2 ^ 16 - 1` bytes, and the unpacker
turns down a packet whose remaining length is below 4. -/
structure PublishPacket where
  controlFlags : UInt8
  topicName : List UInt8
  packetId : UInt16
  applicationMessage : List UInt8
  topic_fits : topicName.length < 2 ^ 16
  long_enough :
    4 ≤ 2 + topicName.length + packetIdSize (qosLevel controlFlags) + applicationMessage.length

/-- The fixed header that announces the packet: its flags, and the length of all the rest. -/
def PublishPacket.fixedHeader (p : PublishPacket) : FixedHeader where
  controlFlags := p.controlFlags
  remainingLength := 2 + p.topicName.length + packetIdSize (qosLevel p.controlFlags) +
    p.applicationMessage.length

/-- The packet's bytes up to the message. -/
def PublishPacket.variableHeader (p : PublishPacket) : List UInt8 :=
  mqttPackUint16 p.topicName.length ++ p.topicName ++
    if qosLevel p.controlFlags > 0 then mqttPackUint16 p.packetId.toNat else []

/-- The response for the packet, with `residue` in the receive buffer behind it. -/
def PublishPacket.response (p : PublishPacket) (residue : List UInt8) :
    Except MqttError (ResponsePublish × Nat) :=
  mqttUnpackPublishResponse p.fixedHeader
    (p.variableHeader ++ p.applicationMessage ++ residue)

theorem mqttUnpackUint16_pack {n : Nat} (h : n < 2 ^ 16) (rest : List UInt8) :
    mqttUnpackUint16 (mqttPackUint16 n ++ rest) = n := by
  simp only [mqttUnpackUint16, mqttPackUint16, List.cons_append, List.nil_append,
    List.getD_cons_zero, List.getD_cons_succ, UInt8.toNat_ofNat']
  omega

theorem PublishPacket.drop_variableHeader (p : PublishPacket) (rest : List UInt8) :
    (((p.variableHeader ++ rest).drop 2).drop p.topicName.length).drop
      (packetIdSize (qosLevel p.controlFlags)) = rest := by
  have h2 : (p.variableHeader ++ rest).drop 2 = p.topicName ++
      ((if qosLevel p.controlFlags > 0 then mqttPackUint16 p.packetId.toNat else []) ++ rest) := by
    simp [variableHeader, mqttPackUint16]
  rw [h2, List.drop_left, packetIdSize]
  by_cases h : qosLevel p.controlFlags > 0
  · simp [h, mqttPackUint16]
  · simp [h]

theorem PublishPacket.messageSize_eq (p : PublishPacket)
    (h : p.applicationMessage.length < 2 ^ 32) :
    messageSize p.fixedHeader (qosLevel p.controlFlags) p.topicName.length
      = p.applicationMessage.length := by
  simp only [messageSize, fixedHeader, packetIdSize]
  by_cases hq : qosLevel p.controlFlags = 0
  · have hz : ¬ qosLevel p.controlFlags > 0 := by simp [hq]
    rw [if_pos hq, if_neg hz]
    omega
  · have hz : qosLevel p.controlFlags > 0 := by simpa [UInt8.pos_iff_ne_zero] using hq
    rw [if_neg hq, if_pos hz]
    omega

/-- **The message is a pointer and a size**: a well-formed packet is accepted, and the
memory at the message's pointer goes on with the residue. -/
theorem PublishPacket.response_eq (p : PublishPacket) (residue : List UInt8) :
    ∃ published consumed, p.response residue = .ok (published, consumed) ∧
      published.applicationMessage = p.applicationMessage ++ residue ∧
      (p.applicationMessage.length < 2 ^ 32 →
        published.applicationMessageSize = p.applicationMessage.length ∧
        consumed = p.fixedHeader.remainingLength) := by
  have htopic : mqttUnpackUint16 (p.variableHeader ++ (p.applicationMessage ++ residue))
      = p.topicName.length := by
    simp only [variableHeader, List.append_assoc]
    exact mqttUnpackUint16_pack p.topic_fits _
  have hlong : ¬ p.fixedHeader.remainingLength < 4 := by
    have := p.long_enough
    simp only [fixedHeader]
    omega
  rw [response, mqttUnpackPublishResponse, if_neg hlong, List.append_assoc]
  refine ⟨_, _, rfl, ?_, ?_⟩
  · simp only [htopic]
    exact p.drop_variableHeader _
  · intro hlt
    have hsize := p.messageSize_eq hlt
    simp only [htopic]
    refine ⟨hsize, ?_⟩
    rw [show p.fixedHeader.controlFlags = p.controlFlags from rfl, hsize]
    simp only [fixedHeader]

end Caeco.Client
