import Caeco.Mqtt.Unpack

/-!
# The packets a broker sends

The packets as values that a broker can send, and their bytes. The client's decoder finds
each of them again, whatever follows it in the stream.
-/

namespace Caeco.Mqtt

open Framing
open Client (PublishPacket ResponsePublish mqttPackUint16 mqttUnpackUint16
  mqttUnpackUint16_pack packetIdSize qosLevel)

/-- A packet of the broker. PUBLISH packets with a remaining length below 4 are turned down
by the client, see `PublishPacket`. -/
inductive BrokerPacket where
  | connack (sessionPresent : Bool) (returnCode : Fin 6)
  | publish (p : PublishPacket) (flags : p.controlFlags.toNat < 16)
      (length : p.fixedHeader.remainingLength < 2 ^ 28)
  | puback (packetId : BitVec 16)
  | pubrec (packetId : BitVec 16)
  | pubrel (packetId : BitVec 16)
  | pubcomp (packetId : BitVec 16)
  | suback (packetId : BitVec 16) (returnCodes : List UInt8) (some_code : returnCodes ≠ [])
      (length : 2 + returnCodes.length < 2 ^ 28)
  | unsuback (packetId : BitVec 16)
  | pingresp

namespace BrokerPacket

def header : BrokerPacket → FixedHeader
  | connack .. => ⟨.connack, 0, 2⟩
  | publish p .. => ⟨.publish, p.controlFlags, p.fixedHeader.remainingLength⟩
  | puback _ => ⟨.puback, 0, 2⟩
  | pubrec _ => ⟨.pubrec, 0, 2⟩
  | pubrel _ => ⟨.pubrel, 2, 2⟩
  | pubcomp _ => ⟨.pubcomp, 0, 2⟩
  | suback _ returnCodes .. => ⟨.suback, 0, 2 + returnCodes.length⟩
  | unsuback _ => ⟨.unsuback, 0, 2⟩
  | pingresp => ⟨.pingresp, 0, 0⟩

def body : BrokerPacket → List UInt8
  | connack sessionPresent returnCode =>
      [if sessionPresent then 1 else 0, UInt8.ofNat returnCode]
  | publish p .. => p.variableHeader ++ p.applicationMessage
  | puback packetId | pubrec packetId | pubrel packetId | pubcomp packetId
  | unsuback packetId => mqttPackUint16 packetId.toNat
  | suback packetId returnCodes .. => mqttPackUint16 packetId.toNat ++ returnCodes
  | pingresp => []

def bytes (b : BrokerPacket) : List UInt8 := b.header.bytes ++ b.body

/-- What a PUBLISH packet says. -/
def publishContents (p : PublishPacket) : Publish where
  dupFlag := (p.controlFlags &&& 0x08) >>> 3
  qosLevel := Client.qosLevel p.controlFlags
  retainFlag := p.controlFlags &&& 0x01
  topicName := p.topicName
  packetId := if Client.qosLevel p.controlFlags > 0 then some p.packetId.toNat else none
  applicationMessage := p.applicationMessage

def packet : BrokerPacket → Packet
  | connack sessionPresent returnCode =>
      .connack (if sessionPresent then 1 else 0) (UInt8.ofNat returnCode)
  | publish p .. => .publish (publishContents p)
  | puback packetId => .puback packetId
  | pubrec packetId => .pubrec packetId
  | pubrel packetId => .pubrel packetId
  | pubcomp packetId => .pubcomp packetId
  | suback packetId returnCodes .. => .suback packetId returnCodes
  | unsuback packetId => .unsuback packetId
  | pingresp => .pingresp

theorem header_rules (b : BrokerPacket) : mqttFixedHeaderRuleViolation b.header = none := by
  cases b <;>
    simp [header, mqttFixedHeaderRuleViolation, controlTypeIsValid, requiredFlags,
      maskRequiredFlags]

theorem header_valid (b : BrokerPacket) : b.header.Valid where
  rules := b.header_rules
  flags := by
    cases b with
    | publish p flags length => exact flags
    | _ => simp [header]
  length := by
    cases b with
    | publish p flags length => exact length
    | suback packetId returnCodes some_code length => exact length
    | _ => simp [header]

theorem length_variableHeader (p : PublishPacket) :
    p.variableHeader.length = 2 + p.topicName.length + packetIdSize (qosLevel p.controlFlags) := by
  rw [PublishPacket.variableHeader, packetIdSize]
  by_cases hq : qosLevel p.controlFlags > 0
  · simp only [if_pos hq, List.length_append, mqttPackUint16, List.length_cons, List.length_nil]
  · simp only [if_neg hq, List.length_append, mqttPackUint16, List.length_cons, List.length_nil]

theorem length_body (b : BrokerPacket) : b.body.length = b.header.remainingLength := by
  cases b with
  | publish p flags length =>
      simp only [body, header, PublishPacket.fixedHeader, List.length_append,
        length_variableHeader]
  | suback packetId returnCodes some_code length =>
      simp only [body, header, List.length_append, mqttPackUint16, List.length_cons,
        List.length_nil]
  | _ => rfl

theorem unpackPacketId_pack (packetId : BitVec 16) (rest : List UInt8) :
    unpackPacketId (mqttPackUint16 packetId.toNat ++ rest) = packetId := by
  rw [unpackPacketId, mqttUnpackUint16_pack packetId.isLt, BitVec.ofNat_toNat,
    BitVec.setWidth_eq]

/-- The contents of a PUBLISH packet are read back. -/
theorem bodyView_publishPacket (p : PublishPacket) (flags : p.controlFlags.toNat < 16)
    (length : p.fixedHeader.remainingLength < 2 ^ 28) :
    bodyView (publish p flags length).header
        (unpackBody (publish p flags length).header (publish p flags length).body)
      = .ok (.publish (publishContents p), p.fixedHeader.remainingLength) := by
  have htopic : mqttUnpackUint16 (p.variableHeader ++ p.applicationMessage)
      = p.topicName.length := by
    rw [PublishPacket.variableHeader, List.append_assoc, List.append_assoc]
    exact mqttUnpackUint16_pack p.topic_fits _
  have hlong : ¬ p.fixedHeader.remainingLength < 4 := by
    have := p.long_enough
    simp only [PublishPacket.fixedHeader]
    omega
  have hfits : ¬ p.fixedHeader.remainingLength
      < 2 + p.topicName.length + packetIdSize (qosLevel p.controlFlags) := by
    simp only [PublishPacket.fixedHeader]
    omega
  have hsize := messageSize_cases (h := p.fixedHeader) length (qosLevel p.controlFlags)
    p.topic_fits
  rw [if_neg hfits] at hsize
  have hsizeMessage : Client.messageSize p.fixedHeader (qosLevel p.controlFlags)
      p.topicName.length = p.applicationMessage.length := by
    simp only [PublishPacket.fixedHeader] at hsize ⊢
    omega
  have hname : ((p.variableHeader ++ p.applicationMessage).drop 2).take p.topicName.length
      = p.topicName := by
    rw [PublishPacket.variableHeader, List.append_assoc, List.append_assoc,
      show 2 = (mqttPackUint16 p.topicName.length).length from rfl, List.drop_left,
      List.take_left]
  have hmessage := p.drop_variableHeader p.applicationMessage
  have hid : (if qosLevel p.controlFlags > 0
        then some (mqttUnpackUint16
          (((p.variableHeader ++ p.applicationMessage).drop 2).drop p.topicName.length))
        else none)
      = if qosLevel p.controlFlags > 0 then some p.packetId.toNat else none := by
    by_cases hq : qosLevel p.controlFlags > 0
    · rw [if_pos hq, if_pos hq, PublishPacket.variableHeader, if_pos hq, List.append_assoc,
        List.append_assoc, show 2 = (mqttPackUint16 p.topicName.length).length from rfl,
        List.drop_left, List.drop_left, mqttUnpackUint16_pack p.packetId.toNat_lt]
    · rw [if_neg hq, if_neg hq]
  show bodyView _ (mqttUnpackPublishResponse ⟨.publish, p.controlFlags, _⟩
    (p.variableHeader ++ p.applicationMessage)) = _
  rw [mqttUnpackPublishResponse, Client.mqttUnpackPublishResponse]
  simp only [if_neg hlong, bodyView_publish, htopic]
  simp only [header, if_neg hfits, publishOf, publishContents, hname, hid, hmessage]
  rw [show (⟨p.controlFlags, p.fixedHeader.remainingLength⟩ : Client.FixedHeader)
    = p.fixedHeader from rfl, hsizeMessage, List.take_length]
  rw [Nat.add_comm, ← hsizeMessage, hsize]

theorem bodyView_body (b : BrokerPacket) :
    bodyView b.header (unpackBody b.header b.body) = .ok (b.packet, b.body.length) := by
  cases b with
  | connack sessionPresent returnCode =>
      have hcode : ¬ UInt8.ofNat returnCode > 5 := by
        have hall : ∀ c : Fin 6, ¬ UInt8.ofNat c > 5 := by decide
        exact hall returnCode
      have hflags : ¬ (if sessionPresent then (1 : UInt8) else 0) &&& 0xFE ≠ 0 := by
        cases sessionPresent <;> decide
      simp only [unpackBody, header, body, mqttUnpackConnackResponse, List.getD_cons_zero,
        List.getD_cons_succ, ne_eq, not_true_eq_false, if_false, if_neg hcode, if_neg hflags]
      rfl
  | publish p flags length =>
      rw [bodyView_publishPacket, length_body]
      rfl
  | suback packetId returnCodes some_code length =>
      have hpos : 0 < returnCodes.length := List.length_pos_iff.mpr some_code
      have hcodes : ((mqttPackUint16 packetId.toNat ++ returnCodes).drop 2).take
          returnCodes.length = returnCodes := by
        rw [show 2 = (mqttPackUint16 packetId.toNat).length from rfl, List.drop_left,
          List.take_length]
      rw [length_body]
      simp only [unpackBody, header, body, mqttUnpackSubackResponse, Nat.add_sub_cancel_left,
        if_neg (show ¬ 2 + returnCodes.length < 3 by omega), unpackPacketId_pack, hcodes]
      rfl
  | pingresp => rfl
  | puback packetId | pubrec packetId | pubrel packetId | pubcomp packetId
  | unsuback packetId =>
      have hid := unpackPacketId_pack packetId []
      rw [List.append_nil] at hid
      simp only [unpackBody, header, body, mqttUnpackPubxxxResponse, mqttUnpackUnsubackResponse,
        ne_eq, not_true_eq_false, if_false, hid]
      rfl

/-- **Each packet of the broker is found**, whatever follows it. -/
theorem decode_bytes (b : BrokerPacket) (rest : List UInt8) :
    decode (b.bytes ++ rest) = .done b.packet b.bytes.length := by
  have halone : decode b.bytes = .done b.packet b.bytes.length := by
    rw [decode, view_mqttUnpackResponse, List.take_length, bytes,
      mqttUnpackFixedHeader_bytes b.header_valid (Nat.le_of_eq b.length_body.symm)]
    simp only
    rw [List.drop_left, bodyView_body, List.length_append]
  rw [decode_append rest (by rw [halone]; simp), halone]

end BrokerPacket

end Caeco.Mqtt
