import Mathlib.Data.List.GetD
import Caeco.Client.Received
import Caeco.Mqtt.FixedHeader

/-!
# Responses

The broker's packets are unpacked in place. The unpacker checks that a packet is there as a
whole, but not that the lengths inside a PUBLISH packet stay within it: then the response
reaches beyond the packet, and so does the count of the bytes consumed.
-/

namespace Caeco.Mqtt

open Framing
open Client (ResponsePublish mqttUnpackUint16 packetIdSize qosLevel)

/-! ## The unpackers -/

/-- The union `decoded` of `struct mqtt_response`. A pointer into the receive buffer is the
memory from there on; the return codes of a SUBACK packet come with their number. -/
inductive ResponseBody where
  | connack (sessionPresentFlag returnCode : UInt8)
  | publish (published : ResponsePublish)
  | puback (packetId : BitVec 16)
  | pubrec (packetId : BitVec 16)
  | pubrel (packetId : BitVec 16)
  | pubcomp (packetId : BitVec 16)
  | suback (packetId : BitVec 16) (returnCodes : List UInt8)
  | unsuback (packetId : BitVec 16)
  | pingresp
deriving Repr, DecidableEq

/-- `struct mqtt_response`: the fixed header and the rest by type. -/
structure Response where
  fixedHeader : FixedHeader
  decoded : ResponseBody
deriving Repr, DecidableEq

def unpackPacketId (buf : List UInt8) : BitVec 16 := BitVec.ofNat 16 (mqttUnpackUint16 buf)

def mqttUnpackConnackResponse (h : FixedHeader) (buf : List UInt8) :
    Except Error (ResponseBody × Nat) :=
  if h.remainingLength ≠ 2 then .error .malformedResponse
  else if buf.getD 0 0 &&& 0xFE ≠ 0 then .error .connackForbiddenFlags
  else if buf.getD 1 0 > 5 then .error .connackForbiddenCode
  else .ok (.connack (buf.getD 0 0) (buf.getD 1 0), 2)

def mqttUnpackPublishResponse (h : FixedHeader) (buf : List UInt8) :
    Except Error (ResponseBody × Nat) :=
  match Client.mqttUnpackPublishResponse ⟨h.controlFlags, h.remainingLength⟩ buf with
  | .error .malformedResponse => .error .malformedResponse
  | .ok (published, n) => .ok (.publish published, n)

/-- The four acknowledgements of PUBLISH packets have one layout. -/
def mqttUnpackPubxxxResponse (h : FixedHeader) (buf : List UInt8) :
    Except Error (ResponseBody × Nat) :=
  if h.remainingLength ≠ 2 then .error .malformedResponse
  else
    let packetId := unpackPacketId buf
    let body : ResponseBody :=
      match h.controlType with
      | .puback => .puback packetId
      | .pubrec => .pubrec packetId
      | .pubrel => .pubrel packetId
      | _ => .pubcomp packetId
    .ok (body, 2)

def mqttUnpackSubackResponse (h : FixedHeader) (buf : List UInt8) :
    Except Error (ResponseBody × Nat) :=
  if h.remainingLength < 3 then .error .malformedResponse
  else
    let returnCodes := (buf.drop 2).take (h.remainingLength - 2)
    .ok (.suback (unpackPacketId buf) returnCodes, 2 + (h.remainingLength - 2))

def mqttUnpackUnsubackResponse (h : FixedHeader) (buf : List UInt8) :
    Except Error (ResponseBody × Nat) :=
  if h.remainingLength ≠ 2 then .error .malformedResponse
  else .ok (.unsuback (unpackPacketId buf), 2)

/-- What follows the header, by its control type. The remaining length of a PINGRESP packet
is not looked at. -/
def unpackBody (h : FixedHeader) (buf : List UInt8) : Except Error (ResponseBody × Nat) :=
  match h.controlType with
  | .connack => mqttUnpackConnackResponse h buf
  | .publish => mqttUnpackPublishResponse h buf
  | .puback | .pubrec | .pubrel | .pubcomp => mqttUnpackPubxxxResponse h buf
  | .suback => mqttUnpackSubackResponse h buf
  | .unsuback => mqttUnpackUnsubackResponse h buf
  | .pingresp => .ok (.pingresp, 0)
  | _ => .error .responseInvalidControlType

/-- The packet at the front of a buffer whose first `bufsz` bytes have been received. -/
def mqttUnpackResponse (mem : List UInt8) (bufsz : Nat) : Decoded Error Response :=
  match mqttUnpackFixedHeader (mem.take bufsz) with
  | .incomplete => .incomplete
  | .failed e => .failed e
  | .done h n =>
      match unpackBody h (mem.drop n) with
      | .error e => .failed e
      | .ok (body, k) => .done ⟨h, body⟩ (n + k)

/-! ## What a response says -/

/-- A PUBLISH packet by its contents. -/
structure Publish where
  dupFlag : UInt8
  qosLevel : UInt8
  retainFlag : UInt8
  topicName : List UInt8
  packetId : Option Nat
  applicationMessage : List UInt8
deriving Repr, DecidableEq

/-- A packet of a broker, by its contents. -/
inductive Packet where
  | connack (sessionPresentFlag returnCode : UInt8)
  | publish (p : Publish)
  | puback (packetId : BitVec 16)
  | pubrec (packetId : BitVec 16)
  | pubrel (packetId : BitVec 16)
  | pubcomp (packetId : BitVec 16)
  | suback (packetId : BitVec 16) (returnCodes : List UInt8)
  | unsuback (packetId : BitVec 16)
  | pingresp
deriving Repr, DecidableEq

def publishOf (p : ResponsePublish) : Publish where
  dupFlag := p.dupFlag
  qosLevel := p.qosLevel
  retainFlag := p.retainFlag
  topicName := p.topicName.take p.topicNameSize
  packetId := p.packetId
  applicationMessage := p.applicationMessage.take p.applicationMessageSize

def ResponseBody.packet : ResponseBody → Packet
  | connack sessionPresentFlag returnCode => .connack sessionPresentFlag returnCode
  | publish published => .publish (publishOf published)
  | puback packetId => .puback packetId
  | pubrec packetId => .pubrec packetId
  | pubrel packetId => .pubrel packetId
  | pubcomp packetId => .pubcomp packetId
  | suback packetId returnCodes => .suback packetId returnCodes
  | unsuback packetId => .unsuback packetId
  | pingresp => .pingresp

/-- The lengths in a PUBLISH packet add up to more than the packet has. -/
def Overrun (h : FixedHeader) : ResponseBody → Prop
  | .publish p => h.remainingLength < 2 + p.topicNameSize + packetIdSize p.qosLevel
  | _ => False

instance (h : FixedHeader) : ∀ b, Decidable (Overrun h b)
  | .publish p =>
      inferInstanceAs (Decidable
        (h.remainingLength < 2 + p.topicNameSize + packetIdSize p.qosLevel))
  | .connack .. | .puback _ | .pubrec _ | .pubrel _ | .pubcomp _ | .suback .. | .unsuback _
  | .pingresp => isFalse id

/-- Why nothing can be made of the bytes at the front of the receive buffer. -/
inductive Fault where
  | error (e : Error)
  /-- undefined behaviour -/
  | overrun
deriving Repr, DecidableEq

/-- A response by its contents. -/
def view : Decoded Error Response → Decoded Fault Packet
  | .incomplete => .incomplete
  | .failed e => .failed (.error e)
  | .done r n => if Overrun r.fixedHeader r.decoded then .failed .overrun
      else .done r.decoded.packet n

/-! ## The bytes behind a packet -/

/-- A body by its contents. -/
def bodyView (h : FixedHeader) :
    Except Error (ResponseBody × Nat) → Except Fault (Packet × Nat)
  | .error e => .error (.error e)
  | .ok (body, n) => if Overrun h body then .error .overrun else .ok (body.packet, n)

theorem bodyView_publish (h : FixedHeader) (p : ResponsePublish) (n : Nat) :
    bodyView h (.ok (.publish p, n))
      = if h.remainingLength < 2 + p.topicNameSize + packetIdSize p.qosLevel
        then .error .overrun else .ok (.publish (publishOf p), n) := rfl

theorem view_mqttUnpackResponse (mem : List UInt8) (bufsz : Nat) :
    view (mqttUnpackResponse mem bufsz)
      = match mqttUnpackFixedHeader (mem.take bufsz) with
        | .incomplete => .incomplete
        | .failed e => .failed (.error e)
        | .done h n =>
            match bodyView h (unpackBody h (mem.drop n)) with
            | .error e => .failed e
            | .ok (p, k) => .done p (n + k) := by
  rw [mqttUnpackResponse]
  cases mqttUnpackFixedHeader (mem.take bufsz) with
  | incomplete => rfl
  | failed e => rfl
  | done h n =>
      simp only
      cases unpackBody h (mem.drop n) with
      | error e => rfl
      | ok r =>
          obtain ⟨body, k⟩ := r
          simp only [view, bodyView]
          by_cases hover : Overrun h body
          · rw [if_pos hover, if_pos hover]
          · rw [if_neg hover, if_neg hover]

theorem mqttUnpackUint16_append {core : List UInt8} (h : 2 ≤ core.length) (rest : List UInt8) :
    mqttUnpackUint16 (core ++ rest) = mqttUnpackUint16 core := by
  rw [mqttUnpackUint16, mqttUnpackUint16, List.getD_append _ _ _ _ (by omega),
    List.getD_append _ _ _ _ (by omega)]

theorem packetIdSize_cases (qos : UInt8) :
    (qos = 0 ∧ ¬ qos > 0 ∧ packetIdSize qos = 0) ∨
      (qos ≠ 0 ∧ qos > 0 ∧ packetIdSize qos = 2) := by
  by_cases hq : qos > 0
  · exact .inr ⟨UInt8.pos_iff_ne_zero.mp hq, hq, if_pos hq⟩
  · have hz : qos = 0 := by simpa [UInt8.pos_iff_ne_zero] using hq
    exact .inl ⟨hz, hq, if_neg hq⟩

/-- The size of the message, if the lengths in the packet fit, and if they do not. -/
theorem messageSize_cases {h : Client.FixedHeader} (hlength : h.remainingLength < 2 ^ 28)
    (qos : UInt8) {topicNameSize : Nat} (htopic : topicNameSize < 2 ^ 16) :
    Client.messageSize h qos topicNameSize + (2 + topicNameSize + packetIdSize qos)
      = if h.remainingLength < 2 + topicNameSize + packetIdSize qos
        then h.remainingLength + 2 ^ 32 else h.remainingLength := by
  rcases packetIdSize_cases qos with ⟨hz, _, hsize⟩ | ⟨hz, _, hsize⟩
  · simp only [Client.messageSize, if_pos hz, hsize]
    split <;> omega
  · simp only [Client.messageSize, if_neg hz, hsize]
    split <;> omega

theorem mqttUnpackUint16_lt (buf : List UInt8) : mqttUnpackUint16 buf < 2 ^ 16 := by
  have h0 := (buf.getD 0 0).toNat_lt
  have h1 := (buf.getD 1 0).toNat_lt
  rw [mqttUnpackUint16]
  omega

/-- What is read from a PUBLISH packet whose lengths fit lies within it. -/
theorem bodyView_publish_append {h : FixedHeader} {core : List UInt8}
    (hlength : h.remainingLength < 2 ^ 28) (hcore : h.remainingLength ≤ core.length)
    (rest : List UInt8) :
    bodyView h (mqttUnpackPublishResponse h (core ++ rest))
      = bodyView h (mqttUnpackPublishResponse h core) := by
  rw [mqttUnpackPublishResponse, mqttUnpackPublishResponse, Client.mqttUnpackPublishResponse,
    Client.mqttUnpackPublishResponse]
  simp only
  by_cases hshort : h.remainingLength < 4
  · rw [if_pos hshort, if_pos hshort]
  · rw [if_neg hshort, if_neg hshort]
    simp only [bodyView_publish, mqttUnpackUint16_append (show 2 ≤ core.length by omega) rest]
    by_cases hover : h.remainingLength
        < 2 + mqttUnpackUint16 core + packetIdSize (qosLevel h.controlFlags)
    · rw [if_pos hover, if_pos hover]
    · have hsize := messageSize_cases (h := ⟨h.controlFlags, h.remainingLength⟩) hlength
        (qosLevel h.controlFlags) (mqttUnpackUint16_lt core)
      rw [if_neg hover] at hsize
      have htopic : ((core ++ rest).drop 2).take (mqttUnpackUint16 core)
          = (core.drop 2).take (mqttUnpackUint16 core) := by
        rw [List.drop_append_of_le_length (by omega),
          List.take_append_of_le_length (by rw [List.length_drop]; omega)]
      have hafter : ((core ++ rest).drop 2).drop (mqttUnpackUint16 core)
          = (core.drop 2).drop (mqttUnpackUint16 core) ++ rest := by
        rw [List.drop_append_of_le_length (by omega),
          List.drop_append_of_le_length (by rw [List.length_drop]; omega)]
      have hlen : ((core.drop 2).drop (mqttUnpackUint16 core)).length
          = core.length - 2 - mqttUnpackUint16 core := by
        rw [List.length_drop, List.length_drop]
      have hid : (if qosLevel h.controlFlags > 0
            then some (mqttUnpackUint16 ((core.drop 2).drop (mqttUnpackUint16 core) ++ rest))
            else none)
          = if qosLevel h.controlFlags > 0
            then some (mqttUnpackUint16 ((core.drop 2).drop (mqttUnpackUint16 core)))
            else none := by
        rcases packetIdSize_cases (qosLevel h.controlFlags) with ⟨_, hq, _⟩ | ⟨_, hq, hids⟩
        · rw [if_neg hq, if_neg hq]
        · rw [mqttUnpackUint16_append (by omega)]
      have hmessage : ∀ size,
          size + (2 + mqttUnpackUint16 core + packetIdSize (qosLevel h.controlFlags))
            = h.remainingLength →
          (((core.drop 2).drop (mqttUnpackUint16 core) ++ rest).drop
              (packetIdSize (qosLevel h.controlFlags))).take size
            = (((core.drop 2).drop (mqttUnpackUint16 core)).drop
              (packetIdSize (qosLevel h.controlFlags))).take size := by
        intro size hsize
        rw [List.drop_append_of_le_length (by omega),
          List.take_append_of_le_length (by rw [List.length_drop]; omega)]
      rw [if_neg hover, if_neg hover]
      simp only [publishOf, htopic, hafter, hid, hmessage _ hsize]

/-- **What is made of a packet depends on its own bytes only.** -/
theorem bodyView_append {h : FixedHeader} {core : List UInt8}
    (hlength : h.remainingLength < 2 ^ 28) (hcore : h.remainingLength ≤ core.length)
    (rest : List UInt8) :
    bodyView h (unpackBody h (core ++ rest)) = bodyView h (unpackBody h core) := by
  have hpubxxx : bodyView h (mqttUnpackPubxxxResponse h (core ++ rest))
      = bodyView h (mqttUnpackPubxxxResponse h core) := by
    rw [mqttUnpackPubxxxResponse, mqttUnpackPubxxxResponse]
    by_cases htwo : h.remainingLength ≠ 2
    · rw [if_pos htwo, if_pos htwo]
    · rw [if_neg htwo, if_neg htwo, unpackPacketId, unpackPacketId,
        mqttUnpackUint16_append (by omega)]
  rw [unpackBody, unpackBody]
  split
  · rw [mqttUnpackConnackResponse, mqttUnpackConnackResponse]
    by_cases htwo : h.remainingLength ≠ 2
    · rw [if_pos htwo, if_pos htwo]
    · rw [if_neg htwo, if_neg htwo, List.getD_append _ _ _ _ (by omega),
        List.getD_append _ _ _ _ (by omega)]
  · exact bodyView_publish_append hlength hcore rest
  · exact hpubxxx
  · exact hpubxxx
  · exact hpubxxx
  · exact hpubxxx
  · rw [mqttUnpackSubackResponse, mqttUnpackSubackResponse]
    by_cases hthree : h.remainingLength < 3
    · rw [if_pos hthree, if_pos hthree]
    · rw [if_neg hthree, if_neg hthree, unpackPacketId, unpackPacketId,
        mqttUnpackUint16_append (by omega), List.drop_append_of_le_length (by omega),
        List.take_append_of_le_length (by rw [List.length_drop]; omega)]
  · rw [mqttUnpackUnsubackResponse, mqttUnpackUnsubackResponse]
    by_cases htwo : h.remainingLength ≠ 2
    · rw [if_pos htwo, if_pos htwo]
    · rw [if_neg htwo, if_neg htwo, unpackPacketId, unpackPacketId,
        mqttUnpackUint16_append (by omega)]
  · rfl
  · rfl

/-! ## The bytes consumed -/

/-- The number of bytes that a body takes. -/
def bodySize (h : FixedHeader) : ResponseBody → Nat
  | .publish p =>
      if h.remainingLength < 2 + p.topicNameSize + packetIdSize p.qosLevel
      then h.remainingLength + 2 ^ 32 else h.remainingLength
  | .pingresp => 0
  | .connack .. | .puback _ | .pubrec _ | .pubrel _ | .pubcomp _ | .suback .. | .unsuback _ =>
      h.remainingLength

theorem bodySize_of_overrun {h : FixedHeader} {body : ResponseBody} (hover : Overrun h body) :
    bodySize h body = h.remainingLength + 2 ^ 32 := by
  cases body with
  | publish p => exact if_pos hover
  | _ => exact hover.elim

theorem bodySize_le {h : FixedHeader} {body : ResponseBody} (hover : ¬ Overrun h body) :
    bodySize h body ≤ h.remainingLength := by
  cases body with
  | publish p => exact Nat.le_of_eq (if_neg hover)
  | pingresp => exact Nat.zero_le _
  | _ => exact Nat.le_refl _

theorem unpackBody_consumed {h : FixedHeader} {buf : List UInt8} {body : ResponseBody}
    {k : Nat} (hlength : h.remainingLength < 2 ^ 28) (hbody : unpackBody h buf = .ok (body, k)) :
    k = bodySize h body := by
  have hpubxxx : mqttUnpackPubxxxResponse h buf = .ok (body, k) → k = bodySize h body := by
    intro hbody
    rw [mqttUnpackPubxxxResponse] at hbody
    split at hbody
    · cases hbody
    · rename_i htwo
      cases hbody
      cases h.controlType <;> exact (not_ne_iff.mp htwo).symm
  rw [unpackBody] at hbody
  split at hbody
  · rw [mqttUnpackConnackResponse] at hbody
    split at hbody
    · cases hbody
    · rename_i htwo
      split at hbody
      · cases hbody
      · split at hbody
        · cases hbody
        · cases hbody
          exact (not_ne_iff.mp htwo).symm
  · rw [mqttUnpackPublishResponse, Client.mqttUnpackPublishResponse] at hbody
    simp only at hbody
    by_cases hshort : h.remainingLength < 4
    · rw [if_pos hshort] at hbody
      cases hbody
    · rw [if_neg hshort] at hbody
      cases hbody
      have hsize := messageSize_cases (h := ⟨h.controlFlags, h.remainingLength⟩) hlength
        (qosLevel h.controlFlags) (mqttUnpackUint16_lt buf)
      rw [Nat.add_comm]
      exact hsize
  · exact hpubxxx hbody
  · exact hpubxxx hbody
  · exact hpubxxx hbody
  · exact hpubxxx hbody
  · rw [mqttUnpackSubackResponse] at hbody
    split at hbody
    · cases hbody
    · cases hbody
      simp only [bodySize]
      omega
  · rw [mqttUnpackUnsubackResponse] at hbody
    split at hbody
    · cases hbody
    · rename_i htwo
      cases hbody
      exact (not_ne_iff.mp htwo).symm
  · cases hbody
    rfl
  · cases hbody

/-! ## The decoder of the receive buffer -/

/-- What the client makes of the bytes received so far. -/
def decode (bs : List UInt8) : Decoded Fault Packet := view (mqttUnpackResponse bs bs.length)

/-- The memory behind the received bytes plays no part. -/
theorem view_residue (bs residue : List UInt8) :
    view (mqttUnpackResponse (bs ++ residue) bs.length) = decode bs := by
  rw [decode, view_mqttUnpackResponse, view_mqttUnpackResponse, List.take_left,
    List.take_length]
  cases hheader : mqttUnpackFixedHeader bs with
  | incomplete => rfl
  | failed e => rfl
  | done h n =>
      have hfound := mqttUnpackFixedHeader_done hheader
      have hwhole := hfound.whole
      simp only
      rw [List.drop_append_of_le_length (by omega),
        bodyView_append hfound.length (by rw [List.length_drop]; omega)]

theorem decode_append {bs : List UInt8} (cs : List UInt8) (h : decode bs ≠ .incomplete) :
    decode (bs ++ cs) = decode bs := by
  rw [decode, view_mqttUnpackResponse, List.take_length] at h ⊢
  rw [decode, view_mqttUnpackResponse, List.take_length]
  have hheader : mqttUnpackFixedHeader bs ≠ .incomplete := by
    intro hincomplete
    rw [hincomplete] at h
    exact h rfl
  rw [mqttUnpackFixedHeader_append cs hheader]
  cases hfixed : mqttUnpackFixedHeader bs with
  | incomplete => exact absurd hfixed hheader
  | failed e => rfl
  | done hdr n =>
      have hfound := mqttUnpackFixedHeader_done hfixed
      have hwhole := hfound.whole
      simp only
      rw [List.drop_append_of_le_length (by omega),
        bodyView_append hfound.length (by rw [List.length_drop]; omega)]

/-- What is known of a response: the header has `m` bytes. -/
structure Response.Found (r : Response) (bufsz n m : Nat) : Prop where
  rules : mqttFixedHeaderRuleViolation r.fixedHeader = none
  length : r.fixedHeader.remainingLength < 2 ^ 28
  pos : 2 ≤ m
  whole : m + r.fixedHeader.remainingLength ≤ bufsz
  consumed : n = m + bodySize r.fixedHeader r.decoded

theorem mqttUnpackResponse_done {mem : List UInt8} {bufsz : Nat} {r : Response} {n : Nat}
    (hmem : bufsz ≤ mem.length) (hdone : mqttUnpackResponse mem bufsz = .done r n) :
    ∃ m, r.Found bufsz n m := by
  rw [mqttUnpackResponse] at hdone
  cases hheader : mqttUnpackFixedHeader (mem.take bufsz) with
  | incomplete => rw [hheader] at hdone; cases hdone
  | failed e => rw [hheader] at hdone; cases hdone
  | done h m =>
      rw [hheader] at hdone
      simp only at hdone
      have hfound := mqttUnpackFixedHeader_done hheader
      have hwhole := hfound.whole
      rw [List.length_take, Nat.min_eq_left hmem] at hwhole
      cases hbody : unpackBody h (mem.drop m) with
      | error e => rw [hbody] at hdone; cases hdone
      | ok bk =>
          rw [hbody] at hdone
          cases hdone
          exact ⟨m, hfound.rules, hfound.length, hfound.pos, hwhole,
            congrArg (m + ·) (unpackBody_consumed hfound.length hbody)⟩

/-- **The bytes consumed are bytes received**, exactly if the lengths in the packet fit. -/
theorem mqttUnpackResponse_consumed {mem : List UInt8} {bufsz : Nat} {r : Response} {n : Nat}
    (hmem : bufsz ≤ mem.length) (hbufsz : bufsz < 2 ^ 32)
    (hdone : mqttUnpackResponse mem bufsz = .done r n) :
    n ≤ bufsz ↔ ¬ Overrun r.fixedHeader r.decoded := by
  obtain ⟨m, hfound⟩ := mqttUnpackResponse_done hmem hdone
  have hwhole := hfound.whole
  have hconsumed := hfound.consumed
  by_cases hover : Overrun r.fixedHeader r.decoded
  · rw [bodySize_of_overrun hover] at hconsumed
    simp only [hover, not_true_eq_false, iff_false]
    omega
  · have hsize := bodySize_le hover
    simp only [hover, not_false_eq_true, iff_true]
    omega

theorem view_done {r : Decoded Error Response} {p : Packet} {n : Nat} (h : view r = .done p n) :
    ∃ response, r = .done response n ∧ ¬ Overrun response.fixedHeader response.decoded ∧
      response.decoded.packet = p := by
  cases r with
  | incomplete => cases h
  | failed e => cases h
  | done response m =>
      rw [view] at h
      split at h
      · cases h
      · rename_i hover
        cases h
        exact ⟨response, rfl, hover, rfl⟩

theorem decode_done {bs : List UInt8} {p : Packet} {n : Nat} (h : decode bs = .done p n) :
    2 ≤ n ∧ n ≤ bs.length := by
  obtain ⟨response, hdone, hover, _⟩ := view_done h
  obtain ⟨m, hfound⟩ := mqttUnpackResponse_done (Nat.le_refl _) hdone
  have hwhole := hfound.whole
  have hpos := hfound.pos
  have hconsumed := hfound.consumed
  have hsize := bodySize_le hover
  omega

/-- The client's decoder keeps to the bytes received and stands by its verdicts. -/
def decoder : Decoder UInt8 Fault Packet where
  decode := decode
  pos h := Nat.lt_of_lt_of_le Nat.zero_lt_two (decode_done h).1
  le h := (decode_done h).2
  done_append cs h := by rw [decode_append cs (by rw [h]; simp), h]
  failed_append cs h := by rw [decode_append cs (by rw [h]; simp), h]

end Caeco.Mqtt
