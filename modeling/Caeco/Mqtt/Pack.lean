import Caeco.Mqtt.Packets

/-!
# Requests

A packer works out the fixed header and then writes the packet into the send buffer. The
length in the header counts every string in full, whereas a string is written with a length
of sixteen bits: a longer one leaves the packet shorter than its header says.
-/

namespace Caeco.Mqtt

open Framing
open Client (PublishPacket mqttPackUint16 packetIdSize qosLevel)

/-! ## The packers -/

/-- `__mqtt_packed_cstrlen`, an `unsigned int`; strings come without their NUL. -/
def packedCstrlen (str : List UInt8) : Nat := (2 + str.length) % 2 ^ 32

/-- `__mqtt_pack_str`, with its `uint16_t` length. -/
def mqttPackStr (str : List UInt8) : List UInt8 :=
  let length := str.length % 2 ^ 16
  mqttPackUint16 length ++ str.take length

/-- What a packer is about to write. -/
structure Draft where
  fixedHeader : FixedHeader
  body : List UInt8
deriving Repr, DecidableEq

/-- The end of every packer: the fixed header, another look at the room left, then the
bytes of the packet. -/
def packDraft (bufsz : Nat) (d : Draft) : Except Error (Option (List UInt8)) :=
  match mqttPackFixedHeader bufsz d.fixedHeader with
  | .error e => .error e
  | .ok none => .ok none
  | .ok (some header) =>
      if bufsz - header.length < d.fixedHeader.remainingLength then .ok none
      else .ok (some (header ++ d.body))

/-- The arguments of `mqtt_connect`; the will message comes with its size. -/
structure ConnectRequest where
  clientId : Option (List UInt8)
  willTopic : Option (List UInt8)
  willMessage : Option (List UInt8)
  userName : Option (List UInt8)
  password : Option (List UInt8)
  connectFlags : UInt8
  keepAlive : BitVec 16
deriving Repr, DecidableEq

namespace ConnectRequest

/-- The flags of the caller, brought in line with the pointers that are not `NULL`. -/
def flagsFor (connectFlags : UInt8) (willTopic userName password : Bool) : UInt8 :=
  let flags := connectFlags &&& ~~~0x01
  let flags := if willTopic then flags ||| 0x04
    else flags &&& ~~~0x04 &&& ~~~0x18 &&& ~~~0x20
  let flags := if userName then flags ||| 0x80 else flags &&& ~~~0x80
  if password then flags ||| 0x40 else flags &&& ~~~0x40

def flags (r : ConnectRequest) : UInt8 :=
  flagsFor r.connectFlags r.willTopic.isSome r.userName.isSome r.password.isSome

def check (r : ConnectRequest) : Except Error Unit :=
  if r.clientId.getD [] = [] ∧ r.connectFlags &&& ~~~0x01 &&& 0x02 = 0 then
    .error .cleanSessionIsRequired
  else if r.willTopic.isSome then
    if r.willMessage.isNone then .error .connectNullWillMessage
    else if r.connectFlags &&& 0x18 = 0x18 then .error .connectForbiddenWillQos
    else .ok ⟨⟩
  else .ok ⟨⟩

def remainingLength (r : ConnectRequest) : Nat :=
  let length := 10 + packedCstrlen (r.clientId.getD [])
  let length := match r.willTopic with
    | some topic => length + packedCstrlen topic + (2 + (r.willMessage.getD []).length)
    | none => length
  let length := match r.userName with
    | some name => length + packedCstrlen name
    | none => length
  let length := match r.password with
    | some password => length + packedCstrlen password
    | none => length
  length % 2 ^ 32

/-- The variable header and the payload. Which fields are written is read off the flags. -/
def body (r : ConnectRequest) : List UInt8 :=
  let will := r.willMessage.getD []
  [0x00, 0x04, 0x4D, 0x51, 0x54, 0x54, 0x04, r.flags] ++ mqttPackUint16 r.keepAlive.toNat ++
    mqttPackStr (r.clientId.getD []) ++
    (if r.flags &&& 0x04 ≠ 0 then
      mqttPackStr (r.willTopic.getD []) ++ mqttPackUint16 (will.length % 2 ^ 16) ++ will
    else []) ++
    (if r.flags &&& 0x80 ≠ 0 then mqttPackStr (r.userName.getD []) else []) ++
    (if r.flags &&& 0x40 ≠ 0 then mqttPackStr (r.password.getD []) else [])

end ConnectRequest

def connectDraft (r : ConnectRequest) : Except Error Draft :=
  match r.check with
  | .error e => .error e
  | .ok _ => .ok ⟨⟨.connect, 0, r.remainingLength⟩, r.body⟩

def mqttPackConnectionRequest (bufsz : Nat) (r : ConnectRequest) :
    Except Error (Option (List UInt8)) := (connectDraft r).bind (packDraft bufsz)

def mqttPackDisconnect (bufsz : Nat) : Except Error (Option (List UInt8)) :=
  mqttPackFixedHeader bufsz ⟨.disconnect, 0, 0⟩

def mqttPackPingRequest (bufsz : Nat) : Except Error (Option (List UInt8)) :=
  mqttPackFixedHeader bufsz ⟨.pingreq, 0, 0⟩

def publishDraft (topicName : List UInt8) (packetId : BitVec 16)
    (applicationMessage : List UInt8) (publishFlags : UInt8) : Except Error Draft :=
  let inspectedQos := qosLevel publishFlags
  let remainingLength := (packedCstrlen topicName + (if inspectedQos > 0 then 2 else 0) +
    applicationMessage.length) % 2 ^ 32
  let publishFlags := if inspectedQos = 0 then publishFlags &&& ~~~0x08 else publishFlags
  if inspectedQos = 3 then .error .publishForbiddenQos
  else .ok
    { fixedHeader := ⟨.publish, publishFlags &&& 0x07, remainingLength⟩
      body := mqttPackStr topicName ++
        (if inspectedQos > 0 then mqttPackUint16 packetId.toNat else []) ++
        applicationMessage }

def mqttPackPublishRequest (bufsz : Nat) (topicName : List UInt8) (packetId : BitVec 16)
    (applicationMessage : List UInt8) (publishFlags : UInt8) :
    Except Error (Option (List UInt8)) :=
  (publishDraft topicName packetId applicationMessage publishFlags).bind (packDraft bufsz)

def pubxxxDraft (controlType : ControlPacketType) (packetId : BitVec 16) : Draft where
  fixedHeader := ⟨controlType, if controlType = .pubrel then 0x02 else 0, 2⟩
  body := mqttPackUint16 packetId.toNat

def mqttPackPubxxxRequest (bufsz : Nat) (controlType : ControlPacketType)
    (packetId : BitVec 16) : Except Error (Option (List UInt8)) :=
  packDraft bufsz (pubxxxDraft controlType packetId)

/-- The topics come with their maximal QoS level. -/
def subscribeDraft (packetId : BitVec 16) (topics : List (List UInt8 × UInt8)) :
    Except Error Draft :=
  if topics.length ≥ 8 then .error .subscribeTooManyTopics
  else .ok
    { fixedHeader := ⟨.subscribe, 2,
        (2 + (topics.map fun (topic, _) => packedCstrlen topic + 1).sum) % 2 ^ 32⟩
      body := mqttPackUint16 packetId.toNat ++
        topics.flatMap fun (topic, maxQos) => mqttPackStr topic ++ [maxQos] }

def mqttPackSubscribeRequest (bufsz : Nat) (packetId : BitVec 16)
    (topics : List (List UInt8 × UInt8)) : Except Error (Option (List UInt8)) :=
  (subscribeDraft packetId topics).bind (packDraft bufsz)

def unsubscribeDraft (packetId : BitVec 16) (topics : List (List UInt8)) :
    Except Error Draft :=
  if topics.length ≥ 8 then .error .unsubscribeTooManyTopics
  else .ok
    { fixedHeader := ⟨.unsubscribe, 2, (2 + (topics.map packedCstrlen).sum) % 2 ^ 32⟩
      body := mqttPackUint16 packetId.toNat ++ topics.flatMap mqttPackStr }

def mqttPackUnsubscribeRequest (bufsz : Nat) (packetId : BitVec 16)
    (topics : List (List UInt8)) : Except Error (Option (List UInt8)) :=
  (unsubscribeDraft packetId topics).bind (packDraft bufsz)

/-! ## All requests -/

/-- What the client has packed. -/
inductive Request where
  | connect (r : ConnectRequest)
  | publish (topicName : List UInt8) (packetId : BitVec 16) (applicationMessage : List UInt8)
      (publishFlags : UInt8)
  | pubxxx (controlType : ControlPacketType) (packetId : BitVec 16)
  | subscribe (packetId : BitVec 16) (topics : List (List UInt8 × UInt8))
  | unsubscribe (packetId : BitVec 16) (topics : List (List UInt8))
  | pingreq
  | disconnect
deriving Repr, DecidableEq

namespace Request

def controlType : Request → ControlPacketType
  | connect _ => .connect
  | publish .. => .publish
  | pubxxx controlType _ => controlType
  | subscribe .. => .subscribe
  | unsubscribe .. => .unsubscribe
  | pingreq => .pingreq
  | disconnect => .disconnect

def pack (bufsz : Nat) : Request → Except Error (Option (List UInt8))
  | connect r => mqttPackConnectionRequest bufsz r
  | publish topicName packetId applicationMessage publishFlags =>
      mqttPackPublishRequest bufsz topicName packetId applicationMessage publishFlags
  | pubxxx controlType packetId => mqttPackPubxxxRequest bufsz controlType packetId
  | subscribe packetId topics => mqttPackSubscribeRequest bufsz packetId topics
  | unsubscribe packetId topics => mqttPackUnsubscribeRequest bufsz packetId topics
  | pingreq => mqttPackPingRequest bufsz
  | disconnect => mqttPackDisconnect bufsz

/-- The strings of a request; a will message is written in full whatever its size. -/
def strings : Request → List (List UInt8)
  | connect r => r.clientId.getD [] :: (r.willTopic.toList ++ r.userName.toList ++
      r.password.toList)
  | publish topicName .. => [topicName]
  | pubxxx .. | pingreq | disconnect => []
  | subscribe _ topics => topics.map Prod.fst
  | unsubscribe _ topics => topics

/-- The bytes of a request's body beside its strings and their lengths. -/
def plain : Request → Nat
  | connect r => 10 + if r.willTopic.isSome then 2 + (r.willMessage.getD []).length else 0
  | publish _ _ applicationMessage publishFlags =>
      packetIdSize (qosLevel publishFlags) + applicationMessage.length
  | pubxxx .. => 2
  | subscribe _ topics => 2 + topics.length
  | unsubscribe .. => 2
  | pingreq | disconnect => 0

/-- The length that a request's header is meant to give. -/
def size (r : Request) : Nat := r.plain + (r.strings.map fun s => 2 + s.length).sum

/-- The bytes of the strings that are not written. -/
def lost (r : Request) : Nat := (r.strings.map fun s => s.length - s.length % 2 ^ 16).sum

/-- What a request's packer is about to write, if it gets that far. -/
def draft : Request → Except Error Draft
  | connect r => connectDraft r
  | publish topicName packetId applicationMessage publishFlags =>
      publishDraft topicName packetId applicationMessage publishFlags
  | pubxxx controlType packetId => .ok (pubxxxDraft controlType packetId)
  | subscribe packetId topics => subscribeDraft packetId topics
  | unsubscribe packetId topics => unsubscribeDraft packetId topics
  | pingreq => .ok ⟨⟨.pingreq, 0, 0⟩, []⟩
  | disconnect => .ok ⟨⟨.disconnect, 0, 0⟩, []⟩

theorem packDraft_header (bufsz : Nat) {h : FixedHeader} (hnone : h.remainingLength = 0) :
    packDraft bufsz ⟨h, []⟩ = mqttPackFixedHeader bufsz h := by
  rw [packDraft]
  cases mqttPackFixedHeader bufsz h with
  | error e => simp only
  | ok bytes =>
      cases bytes with
      | none => simp only
      | some header => simp only [hnone, Nat.not_lt_zero, if_false, List.append_nil]

theorem pack_eq (r : Request) (bufsz : Nat) : r.pack bufsz = r.draft.bind (packDraft bufsz) := by
  cases r with
  | pingreq => exact (packDraft_header bufsz (h := ⟨.pingreq, 0, 0⟩) rfl).symm
  | disconnect => exact (packDraft_header bufsz (h := ⟨.disconnect, 0, 0⟩) rfl).symm
  | _ => rfl

/-! ### Lengths -/

theorem length_mqttPackUint16 (n : Nat) : (mqttPackUint16 n).length = 2 := rfl

theorem length_mqttPackStr (str : List UInt8) :
    (mqttPackStr str).length = 2 + str.length % 2 ^ 16 := by
  have hle := Nat.mod_le str.length (2 ^ 16)
  simp only [mqttPackStr, List.length_append, length_mqttPackUint16, List.length_take]
  omega

/-- The flags of a CONNECT packet say which of its fields there are. -/
theorem flagsFor_fields (connectFlags : UInt8) (willTopic userName password : Bool) :
    (ConnectRequest.flagsFor connectFlags willTopic userName password &&& 0x04 ≠ 0
        ↔ willTopic = true) ∧
      (ConnectRequest.flagsFor connectFlags willTopic userName password &&& 0x80 ≠ 0
        ↔ userName = true) ∧
      (ConnectRequest.flagsFor connectFlags willTopic userName password &&& 0x40 ≠ 0
        ↔ password = true) := by
  revert willTopic userName password connectFlags
  exact forall_byte (by decide +kernel)

theorem packedCstrlen_of_lt {str : List UInt8} (h : 2 + str.length < 2 ^ 32) :
    packedCstrlen str = 2 + str.length := Nat.mod_eq_of_lt h

/-- Strings written one after the other. -/
theorem strings_sizes : ∀ (strs : List (List UInt8)),
    (strs.map fun s => 2 + s.length).sum < 2 ^ 32 →
      (strs.map packedCstrlen).sum = (strs.map fun s => 2 + s.length).sum ∧
        (strs.flatMap mqttPackStr).length + (strs.map fun s => s.length - s.length % 2 ^ 16).sum
          = (strs.map fun s => 2 + s.length).sum := by
  intro strs
  induction strs with
  | nil => intro _; exact ⟨rfl, rfl⟩
  | cons str strs ih =>
      intro h
      rw [List.map_cons, List.sum_cons] at h
      obtain ⟨hpacked, hwritten⟩ := ih (by omega)
      have hle := Nat.mod_le str.length (2 ^ 16)
      constructor
      · rw [List.map_cons, List.sum_cons, hpacked, packedCstrlen_of_lt (by omega), List.map_cons,
          List.sum_cons]
      · rw [List.flatMap_cons, List.length_append, length_mqttPackStr, List.map_cons,
          List.sum_cons, List.map_cons, List.sum_cons]
        omega

theorem sum_topics (topics : List (List UInt8 × UInt8)) :
    (topics.map fun (topic, _) => packedCstrlen topic + 1).sum
      = ((topics.map Prod.fst).map packedCstrlen).sum + topics.length := by
  induction topics with
  | nil => rfl
  | cons t topics ih =>
      simp only [List.map_cons, List.sum_cons, List.length_cons, ih]
      omega

theorem length_topics (topics : List (List UInt8 × UInt8)) :
    (topics.flatMap fun (topic, maxQos) => mqttPackStr topic ++ [maxQos]).length
      = ((topics.map Prod.fst).flatMap mqttPackStr).length + topics.length := by
  induction topics with
  | nil => rfl
  | cons t topics ih =>
      simp only [List.map_cons, List.flatMap_cons, List.length_append, List.length_cons,
        List.length_nil, ih]
      omega

theorem connect_remainingLength (r : ConnectRequest) :
    r.remainingLength
      = ((connect r).plain + ((connect r).strings.map packedCstrlen).sum) % 2 ^ 32 := by
  obtain ⟨clientId, willTopic, willMessage, userName, password, connectFlags, keepAlive⟩ := r
  rw [ConnectRequest.remainingLength]
  congr 1
  cases willTopic <;> cases userName <;> cases password <;>
    simp only [plain, strings, Option.isSome_none, Option.isSome_some, Option.toList_none,
      Option.toList_some, List.nil_append, List.append_nil, List.cons_append, List.map_cons,
      List.map_nil, List.sum_cons, List.sum_nil, if_true, Bool.false_eq_true, if_false] <;>
    omega

theorem connect_body (r : ConnectRequest) :
    r.body.length = (connect r).plain + ((connect r).strings.flatMap mqttPackStr).length := by
  obtain ⟨clientId, willTopic, willMessage, userName, password, connectFlags, keepAlive⟩ := r
  obtain ⟨hwill, huser, hpass⟩ := flagsFor_fields connectFlags willTopic.isSome userName.isSome
    password.isSome
  simp only [ConnectRequest.body, ConnectRequest.flags, hwill, huser, hpass]
  cases willTopic <;> cases userName <;> cases password <;>
    simp only [plain, strings, Option.isSome_none, Option.isSome_some, Option.toList_none,
      Option.toList_some, List.nil_append, List.append_nil, List.cons_append,
      List.flatMap_cons, List.flatMap_nil, List.length_append, List.length_cons,
      length_mqttPackUint16, Option.getD_some, if_true, Bool.false_eq_true, if_false] <;>
    omega

/-- The length in the header, and the bytes that follow it. -/
theorem draft_sizes {r : Request} {d : Draft} (hsize : r.size < 2 ^ 32)
    (hdraft : r.draft = .ok d) :
    d.fixedHeader.remainingLength = r.size ∧ d.body.length + r.lost = r.size := by
  cases r with
  | connect r =>
      rw [draft, connectDraft] at hdraft
      split at hdraft
      · cases hdraft
      · cases hdraft
        rw [size] at hsize
        obtain ⟨hpacked, hwritten⟩ := strings_sizes (connect r).strings (by omega)
        simp only [connect_remainingLength, connect_body, hpacked, size, lost]
        omega
  | publish topicName packetId applicationMessage publishFlags =>
      rw [draft, publishDraft] at hdraft
      split at hdraft
      · cases hdraft
      · cases hdraft
        simp only [size, plain, strings, lost, packedCstrlen, List.map_cons, List.map_nil,
          List.sum_cons, List.sum_nil, List.length_append, length_mqttPackStr] at hsize ⊢
        have hle := Nat.mod_le topicName.length (2 ^ 16)
        rcases packetIdSize_cases (qosLevel publishFlags) with ⟨_, hq, hid⟩ | ⟨_, hq, hid⟩
        · rw [if_neg hq, if_neg hq, List.length_nil]
          omega
        · rw [if_pos hq, if_pos hq, length_mqttPackUint16]
          omega
  | pubxxx controlType packetId =>
      cases hdraft
      exact ⟨rfl, rfl⟩
  | subscribe packetId topics =>
      rw [draft, subscribeDraft] at hdraft
      split at hdraft
      · cases hdraft
      · cases hdraft
        simp only [size, plain, strings, lost] at hsize ⊢
        obtain ⟨hpacked, hwritten⟩ := strings_sizes (topics.map Prod.fst) (by omega)
        simp only [sum_topics, hpacked, List.length_append, length_topics, length_mqttPackUint16]
        omega
  | unsubscribe packetId topics =>
      rw [draft, unsubscribeDraft] at hdraft
      split at hdraft
      · cases hdraft
      · cases hdraft
        simp only [size, plain, strings, lost] at hsize ⊢
        obtain ⟨hpacked, hwritten⟩ := strings_sizes topics (by omega)
        simp only [hpacked, List.length_append, length_mqttPackUint16]
        omega
  | pingreq =>
      cases hdraft
      exact ⟨rfl, rfl⟩
  | disconnect =>
      cases hdraft
      exact ⟨rfl, rfl⟩

/-! ### Packets -/

theorem mqttPackFixedHeader_some {bufsz : Nat} {h : FixedHeader} {header : List UInt8}
    (hsome : mqttPackFixedHeader bufsz h = .ok (some header)) :
    mqttFixedHeaderRuleViolation h = none ∧ h.remainingLength < 2 ^ 28 := by
  rw [mqttPackFixedHeader] at hsome
  split at hsome
  · cases hsome
  · rename_i hrules
    split at hsome
    · cases hsome
    · split at hsome
      · cases hsome
      · rename_i hlength
        exact ⟨hrules, by omega⟩

theorem packDraft_eq {d : Draft} (hv : d.fixedHeader.Valid) (bufsz : Nat) :
    packDraft bufsz d
      = .ok (if bufsz < d.fixedHeader.bytes.length + d.fixedHeader.remainingLength then none
        else some (d.fixedHeader.bytes ++ d.body)) := by
  rw [packDraft, mqttPackFixedHeader_eq hv]
  by_cases hfits : bufsz < d.fixedHeader.bytes.length + d.fixedHeader.remainingLength
  · rw [if_pos hfits, if_pos hfits]
  · rw [if_neg hfits, if_neg hfits]
    simp only
    rw [if_neg (by omega)]

theorem draft_flags {r : Request} {d : Draft} (h : r.draft = .ok d) :
    d.fixedHeader.controlFlags.toNat < 16 := by
  cases r with
  | connect r =>
      rw [draft, connectDraft] at h
      split at h <;> cases h
      simp
  | publish topicName packetId applicationMessage publishFlags =>
      rw [draft, publishDraft] at h
      split at h <;> cases h
      simp only
      rw [UInt8.toNat_and]
      exact Nat.lt_of_le_of_lt Nat.and_le_right (by decide)
  | pubxxx controlType packetId =>
      cases h
      simp only [pubxxxDraft]
      split <;> decide
  | subscribe packetId topics =>
      rw [draft, subscribeDraft] at h
      split at h <;> cases h
      simp
  | unsubscribe packetId topics =>
      rw [draft, unsubscribeDraft] at h
      split at h <;> cases h
      simp
  | pingreq => cases h; decide
  | disconnect => cases h; decide

/-- What a packer has written. -/
theorem pack_some {r : Request} {bufsz : Nat} {bytes : List UInt8}
    (h : r.pack bufsz = .ok (some bytes)) :
    ∃ d, r.draft = .ok d ∧ d.fixedHeader.Valid ∧ bytes = d.fixedHeader.bytes ++ d.body ∧
      d.fixedHeader.bytes.length + d.fixedHeader.remainingLength ≤ bufsz := by
  rw [pack_eq] at h
  cases hdraft : r.draft with
  | error e =>
      rw [hdraft] at h
      cases h
  | ok d =>
      rw [hdraft] at h
      have hpacked : packDraft bufsz d = .ok (some bytes) := h
      have hv : d.fixedHeader.Valid := by
        rw [packDraft] at hpacked
        split at hpacked
        · cases hpacked
        · cases hpacked
        · rename_i hheader
          obtain ⟨hrules, hlength⟩ := mqttPackFixedHeader_some hheader
          exact { rules := hrules, flags := draft_flags hdraft, length := hlength }
      rw [packDraft_eq hv] at hpacked
      split at hpacked
      · cases hpacked
      · rename_i hfits
        cases hpacked
        exact ⟨d, rfl, hv, rfl, by omega⟩

/-- The bytes are one packet, to the last of them. -/
def Whole (bytes : List UInt8) : Prop :=
  ∃ h n, mqttUnpackFixedHeader bytes = .done h n ∧ n + h.remainingLength = bytes.length

theorem whole_iff {h : FixedHeader} (hv : h.Valid) {body : List UInt8} :
    Whole (h.bytes ++ body) ↔ body.length = h.remainingLength := by
  constructor
  · rintro ⟨h', n, hdone, hlen⟩
    -- the header is the same when the rest of the packet is there
    have hmore : mqttUnpackFixedHeader (h.bytes ++ body) ≠ .incomplete := by rw [hdone]; simp
    have happend := mqttUnpackFixedHeader_append (List.replicate h.remainingLength 0) hmore
    rw [List.append_assoc, mqttUnpackFixedHeader_bytes hv
      (by rw [List.length_append, List.length_replicate]; omega), hdone] at happend
    cases happend
    rw [List.length_append] at hlen
    omega
  · intro hlen
    exact ⟨h, h.bytes.length, mqttUnpackFixedHeader_bytes hv (Nat.le_of_eq hlen.symm),
      by rw [List.length_append, hlen]⟩

theorem lost_eq_zero_iff (r : Request) : r.lost = 0 ↔ ∀ s ∈ r.strings, s.length < 2 ^ 16 := by
  rw [lost, List.sum_eq_zero_iff_forall_eq_nat]
  constructor
  · intro h s hs
    have hzero := h _ (List.mem_map_of_mem hs)
    omega
  · intro h n hn
    obtain ⟨s, hs, rfl⟩ := List.mem_map.mp hn
    have hlt := h s hs
    omega

theorem pack_length {r : Request} {bufsz : Nat} {bytes : List UInt8}
    (hsize : r.size < 2 ^ 32) (h : r.pack bufsz = .ok (some bytes)) :
    0 < bytes.length ∧ bytes.length ≤ bufsz := by
  obtain ⟨d, hdraft, _, rfl, hfits⟩ := pack_some h
  obtain ⟨hlength, hbody⟩ := draft_sizes hsize hdraft
  rw [List.length_append]
  refine ⟨?_, by omega⟩
  rw [FixedHeader.bytes, List.length_cons]
  omega

theorem whole_iff_lost {r : Request} {bufsz : Nat} {bytes : List UInt8}
    (hsize : r.size < 2 ^ 32) (h : r.pack bufsz = .ok (some bytes)) :
    Whole bytes ↔ r.lost = 0 := by
  obtain ⟨d, hdraft, hv, rfl, _⟩ := pack_some h
  obtain ⟨hlength, hbody⟩ := draft_sizes hsize hdraft
  rw [whole_iff hv]
  omega

/-- **What a packer writes fits, and is one packet exactly if no string is cut off.** The sizes
are computed in 32 bits: the request has to be smaller than 4 GiB. -/
theorem pack_whole_iff {r : Request} {bufsz : Nat} {bytes : List UInt8}
    (hsize : r.size < 2 ^ 32) (h : r.pack bufsz = .ok (some bytes)) :
    bytes.length ≤ bufsz ∧ (Whole bytes ↔ ∀ s ∈ r.strings, s.length < 2 ^ 16) := by
  refine ⟨(pack_length hsize h).2, ?_⟩
  rw [whole_iff_lost hsize h, lost_eq_zero_iff]

theorem pack_whole_iff_subscribe :
    [0x82, 6, 0, 9, 0, 1, 0x61, 0].length ≤ 32 ∧
      (Whole [0x82, 6, 0, 9, 0, 1, 0x61, 0] ↔ ∀ s ∈ [[(0x61 : UInt8)]], s.length < 2 ^ 16) :=
  @pack_whole_iff (.subscribe 9 [([0x61], 0)]) 32 _ (by decide) (by rfl)

/-! ### Reading back -/

/-- The flags of a PUBLISH packet: the level stays as it is, and it is no duplicate. -/
theorem publish_flags (f : UInt8) :
    qosLevel ((if qosLevel f = 0 then f &&& ~~~0x08 else f) &&& 0x07) = qosLevel f ∧
      ((if qosLevel f = 0 then f &&& ~~~0x08 else f) &&& 0x07 &&& 0x08) >>> 3 = 0 ∧
      (if qosLevel f = 0 then f &&& ~~~0x08 else f) &&& 0x07 &&& 0x01 = f &&& 0x01 := by
  revert f
  exact forall_byte (by decide +kernel)

/-- The level of a packed message can be read back from its first byte. -/
theorem publish_first_byte {topicName : List UInt8} {packetId : BitVec 16}
    {applicationMessage : List UInt8} {publishFlags : UInt8} {bufsz : Nat} {bytes : List UInt8}
    (h : mqttPackPublishRequest bufsz topicName packetId applicationMessage publishFlags
      = .ok (some bytes)) : qosLevel (bytes.headD 0) = qosLevel publishFlags := by
  obtain ⟨d, hdraft, _, rfl, _⟩ :=
    pack_some (r := .publish topicName packetId applicationMessage publishFlags) h
  rw [draft, publishDraft] at hdraft
  split at hdraft
  · cases hdraft
  · have hheader : ∀ f : UInt8, qosLevel (FixedHeader.firstByte ⟨.publish, f &&& 0x07, 0⟩)
        = qosLevel (f &&& 0x07) := forall_byte (by decide +kernel)
    cases hdraft
    exact (hheader _).trans (publish_flags publishFlags).1

theorem mqttPackStr_of_lt {str : List UInt8} (h : str.length < 2 ^ 16) :
    mqttPackStr str = mqttPackUint16 str.length ++ str := by
  simp only [mqttPackStr, Nat.mod_eq_of_lt h, List.take_length]

/-- What a PUBLISH packet of the client says. -/
def publishedAs (topicName : List UInt8) (packetId : BitVec 16)
    (applicationMessage : List UInt8) (publishFlags : UInt8) : Publish where
  dupFlag := 0
  qosLevel := Client.qosLevel publishFlags
  retainFlag := publishFlags &&& 0x01
  topicName := topicName
  packetId := if Client.qosLevel publishFlags > 0 then some packetId.toNat else none
  applicationMessage := applicationMessage

/-- **A published message is read back**, unless less than four bytes follow the header: those
packets can be sent but not received. The topic is shorter than 64 KiB, so that its length is
written as it is, and the message is smaller than 2 GiB. -/
theorem publish_read_back {topicName : List UInt8} {packetId : BitVec 16}
    {applicationMessage : List UInt8} {publishFlags : UInt8} {bufsz : Nat}
    {bytes : List UInt8} (htopic : topicName.length < 2 ^ 16)
    (hmessage : applicationMessage.length < 2 ^ 31)
    (h : mqttPackPublishRequest bufsz topicName packetId applicationMessage publishFlags
      = .ok (some bytes)) (rest : List UInt8) :
    decode (bytes ++ rest)
      = if 4 ≤ 2 + topicName.length + packetIdSize (qosLevel publishFlags) +
          applicationMessage.length
        then .done (.publish (publishedAs topicName packetId applicationMessage publishFlags))
          bytes.length
        else .failed (.error .malformedResponse) := by
  obtain ⟨hlevel, hdup, hretain⟩ := publish_flags publishFlags
  obtain ⟨d, hdraft, hv, rfl, _⟩ :=
    pack_some (r := .publish topicName packetId applicationMessage publishFlags) h
  have hids : packetIdSize (qosLevel publishFlags) ≤ 2 := by
    rcases packetIdSize_cases (qosLevel publishFlags) with ⟨_, _, hid⟩ | ⟨_, _, hid⟩ <;> omega
  have hsize : (publish topicName packetId applicationMessage publishFlags).size
      = 2 + topicName.length + packetIdSize (qosLevel publishFlags) +
        applicationMessage.length := by
    simp only [size, plain, strings, List.map_cons, List.map_nil, List.sum_cons, List.sum_nil]
    omega
  obtain ⟨hlength, hbody⟩ := draft_sizes (by rw [hsize]; omega) hdraft
  have hlost := (lost_eq_zero_iff
    (publish topicName packetId applicationMessage publishFlags)).mpr
      (by simpa [strings] using htopic)
  rw [hsize] at hlength hbody
  rw [draft, publishDraft] at hdraft
  split at hdraft
  · cases hdraft
  · injection hdraft with hdraft
    by_cases hlong : 4 ≤ 2 + topicName.length + packetIdSize (qosLevel publishFlags) +
        applicationMessage.length
    · rw [if_pos hlong]
      -- the packet of a broker that says the same
      let p : PublishPacket :=
        { controlFlags := (if qosLevel publishFlags = 0 then publishFlags &&& ~~~0x08
            else publishFlags) &&& 0x07
          topicName := topicName
          packetId := ⟨packetId⟩
          applicationMessage := applicationMessage
          topic_fits := htopic
          long_enough := by rw [hlevel]; exact hlong }
      have hheader : d.fixedHeader = ⟨.publish, p.controlFlags, p.fixedHeader.remainingLength⟩ := by
        have htype : d.fixedHeader.controlType = .publish := by rw [← hdraft]
        have hflags : d.fixedHeader.controlFlags = p.controlFlags := by rw [← hdraft]
        have hremaining : d.fixedHeader.remainingLength = p.fixedHeader.remainingLength := by
          rw [hlength, PublishPacket.fixedHeader, hlevel]
        rw [← htype, ← hflags, ← hremaining]
      have hflags : p.controlFlags.toNat < 16 := by have := hv.flags; rwa [hheader] at this
      have hremaining : p.fixedHeader.remainingLength < 2 ^ 28 := by
        have := hv.length
        rwa [hheader] at this
      have hbytes : d.fixedHeader.bytes ++ d.body
          = (BrokerPacket.publish p hflags hremaining).bytes := by
        rw [BrokerPacket.bytes, hheader, ← hdraft]
        simp only [BrokerPacket.header, BrokerPacket.body, PublishPacket.variableHeader,
          mqttPackStr_of_lt htopic]
        rw [hlevel]
        rfl
      rw [hbytes, BrokerPacket.decode_bytes]
      simp only [BrokerPacket.packet, BrokerPacket.publishContents, publishedAs]
      rw [hlevel, hdup, hretain]
      rfl
    · have hshort : 2 + topicName.length + packetIdSize (qosLevel publishFlags) +
          applicationMessage.length < 4 := by omega
      rw [if_neg hlong, decode, view_mqttUnpackResponse, List.take_length, List.append_assoc,
        mqttUnpackFixedHeader_bytes hv (by rw [List.length_append]; omega)]
      simp only
      rw [List.drop_left, unpackBody, ← hdraft]
      simp only [mqttUnpackPublishResponse, Client.mqttUnpackPublishResponse]
      rw [← hdraft] at hlength
      simp only at hlength
      rw [hlength, if_pos hshort]
      rfl

theorem publish_read_back_level1 :
    decode ([0x32, 7, 0, 1, 0x61, 0, 5, 1, 2] ++ [0xD0])
      = if 4 ≤ 2 + [(0x61 : UInt8)].length + packetIdSize (qosLevel 2) + [(1 : UInt8), 2].length
        then .done (.publish (publishedAs [0x61] 5 [1, 2] 2))
          [(0x32 : UInt8), 7, 0, 1, 0x61, 0, 5, 1, 2].length
        else .failed (.error .malformedResponse) :=
  @publish_read_back [0x61] 5 [1, 2] 2 32 _ (by decide) (by decide) (by rfl) [0xD0]

end Request

end Caeco.Mqtt
