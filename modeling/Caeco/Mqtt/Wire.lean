import Caeco.Mqtt.Promises

/-!
# What goes over the wire

A call of `__mqtt_send` that does not find a packet half sent writes whole packets, in the
order of the queue, and perhaps the beginning of another one. On a socket that takes a packet
whole or not at all, the bytes of a session are packets to the last byte, and each of them is
one that the client was asked for.
-/

namespace Caeco.Mqtt

open Framing
open MessageQueue (Entry entryOf)
open Protocol (Label)

/-! ## Packets one after the other -/

/-- The packet at the front of a stream, as its fixed header delimits it. -/
def frame (bytes : List UInt8) : Decoded Error (List UInt8) :=
  match mqttUnpackFixedHeader bytes with
  | .incomplete => .incomplete
  | .failed e => .failed e
  | .done h n => .done (bytes.take (n + h.remainingLength)) (n + h.remainingLength)

theorem frame_append {bytes : List UInt8} (more : List UInt8) (h : frame bytes ≠ .incomplete) :
    frame (bytes ++ more) = frame bytes := by
  rw [frame] at h
  cases hheader : mqttUnpackFixedHeader bytes with
  | incomplete =>
      rw [hheader] at h
      exact absurd rfl h
  | failed e =>
      rw [frame, frame, mqttUnpackFixedHeader_append more (by rw [hheader]; simp), hheader]
  | done header n =>
      have hfound := mqttUnpackFixedHeader_done hheader
      rw [frame, frame, mqttUnpackFixedHeader_append more (by rw [hheader]; simp), hheader]
      simp only
      rw [List.take_append_of_le_length hfound.whole]

/-- What delimits the packets of a stream. -/
def frames : Decoder UInt8 Error (List UInt8) where
  decode := frame
  pos h := by
    rw [frame] at h
    split at h <;> cases h
    rename_i header n hheader
    have hfound := mqttUnpackFixedHeader_done hheader
    have := hfound.pos
    omega
  le h := by
    rw [frame] at h
    split at h <;> cases h
    rename_i header n hheader
    exact (mqttUnpackFixedHeader_done hheader).whole
  done_append more h := by rw [frame_append more (by rw [h]; simp), h]
  failed_append more h := by rw [frame_append more (by rw [h]; simp), h]

theorem frame_of_whole {bytes : List UInt8} (h : Request.Whole bytes) :
    frame bytes = .done bytes bytes.length := by
  obtain ⟨header, n, hdone, hlen⟩ := h
  rw [frame, hdone]
  simp only
  rw [hlen, List.take_length]

/-! ## A message with its DUP flag -/

theorem Request.draft_controlType {r : Request} {d : Draft} (h : r.draft = .ok d) :
    d.fixedHeader.controlType = r.controlType := by
  cases r with
  | connect r =>
      rw [draft, connectDraft] at h
      split at h <;> cases h
      rfl
  | publish topicName packetId applicationMessage publishFlags =>
      rw [draft, publishDraft] at h
      split at h <;> cases h
      rfl
  | subscribe packetId topics =>
      rw [draft, subscribeDraft] at h
      split at h <;> cases h
      rfl
  | unsubscribe packetId topics =>
      rw [draft, unsubscribeDraft] at h
      split at h <;> cases h
      rfl
  | _ => cases h; rfl

/-- The flags of a PUBLISH packet are free. -/
theorem FixedHeader.Valid.dup {h : FixedHeader} (hv : h.Valid) (htype : h.controlType = .publish) :
    FixedHeader.Valid { h with controlFlags := h.controlFlags ||| 0x08 } where
  rules := by
    have hfree : ∀ f : UInt8, mqttFixedHeaderRuleViolation ⟨.publish, f, h.remainingLength⟩
        = none := by
      intro f
      rw [mqttFixedHeaderRuleViolation]
      simp [controlTypeIsValid, maskRequiredFlags]
    rw [htype]
    exact hfree _
  flags := by
    rw [UInt8.toNat_or]
    exact Nat.or_lt_two_pow (n := 4) hv.flags (by decide)
  length := hv.length

theorem firstByte_dup (h : FixedHeader) :
    FixedHeader.firstByte { h with controlFlags := h.controlFlags ||| 0x08 }
      = h.firstByte ||| 0x08 := by
  have hflags : ∀ f : UInt8, (f ||| 0x08) &&& 0x0F = (f &&& 0x0F) ||| 0x08 :=
    forall_byte (by decide +kernel)
  simp only [FixedHeader.firstByte, hflags, UInt8.or_assoc]

/-- A packed message stays one packet when it is marked. -/
theorem Request.whole_dup {r : Request} {bufsz : Nat} {bytes : List UInt8}
    (hkind : r.controlType = .publish) (hpack : r.pack bufsz = .ok (some bytes))
    (hwhole : Whole bytes) : Whole (bytes.modify 0 fun b => b ||| 0x08) := by
  obtain ⟨d, hdraft, hv, rfl, _⟩ := pack_some hpack
  have htype := (draft_controlType hdraft).trans hkind
  rw [whole_iff hv] at hwhole
  have hmarked : (d.fixedHeader.bytes ++ d.body).modify 0 (fun b => b ||| 0x08)
      = FixedHeader.bytes { d.fixedHeader with
          controlFlags := d.fixedHeader.controlFlags ||| 0x08 } ++ d.body := by
    rw [FixedHeader.bytes, FixedHeader.bytes, firstByte_dup]
    rfl
  rw [hmarked, whole_iff (hv.dup htype)]
  exact hwhole

namespace MqttClient

variable {α : Type} {P : Platform α} {c c' c'' : MqttClient α} {bs : List (List UInt8)}

/-! ## A call of `__mqtt_send` -/

/-- Packets among `bs` have been written, in their order, and perhaps the beginning of the next
one; not so if the socket takes a packet whole or not at all. -/
inductive Wrote (bs : List (List UInt8)) (c c' : MqttClient α) : Prop where
  | whole (packets : List (List UInt8)) (hsub : packets.Sublist bs)
      (hwire : c'.wire = c.wire ++ packets.flatten) (hoffset : c'.sendOffset = 0)
  | part (packets : List (List UInt8)) (b : List UInt8) (hsub : (packets ++ [b]).Sublist bs)
      (hless : c'.sendOffset < b.length)
      (hwire : c'.wire = c.wire ++ packets.flatten ++ b.take c'.sendOffset)
      (hample : (∀ x ∈ c.sendings, Ample b.length x) → c'.sendOffset = 0)

theorem Wrote.nothing (hwire : c'.wire = c.wire) (hoffset : c'.sendOffset = 0) :
    Wrote bs c c' :=
  .whole [] (List.nil_sublist bs) (by rw [hwire, List.flatten_nil, List.append_nil]) hoffset

/-- A packet that is passed over. -/
theorem Wrote.skip {b : List UInt8} (h : Wrote bs c c') : Wrote (b :: bs) c c' := by
  cases h with
  | whole packets hsub hwire hoffset => exact .whole packets (hsub.cons b) hwire hoffset
  | part packets b' hsub hless hwire hample =>
      exact .part packets b' (hsub.cons b) hless hwire hample

/-- A packet that is written first. -/
theorem Wrote.after {b : List UInt8} (hwire : c'.wire = c.wire ++ b)
    (hsendings : c'.sendings <:+ c.sendings) (h : Wrote bs c' c'') : Wrote (b :: bs) c c'' := by
  cases h with
  | whole packets hsub hwire' hoffset =>
      refine .whole (b :: packets) (hsub.cons_cons b) ?_ hoffset
      rw [hwire', hwire, List.flatten_cons, List.append_assoc]
  | part packets b' hsub hless hwire' hample =>
      refine .part (b :: packets) b' (hsub.cons_cons b) hless ?_ fun hall => ?_
      · rw [hwire', hwire, List.flatten_cons, List.append_assoc c.wire]
      · exact hample fun x hx => hall x (hsendings.mem hx)

theorem Wrote.of_same (hwire : c'.wire = c.wire) (hsendings : c'.sendings = c.sendings)
    (h : Wrote bs c' c'') : Wrote bs c c'' := by
  cases h with
  | whole packets hsub hwire' hoffset => exact .whole packets hsub (by rw [hwire', hwire]) hoffset
  | part packets b hsub hless hwire' hample =>
      exact .part packets b hsub hless (by rw [hwire', hwire]) (by rw [← hsendings]; exact hample)

inductive SentWrites (bs : List (List UInt8)) (c : MqttClient α) : Sent α → Prop where
  | undefined : SentWrites bs c .undefined
  | returned {e} {c' : MqttClient α} (h : Wrote bs c c') (hsendings : c'.sendings <:+ c.sendings) :
      SentWrites bs c (.returned e c')
  | done {c' : MqttClient α} (h : Wrote bs c c') (hsendings : c'.sendings <:+ c.sendings) :
      SentWrites bs c (.done c')

theorem SentWrites.skip {b : List UInt8} {sent : Sent α} (h : SentWrites bs c sent) :
    SentWrites (b :: bs) c sent := by
  cases h with
  | undefined => exact .undefined
  | returned h hsendings => exact .returned h.skip hsendings
  | done h hsendings => exact .done h.skip hsendings

theorem SentWrites.after {b : List UInt8} {sent : Sent α} (hwire : c'.wire = c.wire ++ b)
    (hsuffix : c'.sendings <:+ c.sendings) (h : SentWrites bs c' sent) :
    SentWrites (b :: bs) c sent := by
  cases h with
  | undefined => exact .undefined
  | returned h hsendings => exact .returned (h.after hwire hsuffix) (hsendings.trans hsuffix)
  | done h hsendings => exact .done (h.after hwire hsuffix) (hsendings.trans hsuffix)

theorem SentWrites.of_same {sent : Sent α} (hwire : c'.wire = c.wire)
    (hsame : c'.sendings = c.sendings) (h : SentWrites bs c' sent) : SentWrites bs c sent := by
  cases h with
  | undefined => exact .undefined
  | returned h hsendings => exact .returned (h.of_same hwire hsame) (hsame ▸ hsendings)
  | done h hsendings => exact .done (h.of_same hwire hsame) (hsame ▸ hsendings)

theorem due_socket (c : MqttClient α) (msg : QueuedMessage) (hzero : c.sendOffset = 0) :
    (c.due P msg).2.wire = c.wire ∧ (c.due P msg).2.sendings = c.sendings ∧
      (c.due P msg).2.sendOffset = 0 := by
  rw [due]
  cases msg.state with
  | unsent => exact ⟨rfl, rfl, hzero⟩
  | awaitingAck =>
      simp only
      split
      · exact ⟨rfl, rfl, rfl⟩
      · exact ⟨rfl, rfl, hzero⟩
  | complete => exact ⟨rfl, rfl, hzero⟩

theorem sendMessages_writes : ∀ (n i : Nat) (inflight : Bool) {c : MqttClient α}, c.mq.Ok →
    c.sendOffset = 0 →
      SentWrites ((c.mq.entries.drop i).map Entry.bytes) c (sendMessages P n i inflight c) := by
  intro n
  induction n with
  | zero =>
      intro i inflight c _ hzero
      exact .done (.nothing rfl hzero) (List.suffix_refl _)
  | succ n ih =>
      intro i inflight c h hzero
      rw [sendMessages]
      cases hget : c.mq.messages[i]? with
      | none => exact .undefined
      | some msg =>
          obtain ⟨hmq, _⟩ := due_same (P := P) c msg
          obtain ⟨hwire, hsendings, hoffset⟩ := due_socket (P := P) c msg hzero
          simp only
          generalize c.due P msg = result at hmq hwire hsendings hoffset
          obtain ⟨resend, c₁⟩ := result
          simp only at hmq hwire hsendings hoffset
          have hok : c₁.mq.Ok := by rw [hmq]; exact h
          rw [← hmq] at hget ⊢
          have hentry := entry_of_message hget
          obtain ⟨hlt, hat⟩ := List.getElem?_eq_some_iff.mp hentry
          rw [List.drop_eq_getElem_cons hlt, List.map_cons, hat]
          refine .of_same hwire hsendings ?_
          cases resend && !(c₁.inflightQos2 msg && inflight) with
          | false => exact (ih _ _ hok hoffset).skip
          | true =>
              have hturn := sendMessage_effect (P := P) hok hget
              simp only [if_true]
              generalize c₁.sendMessage P i msg = turn at hturn
              cases hturn with
              | undefined _ => exact .undefined
              | refused _ _ hwire' hoffset' hsuffix =>
                  exact .returned (.nothing hwire' (hoffset'.trans hoffset)) hsuffix
              | @part c₂ sent _ _ hless hoffset' hwire' hsuffix hample =>
                  rw [hoffset, Nat.zero_add] at hoffset'
                  rw [hoffset, List.drop_zero] at hwire'
                  rw [hoffset, Nat.sub_zero] at hample
                  refine .done (.part [] _ (List.singleton_sublist.mpr (List.mem_cons_self ..))
                    hless ?_ fun hall => ?_) hsuffix
                  · rw [hwire', hoffset', List.flatten_nil, List.append_nil]
                  · rw [hoffset']
                    exact hample hall
              | returns hall =>
                  have hwire' := hall.wire
                  rw [hoffset, List.drop_zero] at hwire'
                  refine .returned (.whole [_] (List.singleton_sublist.mpr (List.mem_cons_self ..))
                    ?_ hall.offset) hall.sendings
                  rw [hwire', List.flatten_singleton]
              | @continues c₂ hall =>
                  obtain ⟨time, hentries⟩ := hall.entries
                  have hwire' := hall.wire
                  rw [hoffset, List.drop_zero] at hwire'
                  have hrest := ih (i + 1) (inflight || c₁.inflightQos2 msg)
                    hall.ok hall.offset
                  rw [hentries, List.drop_modify_of_lt _ _ _ _ (Nat.lt_succ_self i)] at hrest
                  exact hrest.after hwire' hall.sendings

/-! ### Everything else leaves the socket alone -/

/-- A relation between a client and what becomes of it which neither a change of the queue nor
one of the error, the numbers or the keep-alive time affects. Only `mqtt_connect` touches the
mutex. -/
structure Framed (ρ : MqttClient α → MqttClient α → Prop) : Prop where
  change (c : MqttClient α) (error : Option Error) (pidLfsr keepAlive : BitVec 16)
    (mq : MessageQueue) (readings records : Nat) :
    ρ c { c with
      error := error, pidLfsr := pidLfsr, keepAlive := keepAlive, mq := mq
      readings := readings, records := records }
  trans {c c' c'' : MqttClient α} : ρ c c' → ρ c' c'' → ρ c c''

def Keeps (ρ : MqttClient α → MqttClient α → Prop)
    (next : MqttClient α → Option Error × MqttClient α) : Prop := ∀ c, ρ c (next c).2

section Framed

variable {ρ : MqttClient α → MqttClient α → Prop} (hρ : Framed ρ)

include hρ

theorem Framed.ok : Keeps ρ (ok (α := α)) := fun c => hρ.change c _ _ _ _ _ _

theorem Framed.fail (e : Error) : Keeps ρ fun c : MqttClient α => c.fail e :=
  fun c => hρ.change c _ _ _ _ _ _

theorem Framed.tryPack (r : Request) (controlType : ControlPacketType)
    (packetId : Option (BitVec 16)) : Keeps ρ fun c => c.tryPack P r controlType packetId := by
  intro c
  simp only [MqttClient.tryPack]
  split
  · exact hρ.change c _ _ _ _ _ _
  · split
    · exact hρ.change c _ _ _ _ _ _
    · exact hρ.change c _ _ _ _ _ _
    · split <;> exact hρ.change c _ _ _ _ _ _

theorem Framed.staged {f g : MqttClient α → Option Error × MqttClient α} (hf : Keeps ρ f)
    (hg : Keeps ρ g) : Keeps ρ fun c => staged (f c) g := by
  intro c
  have hfirst := hf c
  simp only
  cases hresult : f c with
  | mk error c₁ =>
      rw [hresult] at hfirst
      cases error with
      | some e => exact hρ.trans hfirst (hρ.fail e c₁)
      | none => exact hρ.trans hfirst (hg c₁)

theorem Framed.release {next : MqttClient α → Option Error × MqttClient α} (hnext : Keeps ρ next)
    (controlType : ControlPacketType) (packetId : Option (BitVec 16)) :
    Keeps ρ fun c => c.release controlType packetId next := by
  intro c
  simp only [MqttClient.release]
  split
  · exact hρ.fail _ c
  · rename_i i _
    have hput : ρ c { c with mq := c.mq.modify i fun m => { m with state := .complete } } :=
      hρ.change c _ _ _ _ _ _
    exact hρ.trans hput (hnext _)

omit hρ in
theorem Keeps.ite {p : Prop} [Decidable p] {f g : MqttClient α → Option Error × MqttClient α}
    (hf : Keeps ρ f) (hg : Keeps ρ g) : Keeps ρ fun c => if p then f c else g c := by
  intro c
  by_cases hp : p
  · simp only [if_pos hp]
    exact hf c
  · simp only [if_neg hp]
    exact hg c

/-- The switch, but for the message that it hands over. -/
theorem Framed.handle (r : Response)
    (hdeliver : ∀ p, r.decoded = .publish p → Keeps ρ (deliver P p)) :
    Keeps ρ fun c => c.handle P r := by
  have hpub : ∀ controlType id, Keeps ρ fun c => mqttPubxxx P controlType c id :=
    fun controlType id => hρ.tryPack _ controlType (some id)
  intro c
  simp only [MqttClient.handle]
  cases hdecoded : r.decoded with
  | connack sessionPresentFlag returnCode =>
      exact hρ.release (.ite (.ite (hρ.fail _) (hρ.fail _)) hρ.ok) .connect none c
  | publish p =>
      have hdelivered := hdeliver p hdecoded
      exact Keeps.ite (hρ.staged (hpub _ _) hdelivered)
        (.ite (fun c => Keeps.ite hρ.ok (hρ.staged (hpub _ _) hdelivered) c) hdelivered) c
  | puback id => exact hρ.release hρ.ok .publish (some id) c
  | pubrec id =>
      exact Keeps.ite hρ.ok (hρ.release (hρ.staged (hpub _ _) hρ.ok) .publish (some id)) c
  | pubrel id => exact hρ.release (hρ.staged (hpub _ _) hρ.ok) .pubrec (some id) c
  | pubcomp id => exact hρ.release hρ.ok .pubrel (some id) c
  | suback id returnCodes => exact hρ.release (.ite (hρ.fail _) hρ.ok) .subscribe (some id) c
  | unsuback id => exact hρ.release hρ.ok .unsubscribe (some id) c
  | pingresp => exact hρ.release hρ.ok .pingreq none c

theorem Framed.keepAlivePing : Keeps ρ (keepAlivePing P) := by
  intro c
  have hread : ρ c (c.readTime P).2 := hρ.change c _ _ _ _ _ _
  rw [MqttClient.keepAlivePing]
  simp only
  split
  · exact hρ.trans hread (hρ.staged (hρ.tryPack .pingreq .pingreq none) hρ.ok _)
  · exact hρ.trans hread (hρ.ok _)

/-- A request under a number of its own. -/
theorem Framed.request {controlType : ControlPacketType} (r : BitVec 16 → Request)
    {result : Option Error × MqttClient α}
    (hcall : (c.nextPid.map fun x => x.2.tryPack P (r x.1) controlType (some x.1)) = some result) :
    ρ c result.2 := by
  obtain ⟨⟨id, c₁⟩, hnext, rfl⟩ := Option.map_eq_some_iff.mp hcall
  obtain ⟨_, _, heq⟩ := Option.map_eq_some_iff.mp hnext
  cases heq
  exact hρ.trans (hρ.change c _ _ _ _ _ _) (hρ.tryPack _ _ _ _)

theorem Framed.mqttConnect (hlock : ∀ c : MqttClient α, ρ c { c with locked := false })
    (r : ConnectRequest) : Keeps ρ fun c => c.mqttConnect P r := by
  intro c
  simp only [MqttClient.mqttConnect]
  split <;>
    exact hρ.trans (hρ.trans (hρ.change c _ _ _ _ _ _) (hρ.tryPack _ _ _ _)) (hlock _)

end Framed

structure SameSocket (c c' : MqttClient α) : Prop where
  wire : c'.wire = c.wire
  sendings : c'.sendings = c.sendings
  sendOffset : c'.sendOffset = c.sendOffset

theorem framed_sameSocket : Framed (SameSocket (α := α)) where
  change _ _ _ _ _ _ _ := ⟨rfl, rfl, rfl⟩
  trans h h' :=
    ⟨h'.wire.trans h.wire, h'.sendings.trans h.sendings, h'.sendOffset.trans h.sendOffset⟩

theorem handle_socket (c : MqttClient α) (r : Response) : SameSocket c (c.handle P r).2 :=
  framed_sameSocket.handle r (fun _ _ _ => ⟨rfl, rfl, rfl⟩) c

theorem Wrote.then_same (h : Wrote bs c c') (hsame : SameSocket c' c'') : Wrote bs c c'' := by
  cases h with
  | whole packets hsub hwire hoffset =>
      exact .whole packets hsub (hsame.wire.trans hwire) (hsame.sendOffset.trans hoffset)
  | part packets b hsub hless hwire hample =>
      rw [← hsame.sendOffset] at hless hwire hample
      exact .part packets b hsub hless (hsame.wire.trans hwire) hample

/-- **A call writes whole packets, in the order of the queue**, and perhaps the beginning of
the next one, if the last call has not left one half written. -/
theorem mqttSend_writes (h : c.mq.Ok) (hzero : c.sendOffset = 0)
    {result : Option Error × MqttClient α} (hsend : c.mqttSend P = some result) :
    Wrote (c.mq.entries.map Entry.bytes) c result.2 ∧ result.2.sendings <:+ c.sendings := by
  rw [mqttSend] at hsend
  split at hsend
  · have hloop := sendMessages_writes (P := P) c.mq.messages.length 0 false h hzero
    rw [List.drop_zero] at hloop
    generalize c.sendMessages P c.mq.messages.length 0 false = sent at hloop hsend
    cases hloop with
    | undefined => cases hsend
    | returned hwrote hsendings =>
        cases hsend
        exact ⟨hwrote, hsendings⟩
    | @done c' hwrote hsendings =>
        have hping := framed_sameSocket.keepAlivePing (P := P) c'
        cases hsend
        exact ⟨hwrote.then_same hping, by rw [hping.sendings]; exact hsendings⟩
  · cases hsend
    exact ⟨.nothing rfl hzero, List.suffix_refl _⟩

end MqttClient

/-! ## What is queued has been packed -/

/-- The packet of a request, perhaps marked as sent before. -/
def Made (R : Request → Prop) (controlType : ControlPacketType) (b : List UInt8) : Prop :=
  ∃ r bufsz bytes, R r ∧ r.controlType = controlType ∧ r.pack bufsz = .ok (some bytes) ∧
    (b = bytes ∨ controlType = .publish ∧ b = bytes.modify 0 fun b => b ||| 0x08)

theorem Made.mono {R R' : Request → Prop} (hR : ∀ r, R r → R' r)
    {controlType : ControlPacketType} {b : List UInt8} (h : Made R controlType b) :
    Made R' controlType b := by
  obtain ⟨r, bufsz, bytes, hr, hrest⟩ := h
  exact ⟨r, bufsz, bytes, hR r hr, hrest⟩

def AllMade (R : Request → Prop) (es : List Entry) : Prop :=
  ∀ e ∈ es, Made R e.controlType e.bytes

variable {R : Request → Prop}

theorem Made.of_packed {e : Entry} {r : Request} {bufsz : Nat} (hr : R r)
    (hkind : r.controlType = e.controlType) (hpack : r.pack bufsz = .ok (some e.bytes)) :
    Made R e.controlType e.bytes := ⟨r, bufsz, e.bytes, hr, hkind, hpack, .inl rfl⟩

theorem Made.sentAt {e : Entry} (h : Made R e.controlType e.bytes) (time : Nat) :
    Made R (Protocol.sentAt time e).controlType (Protocol.sentAt time e).bytes := by
  obtain ⟨r, bufsz, bytes, hr, hkind, hpack, hbytes⟩ := h
  refine ⟨r, bufsz, bytes, hr, hkind, hpack, ?_⟩
  show Protocol.bytesAfterSend e = bytes ∨ e.controlType = .publish ∧ Protocol.bytesAfterSend e = _
  rw [Protocol.bytesAfterSend]
  split
  · rename_i hmarked
    refine .inr ⟨hmarked.1, ?_⟩
    rcases hbytes with rfl | ⟨_, hbytes⟩
    · rfl
    · -- the mark is set twice
      rw [hbytes, List.modify_modify_eq]
      congr 1
      funext b
      exact UInt8.or_assoc b 8 8
  · exact hbytes

theorem AllMade.modify {es : List Entry} (h : AllMade R es) {f : Entry → Entry}
    (hf : ∀ e, Made R e.controlType e.bytes → Made R (f e).controlType (f e).bytes) (i : Nat) :
    AllMade R (es.modify i f) := by
  cases hget : es[i]? with
  | none => rwa [List.modify_eq_self (List.getElem?_eq_none_iff.mp hget)]
  | some e =>
      obtain ⟨hes, hmodify⟩ := Protocol.split_at hget f
      rw [AllMade, hes, List.forall_mem_append, List.forall_mem_cons] at h
      rw [AllMade, hmodify, List.forall_mem_append, List.forall_mem_cons]
      exact ⟨h.1, hf e h.2.1, h.2.2⟩

theorem AllMade.concat {es : List Entry} {e : Entry} (h : AllMade R es)
    (he : Made R e.controlType e.bytes) : AllMade R (es ++ [e]) :=
  List.forall_mem_append.mpr ⟨h, List.forall_mem_singleton.mpr he⟩

theorem allMade_step {α : Type} {callback : α → Client.ResponsePublish → α}
    {s s' : Protocol.State α} {l : Label} (h : AllMade R s.entries) (hl : Packs R l)
    (hstep : Protocol.step callback s l = some s') : AllMade R s'.entries := by
  obtain ⟨_, rfl⟩ := Protocol.step_eq_some.mp hstep
  cases l with
  | clean => exact fun e he => h e ((List.dropWhile_sublist _).mem he)
  | request e =>
      obtain ⟨r, bufsz, hr, hkind, hpack⟩ := hl
      exact h.concat (.of_packed hr hkind hpack)
  | reply e =>
      obtain ⟨r, bufsz, hr, hkind, hpack⟩ := hl
      exact h.concat (.of_packed hr hkind hpack)
  | receive e p =>
      obtain ⟨r, bufsz, hr, hkind, hpack⟩ := hl
      exact h.concat (.of_packed hr hkind hpack)
  | deliver p => exact h
  | acked controlType packetId =>
      rw [Protocol.effect]
      split
      · exact h
      · exact h.modify (f := Protocol.complete) (fun _ he => he) _
  | sent i time => exact h.modify (fun e he => he.sentAt time) i

theorem MqttClient.Does.allMade {α : Type} {P : Platform α} {c c' : MqttClient α}
    {labels : List Label} (h : MqttClient.Does P R c labels c') (hmade : AllMade R c.mq.entries) :
    AllMade R c'.mq.entries :=
  Runs.run_invariant_of_forall (I := fun s : Protocol.State α => AllMade R s.entries)
    (fun _ _ _ hs hl hstep => allMade_step hs hl hstep) hmade h.packs h.run

/-! ## Sessions -/

/-- The strings of a call, which a packer cuts off at 64 KiB. -/
def Action.strings : Action → List (List UInt8)
  | .connect r => (Request.connect r).strings
  | .publish topicName _ _ => [topicName]
  | .subscribe topicName _ => [topicName]
  | .unsubscribe topicName => [topicName]
  | _ => []

/-- A call that packs packets as they should be. -/
def Action.Plain (a : Action) : Prop := a.Fits ∧ ∀ s ∈ a.strings, s.length < 2 ^ 16

instance (a : Action) : Decidable a.Plain := inferInstanceAs (Decidable (_ ∧ _))

/-- The socket takes `size` bytes or none. -/
def Action.Ample (size : Nat) : Action → Prop
  | .accept sendings => ∀ x ∈ sendings, Mqtt.Ample size x
  | _ => True

instance (size : Nat) : ∀ a : Action, Decidable (a.Ample size)
  | .accept sendings => inferInstanceAs (Decidable (∀ x ∈ sendings, Mqtt.Ample size x))
  | .connect _ | .publish .. | .subscribe .. | .unsubscribe _ | .arrive _ | .ping | .disconnect
  | .recv | .send => .isTrue trivial

theorem Action.Asks.plain {a : Action} {r : Request} (h : a.Asks r) (ha : a.Plain) :
    r.size < 2 ^ 32 ∧ ∀ s ∈ r.strings, s.length < 2 ^ 16 := by
  cases a with
  | connect c =>
      cases h
      exact ha
  | publish topicName applicationMessage publishFlags =>
      obtain ⟨id, _, rfl⟩ := h
      exact ha
  | subscribe topicName maxQosLevel =>
      obtain ⟨id, _, rfl⟩ := h
      exact ha
  | unsubscribe topicName =>
      obtain ⟨id, _, rfl⟩ := h
      exact ha
  | ping =>
      cases h
      exact ⟨by decide, by simp [Request.strings]⟩
  | disconnect =>
      cases h
      exact ⟨by decide, by simp [Request.strings]⟩
  | send =>
      cases h
      exact ⟨by decide, by simp [Request.strings]⟩
  | arrive arrivals => exact h.elim
  | accept sendings => exact h.elim
  | recv => exact h.elim

theorem reply_plain {p : Packet} {r : Request} (h : reply p = some r) :
    r.size < 2 ^ 32 ∧ ∀ s ∈ r.strings, s.length < 2 ^ 16 := by
  have hpubxxx : ∃ controlType id, r = .pubxxx controlType id := by
    cases p with
    | publish p =>
        simp only [reply] at h
        split at h
        · exact ⟨_, _, (Option.some.inj h).symm⟩
        · split at h
          · exact ⟨_, _, (Option.some.inj h).symm⟩
          · cases h
    | pubrec id => exact ⟨_, _, (Option.some.inj h).symm⟩
    | pubrel id => exact ⟨_, _, (Option.some.inj h).symm⟩
    | _ => cases h
  obtain ⟨controlType, id, rfl⟩ := hpubxxx
  exact ⟨MqttClient.size_pubxxx controlType id, by simp [Request.strings]⟩

theorem Made.whole {controlType : ControlPacketType} {b : List UInt8} (h : Made R controlType b)
    (hplain : ∀ r, R r → r.size < 2 ^ 32 ∧ ∀ s ∈ r.strings, s.length < 2 ^ 16) :
    Request.Whole b := by
  obtain ⟨r, bufsz, bytes, hr, hkind, hpack, hbytes⟩ := h
  obtain ⟨hsize, hstrings⟩ := hplain r hr
  have hwhole := (Request.whole_iff_lost hsize hpack).mpr
    ((Request.lost_eq_zero_iff r).mpr hstrings)
  rcases hbytes with rfl | ⟨hpublish, rfl⟩
  · exact hwhole
  · exact Request.whole_dup (hkind.trans hpublish) hpack hwhole

theorem Ample.le {m n : Nat} {x : Sending} (h : Ample n x) (hle : m ≤ n) : Ample m x := by
  cases x with
  | accepted k => exact Nat.le_trans hle h
  | again => trivial
  | failed => trivial

namespace Session

open MqttClient (SameSocket Wrote)

variable {α : Type} {P : Platform α} {s s' : Session α} {size : Nat}

/-- Packets of `R` have been written, and none of them is half written. -/
structure OnWire (R : Request → Prop) (size : Nat) (c : MqttClient α) : Prop where
  offset : c.sendOffset = 0
  ample : ∀ x ∈ c.sendings, Ample size x
  wire : ∃ packets : List (List UInt8), c.wire = packets.flatten ∧
    ∀ b ∈ packets, ∃ controlType, Made R controlType b

theorem OnWire.same {c c' : MqttClient α} (h : OnWire R size c) (hsame : SameSocket c c') :
    OnWire R size c' where
  offset := hsame.sendOffset.trans h.offset
  ample := by rw [hsame.sendings]; exact h.ample
  wire := by rw [hsame.wire]; exact h.wire

theorem OnWire.mono {R' : Request → Prop} (hR : ∀ r, R r → R' r) {c : MqttClient α}
    (h : OnWire R size c) : OnWire R' size c where
  offset := h.offset
  ample := h.ample
  wire := by
    obtain ⟨packets, hwire, hall⟩ := h.wire
    refine ⟨packets, hwire, fun b hb => ?_⟩
    obtain ⟨controlType, hmade⟩ := hall b hb
    exact ⟨controlType, hmade.mono hR⟩

theorem OnWire.wrote {c c' : MqttClient α} {es : List Entry} (h : OnWire R size c)
    (hwrote : Wrote (es.map Entry.bytes) c c') (hsendings : c'.sendings <:+ c.sendings)
    (hmade : AllMade R es) (hsize : ∀ e ∈ es, e.bytes.length ≤ size) : OnWire R size c' := by
  have hof : ∀ {packets : List (List UInt8)}, packets.Sublist (es.map Entry.bytes) →
      ∀ b ∈ packets, ∃ e ∈ es, e.bytes = b :=
    fun hsub b hb => List.mem_map.mp (hsub.mem hb)
  have hafter : ∀ {packets : List (List UInt8)}, packets.Sublist (es.map Entry.bytes) →
      c'.wire = c.wire ++ packets.flatten →
        ∃ packets : List (List UInt8), c'.wire = packets.flatten ∧
        ∀ b ∈ packets, ∃ controlType, Made R controlType b := by
    intro packets hsub hwire
    obtain ⟨before, hbefore, hall⟩ := h.wire
    refine ⟨before ++ packets, ?_, List.forall_mem_append.mpr ⟨hall, fun b hb => ?_⟩⟩
    · rw [hwire, hbefore, List.flatten_append]
    · obtain ⟨e, he, rfl⟩ := hof hsub b hb
      exact ⟨_, hmade e he⟩
  have hample : ∀ x ∈ c'.sendings, Ample size x := fun x hx => h.ample x (hsendings.mem hx)
  cases hwrote with
  | whole packets hsub hwire hoffset => exact ⟨hoffset, hample, hafter hsub hwire⟩
  | part packets b hsub hless hwire hnone =>
      obtain ⟨e, he, rfl⟩ := hof hsub b (List.mem_append_right _ (List.mem_singleton_self b))
      have hoffset := hnone fun x hx => (h.ample x hx).le (hsize e he)
      rw [hoffset, List.take_zero, List.append_nil] at hwire
      exact ⟨hoffset, hample, hafter ((List.sublist_append_left packets _).trans hsub) hwire⟩

variable {x x' : MqttClient α × List Packet}

theorem OnWire.mqttSend (hgoes : Goes P R x x') (hnil : x.1.mq.entries = [])
    (h : OnWire (Due R x'.2) x.1.mq.mem.length x'.1) {result : Option Error × MqttClient α}
    (hsend : x'.1.mqttSend P = some result) :
    OnWire (Due R x'.2) x.1.mq.mem.length result.2 := by
  obtain ⟨labels, _, hdoes, _⟩ := hgoes
  obtain ⟨hwrote, hsendings⟩ := MqttClient.mqttSend_writes hdoes.ok h.offset hsend
  refine h.wrote hwrote hsendings (hdoes.allMade (by rw [hnil]; exact List.forall_mem_nil _))
    fun e he => ?_
  obtain ⟨m, _, rfl⟩ := List.mem_map.mp he
  rw [← hdoes.block.length, MessageQueue.entryOf, List.length_take, List.length_drop]
  omega

theorem OnWire.handle (h : OnWire (Due R x.2) size x.1) (r : Response) :
    OnWire (Due R (logging (MqttClient.handle P) x r).2.2) size
      (logging (MqttClient.handle P) x r).2.1 :=
  (h.same (MqttClient.handle_socket x.1 r)).mono (Due.append _)

/-- Every step keeps the packets on the wire whole. -/
theorem step_onWire (hgoes : Goes P R x s.client) (hnil : x.1.mq.entries = [])
    (h : OnWire (Due R s.client.2) x.1.mq.mem.length s.client.1) (hs : s.buffer.Ok) {a : Action}
    (hample : a.Ample x.1.mq.mem.length) (hstep : step P s a = some s') :
    OnWire (Due R s'.client.2) x.1.mq.mem.length s'.client.1 := by
  obtain ⟨_, hstep⟩ := step_eq_some.mp hstep
  have hrequest : ∀ {call : Option (Option Error × MqttClient α)},
      (∀ result, call = some result → OnWire (Due R s.client.2) x.1.mq.mem.length result.2) →
      (call.map fun r => withClient s r.2) = some s' →
        OnWire (Due R s'.client.2) x.1.mq.mem.length s'.client.1 := by
    intro call hcall hresult
    obtain ⟨r, hr, rfl⟩ := Option.map_eq_some_iff.mp hresult
    exact hcall r hr
  cases a with
  | arrive arrivals =>
      cases hstep
      exact h
  | accept sendings =>
      cases hstep
      exact { offset := h.offset, wire := h.wire
              ample := List.forall_mem_append.mpr ⟨h.ample, hample⟩ }
  | connect r =>
      cases hstep
      exact h.same (MqttClient.framed_sameSocket.mqttConnect (fun _ => ⟨rfl, rfl, rfl⟩) r _)
  | publish topicName applicationMessage publishFlags =>
      exact hrequest (fun _ hcall => h.same (MqttClient.framed_sameSocket.request
        (fun id => .publish topicName id applicationMessage publishFlags) hcall)) hstep
  | subscribe topicName maxQosLevel =>
      exact hrequest (fun _ hcall => h.same (MqttClient.framed_sameSocket.request
        (fun id => .subscribe id [(topicName, maxQosLevel)]) hcall)) hstep
  | unsubscribe topicName =>
      exact hrequest (fun _ hcall => h.same (MqttClient.framed_sameSocket.request
        (fun id => .unsubscribe id [topicName]) hcall)) hstep
  | ping =>
      cases hstep
      exact h.same (MqttClient.framed_sameSocket.tryPack .pingreq .pingreq none _)
  | disconnect =>
      cases hstep
      exact h.same (MqttClient.framed_sameSocket.tryPack .disconnect .disconnect none _)
  | recv =>
      obtain ⟨r, hrecv, rfl⟩ := Option.map_eq_some_iff.mp hstep
      exact (mqttRecv_invariant
        (I := fun y => OnWire (Due R y.2) x.1.mq.mem.length y.1)
        (fun y r hy => hy.handle r) (fun y e hy => hy.same ⟨rfl, rfl, rfl⟩) h hs hrecv).1
  | send => exact hrequest (fun _ hsend => h.mqttSend hgoes hnil hsend) hstep

section Runs

variable {recvbuf sendbuf : List UInt8} {sizeofMessage timeOfLastSend : Nat}
  {keepAlive : BitVec 16} {state : α} {actions : List Action}

theorem run_onWire (hsmall : recvbuf.length < 2 ^ 32) (hfits : ∀ a ∈ actions, a.Fits)
    (hample : ∀ a ∈ actions, a.Ample sendbuf.length)
    (hasked : ∀ a ∈ actions, ∀ r, a.Asks r → R r)
    (hrun : Runs.run (step P)
      (init recvbuf sendbuf sizeofMessage keepAlive timeOfLastSend state) actions = some s) :
    (Goes P R (init recvbuf sendbuf sizeofMessage keepAlive timeOfLastSend state).client s.client ∧
      s.buffer.Ok) ∧ OnWire (Due R s.client.2) sendbuf.length s.client.1 := by
  refine Runs.run_invariant_of_forall
    (I := fun t : Session α => (Goes P R
        (init recvbuf sendbuf sizeofMessage keepAlive timeOfLastSend state).client t.client ∧
          t.buffer.Ok) ∧ OnWire (Due R t.client.2) sendbuf.length t.client.1)
    (p := fun a => a ∈ actions) ?_ ?_ (fun a ha => ha) hrun
  · rintro t a t' ⟨⟨hgoes, hbuffer⟩, hwire⟩ ha hstep
    obtain ⟨hstepped, hbuffer'⟩ := step_goes hgoes.ok hbuffer (hfits a ha) (hasked a ha) hstep
    exact ⟨⟨hgoes.trans hstepped, hbuffer'⟩,
      step_onWire hgoes rfl hwire hbuffer (hample a ha) hstep⟩
  · exact ⟨⟨.of_quietly (.nil (MessageQueue.init_ok sendbuf sizeofMessage) rfl rfl) rfl,
      ⟨Nat.zero_add _, hsmall⟩⟩,
      { offset := rfl, ample := List.forall_mem_nil _, wire := ⟨[], rfl, List.forall_mem_nil _⟩ }⟩

/-- **The broker is sent packets and nothing else.** Where the socket takes a packet whole or
not at all, and the application's strings are shorter than 64 KiB and its packets than 4 GiB,
the bytes written in any session are packets one after the other. Each of them is one that the
application asked for or a ping, or it acknowledges, with its number, a packet that has been
handed over; but for its DUP flag. -/
theorem wire_packets (hsmall : recvbuf.length < 2 ^ 32) (hplain : ∀ a ∈ actions, a.Plain)
    (hample : ∀ a ∈ actions, a.Ample sendbuf.length)
    (hrun : Runs.run (step P)
      (init recvbuf sendbuf sizeofMessage keepAlive timeOfLastSend state) actions = some s) :
    ∃ packets, Parses frames s.client.1.wire packets [] ∧
      ∀ b ∈ packets, ∃ controlType, Made (Due (Asked actions) s.log) controlType b := by
  obtain ⟨_, _, _, packets, hwire, hmade⟩ := run_onWire (R := Asked actions) hsmall
    (fun a ha => (hplain a ha).1) hample (fun a ha r hr => ⟨a, ha, hr⟩) hrun
  refine ⟨packets, ?_, hmade⟩
  have hwhole : ∀ b ∈ packets, frames.decode b = .done (id b) b.length := by
    intro b hb
    obtain ⟨controlType, hb⟩ := hmade b hb
    refine frame_of_whole (hb.whole fun r hr => ?_)
    rcases hr with ⟨a, ha, hasks⟩ | ⟨p, _, hreply⟩
    · exact hasks.plain (hplain a ha)
    · exact reply_plain hreply
  have hparses := parses_flatten id hwhole
  rwa [← hwire, List.map_id] at hparses

/-- A message of level 1, for which the socket has no room at first, and which is sent again
when its time has run out; a message of level 2 from the broker, which is acknowledged. -/
def resent : List Action :=
  [.connect ⟨some [0x61], none, none, none, none, 2, 400⟩, .accept [.accepted 300]] ++ sync ++
    [.arrive [.data [0x20, 2, 0, 0, 0x34, 6, 0, 1, 0x61, 0, 7, 1]], .publish [0x61] [1, 2] 2,
      .accept [.again, .accepted 300, .accepted 300], .recv] ++ List.replicate 20 .send

theorem wire_packets_resent :
    ∃ s : Session Nat,
      Runs.run (step (counting fun n _ => n + 1))
        (init (List.replicate 32 0) (List.replicate 300 0) 24 0 0 0) resent = some s ∧
      ∃ packets, Parses frames s.client.1.wire packets [] ∧
        ∀ b ∈ packets, ∃ controlType, Made (Due (Asked resent) s.log) controlType b := by
  have hrun : (Runs.run (step (counting fun n _ => n + 1))
      (init (List.replicate 32 0) (List.replicate 300 0) 24 0 0 0) resent).isSome = true := by
    decide +kernel
  obtain ⟨s, hs⟩ := Option.isSome_iff_exists.mp hrun
  exact ⟨s, hs, wire_packets (by decide) (by decide) (by decide +kernel) hs⟩

end Runs

end Session

end Caeco.Mqtt
