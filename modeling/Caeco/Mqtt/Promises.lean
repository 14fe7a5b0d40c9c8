import Caeco.Mqtt.Exchange

/-!
# What a session keeps

Whatever comes in, whatever the application calls and however slowly the socket takes the
bytes: the requests of a session carry different numbers, none of them is given up before it
has been answered, and no message of level 2 is handed over twice.
-/

namespace Caeco.Mqtt

open Client (ResponsePublish)
open MessageQueue (Entry)
open MqttClient (Does Quietly)
open Protocol (Label Inv Owed SameRequest Qos2 own publishId received record)

/-- A call whose packet is smaller than 4 GiB, as every packer assumes: it computes the size in
32 bits and copies the strings whole. -/
def Action.Fits : Action → Prop
  | .connect r => (Request.connect r).size < 2 ^ 32
  | .publish topicName applicationMessage publishFlags =>
      (Request.publish topicName 0 applicationMessage publishFlags).size < 2 ^ 32
  | .subscribe topicName maxQosLevel =>
      (Request.subscribe 0 [(topicName, maxQosLevel)]).size < 2 ^ 32
  | .unsubscribe topicName => (Request.unsubscribe 0 [topicName]).size < 2 ^ 32
  | _ => True

instance : ∀ a : Action, Decidable a.Fits
  | .connect _ | .publish .. | .subscribe .. | .unsubscribe _ => inferInstanceAs (Decidable (_ < _))
  | .arrive _ | .accept _ | .ping | .disconnect | .recv | .send => .isTrue trivial

/-- What an action has the client pack, whatever has come in: what the application calls for,
under a number other than 0, and the pings of `__mqtt_send`. -/
def Action.Asks : Action → Request → Prop
  | .connect c, r => r = .connect c
  | .publish topicName applicationMessage publishFlags, r =>
      ∃ id ≠ 0, r = .publish topicName id applicationMessage publishFlags
  | .subscribe topicName maxQosLevel, r => ∃ id ≠ 0, r = .subscribe id [(topicName, maxQosLevel)]
  | .unsubscribe topicName, r => ∃ id ≠ 0, r = .unsubscribe id [topicName]
  | .ping, r => r = .pingreq
  | .disconnect, r => r = .disconnect
  | .send, r => r = .pingreq
  | .arrive _, _ | .accept _, _ | .recv, _ => False

/-- What the actions of a run have the client pack. -/
def Asked (actions : List Action) (r : Request) : Prop := ∃ a ∈ actions, a.Asks r

/-- What the client packs: what it is asked for, and the acknowledgements of the packets that
it has been handed. -/
def Due (asked : Request → Prop) (log : List Packet) (r : Request) : Prop :=
  asked r ∨ ∃ p ∈ log, reply p = some r

theorem Due.append {asked : Request → Prop} {log : List Packet} (new : List Packet)
    (r : Request) : Due asked log r → Due asked (log ++ new) r :=
  .imp_right fun ⟨p, hp, hr⟩ => ⟨p, List.mem_append_left new hp, hr⟩

namespace Session

variable {α : Type} {P : Platform α} {R : Request → Prop} {s s' s'' : Session α}

/-- The client has gone through labels whose releases the broker has sent, and has packed what
it was asked for (`R`) or what acknowledges a packet handed over. -/
def Goes (P : Platform α) (R : Request → Prop) (x x' : MqttClient α × List Packet) : Prop :=
  ∃ labels new, Does P (Due R x'.2) x.1 labels x'.1 ∧ x'.2 = x.2 ++ new ∧
    (acks labels).Sublist (new.filterMap answer)

variable {x x' x'' : MqttClient α × List Packet}

theorem Goes.of_quietly (h : Quietly P (Due R x.2) x.1 x'.1) (hlog : x'.2 = x.2) :
    Goes P R x x' := by
  obtain ⟨labels, hdoes, hquiet⟩ := h
  exact ⟨labels, [], by rw [hlog]; exact hdoes, by rw [hlog, List.append_nil],
    by rw [hquiet]; exact .slnil⟩

theorem Goes.trans (h : Goes P R x x') (h' : Goes P R x' x'') : Goes P R x x'' := by
  obtain ⟨labels, new, hdoes, hlog, hacks⟩ := h
  obtain ⟨labels', new', hdoes', hlog', hacks'⟩ := h'
  have hmore : Does P (Due R x''.2) x.1 labels x'.1 := by
    rw [hlog']
    exact hdoes.mono (Due.append new')
  refine ⟨labels ++ labels', new ++ new', hmore.trans hdoes', ?_, ?_⟩
  · rw [hlog', hlog, List.append_assoc]
  · rw [acks_append, List.filterMap_append]
    exact hacks.append hacks'

theorem Goes.ok (h : Goes P R x x') : x'.1.mq.Ok := by
  obtain ⟨_, _, hdoes, _⟩ := h
  exact hdoes.ok

theorem handle_goes (h : x.1.mq.Ok) (r : Response) :
    Goes P R x (logging (MqttClient.handle P) x r).2 := by
  -- the packet is in the log when it is acknowledged
  have hreply : ∀ q, reply r.decoded.packet = some q → Due R (x.2 ++ [r.decoded.packet]) q :=
    fun q hq => .inr ⟨_, List.mem_append_right _ (List.mem_singleton_self _), hq⟩
  obtain ⟨labels, hdoes, hacks⟩ := MqttClient.handle_does (P := P) hreply h
  refine ⟨labels, [r.decoded.packet], hdoes, rfl, ?_⟩
  rw [List.filterMap_cons]
  cases hanswer : answer r.decoded.packet with
  | none =>
      rw [hanswer] at hacks
      exact hacks
  | some a =>
      rw [hanswer] at hacks
      exact hacks

/-- What the switch and an error leave alone is left alone by `__mqtt_recv`. -/
theorem mqttRecv_invariant {I : MqttClient α × List Packet → Prop}
    (hI : ∀ x r, I x → I (logging (MqttClient.handle P) x r).2)
    (herror : ∀ x e, I x → I ({ x.1 with error := e }, x.2)) (h : I s.client)
    (hs : s.buffer.Ok) {result : Option Error × Session α} (hcall : mqttRecv P s = some result) :
    I result.2.client ∧ result.2.buffer.Ok := by
  obtain ⟨outcome, hrun, hrecv⟩ := mqttRecv_recv (logging (MqttClient.handle P)) hs
  rw [mqttRecv, hrun] at hcall
  cases outcome with
  | undefined => cases hcall
  | returned error s₁ =>
      obtain ⟨hclient, hbuffer⟩ := hrecv.invariant hI h hs rfl
      cases error with
      | none =>
          cases hcall
          exact ⟨hclient, hbuffer⟩
      | some e =>
          cases hcall
          exact ⟨herror _ _ hclient, hbuffer⟩

/-- **Every step of a session keeps to the exchange.** -/
theorem step_goes (h : s.client.1.mq.Ok) (hs : s.buffer.Ok) {a : Action} (ha : a.Fits)
    (hasked : ∀ r, a.Asks r → R r) (hstep : step P s a = some s') :
    Goes P R s.client s'.client ∧ s'.buffer.Ok := by
  obtain ⟨_, hstep⟩ := step_eq_some.mp hstep
  have hdue : ∀ r, a.Asks r → Due R s.client.2 r := fun r hr => .inl (hasked r hr)
  -- a call that leaves the receive buffer alone
  have hrequest : ∀ {call : Option (Option Error × MqttClient α)},
      (∀ result, call = some result → Quietly P (Due R s.client.2) s.client.1 result.2) →
      (call.map fun r => withClient s r.2) = some s' →
        Goes P R s.client s'.client ∧ s'.buffer.Ok := by
    intro call hcall hresult
    obtain ⟨r, hr, rfl⟩ := Option.map_eq_some_iff.mp hresult
    exact ⟨.of_quietly (hcall r hr) rfl, hs⟩
  cases a with
  | arrive arrivals =>
      cases hstep
      exact ⟨.of_quietly (.nil h rfl rfl) rfl, hs⟩
  | accept sendings =>
      cases hstep
      exact ⟨.of_quietly (.nil h rfl rfl) rfl, hs⟩
  | connect r =>
      cases hstep
      exact ⟨.of_quietly (MqttClient.mqttConnect_does h (hdue _ rfl) ha) rfl, hs⟩
  | publish topicName applicationMessage publishFlags =>
      refine hrequest (fun _ hcall => ?_) hstep
      exact MqttClient.mqttPublish_does h (fun id hid => hdue _ ⟨id, hid, rfl⟩) ha hcall
  | subscribe topicName maxQosLevel =>
      refine hrequest (fun _ hcall => ?_) hstep
      exact MqttClient.mqttSubscribe_does h (fun id hid => hdue _ ⟨id, hid, rfl⟩) ha hcall
  | unsubscribe topicName =>
      refine hrequest (fun _ hcall => ?_) hstep
      exact MqttClient.mqttUnsubscribe_does h (fun id hid => hdue _ ⟨id, hid, rfl⟩) ha hcall
  | ping =>
      cases hstep
      exact ⟨.of_quietly
        ((MqttClient.tryPack_packed h (by decide) none).reply (hdue _ rfl) rfl
          (by simp [Request.controlType])) rfl, hs⟩
  | disconnect =>
      cases hstep
      exact ⟨.of_quietly
        ((MqttClient.tryPack_packed h (by decide) none).reply (hdue _ rfl) rfl
          (by simp [Request.controlType])) rfl, hs⟩
  | recv =>
      obtain ⟨r, hrecv, rfl⟩ := Option.map_eq_some_iff.mp hstep
      exact mqttRecv_invariant (I := Goes P R s.client)
        (fun x r hx => hx.trans (handle_goes hx.ok r))
        (fun x e hx => hx.trans (.of_quietly (.nil hx.ok rfl rfl) rfl))
        (.of_quietly (.nil h rfl rfl) rfl) hs hrecv
  | send =>
      exact hrequest (fun _ hcall => MqttClient.mqttSend_does (hdue _ rfl) h hcall) hstep

theorem run_goes {actions : List Action} (hfits : ∀ a ∈ actions, a.Fits)
    (h : s.client.1.mq.Ok) (hs : s.buffer.Ok)
    (hrun : Runs.run (step P) s actions = some s') :
    Goes P (Asked actions) s.client s'.client ∧ s'.buffer.Ok := by
  refine Runs.run_invariant_of_forall
    (I := fun t => Goes P (Asked actions) s.client t.client ∧ t.buffer.Ok)
    (p := fun a => a.Fits ∧ a ∈ actions) (fun t a t' ht ha hstep => ?_)
    ⟨.of_quietly (.nil h rfl rfl) rfl, hs⟩ (fun a ha => ⟨hfits a ha, ha⟩) hrun
  obtain ⟨hgoes, hbuffer⟩ := step_goes (R := Asked actions) ht.1.ok ht.2 ha.1
    (fun r hr => ⟨a, ha.2, hr⟩) hstep
  exact ⟨ht.1.trans hgoes, hbuffer⟩

/-- A client as `mqtt_init` leaves it, with its receive buffer. -/
def init (recvbuf sendbuf : List UInt8) (sizeofMessage : Nat) (keepAlive : BitVec 16)
    (timeOfLastSend : Nat) (state : α) : Session α :=
  start recvbuf (mqttInit keepAlive timeOfLastSend state sendbuf sizeofMessage)

section Runs

variable {recvbuf sendbuf : List UInt8} {sizeofMessage timeOfLastSend : Nat}
  {keepAlive : BitVec 16} {state : α} {actions : List Action}

/-- The machine goes along with a run. -/
theorem init_goes (hsmall : recvbuf.length < 2 ^ 32) (hfits : ∀ a ∈ actions, a.Fits)
    (hrun : Runs.run (step P)
      (init recvbuf sendbuf sizeofMessage keepAlive timeOfLastSend state) actions = some s) :
    Goes P (Asked actions)
        (init recvbuf sendbuf sizeofMessage keepAlive timeOfLastSend state).client s.client ∧
      s.buffer.Ok :=
  run_goes hfits (MessageQueue.init_ok sendbuf sizeofMessage) ⟨Nat.zero_add _, hsmall⟩ hrun

theorem inv_of_goes (hgoes : Goes P R
      (init recvbuf sendbuf sizeofMessage keepAlive timeOfLastSend state).client s.client) :
    Inv s.client.1.view := by
  obtain ⟨labels, _, hdoes, _⟩ := hgoes
  exact Protocol.inv_run (Protocol.inv_init state) hdoes.run

/-- **An acknowledgement is never ambiguous**, in no state of any session: it finds the
request that carries its number, and of the PUBLISH messages of level 2 one at most is under
way. The calls are made one after the other, the receive buffer is smaller than 4 GiB, and so
is what the calls pack. -/
theorem acknowledgements_unambiguous (hsmall : recvbuf.length < 2 ^ 32)
    (hfits : ∀ a ∈ actions, a.Fits)
    (hrun : Runs.run (step P)
      (init recvbuf sendbuf sizeofMessage keepAlive timeOfLastSend state) actions = some s) :
    (∀ i e, s.client.1.mq.entries[i]? = some e → own e.controlType = true →
        e.packetId ≠ 0 ∧ s.client.1.mq.find e.controlType (some e.packetId) = some i) ∧
      (s.client.1.mq.entries.countP fun e => Qos2 e ∧ e.state = .awaitingAck) ≤ 1 := by
  obtain ⟨hgoes, _⟩ := init_goes hsmall hfits hrun
  have hinv := inv_of_goes hgoes
  refine ⟨fun i e hget hown => ⟨fun hzero => ?_, ?_⟩, hinv.inOrder.one_under_way⟩
  · exact hinv.numbered.nonzero
      (Protocol.mem_idsOf.mpr ⟨e, List.mem_of_getElem? hget, hown, hzero⟩)
  · rw [MessageQueue.find_eq]
    exact hinv.numbered.find_own hget hown

/-- A clock that counts its readings, and new records in cleared memory. -/
def counting (callback : α → ResponsePublish → α) : Platform α where
  time := id
  leftover := fun _ => ⟨0, 0, .unsent, 0, .reserved0, 0⟩
  publishResponseCallback := callback

/-- The calls of `mqtt_sync`, as long as it does not fail. -/
def sync : List Action := [.recv, .send]

/-- A connection, on a socket that takes all there is. -/
def connected : List Action :=
  [.connect ⟨some [0x61], none, none, none, none, 2, 400⟩, .accept [.accepted 100]] ++ sync ++
    [.arrive [.data [0x20, 2, 0, 0]]] ++ sync

/-- Two messages of level 2 and a subscription. -/
theorem acknowledgements_unambiguous_three :
    ∃ s : Session Nat,
      Runs.run (step (counting fun n _ => n + 1))
        (init (List.replicate 32 0) (List.replicate 300 0) 24 0 0 0)
        (connected ++ [.publish [0x61] [1] 4, .publish [0x61] [2] 4, .subscribe [0x62] 0,
          .accept [.accepted 100, .accepted 100], .recv, .send]) = some s ∧
      (∀ i e, s.client.1.mq.entries[i]? = some e → own e.controlType = true →
        e.packetId ≠ 0 ∧ s.client.1.mq.find e.controlType (some e.packetId) = some i) ∧
      (s.client.1.mq.entries.countP fun e => Qos2 e ∧ e.state = .awaitingAck) ≤ 1 := by
  have hrun : (Runs.run (step (counting fun n _ => n + 1))
      (init (List.replicate 32 0) (List.replicate 300 0) 24 0 0 0)
      (connected ++ [.publish [0x61] [1] 4, .publish [0x61] [2] 4, .subscribe [0x62] 0,
        .accept [.accepted 100, .accepted 100], .recv, .send])).isSome = true := by decide +kernel
  obtain ⟨s, hs⟩ := Option.isSome_iff_exists.mp hrun
  exact ⟨s, hs, acknowledgements_unambiguous (by decide) (by decide) hs⟩

theorem acked_mem {labels : List Label} {controlType : ControlPacketType}
    {packetId : Option (BitVec 16)} (h : .acked controlType packetId ∈ labels) :
    (controlType, packetId) ∈ acks labels := List.mem_filterMap.mpr ⟨_, h, rfl⟩

theorem answer_publish {p : Packet} {id : BitVec 16} (h : answer p = some (.publish, some id)) :
    p = .puback id ∨ p = .pubrec id := by
  cases p <;> cases h
  · exact .inl rfl
  · exact .inr rfl

theorem tryPack_pidLfsr (c : MqttClient α) (r : Request) (controlType : ControlPacketType)
    (packetId : Option (BitVec 16)) :
    (c.tryPack P r controlType packetId).2.pidLfsr = c.pidLfsr := by
  simp only [MqttClient.tryPack]
  split
  · rfl
  · split
    · rfl
    · rfl
    · split <;> rfl

/-- The number that a call has drawn is in the register. -/
theorem pidLfsr_of_nextPid {c c' : MqttClient α} {id : BitVec 16}
    (h : c.nextPid = some (id, c')) : c'.pidLfsr = id := by
  obtain ⟨_, _, heq⟩ := Option.map_eq_some_iff.mp h
  cases heq
  rfl

/-- **An accepted message is not lost**: at level 1 or 2 it is queued under the number that the
call has drawn, and it stays in the queue, byte for byte but for its DUP flag and ready to be
sent again, until the broker has acknowledged this number. -/
theorem publish_kept (hsmall : recvbuf.length < 2 ^ 32) (hfits : ∀ a ∈ actions, a.Fits)
    (hrun : Runs.run (step P)
      (init recvbuf sendbuf sizeofMessage keepAlive timeOfLastSend state) actions = some s)
    {topicName applicationMessage : List UInt8} {publishFlags : UInt8} {c : MqttClient α}
    (hsize : Action.Fits (.publish topicName applicationMessage publishFlags))
    (hlevel : Client.qosLevel publishFlags ≠ 0)
    (hcall : s.client.1.mqttPublish P topicName applicationMessage publishFlags
      = some (none, c))
    {later : List Action} (hfits' : ∀ a ∈ later, a.Fits)
    (hrun' : Runs.run (step P) (withClient s c) later = some s') :
    ∃ bytes,
      (∃ bufsz, mqttPackPublishRequest bufsz topicName c.pidLfsr applicationMessage publishFlags
        = .ok (some bytes)) ∧
      (∃ e ∈ c.mq.entries, e.controlType = .publish ∧ e.packetId = c.pidLfsr ∧
        e.bytes = bytes) ∧
      (.puback c.pidLfsr ∈ s'.log.drop s.log.length ∨
        .pubrec c.pidLfsr ∈ s'.log.drop s.log.length ∨
        ∃ e ∈ s'.client.1.mq.entries, e.controlType = .publish ∧ e.packetId = c.pidLfsr ∧
          e.state ≠ .complete ∧
          (e.bytes = bytes ∨ e.bytes = bytes.modify 0 fun b => b ||| 0x08)) := by
  obtain ⟨hgoes, hbuffer⟩ := init_goes hsmall hfits hrun
  obtain ⟨⟨id, c₁⟩, hnext, hpack⟩ := Option.map_eq_some_iff.mp hcall
  obtain ⟨_, hmq, _, _⟩ := MqttClient.nextPid_spec hnext
  have hpacked := MqttClient.tryPack_packed (P := P) (R := fun _ => True) (c := c₁)
    (by rw [hmq]; exact hgoes.ok)
    (r := .publish topicName id applicationMessage publishFlags) hsize (some id)
  have hnumber : c.pidLfsr = id := by
    have hkept := tryPack_pidLfsr (P := P) c₁
      (.publish topicName id applicationMessage publishFlags) .publish (some id)
    simp only at hpack
    rw [hpack] at hkept
    exact hkept.trans (pidLfsr_of_nextPid hnext)
  rw [hnumber]
  rw [Request.controlType] at hpacked
  simp only at hpack
  rw [hpack] at hpacked
  cases hpacked with
  | @queued c₂ c e hcleaned hsub hunsent htype hkind hbytes hid hok hblock hentries hstate =>
      obtain ⟨bufsz, hpub⟩ := hbytes
      have hmem : e ∈ (withClient s c).client.1.mq.entries := by
        show e ∈ c.mq.entries
        rw [hentries]
        exact List.mem_append_right _ (List.mem_singleton_self e)
      refine ⟨e.bytes, ⟨bufsz, hpub⟩, ⟨e, hmem, htype, hid id rfl, rfl⟩, ?_⟩
      have howed : Owed e := by
        refine ⟨by rw [htype]; rfl, by rw [hunsent]; simp, fun _ => ?_⟩
        rw [Protocol.qos, Request.publish_first_byte hpub]
        exact hlevel
      obtain ⟨⟨labels, new, hdoes, hlog, hacks⟩, _⟩ :=
        run_goes (s := withClient s c) hfits' hok hbuffer hrun'
      have hnew : s'.log.drop s.log.length = new := by
        rw [Receiver.log, Receiver.log, hlog]
        exact List.drop_left
      rw [hnew]
      by_cases hacked : .acked e.controlType (some e.packetId) ∈ labels
      · obtain ⟨p, hp, hanswer⟩ := List.mem_filterMap.mp (hacks.mem (acked_mem hacked))
        rw [htype, hid id rfl] at hanswer
        rcases answer_publish hanswer with rfl | rfl
        · exact .inl hp
        · exact .inr (.inl hp)
      · obtain ⟨e', he', howed', hsame⟩ := Protocol.owed_run hmem howed hdoes.run hacked
        exact .inr (.inr ⟨e', he', hsame.controlType.trans htype, hsame.packetId.trans (hid id rfl),
          howed'.2.1, hsame.bytes⟩)

/-- A message of level 1 that is sent, and sent again when its time has run out. -/
theorem publish_kept_resent :
    ∃ (s s' : Session Nat) (c : MqttClient Nat),
      Runs.run (step (counting fun n _ => n + 1))
        (init (List.replicate 32 0) (List.replicate 300 0) 24 0 0 0) connected = some s ∧
      s.client.1.mqttPublish (counting fun n _ => n + 1) [0x61] [1, 2] 2 = some (none, c) ∧
      Runs.run (step (counting fun n _ => n + 1)) (withClient s c)
        (.accept [.accepted 100, .accepted 100] :: List.replicate 20 .send) = some s' ∧
      ∃ bytes,
        (∃ bufsz, mqttPackPublishRequest bufsz [0x61] c.pidLfsr [1, 2] 2 = .ok (some bytes)) ∧
        (∃ e ∈ c.mq.entries, e.controlType = .publish ∧ e.packetId = c.pidLfsr ∧
          e.bytes = bytes) ∧
        (.puback c.pidLfsr ∈ s'.log.drop s.log.length ∨
          .pubrec c.pidLfsr ∈ s'.log.drop s.log.length ∨
          ∃ e ∈ s'.client.1.mq.entries, e.controlType = .publish ∧ e.packetId = c.pidLfsr ∧
            e.state ≠ .complete ∧
            (e.bytes = bytes ∨ e.bytes = bytes.modify 0 fun b => b ||| 0x08)) := by
  have hrun : (((Runs.run (step (counting fun n _ => n + 1))
      (init (List.replicate 32 0) (List.replicate 300 0) 24 0 0 0) connected).bind fun s =>
        (s.client.1.mqttPublish (counting fun n _ => n + 1) [0x61] [1, 2] 2).bind fun r =>
          (Runs.run (step (counting fun n _ => n + 1)) (withClient s r.2)
            (.accept [.accepted 100, .accepted 100] :: List.replicate 20 .send)).map fun _ =>
              r.1) = some none) := by decide +kernel
  obtain ⟨s, hs, hrest⟩ := Option.bind_eq_some_iff.mp hrun
  obtain ⟨⟨error, c⟩, hcall, hrest⟩ := Option.bind_eq_some_iff.mp hrest
  obtain ⟨s', hs', herror⟩ := Option.map_eq_some_iff.mp hrest
  simp only at herror
  subst herror
  exact ⟨s, s', c, hs, hcall, hs', publish_kept (by decide) (by decide) hs (by decide) (by decide)
    hcall (by decide) hs'⟩

end Runs

/-! ## Messages of level 2 -/

theorem count_acks (labels : List Label) (controlType : ControlPacketType)
    (packetId : Option (BitVec 16)) :
    (acks labels).count (controlType, packetId) = labels.count (.acked controlType packetId) := by
  rw [acks, List.count_filterMap, List.count]
  refine List.countP_congr fun l _ => ?_
  cases l <;> simp

theorem count_answers (packets : List Packet) (id : BitVec 16) :
    (packets.filterMap answer).count (.pubrec, some id) = packets.count (.pubrel id) := by
  rw [List.count_filterMap, List.count]
  refine List.countP_congr fun p _ => ?_
  cases p <;> simp [answer]

/-- **A message of level 2 is handed over once.** In any session, the application has been
handed at most one message more under an identifier than the broker has released it. The calls
are made one after the other, the receive buffer is smaller than 4 GiB, and so is what the
calls pack. -/
theorem level2_once {time : Nat → Nat} {leftover : Nat → QueuedMessage}
    {recvbuf sendbuf : List UInt8} {sizeofMessage timeOfLastSend : Nat} {keepAlive : BitVec 16}
    {actions : List Action} {s : Session (List ResponsePublish)}
    (hsmall : recvbuf.length < 2 ^ 32) (hfits : ∀ a ∈ actions, a.Fits)
    (hrun : Runs.run (step ⟨time, leftover, record⟩)
      (init recvbuf sendbuf sizeofMessage keepAlive timeOfLastSend []) actions = some s)
    (id : BitVec 16) :
    received id s.client.1.publishResponseCallbackState ≤ s.log.count (.pubrel id) + 1 := by
  obtain ⟨⟨labels, new, hdoes, hlog, hacks⟩, _⟩ := init_goes hsmall hfits hrun
  have hreceived := Protocol.received_run id (Protocol.inv_init []) hdoes.run
  have hheld := Protocol.held_le_one id
    (Protocol.inv_run (Protocol.inv_init []) hdoes.run).numbered.received
  have hcount := hacks.count_le (.pubrec, some id)
  rw [count_acks, count_answers] at hcount
  have hnew : s.log = new := hlog.trans (List.nil_append new)
  rw [hnew]
  have hzero : received id (⟨[], []⟩ : Protocol.State (List ResponsePublish)).app = 0 := rfl
  have hstate : s.client.1.view.app = s.client.1.publishResponseCallbackState := rfl
  rw [hstate] at hreceived
  omega

/-- A message that comes twice under the same identifier, and its release. -/
theorem level2_once_repeated :
    ∃ s : Session (List ResponsePublish),
      Runs.run (step ⟨id, fun _ => ⟨0, 0, .unsent, 0, .reserved0, 0⟩, record⟩)
        (init (List.replicate 32 0) (List.replicate 300 0) 24 0 0 [])
        (connected ++ [.arrive [.data [0x34, 6, 0, 1, 0x61, 0, 7, 1, 0x34, 6, 0, 1, 0x61, 0, 7, 1]],
          .recv, .send, .arrive [.data [0x62, 2, 0, 7]], .recv]) = some s ∧
      received 7 s.client.1.publishResponseCallbackState ≤ s.log.count (.pubrel 7) + 1 := by
  have hrun : (Runs.run (step ⟨id, fun _ => ⟨0, 0, .unsent, 0, .reserved0, 0⟩, record⟩)
      (init (List.replicate 32 0) (List.replicate 300 0) 24 0 0 [])
      (connected ++ [.arrive [.data [0x34, 6, 0, 1, 0x61, 0, 7, 1, 0x34, 6, 0, 1, 0x61, 0, 7, 1]],
        .recv, .send, .arrive [.data [0x62, 2, 0, 7]], .recv])).isSome = true := by decide +kernel
  obtain ⟨s, hs⟩ := Option.isSome_iff_exists.mp hrun
  exact ⟨s, hs, level2_once (by decide) (by decide) hs 7⟩

end Session

end Caeco.Mqtt
