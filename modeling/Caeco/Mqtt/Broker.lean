import Caeco.Mqtt.Application

/-!
# A session with its broker

Where a broker sends what it may send and the socket takes a packet whole or not at all, a
session that begins with `mqtt_connect` comes to no undefined behaviour, no call runs for ever,
and the broker's packets are handed over once each and in order.
-/

namespace Caeco.Mqtt

open MessageQueue (Entry)

namespace MqttClient

variable {α : Type} {P : Platform α} {c : MqttClient α}

/-- With no packet half sent, the number of bytes left is computed right. -/
theorem sendMessages_returns : ∀ (n i : Nat) (inflight : Bool) {c : MqttClient α}, c.mq.Ok →
    c.sendOffset = 0 → i + n ≤ c.mq.messages.length →
      sendMessages P n i inflight c ≠ .undefined := by
  intro n
  induction n with
  | zero => intro i inflight c _ _ _ h; cases h
  | succ n ih =>
      intro i inflight c h hzero hle
      rw [sendMessages, List.getElem?_eq_getElem (by omega)]
      have hget : c.mq.messages[i]? = some c.mq.messages[i] := List.getElem?_eq_getElem (by omega)
      generalize c.mq.messages[i] = msg at hget
      obtain ⟨hmq, _⟩ := due_same (P := P) c msg
      obtain ⟨_, _, hoffset⟩ := due_socket (P := P) c msg hzero
      simp only
      generalize c.due P msg = result at hmq hoffset
      obtain ⟨resend, c₁⟩ := result
      simp only at hmq hoffset
      rw [← hmq] at h hget hle
      cases resend && !(c₁.inflightQos2 msg && inflight) with
      | false => exact ih (c := c₁) _ _ h hoffset (by omega)
      | true =>
          have hturn := sendMessage_effect (P := P) h hget
          simp only [if_true]
          generalize c₁.sendMessage P i msg = turn at hturn
          cases hturn with
          | undefined hunder => omega
          | refused _ _ _ _ _ => simp
          | part _ _ _ _ _ _ _ => simp
          | returns _ => simp
          | @continues c₂ hall =>
              obtain ⟨time, hentries⟩ := hall.entries
              have hlength := congrArg List.length hentries
              rw [List.length_modify, MessageQueue.entries, MessageQueue.entries, List.length_map,
                List.length_map] at hlength
              exact ih _ _ hall.ok hall.offset (by omega)

theorem mqttSend_returns (h : c.mq.Ok) (hzero : c.sendOffset = 0) :
    ∃ result, c.mqttSend P = some result := by
  rw [mqttSend]
  split
  · have hloop := sendMessages_returns (P := P) c.mq.messages.length 0 false h hzero (by omega)
    cases hsent : c.sendMessages P c.mq.messages.length 0 false with
    | undefined => exact absurd hsent hloop
    | returned e c' => exact ⟨_, rfl⟩
    | done c' => exact ⟨_, rfl⟩
  · exact ⟨_, rfl⟩

/-- There are fewer records than numbers. -/
theorem nextPid_returns (h : c.mq.Ok) (hroom : c.mq.mem.length < 65535 * c.mq.sizeofMessage) :
    ∃ result, c.nextPid = some result := by
  have hfew : (c.mq.messages.map QueuedMessage.packetId).length < 65535 := by
    have hapart := h.apart
    have hlt : c.mq.sizeofMessage * c.mq.messages.length < c.mq.sizeofMessage * 65535 := by
      rw [Nat.mul_comm c.mq.sizeofMessage 65535]
      omega
    rw [List.length_map]
    exact Nat.lt_of_mul_lt_mul_left hlt
  obtain ⟨id, hid⟩ := mqttNextPid_of_few c.pidLfsr hfew
  exact ⟨_, by rw [nextPid, hid]; rfl⟩

end MqttClient

namespace Session

variable {α : Type} {P : Platform α} {s s' : Session α}

/-- What comes in during a run. -/
def incoming (actions : List Action) : List Arrival :=
  actions.flatMap fun
    | .arrive arrivals => arrivals
    | _ => []

theorem incoming_append (as bs : List Action) :
    incoming (as ++ bs) = incoming as ++ incoming bs := List.flatMap_append

theorem mqttRecv_events {result : Option Error × Session α} (h : mqttRecv P s = some result) :
    ∃ f, Runs.run (Mqtt.step (MqttClient.handle P)) s [.recv, .call f] = some result.2 := by
  rw [mqttRecv] at h
  cases hrecv : Mqtt.mqttRecv (logging (MqttClient.handle P)) s with
  | none =>
      rw [hrecv] at h
      cases h
  | some outcome =>
      rw [hrecv] at h
      have hcall : ∀ {error : Option Error} {s₁ : Session α} (c : MqttClient α),
          outcome = .returned error s₁ → Runs.run (Mqtt.step (MqttClient.handle P)) s
            [.recv, .call fun _ => c] = some (withClient s₁ c) := by
        intro error s₁ c houtcome
        refine Runs.run_cons_eq_some.mpr ⟨s₁, ?_, rfl⟩
        rw [Mqtt.step, hrecv, houtcome]
      cases outcome with
      | undefined => cases h
      | returned error s₁ =>
          cases error with
          | some e =>
              cases h
              exact ⟨_, hcall _ rfl⟩
          | none =>
              cases h
              exact ⟨_, hcall s₁.client.1 rfl⟩

/-- **A session is a run of its receiver**, between whose calls the client does what it
does. -/
theorem step_events {a : Action} (h : step P s a = some s') :
    ∃ events, Runs.run (Mqtt.step (MqttClient.handle P)) s events = some s' ∧
      arrived events = incoming [a] := by
  obtain ⟨_, h⟩ := step_eq_some.mp h
  have hcall : ∀ (f : MqttClient α → MqttClient α),
      Runs.run (Mqtt.step (MqttClient.handle P)) s [.call f]
        = some (withClient s (f s.client.1)) := fun _ => rfl
  have hrequest : ∀ {call : Option (Option Error × MqttClient α)},
      (call.map fun r => withClient s r.2) = some s' →
        ∃ f, Runs.run (Mqtt.step (MqttClient.handle P)) s [.call f] = some s' := by
    intro call hresult
    obtain ⟨r, _, rfl⟩ := Option.map_eq_some_iff.mp hresult
    exact ⟨_, hcall fun _ => r.2⟩
  cases a with
  | arrive arrivals =>
      cases h
      exact ⟨[.arrive arrivals], rfl, rfl⟩
  | accept sendings =>
      cases h
      exact ⟨[.call _], hcall fun c => { c with sendings := c.sendings ++ sendings }, rfl⟩
  | connect r =>
      cases h
      exact ⟨[.call _], hcall fun c => (c.mqttConnect P r).2, rfl⟩
  | publish topicName applicationMessage publishFlags =>
      obtain ⟨f, hf⟩ := hrequest h
      exact ⟨_, hf, rfl⟩
  | subscribe topicName maxQosLevel =>
      obtain ⟨f, hf⟩ := hrequest h
      exact ⟨_, hf, rfl⟩
  | unsubscribe topicName =>
      obtain ⟨f, hf⟩ := hrequest h
      exact ⟨_, hf, rfl⟩
  | ping =>
      cases h
      exact ⟨[.call _], hcall fun c => (c.mqttPing P).2, rfl⟩
  | disconnect =>
      cases h
      exact ⟨[.call _], hcall fun c => (c.mqttDisconnect P).2, rfl⟩
  | recv =>
      obtain ⟨result, hrecv, rfl⟩ := Option.map_eq_some_iff.mp h
      obtain ⟨f, hf⟩ := mqttRecv_events hrecv
      exact ⟨_, hf, rfl⟩
  | send =>
      obtain ⟨f, hf⟩ := hrequest h
      exact ⟨_, hf, rfl⟩

section Runs

variable {recvbuf sendbuf : List UInt8} {sizeofMessage timeOfLastSend : Nat}
  {keepAlive : BitVec 16} {state : α} {actions : List Action}

theorem run_events (hrun : Runs.run (step P)
      (init recvbuf sendbuf sizeofMessage keepAlive timeOfLastSend state) actions = some s) :
    ∃ events, Runs.run (Mqtt.step (MqttClient.handle P))
        (start recvbuf (mqttInit keepAlive timeOfLastSend state sendbuf sizeofMessage)) events
          = some s ∧ arrived events = incoming actions := by
  refine Runs.run_history (R := fun (actions : List Action) (t : Session α) =>
    ∃ events, Runs.run (Mqtt.step (MqttClient.handle P))
      (start recvbuf (mqttInit keepAlive timeOfLastSend state sendbuf sizeofMessage)) events
        = some t ∧ arrived events = incoming actions) ⟨[], rfl, rfl⟩ ?_ hrun
  rintro as t a t' ⟨events, hevents, harrived⟩ hstep
  obtain ⟨more, hmore, hmoreArrived⟩ := step_events hstep
  exact ⟨events ++ more, Runs.run_append_eq_some.mpr ⟨t, hevents, hmore⟩,
    by rw [arrived_append, incoming_append, harrived, hmoreArrived]⟩

variable {packets : List BrokerPacket}

/-- The mutex is free in a session that has begun with `mqtt_connect`. -/
theorem run_unlocked {r : ConnectRequest} (hsmall : recvbuf.length < 2 ^ 32)
    (hfits : ∀ a ∈ Action.connect r :: actions, a.Fits)
    (hrun : Runs.run (step P)
      (init recvbuf sendbuf sizeofMessage keepAlive timeOfLastSend state)
        (.connect r :: actions) = some s) : s.client.1.locked = false := by
  obtain ⟨s₁, hconnect, hrest⟩ := Runs.run_cons_eq_some.mp hrun
  obtain ⟨hfit, hfits⟩ := List.forall_mem_cons.mp hfits
  obtain ⟨_, hcall⟩ := step_eq_some.mp hconnect
  have hbuffer : (init recvbuf sendbuf sizeofMessage keepAlive timeOfLastSend state).buffer.Ok :=
    ⟨Nat.zero_add _, hsmall⟩
  obtain ⟨hgoes, hbuffer₁⟩ := step_goes (R := fun _ => True)
    (MessageQueue.init_ok sendbuf sizeofMessage) hbuffer hfit (fun _ _ => trivial) hconnect
  have hfree : s₁.client.1.locked = false := by
    cases hcall
    rfl
  exact (Runs.run_invariant_of_forall
    (I := fun t : Session α => t.client.1.locked = false ∧ t.client.1.mq.Ok ∧ t.buffer.Ok)
    (p := Action.Fits)
    (fun t a t' ht ha hstep => by
      obtain ⟨hgoes, hbuffer⟩ := step_goes (R := fun _ => True) ht.2.1 ht.2.2 ha
        (fun _ _ => trivial) hstep
      exact ⟨step_unlocked ht.1 ht.2.2 hstep, hgoes.ok, hbuffer⟩)
    ⟨hfree, hgoes.ok, hbuffer₁⟩ hfits hrest).1

/-- The next step among a broker's packets, if the mutex is as the call needs it. -/
theorem step_returns (hsmall : recvbuf.length < 2 ^ 32) (hsize : 0 < recvbuf.length)
    (hroom : sendbuf.length < 65535 * sizeofMessage) (hfits : ∀ a ∈ actions, a.Fits)
    (hample : ∀ a ∈ actions, a.Ample sendbuf.length)
    (hpackets : ∀ b ∈ packets, b.bytes.length ≤ recvbuf.length)
    (hsent : streamOf (incoming actions) <+: packets.flatMap BrokerPacket.bytes)
    (hrun : Runs.run (step P)
      (init recvbuf sendbuf sizeofMessage keepAlive timeOfLastSend state) actions = some s)
    {a : Action} (hcallable : a.callable s.client.1.locked = true) :
    ∃ s', step P s a = some s' := by
  suffices hcall : ∃ s', call P s a = some s' by
    obtain ⟨s', hs'⟩ := hcall
    exact ⟨s', step_eq_some.mpr ⟨hcallable, hs'⟩⟩
  obtain ⟨⟨hgoes, hbuffer⟩, hwire⟩ := run_onWire (R := fun _ => True) hsmall hfits hample
    (fun _ _ _ _ => trivial) hrun
  have hblock : s.client.1.mq.mem.length < 65535 * s.client.1.mq.sizeofMessage := by
    obtain ⟨_, _, hdoes, _⟩ := hgoes
    rw [hdoes.block.length, hdoes.block.sizeofMessage]
    exact hroom
  obtain ⟨⟨id, c⟩, hnext⟩ := MqttClient.nextPid_returns hgoes.ok hblock
  cases a with
  | arrive arrivals => exact ⟨_, rfl⟩
  | accept sendings => exact ⟨_, rfl⟩
  | connect r => exact ⟨_, rfl⟩
  | publish topicName applicationMessage publishFlags =>
      exact ⟨_, by rw [call, MqttClient.mqttPublish, hnext]; rfl⟩
  | subscribe topicName maxQosLevel =>
      exact ⟨_, by rw [call, MqttClient.mqttSubscribe, hnext]; rfl⟩
  | unsubscribe topicName =>
      exact ⟨_, by rw [call, MqttClient.mqttUnsubscribe, hnext]; rfl⟩
  | ping => exact ⟨_, rfl⟩
  | disconnect => exact ⟨_, rfl⟩
  | recv =>
      obtain ⟨events, hevents, harrived⟩ := run_events hrun
      rw [← harrived] at hsent
      obtain ⟨error, s₁, hrecv, _⟩ := broker_recv hsmall hsize hpackets _ hsent hevents
      cases error with
      | some e => exact ⟨_, by rw [call, mqttRecv, hrecv]; rfl⟩
      | none => exact ⟨_, by rw [call, mqttRecv, hrecv]; rfl⟩
  | send =>
      obtain ⟨result, hsend⟩ := MqttClient.mqttSend_returns (P := P) hgoes.ok hwire.offset
      exact ⟨_, by rw [call, hsend]; rfl⟩

/-- **A session with a broker goes on.** The application calls `mqtt_connect` first, and then
whatever else as long as its packets are smaller than 4 GiB. However the bytes come in, no call
comes to undefined behaviour and none runs for ever; and the packets handed over are the
broker's first ones, each of them once. -/
theorem run_with_broker (hsmall : recvbuf.length < 2 ^ 32) (hsize : 0 < recvbuf.length)
    (hroom : sendbuf.length < 65535 * sizeofMessage) {r : ConnectRequest}
    (hconnect : ∀ a ∈ actions, ∀ r', a ≠ .connect r')
    (hfits : ∀ a ∈ Action.connect r :: actions, a.Fits)
    (hample : ∀ a ∈ actions, a.Ample sendbuf.length)
    (hpackets : ∀ b ∈ packets, b.bytes.length ≤ recvbuf.length)
    (hsent : streamOf (incoming actions) <+: packets.flatMap BrokerPacket.bytes) :
    ∃ s, Runs.run (step P)
        (init recvbuf sendbuf sizeofMessage keepAlive timeOfLastSend state)
          (.connect r :: actions) = some s ∧
      s.log <+: packets.map BrokerPacket.packet := by
  have hrun : ∃ s, Runs.run (step P)
      (init recvbuf sendbuf sizeofMessage keepAlive timeOfLastSend state)
        (.connect r :: actions) = some s := by
    induction actions using List.reverseRecOn with
    | nil => exact ⟨_, rfl⟩
    | append_singleton actions a ih =>
        rw [incoming_append, streamOf_append] at hsent
        have hbefore := (List.prefix_append _ _).trans hsent
        rw [← List.cons_append] at hfits ⊢
        obtain ⟨hfits, _⟩ := List.forall_mem_append.mp hfits
        obtain ⟨hample, _⟩ := List.forall_mem_append.mp hample
        obtain ⟨hconnect, ha⟩ := List.forall_mem_append.mp hconnect
        obtain ⟨s, hs⟩ := ih hconnect hfits hample hbefore
        have hfree := run_unlocked hsmall hfits hs
        have hcallable : a.callable s.client.1.locked = true := by
          rw [hfree]
          cases a with
          | connect r' => exact absurd rfl (ha _ (List.mem_singleton_self _) r')
          | _ => rfl
        obtain ⟨s', hs'⟩ := step_returns hsmall hsize hroom hfits
          (List.forall_mem_cons.mpr ⟨trivial, hample⟩) hpackets hbefore hs hcallable
        exact ⟨s', Runs.run_append_eq_some.mpr ⟨s, hs, Runs.run_cons_eq_some.mpr ⟨s', hs', rfl⟩⟩⟩
  obtain ⟨s, hs⟩ := hrun
  refine ⟨s, hs, ?_⟩
  obtain ⟨events, hevents, harrived⟩ := run_events hs
  rw [show incoming actions = incoming (.connect r :: actions) from rfl, ← harrived] at hsent
  obtain ⟨done, todo, rfl, hlog, _, _⟩ := (run_logged hsmall _ hevents).split hsent
  rw [hlog, List.map_append]
  exact List.prefix_append _ _

/-- A connection that is accepted in two portions, a message between `__mqtt_recv` and
`__mqtt_send`, and an unexpected response. -/
theorem run_with_broker_connack :
    ∃ s, Runs.run (step (counting fun n _ => n + 1))
        (init (List.replicate 32 0) (List.replicate 300 0) 24 0 0 0)
        (.connect ⟨some [0x61], none, none, none, none, 2, 400⟩ ::
          [.accept [.accepted 300], .recv, .send, .arrive [.data [0x20, 2, 0]], .recv,
            .publish [0x61] [1, 2] 2, .send, .arrive [.data [0, 0xD0]], .recv]) = some s ∧
      s.log <+: [BrokerPacket.connack false 0, .pingresp].map BrokerPacket.packet :=
  run_with_broker (by decide) (by decide) (by decide +kernel) (by simp) (by decide)
    (by decide +kernel)
    (by simp [BrokerPacket.bytes, BrokerPacket.header, BrokerPacket.body, FixedHeader.bytes,
      lengthBytes_last])
    (by simp [BrokerPacket.bytes, BrokerPacket.header, BrokerPacket.body, FixedHeader.bytes,
      lengthBytes_last, incoming, streamOf, FixedHeader.firstByte, ControlPacketType.code]; decide)

end Runs

end Session

end Caeco.Mqtt
