import Caeco.Kit.Runs
import Caeco.Mqtt.Packets
import Caeco.Mqtt.Receive

/-!
# What is handed over in a run

Bytes come in, the client is called, and from time to time it receives. The packets handed
over are those of the byte stream, whatever the portions in which the stream came in.
-/

namespace Caeco.Mqtt

open Framing

variable {σ : Type} {handle : σ → Response → Option Error × σ}

/-- The switch, with a log of the packets handed over. -/
def logging (handle : σ → Response → Option Error × σ) (s : σ × List Packet) (r : Response) :
    Option Error × (σ × List Packet) :=
  ((handle s.1 r).1, ((handle s.1 r).2, s.2 ++ [r.decoded.packet]))

/-- What happens to a client: bytes come in, it is called, it receives. Whatever the other calls
do to the client is left open; they are made one after the other. -/
inductive Event (σ : Type) where
  | arrive (arrivals : List Arrival)
  /-- a call that leaves the receive buffer alone -/
  | call (f : σ → σ)
  | recv

/-- One event. The log of the packets handed over is the model's, no part of the client. A run
ends at undefined behaviour. -/
def step (handle : σ → Response → Option Error × σ) (s : Receiver (σ × List Packet)) :
    Event σ → Option (Receiver (σ × List Packet))
  | .arrive arrivals => some { s with arrivals := s.arrivals ++ arrivals }
  | .call f => some { s with client := (f s.client.1, s.client.2) }
  | .recv =>
      match mqttRecv (logging handle) s with
      | some (.returned _ s) => some s
      | _ => none

/-- `mqtt_init` with a receive buffer. -/
def start (mem : List UInt8) (client : σ) : Receiver (σ × List Packet) where
  client := (client, [])
  buffer := { mem := mem, curr := 0, currSz := mem.length }
  arrivals := []

def Receiver.log (s : Receiver (σ × List Packet)) : List Packet := s.client.2

def arrived (events : List (Event σ)) : List Arrival :=
  events.flatMap fun
    | .arrive arrivals => arrivals
    | _ => []

theorem arrived_append (as bs : List (Event σ)) :
    arrived (as ++ bs) = arrived as ++ arrived bs := List.flatMap_append

/-- The log and the stream make up the bytes that have arrived. -/
structure Logged (size : Nat) (bytes : List UInt8) (s : Receiver (σ × List Packet)) : Prop where
  ok : s.buffer.Ok
  size : s.buffer.mem.length = size
  parses : Parses decoder bytes s.log s.stream

variable {size : Nat} {bytes : List UInt8}

theorem Logged.kept {s s' : Receiver (σ × List Packet)} (h : Logged size bytes s)
    (hkept : Kept s s') : Logged size bytes s' where
  ok := hkept.ok
  size := hkept.size.trans h.size
  parses := by
    rw [Receiver.log, hkept.client, hkept.stream]
    exact h.parses

theorem Logged.took {s s' : Receiver (σ × List Packet)} {p : Packet} {error : Option Error}
    (h : Logged size bytes s) (htook : Took (logging handle) s p error s') :
    Logged size bytes s' where
  ok := htook.ok
  size := htook.size.trans h.size
  parses := by
    obtain ⟨r, hp, hhandle⟩ := htook.handled
    obtain ⟨n, hdecode, hstream⟩ := htook.stream
    have hlog : s'.log = s.log ++ [p] := by
      rw [← hp]
      exact (congrArg (fun x => x.2.2) hhandle).symm
    rw [hlog, hstream]
    exact h.parses.trans (.cons hdecode (.nil _))

theorem Logged.ends {s s' : Receiver (σ × List Packet)} {error : Option Error}
    (h : Logged size bytes s) (hends : Ends (logging handle) s error s') :
    Logged size bytes s' := by
  cases hends with
  | socketError hstream hreason =>
      refine { ok := h.ok, size := h.size, parses := ?_ }
      have hparses := h.parses
      rw [Receiver.stream] at hparses ⊢
      rw [hstream]
      exact hparses
  | malformed hkept _ => exact h.kept hkept
  | tooSmall hkept _ _ => exact h.kept hkept
  | waiting hkept _ _ => exact h.kept hkept
  | refused htook => exact h.took htook

theorem Logged.recv {s s' : Receiver (σ × List Packet)} {error : Option Error}
    (h : Logged size bytes s) (hrecv : Recv (logging handle) s (.returned error s')) :
    Logged size bytes s' := by
  generalize houtcome : Outcome.returned error s' = outcome at hrecv
  induction hrecv with
  | undefined _ _ => cases houtcome
  | returned hends =>
      cases houtcome
      exact h.ends hends
  | step htook _ ih => exact ih (h.took htook) houtcome

theorem Logged.step {events : List (Event σ)} {s s' : Receiver (σ × List Packet)}
    {e : Event σ} (h : Logged size (streamOf (arrived events)) s)
    (hstep : step handle s e = some s') :
    Logged size (streamOf (arrived (events ++ [e]))) s' := by
  rw [arrived_append, streamOf_append]
  cases e with
  | arrive arrivals =>
      cases hstep
      rw [show arrived [Event.arrive (σ := σ) arrivals] = arrivals from List.append_nil _]
      refine { ok := h.ok, size := h.size, parses := ?_ }
      have hparses := h.parses.append (streamOf arrivals)
      rw [Receiver.stream, List.append_assoc, ← streamOf_append s.arrivals] at hparses
      exact hparses
  | call f =>
      cases hstep
      rw [show arrived [Event.call f] = [] from rfl, streamOf_nil, List.append_nil]
      exact { ok := h.ok, size := h.size, parses := h.parses }
  | recv =>
      rw [show arrived [Event.recv (σ := σ)] = [] from rfl, streamOf_nil, List.append_nil]
      obtain ⟨outcome, hrun, hrecv⟩ := mqttRecv_recv (logging handle) h.ok
      rw [Mqtt.step, hrun] at hstep
      cases outcome with
      | undefined => cases hstep
      | returned error s₁ =>
          cases hstep
          exact h.recv hrecv

theorem logged_start {mem : List UInt8} (hsmall : mem.length < 2 ^ 32) (client : σ) :
    Logged mem.length [] (start mem client) where
  ok := ⟨Nat.zero_add _, hsmall⟩
  size := rfl
  parses := .nil []

/-- What has been handed over in a run is what the bytes say, one packet after the other. -/
theorem run_logged {mem : List UInt8} (hsmall : mem.length < 2 ^ 32) (client : σ)
    {events : List (Event σ)} {s : Receiver (σ × List Packet)}
    (h : Runs.run (step handle) (start mem client) events = some s) :
    Logged mem.length (streamOf (arrived events)) s :=
  Runs.run_history (R := fun events s => Logged mem.length (streamOf (arrived events)) s)
    (logged_start hsmall client) (fun _ _ _ _ hlogged hstep => hlogged.step hstep) h

/-- **The portions do not matter**: of two clients to which the same bytes have come, in
whatever portions and between whatever calls, one has been handed what the other has been
handed, and perhaps more. The calls are made one after the other, and the receive buffers are
smaller than 4 GiB. -/
theorem logs_comparable {τ : Type} {handle : σ → Response → Option Error × σ}
    {handle' : τ → Response → Option Error × τ} {mem mem' : List UInt8} {client : σ}
    {client' : τ} {events : List (Event σ)} {events' : List (Event τ)}
    {s : Receiver (σ × List Packet)} {s' : Receiver (τ × List Packet)}
    (hsmall : mem.length < 2 ^ 32) (hsmall' : mem'.length < 2 ^ 32)
    (h : Runs.run (step handle) (start mem client) events = some s)
    (h' : Runs.run (step handle') (start mem' client') events' = some s')
    (hsame : streamOf (arrived events) = streamOf (arrived events')) :
    s.log <+: s'.log ∨ s'.log <+: s.log := by
  have hparses := (run_logged hsmall client h).parses
  rw [hsame] at hparses
  exact hparses.comparable (run_logged hsmall' client' h').parses

/-- An acknowledgement in two portions, and at once. -/
theorem logs_comparable_ack :
    ∃ s s' : Receiver (Nat × List Packet),
      Runs.run (step fun n _ => (none, n + 1)) (start [0, 0, 0, 0] 0)
        [.arrive [.data [0x40, 2]], .recv, .arrive [.data [0, 7]], .recv] = some s ∧
      Runs.run (step fun n _ => (none, n + 1)) (start [0, 0, 0, 0, 0, 0] 0)
        [.call Nat.succ, .arrive [.data [0x40, 2, 0, 7]], .recv] = some s' ∧
      (s.log <+: s'.log ∨ s'.log <+: s.log) := by
  have h : (Runs.run (step fun (n : Nat) _ => (none, n + 1)) (start [0, 0, 0, 0] 0)
      [.arrive [.data [0x40, 2]], .recv, .arrive [.data [0, 7]], .recv]).isSome = true := by
    decide +kernel
  have h' : (Runs.run (step fun (n : Nat) _ => (none, n + 1)) (start [0, 0, 0, 0, 0, 0] 0)
      [.call Nat.succ, .arrive [.data [0x40, 2, 0, 7]], .recv]).isSome = true := by
    decide +kernel
  obtain ⟨s, hs⟩ := Option.isSome_iff_exists.mp h
  obtain ⟨s', hs'⟩ := Option.isSome_iff_exists.mp h'
  exact ⟨s, s', hs, hs', logs_comparable (by decide) (by decide) hs hs' (by decide)⟩

/-! ## The packets of a broker -/

variable {packets : List BrokerPacket}

/-- What has been handed over are the first packets; the bytes of the others follow. -/
theorem Logged.split {s : Receiver (σ × List Packet)} (h : Logged size bytes s)
    (hsent : bytes <+: packets.flatMap BrokerPacket.bytes) :
    ∃ done todo, packets = done ++ todo ∧ s.log = done.map BrokerPacket.packet ∧
      s.stream <+: todo.flatMap BrokerPacket.bytes ∧
      (bytes = packets.flatMap BrokerPacket.bytes →
        s.stream = todo.flatMap BrokerPacket.bytes) := by
  obtain ⟨more, hmore⟩ := hsent
  have hparses := h.parses.append more
  rw [hmore] at hparses
  obtain ⟨done, todo, rfl, hlog, hrest⟩ :=
    hparses.of_flatMap (fun i rest => BrokerPacket.decode_bytes i rest) rfl
  refine ⟨done, todo, rfl, hlog, ⟨more, hrest⟩, fun hall => ?_⟩
  rw [hall] at hmore
  have hnil : more = [] := by simpa using hmore
  rw [← hrest, hnil, List.append_nil]

/-- Nothing in a broker's bytes is turned down. -/
theorem not_failed_of_bytes {bs : List UInt8} {todo : List BrokerPacket}
    (h : bs <+: todo.flatMap BrokerPacket.bytes) (e : Fault) : decode bs ≠ .failed e := by
  intro hfailed
  obtain ⟨more, hmore⟩ := h
  have hmalformed : decode bs ≠ .incomplete := by rw [hfailed]; simp
  have hall := decode_append more hmalformed
  rw [hmore, hfailed] at hall
  cases todo with
  | nil => cases hall
  | cons b todo =>
      rw [List.flatMap_cons, BrokerPacket.decode_bytes] at hall
      cases hall

/-- A packet that is there as a whole is found. -/
theorem length_of_incomplete {bs : List UInt8} {b : BrokerPacket} {todo : List BrokerPacket}
    (h : bs <+: (b :: todo).flatMap BrokerPacket.bytes) (hdecode : decode bs = .incomplete) :
    bs.length < b.bytes.length := by
  by_contra hlen
  rw [List.flatMap_cons] at h
  obtain ⟨rest, hrest⟩ := List.prefix_of_prefix_length_le (List.prefix_append _ _) h
    (Nat.not_lt.mp hlen)
  rw [← hrest, BrokerPacket.decode_bytes] at hdecode
  cases hdecode

/-- How a call ends among a broker's packets. -/
structure CallResult (handle : σ → Response → Option Error × σ) (size : Nat)
    (bytes : List UInt8) (s : Receiver (σ × List Packet)) (error : Option Error)
    (s' : Receiver (σ × List Packet)) : Prop where
  logged : Logged size bytes s'
  room : 0 < s'.buffer.currSz
  sound : Sound s.arrivals → Sound s'.arrivals
  /-- everything read has been handed over -/
  ok : error = none → decode s'.buffer.content = .incomplete
  /-- an error comes from the connection or from the switch -/
  error : ∀ e, error = some e → Sound s.arrivals → ∃ client r, (handle client r).1 = some e

theorem recv_result {s : Receiver (σ × List Packet)} {outcome : Outcome (σ × List Packet)}
    (hsize : 0 < size) (hfits : ∀ b ∈ packets, b.bytes.length ≤ size)
    (hsent : bytes <+: packets.flatMap BrokerPacket.bytes)
    (hrecv : Recv (logging handle) s outcome) :
    Logged size bytes s → 0 < s.buffer.currSz →
      ∃ error s', outcome = .returned error s' ∧ CallResult handle size bytes s error s' := by
  induction hrecv with
  | @undefined s s' hkept hdecode =>
      intro hlogged _
      obtain ⟨done, todo, _, _, hprefix, _⟩ := hlogged.split hsent
      rw [← hkept.stream] at hprefix
      exact absurd hdecode (not_failed_of_bytes ((List.prefix_append _ _).trans hprefix) _)
  | @returned s error s' hends =>
      intro hlogged hroom
      refine ⟨error, s', rfl, ?_⟩
      have hlogged' := hlogged.ends hends
      obtain ⟨done, todo, rfl, _, hprefix, _⟩ := hlogged'.split hsent
      have hcontent := (List.prefix_append s'.buffer.content (streamOf s'.arrivals)).trans hprefix
      cases hends with
      | socketError hstream hreason =>
          have hunsound : ¬ Sound s.arrivals := fun h => hreason ⟨h, hroom⟩
          exact { logged := hlogged', room := hroom, sound := fun h => absurd h hunsound
                  ok := fun h => absurd h (Option.some_ne_none _)
                  error := fun _ _ h => absurd h hunsound }
      | malformed hkept hdecode => exact absurd hdecode (not_failed_of_bytes hcontent _)
      | tooSmall hkept hdecode hfull =>
          -- a full buffer holds the whole packet at its front
          have hlen := hlogged'.ok.length_content
          have hsizes := hlogged'.ok.sizes
          have hsame := hlogged'.size
          cases todo with
          | nil =>
              have hnil := List.prefix_nil.mp hcontent
              rw [hnil, List.length_nil] at hlen
              omega
          | cons b todo =>
              have hless := length_of_incomplete hcontent hdecode
              have hle := hfits b (by simp)
              omega
      | waiting hkept hdecode hroom' =>
          exact { logged := hlogged', room := hroom', sound := hkept.sound
                  ok := fun _ => hdecode
                  error := fun _ he => absurd he.symm (Option.some_ne_none _) }
      | refused htook =>
          obtain ⟨r, _, hhandle⟩ := htook.handled
          refine { logged := hlogged', room := htook.room, sound := htook.sound
                   ok := fun h => absurd h (Option.some_ne_none _)
                   error := fun e he _ => ⟨s.client.1, r, ?_⟩ }
          rw [← he]
          exact congrArg Prod.fst hhandle
  | step htook _ ih =>
      intro hlogged _
      obtain ⟨error, s', rfl, hresult⟩ := ih (hlogged.took htook) htook.room
      exact ⟨error, s', rfl, hresult.logged, hresult.room,
        fun h => hresult.sound (htook.sound h), hresult.ok,
        fun e he h => hresult.error e he (htook.sound h)⟩

/-- A run among a broker's packets comes to no undefined behaviour. -/
theorem broker_run (handle : σ → Response → Option Error × σ) {mem : List UInt8}
    (hsmall : mem.length < 2 ^ 32) (hsize : 0 < mem.length)
    (hfits : ∀ b ∈ packets, b.bytes.length ≤ mem.length) (client : σ)
    {events : List (Event σ)}
    (hsent : streamOf (arrived events) <+: packets.flatMap BrokerPacket.bytes) :
    ∃ s, Runs.run (step handle) (start mem client) events = some s ∧ 0 < s.buffer.currSz ∧
      (Sound (arrived events) → Sound s.arrivals) := by
  induction events using List.reverseRecOn with
  | nil => exact ⟨_, rfl, hsize, id⟩
  | append_singleton events e ih =>
      rw [arrived_append, streamOf_append] at hsent
      obtain ⟨s, hrun, hroom, hsound⟩ := ih ((List.prefix_append _ _).trans hsent)
      have hlogged := run_logged hsmall client hrun
      suffices hstep : ∃ s', step handle s e = some s' ∧ 0 < s'.buffer.currSz ∧
          (Sound (arrived (events ++ [e])) → Sound s'.arrivals) by
        obtain ⟨s', hs', hkeeps⟩ := hstep
        exact ⟨s', Runs.run_append_eq_some.mpr ⟨s, hrun, Runs.run_cons_eq_some.mpr
          ⟨s', hs', rfl⟩⟩, hkeeps⟩
      rw [arrived_append]
      cases e with
      | arrive arrivals =>
          refine ⟨_, rfl, hroom, fun h => ?_⟩
          rw [show arrived [Event.arrive (σ := σ) arrivals] = arrivals from List.append_nil _] at h
          obtain ⟨hbefore, hnew⟩ := List.forall_mem_append.mp h
          exact List.forall_mem_append.mpr ⟨hsound hbefore, hnew⟩
      | call f =>
          refine ⟨_, rfl, hroom, fun h => hsound ?_⟩
          exact (List.forall_mem_append.mp h).1
      | recv =>
          obtain ⟨outcome, hcall, hrecv⟩ := mqttRecv_recv (logging handle) hlogged.ok
          obtain ⟨error, s', rfl, hresult⟩ := recv_result hsize hfits
            ((List.prefix_append _ _).trans hsent) hrecv hlogged hroom
          refine ⟨s', by rw [step, hcall], hresult.room, fun h => hresult.sound (hsound ?_)⟩
          exact (List.forall_mem_append.mp h).1

/-- The next call of `__mqtt_recv` returns. -/
theorem broker_recv {mem : List UInt8} (hsmall : mem.length < 2 ^ 32)
    (hsize : 0 < mem.length) (hfits : ∀ b ∈ packets, b.bytes.length ≤ mem.length) (client : σ)
    {events : List (Event σ)}
    (hsent : streamOf (arrived events) <+: packets.flatMap BrokerPacket.bytes)
    {s : Receiver (σ × List Packet)}
    (hrun : Runs.run (step handle) (start mem client) events = some s) :
    ∃ error s', mqttRecv (logging handle) s = some (.returned error s') ∧
      CallResult handle mem.length (streamOf (arrived events)) s error s' := by
  obtain ⟨s₁, hrun₁, hroom, _⟩ := broker_run handle hsmall hsize hfits client hsent
  rw [hrun] at hrun₁
  cases hrun₁
  have hlogged := run_logged hsmall client hrun
  obtain ⟨outcome, hcall, hrecv⟩ := mqttRecv_recv (logging handle) hlogged.ok
  obtain ⟨error, s', rfl, hresult⟩ := recv_result hsize hfits hsent hrecv hlogged hroom
  exact ⟨error, s', hcall, hresult⟩

/-- **Each packet of the broker once, and in order.** The broker sends well-formed packets, each
of which fits the receive buffer, and `mqtt_connect` has been called, so that the mutex is free
between the calls. However the bytes come in and whatever else the client is called for, the
next call of `__mqtt_recv` returns, and what has been handed over then are the broker's first
packets. It fails only if the connection or the handling of a packet does. If it succeeds and
has read all that was sent, all packets have been handed over. -/
theorem broker_packets_once {mem : List UInt8} (hsmall : mem.length < 2 ^ 32)
    (hsize : 0 < mem.length) (hfits : ∀ b ∈ packets, b.bytes.length ≤ mem.length) (client : σ)
    {events : List (Event σ)}
    (hsent : streamOf (arrived events) <+: packets.flatMap BrokerPacket.bytes) :
    ∃ s error s', Runs.run (step handle) (start mem client) events = some s ∧
      mqttRecv (logging handle) s = some (.returned error s') ∧
      s'.log <+: packets.map BrokerPacket.packet ∧
      (∀ e, error = some e → Sound (arrived events) →
        ∃ client r, (handle client r).1 = some e) ∧
      (error = none → streamOf s'.arrivals = [] →
        streamOf (arrived events) = packets.flatMap BrokerPacket.bytes →
          s'.log = packets.map BrokerPacket.packet) := by
  obtain ⟨s, hrun, _, hsound⟩ := broker_run handle hsmall hsize hfits client hsent
  obtain ⟨error, s', hcall, hresult⟩ := broker_recv hsmall hsize hfits client hsent hrun
  obtain ⟨done, todo, rfl, hlog, hprefix, hall⟩ := hresult.logged.split hsent
  refine ⟨s, error, s', hrun, hcall, ?_, fun e he h => hresult.error e he (hsound h), ?_⟩
  · rw [hlog, List.map_append]
    exact List.prefix_append _ _
  · intro hok hread hbytes
    have hrest := hall hbytes
    rw [Receiver.stream, hread, List.append_nil] at hrest
    cases todo with
    | nil => rw [hlog, List.append_nil]
    | cons b todo =>
        have hless := length_of_incomplete (Eq.subst hrest (List.prefix_refl _)) (hresult.ok hok)
        rw [hrest, List.flatMap_cons, List.length_append] at hless
        omega

/-- An acknowledgement in two portions and a ping response. -/
theorem broker_packets_once_ack :
    ∃ s error s', Runs.run (step fun (n : Nat) _ => (none, n + 1)) (start [0, 0, 0, 0] 0)
        [.arrive [.data [0x40, 2]], .recv, .arrive [.data [0, 7, 0xD0], .data [0]]] = some s ∧
      mqttRecv (logging fun (n : Nat) _ => (none, n + 1)) s = some (.returned error s') ∧
      s'.log <+: [.puback 7, .pingresp] ∧
      (∀ e, error = some e → Sound [.data [0x40, 2], .data [0, 7, 0xD0], .data [0]] →
        ∃ (client : Nat) (r : Response),
          ((fun (n : Nat) (_ : Response) => ((none : Option Error), n + 1)) client r).1 = some e) ∧
      (error = none → streamOf s'.arrivals = [] →
        [0x40, 2, 0, 7, 0xD0, 0] = [BrokerPacket.puback 7, .pingresp].flatMap BrokerPacket.bytes →
          s'.log = [.puback 7, .pingresp]) :=
  @broker_packets_once _ _ [.puback 7, .pingresp] [0, 0, 0, 0] (by decide) (by decide)
    (by simp [BrokerPacket.bytes, BrokerPacket.header, BrokerPacket.body, FixedHeader.bytes,
      lengthBytes_last, Client.mqttPackUint16]) 0 _
    (by simp [BrokerPacket.bytes, BrokerPacket.header, BrokerPacket.body, FixedHeader.bytes,
      lengthBytes_last, Client.mqttPackUint16, arrived, streamOf, FixedHeader.firstByte,
      ControlPacketType.code]; decide)

end Caeco.Mqtt
