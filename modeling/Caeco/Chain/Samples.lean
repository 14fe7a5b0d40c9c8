import Caeco.Client.FrameOrder
import Caeco.Mqtt.Broker
import Caeco.Payload.RoundTrip
import Caeco.Transfer.Agreement

/-!
# From the broker to the accelerator

The MQTT client and `publish_callback` have no state in common: the callback's thread runs
through the messages that the client hands over, whatever goes on between its statements. What
the accelerator adds up are then the samples that the broker has sent.
-/

namespace Caeco.Chain

open Client (Action Program Tested ResponsePublish frameKeys frameValues parse)
open Mqtt (BrokerPacket Publish Session publishOf publishes)
open Payload (Malloc Triple cstr_eq_self render scan_render stored_of_reads values
  zero_not_mem_render atoi_copied_of_reads)
open Hls (SideChan invoke isLast)
open Transfer (Carries answer answer_data)
open Cut (cutAfter groups pieces)

/-! ## A message -/

/-- The message says these samples, and there are enough of them for a frame. -/
def Renders (q : Publish) (vs : List Triple) : Prop :=
  110 ≤ vs.length ∧ ∃ time, 0 ∉ time ∧ q.applicationMessage = render vs time

/-- The first 110 samples. -/
def frameOf (vs : List Triple) : List (BitVec 32) := values (vs.take 110)

theorem length_frameOf {vs : List Triple} (h : 110 ≤ vs.length) : (frameOf vs).length = 330 := by
  rw [frameOf, Payload.length_values, List.length_take, Nat.min_eq_left h]

/-- What lies behind the message in the receive buffer does not matter. -/
theorem frameValues_render {malloc : Malloc} (hmalloc : malloc.Succeeds)
    (hbyte : malloc.NoDigit) {vs : List Triple} (hvs : 110 ≤ vs.length) {time : List UInt8}
    (htime : 0 ∉ time) (residue : List UInt8) (calls : Nat) :
    frameValues malloc calls (render vs time ++ residue) = frameOf vs := by
  have hkeys : frameKeys = Payload.keys 110 := rfl
  obtain ⟨tokens, hscan, hreads⟩ := scan_render hvs time
  rw [← hkeys] at hscan
  have hsplits := (Search.scan_isSome_iff Client.frameKeys_ok _).mp ⟨tokens, hscan⟩
  rw [Client.frameValues_append (.inr hsplits), frameValues,
    cstr_eq_self (zero_not_mem_render vs htime)]
  exact stored_of_reads calls hscan
    (hreads.imp fun _ _ h => atoi_copied_of_reads hmalloc hbyte h)

theorem frameValues_published {malloc : Malloc} (hmalloc : malloc.Succeeds)
    (hbyte : malloc.NoDigit) {published : ResponsePublish} {vs : List Triple}
    (h : Renders (publishOf published) vs) (calls : Nat) :
    frameValues malloc calls published.applicationMessage = frameOf vs := by
  obtain ⟨hvs, time, htime, hmessage⟩ := h
  have hsplit := List.take_append_drop published.applicationMessageSize
    published.applicationMessage
  rw [show published.applicationMessage.take published.applicationMessageSize
    = render vs time from hmessage] at hsplit
  rw [← hsplit]
  exact frameValues_render hmalloc hbyte hvs htime _ calls

/-! ## The messages of a session -/

/-- The message that an action of the program is about. -/
def published : Action → Option ResponsePublish
  | .publish published _ => some published
  | _ => none

theorem filterMap_message (as : List Action) :
    as.filterMap Action.message
      = (as.filterMap published).map ResponsePublish.applicationMessage := by
  rw [List.map_filterMap]
  congr 1
  funext a
  cases a <;> rfl

/-- What is recorded of a session are the messages of its log. -/
theorem record_eq {time : Nat → Nat} {leftover : Nat → Mqtt.QueuedMessage}
    {recvbuf sendbuf : List UInt8} {sizeofMessage timeOfLastSend : Nat} {keepAlive : BitVec 16}
    {actions : List Mqtt.Action} {s : Session (List ResponsePublish)}
    (hsmall : recvbuf.length < 2 ^ 32)
    (hrun : Runs.run (Session.step ⟨time, leftover, Mqtt.Protocol.record⟩)
      (Session.init recvbuf sendbuf sizeofMessage keepAlive timeOfLastSend []) actions = some s)
    (hlevel : ∀ q ∈ publishes s.log, q.qosLevel = 0) :
    s.client.1.publishResponseCallbackState.map publishOf = publishes s.log := by
  refine Session.run_handed
    (J := fun (rs : List ResponsePublish) qs => rs.map publishOf = qs) ?_ rfl hsmall hrun hlevel
  intro rs qs p h
  show (rs ++ [p]).map publishOf = _
  rw [List.map_append, h]
  rfl

/-! ## The frames of the program -/

/-- The samples whose callback saw `caeco_rdy` true. -/
def chosen (samples : List (List Triple)) (ready : List Bool) : List (List Triple) :=
  ((samples.zip ready).filter Prod.snd).map Prod.fst

variable {malloc : Malloc} {samples : List (List Triple)}

theorem kept_eq {tested : List Tested}
    (h : List.Forall₂ (fun t vs => parse malloc t = frameOf vs) tested samples) :
    (tested.filter (·.ready)).map (parse malloc)
      = (chosen samples (tested.map (·.ready))).map frameOf := by
  induction h with
  | nil => rfl
  | @cons t vs tested samples hparse _ ih =>
      rw [chosen, List.map_cons, List.zip_cons_cons, List.filter_cons, List.filter_cons]
      cases t.ready with
      | true =>
          simp only [if_true, List.map_cons, hparse]
          exact congrArg _ ih
      | false => exact ih

theorem parses_tested (hmalloc : malloc.Succeeds) (hbyte : malloc.NoDigit)
    {responses : List ResponsePublish}
    (h : List.Forall₂ (fun r vs => Renders (publishOf r) vs) responses samples) :
    ∀ {tested : List Tested},
      tested.map (·.message) = responses.map ResponsePublish.applicationMessage →
        List.Forall₂ (fun t vs => parse malloc t = frameOf vs) tested samples := by
  induction h with
  | nil =>
      intro tested htested
      rw [List.map_eq_nil_iff.mp htested]
      exact .nil
  | @cons r vs responses samples hrenders _ ih =>
      intro tested htested
      cases tested with
      | nil => cases htested
      | cons t tested =>
          injection htested with hmessage hrest
          refine .cons ?_ (ih hrest)
          rw [parse, show t.message = _ from hmessage]
          exact frameValues_published hmalloc hbyte hrenders t.calls

/-- **The program hands over the samples of its messages**, of those that it did not pass
over. -/
theorem handed_eq (hmalloc : malloc.Succeeds) (hbyte : malloc.NoDigit)
    {txBuf : Vector (BitVec 32) 330} {as : List Action} {p : Program}
    (hrun : Runs.run (Program.step malloc) (.init txBuf) as = some p) (hidle : p.pc = .idle)
    (h : List.Forall₂ (fun r vs => Renders (publishOf r) vs) (as.filterMap published) samples) :
    p.tested.length = samples.length ∧
      p.handed = (chosen samples (p.tested.map (·.ready))).map frameOf := by
  have hrenders : ∀ r ∈ as.filterMap published, ∃ vs, Renders (publishOf r) vs :=
    ((List.forall₂_and_left _ _).mp (h.imp fun _ vs hvs => ⟨⟨vs, hvs⟩, hvs⟩)).1
  have hfill : ∀ a ∈ as, ∀ s, Client.FillsWell malloc s a := by
    intro a ha s
    cases a with
    | publish published junk =>
        obtain ⟨vs, hvs⟩ := hrenders published (List.mem_filterMap.mpr ⟨_, ha, rfl⟩)
        show (frameValues malloc _ _).length = 330
        rw [frameValues_published hmalloc hbyte hvs, length_frameOf hvs.1]
    | _ => trivial
  have hinv := Runs.run_invariant_of_forall (fun s a s' hs ha => Client.inOrder_step hs (ha s))
    (Client.inOrder_init malloc txBuf) hfill hrun
  have harrived := Client.arrived_run hrun
  rw [filterMap_message, Program.arrived, if_neg (by rw [hidle]; simp), List.append_nil]
    at harrived
  have htested := parses_tested hmalloc hbyte h harrived
  refine ⟨htested.length_eq, ?_⟩
  rw [← kept_eq htested]
  have horder := hinv.order
  rw [Program.awaiting, if_neg (by rw [hidle]; simp), List.append_nil] at horder
  exact horder.symm

/-! ## The sums of the accelerator -/

/-- A frame is one group, and its sum one beat. -/
theorem answer_frame {packet : List SideChan} {vs : List Triple} (hvs : 110 ≤ vs.length)
    (h : Carries packet (frameOf vs)) :
    (answer packet).map SideChan.data = [(frameOf vs).sum] := by
  have hgroups : pieces (groups 330 (frameOf vs)) = [frameOf vs] := by
    have hfull := Cut.groups_full (n := 330) (by decide) (length_frameOf hvs) []
    rw [List.append_nil] at hfull
    rw [hfull]
    rfl
  rw [answer_data, h.data, hgroups]
  rfl

theorem answers_frames {packets : List (List SideChan)}
    (h : List.Forall₂ (fun packet vs => Carries packet (frameOf vs)) packets samples)
    (hsamples : ∀ vs ∈ samples, 110 ≤ vs.length) :
    (packets.map answer).map (List.map SideChan.data)
      = samples.map fun vs => [(frameOf vs).sum] := by
  induction h with
  | nil => rfl
  | cons hcarries _ ih =>
      obtain ⟨hvs, hrest⟩ := List.forall_mem_cons.mp hsamples
      rw [List.map_cons, List.map_cons, List.map_cons, answer_frame hvs hcarries, ih hrest]

theorem mem_chosen {ready : List Bool} {vs : List Triple} (h : vs ∈ chosen samples ready) :
    vs ∈ samples := by
  obtain ⟨⟨vs', b⟩, hmem, rfl⟩ := List.mem_map.mp h
  exact (List.of_mem_zip (List.mem_filter.mp hmem).1).1

theorem chosen_take (samples : List (List Triple)) (ready : List Bool) :
    chosen (samples.take ready.length) ready = chosen samples ready := by
  induction ready generalizing samples with
  | nil => rw [chosen, chosen, List.zip_nil_right, List.zip_nil_right]
  | cons b ready ih =>
      cases samples with
      | nil => rfl
      | cons vs samples =>
          have hrest := ih samples
          rw [chosen, chosen] at hrest ⊢
          rw [List.length_cons, List.take_succ_cons, List.zip_cons_cons, List.zip_cons_cons,
            List.filter_cons, List.filter_cons]
          split
          · rw [List.map_cons, List.map_cons, hrest]
          · exact hrest

/-! ## The whole way -/

section Way

variable {time : Nat → Nat} {leftover : Nat → Mqtt.QueuedMessage} {recvbuf sendbuf : List UInt8}
  {sizeofMessage timeOfLastSend : Nat} {keepAlive : BitVec 16} {actions : List Mqtt.Action}
  {s : Session (List ResponsePublish)} {packets : List BrokerPacket}
  {txBuf : Vector (BitVec 32) 330} {as : List Action} {p : Program}

/-- What the program hands over of a session's messages. -/
theorem handed_samples (hmalloc : malloc.Succeeds) (hbyte : malloc.NoDigit)
    (hsmall : recvbuf.length < 2 ^ 32)
    (hsession : Runs.run (Session.step ⟨time, leftover, Mqtt.Protocol.record⟩)
      (Session.init recvbuf sendbuf sizeofMessage keepAlive timeOfLastSend []) actions = some s)
    (hsent : Mqtt.streamOf (Session.incoming actions) <+: packets.flatMap BrokerPacket.bytes)
    (hlevel : ∀ q ∈ publishes (packets.map BrokerPacket.packet), q.qosLevel = 0)
    (hsamples : List.Forall₂ Renders (publishes (packets.map BrokerPacket.packet)) samples)
    (hprogram : Runs.run (Program.step malloc) (.init txBuf) as = some p)
    (hfed : as.filterMap published = s.client.1.publishResponseCallbackState)
    (hidle : p.pc = .idle) :
    publishes s.log <+: publishes (packets.map BrokerPacket.packet) ∧
      p.tested.length = (publishes s.log).length ∧
      p.handed = (chosen samples (p.tested.map (·.ready))).map frameOf := by
  obtain ⟨events, hevents, harrived⟩ := Session.run_events hsession
  rw [← harrived] at hsent
  obtain ⟨done, todo, rfl, hlog, _, _⟩ := (Mqtt.run_logged hsmall _ hevents).split hsent
  have hsplit : publishes ((done ++ todo).map BrokerPacket.packet)
      = publishes s.log ++ publishes (todo.map BrokerPacket.packet) := by
    rw [List.map_append, Mqtt.publishes_append, hlog]
  have hrecorded := record_eq hsmall hsession fun q hq =>
    hlevel q (by rw [hsplit]; exact List.mem_append_left _ hq)
  -- the samples of the messages that the session has handed over
  have hfirst := List.forall₂_take (publishes s.log).length hsamples
  rw [hsplit, List.take_left, ← hrecorded, List.forall₂_map_left_iff, ← hfed] at hfirst
  obtain ⟨hlength, hhanded⟩ := handed_eq hmalloc hbyte hprogram hidle hfirst
  have htested : p.tested.length = (publishes s.log).length := by
    rw [hlength, ← hfirst.length_eq, hfed, ← hrecorded, List.length_map]
  have hready : (p.tested.map (·.ready)).length = (publishes s.log).length := by
    rw [List.length_map, htested]
  rw [hfed, hrecorded, ← hready, chosen_take] at hhanded
  exact ⟨⟨_, hsplit.symm⟩, htested, hhanded⟩

/-- **From the broker to the accelerator.** The broker sends samples, at least 110 at a time and
rendered as text, in messages of level 0 among other packets; `malloc` succeeds, and the byte
that nobody writes behind a token is no digit. Whatever the portions in which they come in, whatever
else the client is called for, whenever signals come and whatever the transfers return: the
program handles the first messages, each of them once and in order; what it hands over are the
frames of those that it did not pass over; and the kernel answers each frame with the sum of
its samples. -/
theorem samples_summed (hmalloc : malloc.Succeeds) (hbyte : malloc.NoDigit)
    (hsmall : recvbuf.length < 2 ^ 32)
    (hsession : Runs.run (Session.step ⟨time, leftover, Mqtt.Protocol.record⟩)
      (Session.init recvbuf sendbuf sizeofMessage keepAlive timeOfLastSend []) actions = some s)
    (hsent : Mqtt.streamOf (Session.incoming actions) <+: packets.flatMap BrokerPacket.bytes)
    (hlevel : ∀ q ∈ publishes (packets.map BrokerPacket.packet), q.qosLevel = 0)
    (hsamples : List.Forall₂ Renders (publishes (packets.map BrokerPacket.packet)) samples)
    (hprogram : Runs.run (Program.step malloc) (.init txBuf) as = some p)
    (hfed : as.filterMap published = s.client.1.publishResponseCallbackState)
    (hidle : p.pc = .idle) {beats : List (List SideChan)}
    (hbeats : List.Forall₂ Carries beats p.handed) :
    publishes s.log <+: publishes (packets.map BrokerPacket.packet) ∧
      p.tested.length = (publishes s.log).length ∧
      p.handed = (chosen samples (p.tested.map (·.ready))).map frameOf ∧
      ∃ out answers, invoke beats.length beats.flatten = (out, .returned []) ∧
        cutAfter isLast out = (answers, []) ∧
        answers.map (List.map SideChan.data)
          = (chosen samples (p.tested.map (·.ready))).map fun vs => [(frameOf vs).sum] := by
  obtain ⟨hlog, htested, hhanded⟩ := handed_samples hmalloc hbyte hsmall hsession hsent hlevel
    hsamples hprogram hfed hidle
  refine ⟨hlog, htested, hhanded, ?_⟩
  rw [hhanded, List.forall₂_map_right_iff] at hbeats
  have hlong : ∀ vs ∈ samples, 110 ≤ vs.length := by
    have hall := hsamples.flip.imp fun vs q (h : Renders q vs) => (⟨h.1, h⟩ : 110 ≤ vs.length ∧ _)
    exact ((List.forall₂_and_left _ _).mp hall).1
  have hpackets : ∀ packet ∈ beats, Transfer.IsPacket packet :=
    Transfer.isPacket_of_carries (List.forall₂_map_right_iff.mpr hbeats)
  exact ⟨_, beats.map answer, Transfer.invoke_packets beats hpackets,
    Transfer.cutAfter_answers beats hpackets,
    answers_frames hbeats fun vs hvs => hlong vs (mem_chosen hvs)⟩

end Way

/-! ### One message -/

/-- Any words can be sent as a packet. -/
theorem exists_carries {b : List (BitVec 32)} (h : b ≠ []) : ∃ packet, Carries packet b := by
  obtain ⟨pre, w, rfl⟩ := List.eq_nil_or_concat' b |>.resolve_left h
  refine ⟨pre.map (fun w => ⟨w, 15, 15, 0, 0, 0, 0⟩) ++ [⟨w, 15, 15, 0, 1, 0, 0⟩], ?_, _, _, rfl,
    ?_, rfl⟩
  · rw [List.map_append, List.map_map]
    exact congrArg (· ++ [w]) (List.map_id _)
  · intro c hc
    obtain ⟨_, _, rfl⟩ := List.mem_map.mp hc
    rfl

theorem exists_beats : ∀ (frames : List (List (BitVec 32))), (∀ f ∈ frames, f ≠ []) →
    ∃ beats, List.Forall₂ Carries beats frames := by
  intro frames
  induction frames with
  | nil => exact fun _ => ⟨[], .nil⟩
  | cons f frames ih =>
      intro h
      obtain ⟨hf, hrest⟩ := List.forall_mem_cons.mp h
      obtain ⟨packet, hpacket⟩ := exists_carries hf
      obtain ⟨beats, hbeats⟩ := ih hrest
      exact ⟨packet :: beats, .cons hpacket hbeats⟩

def oneFrame : List Triple := .replicate 110 ⟨1, 2, 3⟩

theorem vibration_fits : (Payload.lit "vibration").length < 2 ^ 16 := by decide

/-- The message of one frame. -/
def frameMessage : Client.PublishPacket where
  controlFlags := 0
  topicName := Payload.lit "vibration"
  packetId := 0
  applicationMessage := render oneFrame (Payload.decimal 1690)
  topic_fits := vibration_fits
  long_enough := by decide +kernel

def framePacket : BrokerPacket := .publish frameMessage (by decide) (by decide +kernel)

/-- A connection, a subscription, and the message in one portion. -/
def frameActions : List Mqtt.Action :=
  Session.connected ++ [.subscribe (Payload.lit "vibration") 0, .accept [.accepted 300]] ++
    Session.sync ++ [.arrive [.data framePacket.bytes]] ++ Session.sync

theorem incoming_frameActions : Mqtt.streamOf (Session.incoming frameActions)
    = [.connack false 0, framePacket].flatMap BrokerPacket.bytes := by
  have hconnack : (BrokerPacket.connack false 0).bytes = [0x20, 2, 0, 0] := by
    simp [BrokerPacket.bytes, BrokerPacket.header, BrokerPacket.body, Mqtt.FixedHeader.bytes,
      Mqtt.lengthBytes_last, Mqtt.FixedHeader.firstByte, Mqtt.ControlPacketType.code]
    decide
  rw [List.flatMap_cons, hconnack]
  rfl

/-- The message goes all the way. -/
theorem samples_summed_one_message :
    ∃ (s : Session (List ResponsePublish)) (as : List Action) (p : Program)
      (beats : List (List SideChan)),
      Runs.run (Session.step ⟨id, fun _ => ⟨0, 0, .unsent, 0, .reserved0, 0⟩,
          Mqtt.Protocol.record⟩)
        (Session.init (.replicate 4096 0) (.replicate 300 0) 24 0 0 []) frameActions = some s ∧
      Runs.run (Program.step fun _ n => some (.replicate n 0)) (.init (.replicate 330 0)) as
        = some p ∧
      List.Forall₂ Carries beats p.handed ∧ p.handed = [frameOf oneFrame] ∧
      ∃ out answers, invoke beats.length beats.flatten = (out, .returned []) ∧
        cutAfter isLast out = (answers, []) ∧ answers.map (List.map SideChan.data) = [[660]] := by
  have hmalloc : Malloc.Succeeds fun _ n => some (.replicate n 0) := fun _ n => ⟨_, rfl⟩
  have hbyte : Malloc.NoDigit fun _ n => some (.replicate n 0) := by
    intro k n bytes h b hb
    cases h
    rw [List.eq_of_mem_replicate (List.mem_of_getElem? hb)]
    decide
  have hsmall : (List.replicate 4096 (0 : UInt8)).length < 2 ^ 32 := by
    rw [List.length_replicate]
    decide
  have hone : (Runs.run (Session.step ⟨id, fun _ => ⟨0, 0, .unsent, 0, .reserved0, 0⟩,
      Mqtt.Protocol.record⟩) (Session.init (.replicate 4096 0) (.replicate 300 0) 24 0 0 [])
        frameActions).map (fun s => s.client.1.publishResponseCallbackState.length)
      = some 1 := by decide +kernel
  obtain ⟨s, hsession, hlength⟩ := Option.map_eq_some_iff.mp hone
  obtain ⟨r, hr⟩ := List.length_eq_one_iff.mp hlength
  have hsent : Mqtt.streamOf (Session.incoming frameActions)
      <+: [.connack false 0, framePacket].flatMap BrokerPacket.bytes := by
    rw [incoming_frameActions]
  have hlevel : ∀ q ∈ publishes ([.connack false 0, framePacket].map BrokerPacket.packet),
      q.qosLevel = 0 := List.forall_mem_singleton.mpr rfl
  have hsamples : List.Forall₂ Renders
      (publishes ([.connack false 0, framePacket].map BrokerPacket.packet)) [oneFrame] :=
    .cons ⟨by decide, Payload.decimal 1690, Payload.zero_not_mem_decimal _, rfl⟩ .nil
  obtain ⟨p, hprogram, hidle, hready⟩ : ∃ p,
      Runs.run (Program.step fun _ n => some (.replicate n 0)) (.init (.replicate 330 0))
        (Client.transferActions r) = some p ∧ p.pc = .idle ∧
          p.tested.map (·.ready) = [true] := ⟨_, rfl, rfl, rfl⟩
  have hfed : (Client.transferActions r).filterMap published
      = s.client.1.publishResponseCallbackState := hr.symm
  obtain ⟨_, _, hhanded⟩ := handed_samples hmalloc hbyte hsmall hsession hsent hlevel
    hsamples hprogram hfed hidle
  have hchosen : chosen [oneFrame] [true] = [oneFrame] := rfl
  rw [hready, hchosen] at hhanded
  obtain ⟨beats, hbeats⟩ := exists_beats p.handed (by
    rw [hhanded]
    exact List.forall_mem_singleton.mpr (List.ne_nil_of_length_pos (by
      rw [length_frameOf (by decide)]; decide)))
  obtain ⟨_, _, _, out, answers, hout, hanswers, hdata⟩ := samples_summed hmalloc hbyte
    hsmall hsession hsent hlevel hsamples hprogram hfed hidle hbeats
  rw [hready, hchosen] at hdata
  have hsum : (frameOf oneFrame).sum = 660 := by decide +kernel
  rw [List.map_singleton, hsum] at hdata
  exact ⟨s, _, p, beats, hsession, hprogram, hbeats, hhanded, out, answers, hout, hanswers, hdata⟩

end Caeco.Chain
