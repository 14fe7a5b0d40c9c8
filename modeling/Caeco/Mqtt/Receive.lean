import Caeco.Mqtt.Unpack

/-!
# The receive loop

`__mqtt_recv` reads from the socket into its buffer as long as there is something to read,
takes the packets out at the front and hands each of them over. A call comes to an end, and
is a sequence of packets taken from the front of the byte stream.
-/

namespace Caeco.Mqtt

open Framing

/-! ## `mqtt_pal_recvall` -/

/-- What a `recv` on the non-blocking socket comes upon. -/
inductive Arrival where
  /-- bytes to be read; none of them: the peer has closed the connection -/
  | data (bytes : List UInt8)
  /-- `EAGAIN` -/
  | again
  | failed
deriving Repr, DecidableEq

/-- A connection that neither fails nor ends. -/
def Sound (arrivals : List Arrival) : Prop := ∀ a ∈ arrivals, a ≠ .failed ∧ a ≠ .data []

/-- The bytes on their way. -/
def streamOf (arrivals : List Arrival) : List UInt8 :=
  arrivals.flatMap fun
    | .data bytes => bytes
    | _ => []

/-- What a `recv` has not read stays in the socket. -/
def unread (bytes : List UInt8) (arrivals : List Arrival) : List Arrival :=
  if bytes = [] then arrivals else .data bytes :: arrivals

/-- What the loop of `mqtt_pal_recvall` comes to: the bytes that have come, whether `recv` has
failed, and what is still to arrive. -/
structure Recvall where
  received : List UInt8
  failed : Bool
  arrivals : List Arrival
deriving Repr, DecidableEq

/-- The loop of `mqtt_pal_recvall`. With nothing left to arrive, `recv` says `EAGAIN`. -/
def recvLoop : List Arrival → Nat → Recvall
  | [], _ => ⟨[], false, []⟩
  | .again :: arrivals, _ => ⟨[], false, arrivals⟩
  | .failed :: arrivals, _ => ⟨[], true, arrivals⟩
  | .data bytes :: arrivals, bufsz =>
      -- `recv` returns 0
      if bytes = [] ∨ bufsz = 0 then ⟨[], true, unread bytes arrivals⟩
      else if bufsz ≤ bytes.length then
        ⟨bytes.take bufsz, false, unread (bytes.drop bufsz) arrivals⟩
      else
        let r := recvLoop arrivals (bufsz - bytes.length)
        { r with received := bytes ++ r.received }

/-- An error is returned only if nothing was read before it. -/
def mqttPalRecvall (arrivals : List Arrival) (bufsz : Nat) :
    Except Error (List UInt8) × List Arrival :=
  let r := recvLoop arrivals bufsz
  if r.received = [] ∧ r.failed then (.error .socketError, r.arrivals)
  else (.ok r.received, r.arrivals)

/-! ## `__mqtt_recv` -/

/-- `client->recv_buffer`: its memory, and `curr` as an index. -/
structure RecvBuffer where
  mem : List UInt8
  curr : Nat
  currSz : Nat
deriving Repr, DecidableEq

/-- The bytes that have been received and not yet been taken out. -/
def RecvBuffer.content (b : RecvBuffer) : List UInt8 := b.mem.take b.curr

/-- `mqtt_pal_recvall` has written the bytes at `curr`. -/
def RecvBuffer.fill (b : RecvBuffer) (bytes : List UInt8) : RecvBuffer where
  mem := b.mem.take b.curr ++ bytes ++ b.mem.drop (b.curr + bytes.length)
  curr := b.curr + bytes.length
  currSz := b.currSz - bytes.length

/-- The `memmove` after a packet. Its number of bytes is computed without a check: where
more has been consumed than received, the behaviour is undefined. -/
def RecvBuffer.clean (b : RecvBuffer) (consumed : Nat) : Option RecvBuffer :=
  if b.curr < consumed then none
  else
    let n := b.curr - consumed
    some { mem := (b.mem.drop consumed).take n ++ b.mem.drop n
           curr := n
           currSz := b.currSz + consumed }

/-- The part of the client that `__mqtt_recv` works on; `client` is the rest. -/
structure Receiver (σ : Type) where
  client : σ
  buffer : RecvBuffer
  arrivals : List Arrival
deriving Repr, DecidableEq

/-- How a round of the loop ends. The error, if there is one, goes into `client->error`. -/
inductive Round (σ : Type) where
  | undefined
  | returns (error : Option Error) (s : Receiver σ)
  | continues (s : Receiver σ)
deriving Repr, DecidableEq

variable {σ : Type}

/-- The round after the read: unpack, hand over, clean the buffer. `handle` is the switch
over the control types. -/
def takePacket (handle : σ → Response → Option Error × σ) (s : Receiver σ) : Round σ :=
  match mqttUnpackResponse s.buffer.mem s.buffer.curr with
  | .failed e => .returns (some e) s
  | .incomplete =>
      -- a full buffer will never hold the packet
      if s.buffer.currSz = 0 then .returns (some .recvBufferTooSmall) s
      else .returns none s
  | .done response consumed =>
      let (error, client) := handle s.client response
      match s.buffer.clean consumed with
      | none => .undefined
      | some buffer =>
          let s : Receiver σ := { s with client := client, buffer := buffer }
          match error with
          | none => .continues s
          | some e => .returns (some e) s

/-- One round of `__mqtt_recv`: what the socket has goes into the buffer, and the packet at its
front is handled. -/
def recvRound (handle : σ → Response → Option Error × σ) (s : Receiver σ) : Round σ :=
  match mqttPalRecvall s.arrivals s.buffer.currSz with
  | (.error e, arrivals) => .returns (some e) { s with arrivals := arrivals }
  | (.ok bytes, arrivals) =>
      takePacket handle { s with buffer := s.buffer.fill bytes, arrivals := arrivals }

/-- How a call of `__mqtt_recv` ends, with the client as it leaves it. -/
inductive Outcome (σ : Type) where
  | undefined
  | returned (error : Option Error) (s : Receiver σ)
deriving Repr, DecidableEq

def recvRounds (handle : σ → Response → Option Error × σ) : Nat → Receiver σ → Option (Outcome σ)
  | 0, _ => none
  | fuel + 1, s =>
      match recvRound handle s with
      | .undefined => some .undefined
      | .returns error s => some (.returned error s)
      | .continues s => recvRounds handle fuel s

/-- The bytes that the packets still to be found can have. -/
def Receiver.pending (s : Receiver σ) : Nat := s.buffer.curr + (streamOf s.arrivals).length

/-- `__mqtt_recv`; a round more than there are bytes is enough. -/
def mqttRecv (handle : σ → Response → Option Error × σ) (s : Receiver σ) : Option (Outcome σ) :=
  recvRounds handle (s.pending + 1) s

/-! ## What a call of `mqtt_pal_recvall` reads -/

@[simp] theorem streamOf_nil : streamOf [] = [] := rfl

@[simp] theorem streamOf_data (bytes : List UInt8) (arrivals : List Arrival) :
    streamOf (.data bytes :: arrivals) = bytes ++ streamOf arrivals := rfl

@[simp] theorem streamOf_again (arrivals : List Arrival) :
    streamOf (.again :: arrivals) = streamOf arrivals := rfl

@[simp] theorem streamOf_failed (arrivals : List Arrival) :
    streamOf (.failed :: arrivals) = streamOf arrivals := rfl

theorem streamOf_append (as bs : List Arrival) :
    streamOf (as ++ bs) = streamOf as ++ streamOf bs := List.flatMap_append

theorem streamOf_unread (bytes : List UInt8) (arrivals : List Arrival) :
    streamOf (unread bytes arrivals) = bytes ++ streamOf arrivals := by
  by_cases h : bytes = []
  · rw [unread, if_pos h, h, List.nil_append]
  · rw [unread, if_neg h, streamOf_data]

/-- Nothing is lost and nothing invented. -/
theorem recvLoop_stream (arrivals : List Arrival) :
    ∀ bufsz : Nat, streamOf arrivals
      = (recvLoop arrivals bufsz).received ++ streamOf (recvLoop arrivals bufsz).arrivals := by
  induction arrivals with
  | nil => intro bufsz; rfl
  | cons a arrivals ih =>
      intro bufsz
      cases a with
      | again => rfl
      | failed => rfl
      | data bytes =>
          rw [recvLoop]
          split
          · rw [streamOf_unread, List.nil_append, streamOf_data]
          · split
            · rw [streamOf_unread, ← List.append_assoc, List.take_append_drop, streamOf_data]
            · rw [streamOf_data, ih (bufsz - bytes.length), List.append_assoc]

theorem recvLoop_length (arrivals : List Arrival) :
    ∀ bufsz : Nat, (recvLoop arrivals bufsz).received.length ≤ bufsz := by
  induction arrivals with
  | nil => intro bufsz; exact Nat.zero_le _
  | cons a arrivals ih =>
      intro bufsz
      cases a with
      | again => exact Nat.zero_le _
      | failed => exact Nat.zero_le _
      | data bytes =>
          rw [recvLoop]
          split
          · exact Nat.zero_le _
          · split
            · exact List.length_take_le _ _
            · have hrest := ih (bufsz - bytes.length)
              rw [List.length_append]
              omega

theorem Sound.unread {bytes : List UInt8} {arrivals : List Arrival} (h : Sound arrivals) :
    Sound (unread bytes arrivals) := by
  rw [Mqtt.unread]
  split
  · exact h
  · rename_i hbytes
    exact List.forall_mem_cons.mpr ⟨⟨by simp, by simpa using hbytes⟩, h⟩

/-- Over a sound connection a read fails only for want of room. -/
theorem recvLoop_sound {arrivals : List Arrival} (h : Sound arrivals) :
    ∀ bufsz : Nat, Sound (recvLoop arrivals bufsz).arrivals ∧
      (0 < bufsz → (recvLoop arrivals bufsz).failed = false) := by
  induction arrivals with
  | nil => intro bufsz; exact ⟨h, fun _ => rfl⟩
  | cons a arrivals ih =>
      intro bufsz
      obtain ⟨⟨hfailed, hclosed⟩, hrest⟩ := List.forall_mem_cons.mp h
      cases a with
      | again => exact ⟨hrest, fun _ => rfl⟩
      | failed => exact absurd rfl hfailed
      | data bytes =>
          rw [recvLoop]
          split
          · rename_i hzero
            refine ⟨Sound.unread hrest, fun hpos => ?_⟩
            rcases hzero with rfl | hzero
            · exact absurd rfl hclosed
            · omega
          · split
            · exact ⟨Sound.unread hrest, fun _ => rfl⟩
            · obtain ⟨hsound, hfailed⟩ := ih hrest (bufsz - bytes.length)
              exact ⟨hsound, fun _ => hfailed (by omega)⟩

theorem mqttPalRecvall_error {arrivals arrivals' : List Arrival} {bufsz : Nat} {e : Error}
    (h : mqttPalRecvall arrivals bufsz = (.error e, arrivals')) :
    e = .socketError ∧ streamOf arrivals' = streamOf arrivals ∧
      ¬ (Sound arrivals ∧ 0 < bufsz) := by
  rw [mqttPalRecvall] at h
  split at h
  · rename_i hnothing
    cases h
    refine ⟨rfl, ?_, ?_⟩
    · rw [recvLoop_stream arrivals bufsz, hnothing.1, List.nil_append]
    · rintro ⟨hsound, hpos⟩
      rw [(recvLoop_sound hsound bufsz).2 hpos] at hnothing
      exact Bool.false_ne_true hnothing.2
  · cases h

theorem mqttPalRecvall_ok {arrivals arrivals' : List Arrival} {bufsz : Nat}
    {bytes : List UInt8} (h : mqttPalRecvall arrivals bufsz = (.ok bytes, arrivals')) :
    bytes.length ≤ bufsz ∧ streamOf arrivals = bytes ++ streamOf arrivals' ∧
      (Sound arrivals → Sound arrivals') := by
  rw [mqttPalRecvall] at h
  split at h
  · cases h
  · cases h
    exact ⟨recvLoop_length _ _, recvLoop_stream _ _, fun h => (recvLoop_sound h _).1⟩

/-! ## The buffer -/

/-- The sizes agree. A buffer of 4 GiB could swallow the bytes that an overrun counts. -/
structure RecvBuffer.Ok (b : RecvBuffer) : Prop where
  sizes : b.curr + b.currSz = b.mem.length
  small : b.mem.length < 2 ^ 32

namespace RecvBuffer

variable {b : RecvBuffer}

theorem Ok.length_content (h : b.Ok) : b.content.length = b.curr := by
  have := h.sizes
  rw [content, List.length_take]
  omega

theorem Ok.length_fill (h : b.Ok) {bytes : List UInt8} (hle : bytes.length ≤ b.currSz) :
    (b.fill bytes).mem.length = b.mem.length := by
  have := h.sizes
  simp only [fill, List.length_append, List.length_take, List.length_drop]
  omega

theorem Ok.fill (h : b.Ok) {bytes : List UInt8} (hle : bytes.length ≤ b.currSz) :
    (b.fill bytes).Ok where
  sizes := by
    rw [h.length_fill hle, ← h.sizes]
    simp only [RecvBuffer.fill]
    omega
  small := by rw [h.length_fill hle]; exact h.small

theorem Ok.content_fill (h : b.Ok) (bytes : List UInt8) :
    (b.fill bytes).content = b.content ++ bytes := by
  have hlen := h.length_content
  rw [content] at hlen
  simp only [content, RecvBuffer.fill]
  rw [List.take_append_of_le_length (by rw [List.length_append]; omega),
    List.take_of_length_le (by rw [List.length_append]; omega)]

theorem Ok.clean (h : b.Ok) {n : Nat} {b' : RecvBuffer} (hclean : b.clean n = some b') :
    b'.Ok ∧ b'.mem.length = b.mem.length ∧ b'.curr + n = b.curr ∧
      b'.content = b.content.drop n := by
  have hsizes := h.sizes
  have hsmall := h.small
  rw [RecvBuffer.clean] at hclean
  split at hclean
  · cases hclean
  · rename_i hle
    cases hclean
    have hlen : ((b.mem.drop n).take (b.curr - n) ++ b.mem.drop (b.curr - n)).length
        = b.mem.length := by
      rw [List.length_append, List.length_take, List.length_drop, List.length_drop]
      omega
    have hmoved : ((b.mem.drop n).take (b.curr - n)).length = b.curr - n := by
      rw [List.length_take, List.length_drop]
      omega
    refine ⟨⟨?_, ?_⟩, hlen, ?_, ?_⟩
    · rw [hlen]
      simp only
      omega
    · rw [hlen]
      exact hsmall
    · simp only
      omega
    · simp only [content]
      rw [List.take_append_of_le_length (Nat.le_of_eq hmoved.symm), List.take_take, Nat.min_self,
        List.take_drop]
      rw [Nat.add_sub_of_le (by omega)]

/-- What is unpacked at the front of the buffer. -/
theorem Ok.view_unpack (h : b.Ok) :
    view (mqttUnpackResponse b.mem b.curr) = decode b.content := by
  have hlen := h.length_content
  conv => lhs; rw [← List.take_append_drop b.curr b.mem]
  have hresidue := view_residue b.content (b.mem.drop b.curr)
  rw [hlen] at hresidue
  exact hresidue

end RecvBuffer

/-! ## What a round does -/

/-- The bytes not yet taken out: those in the buffer, then those on their way. -/
def Receiver.stream (s : Receiver σ) : List UInt8 := s.buffer.content ++ streamOf s.arrivals

/-- Bytes may have moved from the socket into the buffer. -/
structure Kept (s s' : Receiver σ) : Prop where
  client : s'.client = s.client
  ok : s'.buffer.Ok
  size : s'.buffer.mem.length = s.buffer.mem.length
  stream : s'.stream = s.stream
  sound : Sound s.arrivals → Sound s'.arrivals

variable {handle : σ → Response → Option Error × σ}

/-- The packet at the front of the stream has been handed over. -/
structure Took (handle : σ → Response → Option Error × σ) (s : Receiver σ) (p : Packet)
    (error : Option Error) (s' : Receiver σ) : Prop where
  ok : s'.buffer.Ok
  size : s'.buffer.mem.length = s.buffer.mem.length
  handled : ∃ r, r.decoded.packet = p ∧ handle s.client r = (error, s'.client)
  stream : ∃ n, decode s.stream = .done p n ∧ s'.stream = s.stream.drop n
  room : 0 < s'.buffer.currSz
  sound : Sound s.arrivals → Sound s'.arrivals

theorem Receiver.length_stream {s : Receiver σ} (h : s.buffer.Ok) :
    s.stream.length = s.pending := by
  rw [stream, pending, List.length_append, h.length_content]

theorem Took.pending_lt {s s' : Receiver σ} {p : Packet} {error : Option Error}
    (hs : s.buffer.Ok) (h : Took handle s p error s') : s'.pending < s.pending := by
  obtain ⟨n, hdecode, hstream⟩ := h.stream
  have hbounds := decode_done hdecode
  rw [← Receiver.length_stream hs, ← Receiver.length_stream h.ok, hstream, List.length_drop]
  omega

/-- How a call ends when it returns. -/
inductive Ends (handle : σ → Response → Option Error × σ) (s : Receiver σ) :
    Option Error → Receiver σ → Prop where
  | socketError {arrivals} (hstream : streamOf arrivals = streamOf s.arrivals)
      (h : ¬ (Sound s.arrivals ∧ 0 < s.buffer.currSz)) :
      Ends handle s (some .socketError) { s with arrivals := arrivals }
  | malformed {s' e} (hkept : Kept s s') (h : decode s'.buffer.content = .failed (.error e)) :
      Ends handle s (some e) s'
  | tooSmall {s'} (hkept : Kept s s') (h : decode s'.buffer.content = .incomplete)
      (hfull : s'.buffer.currSz = 0) : Ends handle s (some .recvBufferTooSmall) s'
  | waiting {s'} (hkept : Kept s s') (h : decode s'.buffer.content = .incomplete)
      (hroom : 0 < s'.buffer.currSz) : Ends handle s none s'
  | refused {s' p e} (h : Took handle s p (some e) s') : Ends handle s (some e) s'

inductive RoundEffect (handle : σ → Response → Option Error × σ) (s : Receiver σ) :
    Round σ → Prop where
  | returns {error s'} (h : Ends handle s error s') : RoundEffect handle s (.returns error s')
  | overrun {s'} (hkept : Kept s s') (h : decode s'.buffer.content = .failed .overrun) :
      RoundEffect handle s .undefined
  | handled {s' p} (h : Took handle s p none s') : RoundEffect handle s (.continues s')

theorem decode_stream {s : Receiver σ} {p : Packet} {n : Nat}
    (h : decode s.buffer.content = .done p n) : decode s.stream = .done p n := by
  rw [Receiver.stream, decode_append _ (by rw [h]; simp), h]

theorem takePacket_effect {s s₁ : Receiver σ} (hkept : Kept s s₁) :
    RoundEffect handle s (takePacket handle s₁) := by
  have hok := hkept.ok
  have hunpack := hok.view_unpack
  rw [takePacket]
  cases hdone : mqttUnpackResponse s₁.buffer.mem s₁.buffer.curr with
  | incomplete =>
      rw [hdone] at hunpack
      simp only
      by_cases hfull : s₁.buffer.currSz = 0
      · rw [if_pos hfull]
        exact .returns (.tooSmall hkept hunpack.symm hfull)
      · rw [if_neg hfull]
        exact .returns (.waiting hkept hunpack.symm (Nat.pos_of_ne_zero hfull))
  | failed e =>
      rw [hdone] at hunpack
      exact .returns (.malformed hkept hunpack.symm)
  | done r n =>
      have hcurr : s₁.buffer.curr ≤ s₁.buffer.mem.length := by have := hok.sizes; omega
      have hsmall : s₁.buffer.curr < 2 ^ 32 := by have := hok.small; omega
      have hconsumed := mqttUnpackResponse_consumed hcurr hsmall hdone
      rw [hdone, view] at hunpack
      by_cases hover : Overrun r.fixedHeader r.decoded
      · rw [if_pos hover] at hunpack
        have hundefined : s₁.buffer.clean n = none := by
          rw [RecvBuffer.clean, if_pos]
          by_contra hle
          exact hconsumed.mp (Nat.not_lt.mp hle) hover
        simp only [hundefined]
        exact .overrun hkept hunpack.symm
      · rw [if_neg hover] at hunpack
        have hle := hconsumed.mpr hover
        cases hclean : s₁.buffer.clean n with
        | none =>
            rw [RecvBuffer.clean, if_neg (Nat.not_lt.mpr hle)] at hclean
            cases hclean
        | some buffer =>
            obtain ⟨hok', hsize, hcurr', hcontent⟩ := hok.clean hclean
            have hdecode := decode_stream hunpack.symm
            have htook : Took handle s r.decoded.packet (handle s₁.client r).1
                { s₁ with client := (handle s₁.client r).2, buffer := buffer } := by
              refine { ok := hok', size := hsize.trans hkept.size
                       handled := ⟨r, rfl, by rw [← hkept.client]⟩, stream := ⟨n, ?_, ?_⟩
                       room := ?_, sound := hkept.sound }
              · rw [← hkept.stream]
                exact hdecode
              · rw [← hkept.stream]
                simp only [Receiver.stream, hcontent]
                rw [List.drop_append_of_le_length (by rw [hok.length_content]; exact hle)]
              · have hpos := (decode_done hdecode).1
                have := hok'.sizes
                have := hok.sizes
                simp only
                omega
            simp only [hclean]
            cases herror : (handle s₁.client r).1 with
            | none => rw [herror] at htook; exact .handled htook
            | some e => rw [herror] at htook; exact .returns (.refused htook)

theorem recvRound_effect (handle : σ → Response → Option Error × σ) {s : Receiver σ}
    (hs : s.buffer.Ok) :
    RoundEffect handle s (recvRound handle s) := by
  rw [recvRound]
  cases hread : mqttPalRecvall s.arrivals s.buffer.currSz with
  | mk result arrivals =>
      cases result with
      | error e =>
          obtain ⟨rfl, hstream, hreason⟩ := mqttPalRecvall_error hread
          exact .returns (.socketError hstream hreason)
      | ok bytes =>
          obtain ⟨hle, hstream, hsound⟩ := mqttPalRecvall_ok hread
          refine takePacket_effect { client := rfl, ok := hs.fill hle
                                     size := hs.length_fill hle, stream := ?_, sound := hsound }
          simp only [Receiver.stream, hs.content_fill, hstream, List.append_assoc]

/-! ## A call -/

/-- A call hands the packets over one by one until its last round returns. -/
inductive Recv (handle : σ → Response → Option Error × σ) : Receiver σ → Outcome σ → Prop where
  | undefined {s s'} (hkept : Kept s s') (h : decode s'.buffer.content = .failed .overrun) :
      Recv handle s .undefined
  | returned {s error s'} (h : Ends handle s error s') : Recv handle s (.returned error s')
  | step {s p s₁ outcome} (h : Took handle s p none s₁) (hrest : Recv handle s₁ outcome) :
      Recv handle s outcome

theorem recvRounds_recv :
    ∀ {fuel : Nat} {s : Receiver σ}, s.buffer.Ok → s.pending < fuel →
      ∃ outcome, recvRounds handle fuel s = some outcome ∧ Recv handle s outcome := by
  intro fuel
  induction fuel with
  | zero => intro s _ hfuel; omega
  | succ fuel ih =>
      intro s hs hfuel
      rw [recvRounds]
      have heffect := recvRound_effect handle hs
      generalize recvRound handle s = round at heffect
      cases heffect with
      | returns h => exact ⟨_, rfl, .returned h⟩
      | overrun hkept h => exact ⟨_, rfl, .undefined hkept h⟩
      | handled h =>
          have hless := h.pending_lt hs
          obtain ⟨outcome, hrounds, hrecv⟩ := ih h.ok (by omega)
          exact ⟨outcome, hrounds, .step h hrecv⟩

theorem Took.client_eq {s s' : Receiver σ} {p : Packet} {error : Option Error}
    (h : Took handle s p error s') : ∃ r, s'.client = (handle s.client r).2 := by
  obtain ⟨r, _, hhandle⟩ := h.handled
  exact ⟨r, by rw [hhandle]⟩

/-- The invariant rule for a call: what the switch keeps is kept. -/
theorem Recv.invariant {I : σ → Prop} (hI : ∀ c r, I c → I (handle c r).2) {s : Receiver σ}
    {outcome : Outcome σ} (h : Recv handle s outcome) :
    I s.client → s.buffer.Ok → ∀ {error : Option Error} {s' : Receiver σ},
      outcome = .returned error s' → I s'.client ∧ s'.buffer.Ok := by
  have htaken : ∀ {s s' : Receiver σ} {p : Packet} {error : Option Error},
      Took handle s p error s' → I s.client → I s'.client := by
    intro s s' p error htook hs
    obtain ⟨r, hclient⟩ := htook.client_eq
    rw [hclient]
    exact hI _ r hs
  induction h with
  | undefined _ _ => intro _ _ error s' houtcome; cases houtcome
  | returned hends =>
      intro hs hbuffer error s' houtcome
      cases houtcome
      cases hends with
      | socketError _ _ => exact ⟨hs, hbuffer⟩
      | malformed hkept _ => exact ⟨by rw [hkept.client]; exact hs, hkept.ok⟩
      | tooSmall hkept _ _ => exact ⟨by rw [hkept.client]; exact hs, hkept.ok⟩
      | waiting hkept _ _ => exact ⟨by rw [hkept.client]; exact hs, hkept.ok⟩
      | refused htook => exact ⟨htaken htook hs, htook.ok⟩
  | step htook _ ih =>
      intro hs _ error s' houtcome
      exact ih (htaken htook hs) htook.ok houtcome

/-- **A call comes to an end**, and hands over packet by packet until then. -/
theorem mqttRecv_recv (handle : σ → Response → Option Error × σ) {s : Receiver σ}
    (hs : s.buffer.Ok) :
    ∃ outcome, mqttRecv handle s = some outcome ∧ Recv handle s outcome :=
  recvRounds_recv hs (Nat.lt_succ_self _)

end Caeco.Mqtt
