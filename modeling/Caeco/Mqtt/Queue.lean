import Caeco.Kit.Tiles
import Caeco.Mqtt.Pack

/-!
# The message queue

One block of memory holds the queued messages: their bytes grow upwards from its start, the
records that describe them grow downwards from its end. Cleaning moves the bytes and the
records of the messages that are still needed. To the client the block is a queue of
messages: packing appends one, and cleaning removes the completed ones at the front.
-/

namespace Caeco.Mqtt

open Tiling

/-- `enum MQTTQueuedMessageState` -/
inductive QueuedState where
  | unsent
  | awaitingAck
  | complete
deriving Repr, DecidableEq

/-- `struct mqtt_queued_message`; `start` is an offset in the block. -/
structure QueuedMessage where
  start : Nat
  size : Nat
  state : QueuedState
  timeSent : Nat
  controlType : ControlPacketType
  packetId : BitVec 16
deriving Repr, DecidableEq

/-- `struct mqtt_message_queue`. The records are listed from the end of the block on, which
is how `mqtt_mq_get` counts them; `sizeofMessage` is the size of one on the platform. -/
structure MessageQueue where
  mem : List UInt8
  curr : Nat
  currSz : Nat
  sizeofMessage : Nat
  messages : List QueuedMessage
deriving Repr, DecidableEq

namespace MessageQueue

/-- `mqtt_mq_currsz`: the bytes left if another record is to be added. -/
def currsz (q : MessageQueue) : Nat :=
  q.mem.length - q.sizeofMessage * (q.messages.length + 1) - q.curr

def recount (q : MessageQueue) : MessageQueue := { q with currSz := q.currsz }

/-- `mqtt_mq_init` -/
def init (mem : List UInt8) (sizeofMessage : Nat) : MessageQueue :=
  recount { mem := mem, curr := 0, currSz := 0, sizeofMessage := sizeofMessage, messages := [] }

/-- A packer has written the bytes at `curr`. -/
def write (q : MessageQueue) (bytes : List UInt8) : MessageQueue :=
  { q with mem := q.mem.take q.curr ++ bytes ++ q.mem.drop (q.curr + bytes.length) }

/-- `mqtt_mq_register`. The members that it does not set are what was in the memory. -/
def register (q : MessageQueue) (leftover : QueuedMessage) (nbytes : Nat) : MessageQueue :=
  recount
    { q with
      messages := q.messages ++
        [{ leftover with start := q.curr, size := nbytes, state := .unsent }]
      curr := q.curr + nbytes }

/-- The number of completed messages at the front. -/
def newHead (q : MessageQueue) : Nat :=
  (q.messages.takeWhile fun m => m.state = .complete).length

/-- `mqtt_mq_clean` -/
def clean (q : MessageQueue) : MessageQueue :=
  match q.messages[q.newHead]? with
  | none => recount { q with curr := 0, messages := [] }
  | some newHead =>
      if q.newHead = 0 then q
      else
        let n := q.curr - newHead.start
        let removing := newHead.start
        recount
          { q with
            mem := (q.mem.drop newHead.start).take n ++ q.mem.drop n
            curr := n
            messages := (q.messages.drop q.newHead).map fun m =>
              { m with start := m.start - removing } }

/-- `mqtt_mq_find`, as an index. -/
def find (q : MessageQueue) (controlType : ControlPacketType) (packetId : Option (BitVec 16)) :
    Option Nat :=
  q.messages.findIdx? fun m =>
    m.controlType = controlType &&
      match packetId with
      | none => m.state ≠ .complete
      | some id => m.packetId = id

/-- A record is changed in place. -/
def modify (q : MessageQueue) (i : Nat) (f : QueuedMessage → QueuedMessage) : MessageQueue :=
  { q with messages := q.messages.modify i f }

/-! ## The queue as a queue -/

/-- A message with its bytes. -/
structure Entry where
  bytes : List UInt8
  state : QueuedState
  timeSent : Nat
  controlType : ControlPacketType
  packetId : BitVec 16
deriving Repr, DecidableEq

def entryOf (mem : List UInt8) (m : QueuedMessage) : Entry where
  bytes := (mem.drop m.start).take m.size
  state := m.state
  timeSent := m.timeSent
  controlType := m.controlType
  packetId := m.packetId

def entries (q : MessageQueue) : List Entry := q.messages.map (entryOf q.mem)

def stretch (m : QueuedMessage) : Stretch := ⟨m.start, m.size⟩

/-- The bytes of the messages lie one after the other, and below the records. -/
structure Ok (q : MessageQueue) : Prop where
  tiles : Tiles 0 (q.messages.map stretch) q.curr
  apart : q.curr + q.sizeofMessage * q.messages.length ≤ q.mem.length
  room : q.currSz = q.currsz
  pos : ∀ s ∈ q.messages.map stretch, 0 < s.length

/-- What changes neither the block nor the place of a message. -/
structure SameBlock (q q' : MessageQueue) : Prop where
  length : q'.mem.length = q.mem.length
  sizeofMessage : q'.sizeofMessage = q.sizeofMessage

theorem SameBlock.refl (q : MessageQueue) : SameBlock q q := ⟨rfl, rfl⟩

theorem SameBlock.trans {q q' q'' : MessageQueue} (h : SameBlock q q') (h' : SameBlock q' q'') :
    SameBlock q q'' :=
  ⟨h'.length.trans h.length, h'.sizeofMessage.trans h.sizeofMessage⟩

variable {q : MessageQueue}

theorem init_ok (mem : List UInt8) (sizeofMessage : Nat) : (init mem sizeofMessage).Ok where
  tiles := rfl
  apart := by simp [init, recount]
  room := rfl
  pos := fun _ hs => absurd hs List.not_mem_nil

theorem init_entries (mem : List UInt8) (sizeofMessage : Nat) :
    (init mem sizeofMessage).entries = [] := rfl

/-- A message's bytes are below `curr`. -/
theorem Ok.inside (h : q.Ok) {m : QueuedMessage} (hm : m ∈ q.messages) :
    m.start + m.size ≤ q.curr :=
  (h.tiles.mem (List.mem_map_of_mem hm)).2

theorem Ok.curr_le (h : q.Ok) : q.curr ≤ q.mem.length := by
  have := h.apart
  omega

/-! ### Packing -/

theorem length_write {bytes : List UInt8}
    (hfits : q.curr + bytes.length ≤ q.mem.length) :
    (q.write bytes).mem.length = q.mem.length := by
  simp only [write, List.length_append, List.length_take, List.length_drop]
  omega

/-- What is written at `curr` changes no message. -/
theorem entryOf_write (h : q.Ok) {bytes : List UInt8} {m : QueuedMessage}
    (hm : m ∈ q.messages) : entryOf (q.write bytes).mem m = entryOf q.mem m := by
  have hinside := h.inside hm
  have hcurr := h.curr_le
  have hlen : (q.mem.take q.curr).length = q.curr := by rw [List.length_take]; omega
  have hbytes : ((q.write bytes).mem.drop m.start).take m.size
      = (q.mem.drop m.start).take m.size := by
    rw [write, List.append_assoc, List.drop_append_of_le_length (by omega),
      List.take_append_of_le_length (by rw [List.length_drop]; omega), List.drop_take,
      List.take_take, Nat.min_eq_left (by omega)]
  simp only [entryOf, hbytes]

theorem bytes_write (h : q.Ok) (bytes : List UInt8) :
    ((q.write bytes).mem.drop q.curr).take bytes.length = bytes := by
  have hcurr := h.curr_le
  have hlen : (q.mem.take q.curr).length = q.curr := by rw [List.length_take]; omega
  rw [write, List.append_assoc, List.drop_left' hlen, List.take_left]

/-- The message just packed. -/
def newEntry (leftover : QueuedMessage) (bytes : List UInt8) : Entry where
  bytes := bytes
  state := .unsent
  timeSent := leftover.timeSent
  controlType := leftover.controlType
  packetId := leftover.packetId

/-- **Packing appends a message.** -/
theorem register_write (h : q.Ok) (leftover : QueuedMessage) {bytes : List UInt8}
    (hpos : 0 < bytes.length) (hfits : bytes.length ≤ q.currSz) :
    ((q.write bytes).register leftover bytes.length).Ok ∧
      SameBlock q ((q.write bytes).register leftover bytes.length) ∧
      ((q.write bytes).register leftover bytes.length).entries
        = q.entries ++ [newEntry leftover bytes] := by
  have happart : q.curr + bytes.length + q.sizeofMessage * (q.messages.length + 1)
      ≤ q.mem.length := by
    have hroom := h.room
    rw [currsz] at hroom
    omega
  have hlen : (q.write bytes).mem.length = q.mem.length := length_write (by omega)
  have hstretches : ((q.write bytes).register leftover bytes.length).messages.map stretch
      = q.messages.map stretch ++ [⟨q.curr, bytes.length⟩] := List.map_append
  refine ⟨?_, ⟨hlen, rfl⟩, ?_⟩
  · refine { tiles := ?_, apart := ?_, room := rfl, pos := ?_ }
    · rw [hstretches]
      exact (tiles_singleton q.curr bytes.length).append h.tiles
    · show q.curr + bytes.length + q.sizeofMessage * (q.messages ++ [_]).length
        ≤ (q.write bytes).mem.length
      rw [hlen, List.length_append, List.length_singleton]
      exact happart
    · rw [hstretches]
      exact List.forall_mem_append.mpr ⟨h.pos, List.forall_mem_singleton.mpr hpos⟩
  · show (q.messages ++ [_]).map (entryOf (q.write bytes).mem) = _
    rw [List.map_append, entries]
    congr 1
    · exact List.map_congr_left fun m hm => entryOf_write h hm
    · show [entryOf (q.write bytes).mem _] = _
      simp only [entryOf, newEntry]
      rw [show (q.write bytes).curr = q.curr from rfl, bytes_write h]

/-! ### Cleaning -/

/-- The messages that a clean leaves in the queue. -/
def needed (es : List Entry) : List Entry := es.dropWhile fun e => e.state = .complete

theorem drop_newHead (q : MessageQueue) :
    q.messages.drop q.newHead = q.messages.dropWhile fun m => m.state = .complete := by
  conv => lhs; rw [← List.takeWhile_append_dropWhile (p := fun m => m.state = .complete)
    (l := q.messages)]
  rw [newHead, List.drop_left]

theorem needed_entries (q : MessageQueue) :
    needed q.entries = (q.messages.drop q.newHead).map (entryOf q.mem) := by
  rw [needed, entries, List.dropWhile_map, drop_newHead]
  rfl

/-- The bytes of a message that is moved. -/
theorem entryOf_moved {mem : List UInt8} {m : QueuedMessage} {d curr : Nat}
    (hd : d ≤ m.start) (hinside : m.start + m.size ≤ curr) (hcurr : curr ≤ mem.length) :
    entryOf ((mem.drop d).take (curr - d) ++ mem.drop (curr - d)) { m with start := m.start - d }
      = entryOf mem m := by
  have hlen : ((mem.drop d).take (curr - d)).length = curr - d := by
    rw [List.length_take, List.length_drop]
    omega
  have hbytes : (((mem.drop d).take (curr - d) ++ mem.drop (curr - d)).drop (m.start - d)).take
      m.size = (mem.drop m.start).take m.size := by
    rw [List.drop_append_of_le_length (by omega),
      List.take_append_of_le_length (by rw [List.length_drop]; omega), List.drop_take,
      List.drop_drop, List.take_take, Nat.min_eq_left (by omega),
      show d + (m.start - d) = m.start by omega]
  simp only [entryOf, hbytes]

/-- **Cleaning drops the completed messages at the front**, and leaves the others as they
are. -/
theorem clean_spec (h : q.Ok) :
    q.clean.Ok ∧ SameBlock q q.clean ∧ q.clean.entries = needed q.entries := by
  have hcurr := h.curr_le
  rw [needed_entries, clean]
  cases hhead : q.messages[q.newHead]? with
  | none =>
      have hle : q.messages.length ≤ q.newHead := List.getElem?_eq_none_iff.mp hhead
      refine ⟨{ tiles := rfl, apart := by simp [recount], room := rfl
                pos := fun _ hs => absurd hs List.not_mem_nil }, ⟨rfl, rfl⟩, ?_⟩
      rw [List.drop_eq_nil_of_le hle]
      rfl
  | some head =>
      simp only
      by_cases hfirst : q.newHead = 0
      · rw [if_pos hfirst, hfirst]
        exact ⟨h, .refl q, rfl⟩
      · rw [if_neg hfirst]
        have htiles := h.tiles
        rw [← List.take_append_drop q.newHead q.messages, List.map_append] at htiles
        obtain ⟨b, _, hrest⟩ := htiles.of_append
        have hdrop : q.messages.drop q.newHead
            = head :: q.messages.drop (q.newHead + 1) := by
          obtain ⟨hlt, hget⟩ := List.getElem?_eq_some_iff.mp hhead
          rw [List.drop_eq_getElem_cons hlt, hget]
        -- the messages that stay begin where the new head does
        have hb : head.start = b := by
          rw [hdrop] at hrest
          exact hrest.1
        subst hb
        have hle := hrest.le
        have hlen : ((q.mem.drop head.start).take (q.curr - head.start) ++
            q.mem.drop (q.curr - head.start)).length = q.mem.length := by
          rw [List.length_append, List.length_take, List.length_drop, List.length_drop]
          omega
        refine ⟨{ tiles := ?_, apart := ?_, room := rfl, pos := ?_ }, ⟨hlen, rfl⟩, ?_⟩
        · have hmoved := hrest.sub (Nat.le_refl head.start)
          rw [Nat.sub_self, List.map_map] at hmoved
          show Tiles 0 (((q.messages.drop q.newHead).map _).map stretch) (q.curr - head.start)
          rw [List.map_map]
          exact hmoved
        · show q.curr - head.start + q.sizeofMessage * ((q.messages.drop q.newHead).map _).length
            ≤ (_ ++ _ : List UInt8).length
          rw [hlen, List.length_map, List.length_drop]
          have happart := h.apart
          have hfewer : q.sizeofMessage * (q.messages.length - q.newHead)
              ≤ q.sizeofMessage * q.messages.length := Nat.mul_le_mul_left _ (Nat.sub_le _ _)
          omega
        · show ∀ s ∈ ((q.messages.drop q.newHead).map _).map stretch, 0 < s.length
          rw [List.map_map]
          intro s hs
          obtain ⟨m, hm, rfl⟩ := List.mem_map.mp hs
          exact h.pos (stretch m) (List.mem_map_of_mem (List.mem_of_mem_drop hm))
        · show ((q.messages.drop q.newHead).map _).map (entryOf _) = _
          rw [List.map_map]
          refine List.map_congr_left fun m hm => ?_
          exact entryOf_moved (hrest.mem (List.mem_map_of_mem hm)).1
            (hrest.mem (List.mem_map_of_mem hm)).2 hcurr

/-! ### Changes in place -/

/-- The search only looks at what an entry has too. -/
def findEntry (es : List Entry) (controlType : ControlPacketType)
    (packetId : Option (BitVec 16)) : Option Nat :=
  es.findIdx? fun e =>
    e.controlType = controlType &&
      match packetId with
      | none => e.state ≠ .complete
      | some id => e.packetId = id

theorem find_eq (q : MessageQueue) (controlType : ControlPacketType)
    (packetId : Option (BitVec 16)) :
    q.find controlType packetId = findEntry q.entries controlType packetId := by
  rw [find, findEntry, entries, List.findIdx?_map]
  rfl

theorem map_modify {α β : Type} {F : α → β} {f : α → α} {g : β → β}
    (h : ∀ a, F (f a) = g (F a)) :
    ∀ (l : List α) (i : Nat), (l.modify i f).map F = (l.map F).modify i g := by
  intro l
  induction l with
  | nil => intro i; simp
  | cons a l ih =>
      intro i
      cases i with
      | zero => simp only [List.modify_zero_cons, List.map_cons, h]
      | succ i => simp only [List.modify_succ_cons, List.map_cons, ih]

/-- A change that leaves a message where it is. -/
theorem modify_spec (h : q.Ok) (i : Nat) {f : QueuedMessage → QueuedMessage}
    {g : Entry → Entry} (hplace : ∀ m, stretch (f m) = stretch m)
    (hentry : ∀ mem m, entryOf mem (f m) = g (entryOf mem m)) :
    (q.modify i f).Ok ∧ SameBlock q (q.modify i f) ∧
      (q.modify i f).entries = q.entries.modify i g := by
  refine ⟨{ tiles := ?_, apart := ?_, room := ?_, pos := ?_ }, ⟨rfl, rfl⟩,
    map_modify (hentry q.mem) _ _⟩
  · show Tiles 0 ((q.messages.modify i f).map stretch) q.curr
    rw [map_modify (g := id) hplace, List.modify_id]
    exact h.tiles
  · show q.curr + q.sizeofMessage * (q.messages.modify i f).length ≤ q.mem.length
    rw [List.length_modify]
    exact h.apart
  · show q.currSz = q.mem.length - q.sizeofMessage * ((q.messages.modify i f).length + 1) - q.curr
    rw [List.length_modify]
    exact h.room
  · show ∀ s ∈ (q.messages.modify i f).map stretch, 0 < s.length
    rw [map_modify (g := id) hplace, List.modify_id]
    exact h.pos

/-- `msg->start[0] |= …` -/
def modifyFirst (q : MessageQueue) (i : Nat) (f : UInt8 → UInt8) : MessageQueue :=
  match q.messages[i]? with
  | none => q
  | some m => { q with mem := q.mem.modify m.start f }

theorem entryOf_modify_self {mem : List UInt8} {m : QueuedMessage} (f : UInt8 → UInt8) :
    entryOf (mem.modify m.start f) m
      = { entryOf mem m with bytes := (entryOf mem m).bytes.modify 0 f } := by
  simp only [entryOf]
  rw [List.drop_modify_of_ge f m.start m.start mem (Nat.le_refl _), Nat.sub_self, List.take_modify]

theorem entryOf_modify_other {mem : List UInt8} {m : QueuedMessage} {i : Nat}
    (f : UInt8 → UInt8) (h : i < m.start ∨ m.start + m.size ≤ i) :
    entryOf (mem.modify i f) m = entryOf mem m := by
  simp only [entryOf]
  rcases h with hbefore | hafter
  · rw [List.drop_modify_of_lt f i m.start mem hbefore]
  · rw [List.drop_modify_of_ge f i m.start mem (by omega), List.take_modify,
      List.modify_eq_self (by rw [List.length_take]; omega)]

/-- The first byte of a message is in no other message. -/
theorem modifyFirst_spec (h : q.Ok) (i : Nat) (f : UInt8 → UInt8) :
    (q.modifyFirst i f).Ok ∧ SameBlock q (q.modifyFirst i f) ∧
      (q.modifyFirst i f).entries
        = q.entries.modify i fun e => { e with bytes := e.bytes.modify 0 f } := by
  rw [modifyFirst]
  cases hget : q.messages[i]? with
  | none =>
      have hle : q.messages.length ≤ i := List.getElem?_eq_none_iff.mp hget
      refine ⟨h, .refl q, ?_⟩
      rw [List.modify_eq_self]
      rw [entries, List.length_map]
      exact hle
  | some m =>
      simp only
      refine ⟨{ tiles := h.tiles, apart := ?_, room := ?_, pos := h.pos },
        ⟨List.length_modify .., rfl⟩, ?_⟩
      · show q.curr + _ ≤ (q.mem.modify m.start f).length
        rw [List.length_modify]
        exact h.apart
      · show q.currSz = (q.mem.modify m.start f).length - _ - q.curr
        rw [List.length_modify]
        exact h.room
      · apply List.ext_getElem?
        intro j
        show (q.messages.map _)[j]? = ((q.messages.map _).modify i _)[j]?
        rw [List.getElem?_modify, List.getElem?_map, List.getElem?_map]
        cases hj : q.messages[j]? with
        | none => split <;> rfl
        | some m' =>
            have hstretch : ∀ {k : Nat} {x : QueuedMessage}, q.messages[k]? = some x →
                (q.messages.map stretch)[k]? = some (stretch x) := by
              intro k x hk
              rw [List.getElem?_map, hk]
              rfl
            by_cases hij : i = j
            · subst hij
              rw [hget] at hj
              cases hj
              simp only [Option.map_some, if_true, entryOf_modify_self]
              rfl
            · simp only [Option.map_some, if_neg hij]
              refine congrArg some (entryOf_modify_other f ?_)
              have hpos := h.pos (stretch m) (List.mem_map_of_mem (List.mem_of_getElem? hget))
              simp only [stretch] at hpos
              by_cases hlt : i < j
              · have horder := h.tiles.order hlt (hstretch hget) (hstretch hj)
                simp only [stretch] at horder
                exact .inl (by omega)
              · have horder := h.tiles.order (by omega) (hstretch hj) (hstretch hget)
                simp only [stretch] at horder
                exact .inr horder

/-! ### Runs -/

/-- What the client does with its queue. -/
inductive Op where
  /-- a packer, and the registration if the packet fits -/
  | pack (leftover : QueuedMessage) (bytes : List UInt8)
  | clean
  | update (i : Nat) (state : QueuedState) (timeSent : Nat)
  | first (i : Nat) (f : UInt8 → UInt8)

def Op.run (q : MessageQueue) : Op → MessageQueue
  | pack leftover bytes =>
      if 0 < bytes.length ∧ bytes.length ≤ q.currSz then
        (q.write bytes).register leftover bytes.length
      else q
  | clean => q.clean
  | update i state timeSent => q.modify i fun m => { m with state := state, timeSent := timeSent }
  | first i f => q.modifyFirst i f

/-- The bytes of all messages. -/
def used (es : List Entry) : Nat := (es.map fun e => e.bytes.length).sum

/-- The same for a plain list of messages, which holds as much as a block of `capacity`
bytes does. -/
def Op.apply (capacity sizeofMessage : Nat) (es : List Entry) : Op → List Entry
  | pack leftover bytes =>
      if 0 < bytes.length ∧
          used es + bytes.length + sizeofMessage * (es.length + 1) ≤ capacity then
        es ++ [newEntry leftover bytes]
      else es
  | clean => needed es
  | update i state timeSent => es.modify i fun e => { e with state := state, timeSent := timeSent }
  | first i f => es.modify i fun e => { e with bytes := e.bytes.modify 0 f }

/-- The messages fill the block up to `curr`. -/
theorem Ok.used_entries (h : q.Ok) : used q.entries = q.curr := by
  have hsum := h.tiles.sum
  have hlengths : q.entries.map (fun e => e.bytes.length)
      = (q.messages.map stretch).map Stretch.length := by
    rw [entries, List.map_map, List.map_map]
    refine List.map_congr_left fun m hm => ?_
    have hinside := h.inside hm
    have hcurr := h.curr_le
    simp only [Function.comp_apply, entryOf, stretch, List.length_take, List.length_drop]
    omega
  rw [used, hlengths]
  omega

theorem Op.run_spec (h : q.Ok) (op : Op) :
    (op.run q).Ok ∧ SameBlock q (op.run q) ∧
      (op.run q).entries = op.apply q.mem.length q.sizeofMessage q.entries := by
  cases op with
  | pack leftover bytes =>
      have hused := h.used_entries
      have hlength : q.entries.length = q.messages.length := List.length_map ..
      have hroom := h.room
      rw [currsz] at hroom
      by_cases hfits : 0 < bytes.length ∧ bytes.length ≤ q.currSz
      · rw [run, if_pos hfits, apply, if_pos (by rw [hlength]; omega)]
        exact register_write h leftover hfits.1 hfits.2
      · rw [run, if_neg hfits, apply, if_neg (by rw [hlength]; omega)]
        exact ⟨h, .refl q, rfl⟩
  | clean => exact clean_spec h
  | update i state timeSent => exact modify_spec h i (fun _ => rfl) (fun _ _ => rfl)
  | first i f => exact modifyFirst_spec h i f

/-- **The block is a queue.** Whatever the client does with it, it holds the messages that a
plain list would hold, byte for byte, and a packet is accepted exactly if there is room for it
and for its record. -/
theorem queue_refines (mem : List UInt8) (sizeofMessage : Nat) (ops : List Op) :
    (ops.foldl Op.run (init mem sizeofMessage)).Ok ∧
      (ops.foldl Op.run (init mem sizeofMessage)).entries
        = ops.foldl (Op.apply mem.length sizeofMessage) [] := by
  have hall : ∀ (ops : List Op) (q : MessageQueue), q.Ok → q.mem.length = mem.length →
      q.sizeofMessage = sizeofMessage →
      (ops.foldl Op.run q).Ok ∧
        (ops.foldl Op.run q).entries = ops.foldl (Op.apply mem.length sizeofMessage) q.entries := by
    intro ops
    induction ops with
    | nil => intro q h _ _; exact ⟨h, rfl⟩
    | cons op ops ih =>
        intro q h hlength hsize
        obtain ⟨hok, hblock, hentries⟩ := op.run_spec h
        rw [hlength, hsize] at hentries
        rw [List.foldl_cons, List.foldl_cons, ← hentries]
        exact ih (op.run q) hok (hblock.length.trans hlength) (hblock.sizeofMessage.trans hsize)
  exact hall ops _ (init_ok mem sizeofMessage) rfl rfl

end MessageQueue

end Caeco.Mqtt
