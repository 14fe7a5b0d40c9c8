import Mathlib.Data.List.TakeWhile
import Caeco.Kit.Runs
import Caeco.Mqtt.Queue

/-!
# The exchange with the broker

What the client has promised the broker is in its queue of messages: a request stays there
until it has been acknowledged, a PUBREC packet until the broker has released it. The
machine of this module says what may happen to such a queue, without the bytes of the
packets, the socket or the time. It loses no request, and hands over no message twice.
-/

namespace Caeco.Mqtt.Protocol

open Client (ResponsePublish qosLevel)
open MessageQueue (Entry findEntry needed)

/-! ## The machine -/

/-- The types of the client's own requests. Their packet identifiers are the client's, those
of the other messages come from the broker or mean nothing. -/
def own : ControlPacketType → Bool
  | .publish | .subscribe | .unsubscribe => true
  | _ => false

/-- The packet identifier of a published message; one of level 0 has none. -/
def publishId (p : ResponsePublish) : BitVec 16 := BitVec.ofNat 16 (p.packetId.getD 0)

/-- The level that is read back from the first byte of a message. -/
def qos (e : Entry) : UInt8 := qosLevel (e.bytes.headD 0)

/-- A PUBLISH message of level 2. -/
def Qos2 (e : Entry) : Prop := e.controlType = .publish ∧ qos e = 2

instance (e : Entry) : Decidable (Qos2 e) := inferInstanceAs (Decidable (_ ∧ _))

/-- The state of a message that has been sent. Other types than these are never queued. -/
def stateAfterSend (e : Entry) : QueuedState :=
  match e.controlType with
  | .puback | .pubcomp | .disconnect => .complete
  | .publish => if qos e = 0 then .complete else .awaitingAck
  | .connect | .pubrec | .pubrel | .subscribe | .unsubscribe | .pingreq => .awaitingAck
  | _ => e.state

/-- A PUBLISH message of level 1 is marked, should it be sent again. -/
def bytesAfterSend (e : Entry) : List UInt8 :=
  if e.controlType = .publish ∧ qos e = 1 then e.bytes.modify 0 fun b => b ||| 0x08 else e.bytes

/-- What may happen. -/
inductive Label where
  /-- the completed messages at the front go -/
  | clean
  /-- a request of the client's own -/
  | request (e : Entry)
  /-- any other message but PUBREC -/
  | reply (e : Entry)
  /-- a message of level 2 is handed over, and its PUBREC packet queued -/
  | receive (e : Entry) (p : ResponsePublish)
  /-- a message of another level is handed over -/
  | deliver (p : ResponsePublish)
  /-- a message has been acknowledged -/
  | acked (controlType : ControlPacketType) (packetId : Option (BitVec 16))
  | sent (i : Nat) (time : Nat)
deriving Repr, DecidableEq

/-- The queue, and what the application has made of the messages handed over. -/
structure State (α : Type) where
  entries : List Entry
  app : α
deriving Repr, DecidableEq

variable {α : Type}

def complete (e : Entry) : Entry := { e with state := .complete }

def sentAt (time : Nat) (e : Entry) : Entry :=
  { e with state := stateAfterSend e, bytes := bytesAfterSend e, timeSent := time }

/-- When a message may be queued. -/
def Label.Admits (es : List Entry) : Label → Prop
  | .request e =>
      e.state = .unsent ∧ own e.controlType = true ∧ e.packetId ≠ 0 ∧
        e.packetId ∉ es.map Entry.packetId
  | .reply e => e.state = .unsent ∧ own e.controlType = false ∧ e.controlType ≠ .pubrec
  | .receive e p =>
      e.state = .unsent ∧ e.controlType = .pubrec ∧ e.packetId = publishId p ∧
        p.qosLevel = 2 ∧ findEntry es .pubrec (some (publishId p)) = none
  | .deliver p => p.qosLevel ≠ 2
  | .acked controlType none => own controlType = false ∧ controlType ≠ .pubrec
  -- a message of level 2 waits for those in front of it
  | .sent i _ =>
      ∀ e ∈ es[i]?, e.state ≠ .complete ∧
        (Qos2 e → ∀ e' ∈ es.take i, Qos2 e' → e'.state = .complete)
  | .acked _ (some _) | .clean => True

instance (es : List Entry) : ∀ l : Label, Decidable (l.Admits es)
  | .request _ | .reply _ | .receive .. => inferInstanceAs (Decidable (_ ∧ _))
  | .deliver _ => inferInstanceAs (Decidable (_ ≠ _))
  | .acked _ none => inferInstanceAs (Decidable (_ ∧ _))
  | .sent i _ => inferInstanceAs (Decidable (∀ e ∈ es[i]?, _ ∧ _))
  | .acked _ (some _) | .clean => .isTrue trivial

/-- The queue and the application afterwards, for an admitted label. -/
def effect (callback : α → ResponsePublish → α) (s : State α) : Label → State α
  | .clean => { s with entries := needed s.entries }
  | .request e | .reply e => { s with entries := s.entries ++ [e] }
  | .receive e p => { entries := s.entries ++ [e], app := callback s.app p }
  | .deliver p => { s with app := callback s.app p }
  | .acked controlType packetId =>
      match findEntry s.entries controlType packetId with
      | none => s
      | some i => { s with entries := s.entries.modify i complete }
  | .sent i time => { s with entries := s.entries.modify i (sentAt time) }

/-- One move of the machine: a request joins the queue, a message is sent or resent, a packet of
the broker is handled. Which one comes next is left to the client, the socket and the broker. -/
def step (callback : α → ResponsePublish → α) (s : State α) (l : Label) : Option (State α) :=
  if l.Admits s.entries then some (effect callback s l) else none

/-! ## The queue under the changes -/

variable {es : List Entry} {i : Nat} {e : Entry}

theorem split_at (h : es[i]? = some e) (f : Entry → Entry) :
    es = es.take i ++ e :: es.drop (i + 1) ∧
      es.modify i f = es.take i ++ f e :: es.drop (i + 1) := by
  obtain ⟨hlt, rfl⟩ := List.getElem?_eq_some_iff.mp h
  constructor
  · rw [← List.drop_eq_getElem_cons hlt, List.take_append_drop]
  · exact List.modify_eq_take_cons_drop hlt

theorem findEntry_some {controlType : ControlPacketType} {packetId : Option (BitVec 16)}
    (h : findEntry es controlType packetId = some i) :
    ∃ e, es[i]? = some e ∧ e.controlType = controlType ∧
      ∀ id, packetId = some id → e.packetId = id := by
  obtain ⟨hlt, hfound, _⟩ := List.findIdx?_eq_some_iff_getElem.mp h
  refine ⟨es[i], List.getElem?_eq_getElem hlt, ?_⟩
  rw [Bool.and_eq_true, decide_eq_true_iff] at hfound
  refine ⟨hfound.1, fun id hid => ?_⟩
  subst hid
  exact of_decide_eq_true hfound.2

theorem findEntry_none {controlType : ControlPacketType} {id : BitVec 16}
    (h : findEntry es controlType (some id) = none) :
    ∀ e ∈ es, e.controlType = controlType → e.packetId ≠ id := by
  intro e he htype hid
  have hno := List.findIdx?_eq_none_iff.mp h e he
  simp only [htype, hid, decide_true, Bool.and_self] at hno
  cases hno

theorem qosLevel_dup (b : UInt8) : qosLevel (b ||| 0x08) = qosLevel b :=
  forall_byte (p := fun b => qosLevel (b ||| 0x08) = qosLevel b) (by decide +kernel) b

/-- The bit that marks a message is not one of its level. -/
theorem qos_sentAt (time : Nat) (e : Entry) : qos (sentAt time e) = qos e := by
  rw [qos, sentAt, bytesAfterSend]
  split
  · rw [qos]
    cases e.bytes with
    | nil => rfl
    | cons b bs => exact qosLevel_dup b
  · rfl

theorem qos2_sentAt {time : Nat} : Qos2 (sentAt time e) ↔ Qos2 e := by
  rw [Qos2, Qos2, qos_sentAt]
  exact Iff.rfl

theorem step_eq_some {callback : α → ResponsePublish → α} {s s' : State α} {l : Label} :
    step callback s l = some s' ↔ l.Admits s.entries ∧ effect callback s l = s' := by
  rw [step]
  by_cases h : l.Admits s.entries
  · rw [if_pos h, Option.some.injEq]
    exact ⟨fun heq => ⟨h, heq⟩, fun heq => heq.2⟩
  · rw [if_neg h]
    constructor
    · intro heq; cases heq
    · rintro ⟨hadmits, _⟩
      exact absurd hadmits h

/-! ## Packet identifiers -/

/-- The identifiers of the messages of some types. -/
def idsOf (p : ControlPacketType → Bool) (es : List Entry) : List (BitVec 16) :=
  (es.filter fun e => p e.controlType).map Entry.packetId

/-- No two requests have the same identifier, none of them has zero, and no two PUBREC
packets have the same one. -/
structure Numbered (es : List Entry) : Prop where
  distinct : (idsOf own es).Nodup
  nonzero : 0 ∉ idsOf own es
  received : (idsOf (fun t => t = .pubrec) es).Nodup

variable {p : ControlPacketType → Bool}

theorem idsOf_append (es es' : List Entry) : idsOf p (es ++ es') = idsOf p es ++ idsOf p es' := by
  rw [idsOf, List.filter_append, List.map_append]
  rfl

theorem idsOf_cons (e : Entry) (es : List Entry) :
    idsOf p (e :: es) = (if p e.controlType = true then [e.packetId] else []) ++ idsOf p es := by
  rw [idsOf, List.filter_cons]
  split <;> rfl

theorem idsOf_singleton (e : Entry) :
    idsOf p [e] = if p e.controlType = true then [e.packetId] else [] := by
  rw [idsOf_cons]
  exact List.append_nil _

theorem idsOf_needed (es : List Entry) : (idsOf p (needed es)).Sublist (idsOf p es) :=
  ((List.dropWhile_sublist _).filter _).map _

/-- A change that leaves types and identifiers alone. -/
theorem idsOf_modify {f : Entry → Entry}
    (hf : ∀ e, (f e).controlType = e.controlType ∧ (f e).packetId = e.packetId) (i : Nat) :
    idsOf p (es.modify i f) = idsOf p es := by
  cases hget : es[i]? with
  | none => rw [List.modify_eq_self (List.getElem?_eq_none_iff.mp hget)]
  | some e =>
      obtain ⟨hes, hmodify⟩ := split_at hget f
      conv => rhs; rw [hes]
      rw [hmodify, idsOf_append, idsOf_append, idsOf_cons, idsOf_cons, (hf e).1, (hf e).2]

theorem mem_idsOf {id : BitVec 16} :
    id ∈ idsOf p es ↔ ∃ e ∈ es, p e.controlType = true ∧ e.packetId = id := by
  simp only [idsOf, List.mem_map, List.mem_filter, and_assoc]

theorem Numbered.of_sublist {es' : List Entry} (h : Numbered es)
    (hsub : ∀ p, (idsOf p es').Sublist (idsOf p es)) : Numbered es' where
  distinct := h.distinct.sublist (hsub own)
  nonzero := fun hmem => h.nonzero ((hsub own).mem hmem)
  received := h.received.sublist (hsub _)

theorem Numbered.modify (h : Numbered es) (f : Entry → Entry)
    (hf : ∀ e, (f e).controlType = e.controlType ∧ (f e).packetId = e.packetId) (i : Nat) :
    Numbered (es.modify i f) :=
  h.of_sublist fun p => by rw [idsOf_modify hf]

/-- A message that is neither a request nor a PUBREC packet. -/
theorem Numbered.concat (h : Numbered es) (hown : own e.controlType = false)
    (htype : e.controlType ≠ .pubrec) : Numbered (es ++ [e]) := by
  refine { distinct := ?_, nonzero := ?_, received := ?_ }
  · rw [idsOf_append, idsOf_singleton, if_neg (by rw [hown]; simp), List.append_nil]
    exact h.distinct
  · rw [idsOf_append, idsOf_singleton, if_neg (by rw [hown]; simp), List.append_nil]
    exact h.nonzero
  · rw [idsOf_append, idsOf_singleton, if_neg (by simpa using htype), List.append_nil]
    exact h.received

theorem Numbered.concat_request (h : Numbered es) (hown : own e.controlType = true)
    (hid : e.packetId ≠ 0) (hfree : e.packetId ∉ es.map Entry.packetId) :
    Numbered (es ++ [e]) := by
  have hnew : e.packetId ∉ idsOf own es := by
    intro hmem
    obtain ⟨e', he', _, hid'⟩ := mem_idsOf.mp hmem
    exact hfree (hid' ▸ List.mem_map_of_mem he')
  have htype : e.controlType ≠ .pubrec := by
    intro htype
    rw [htype] at hown
    cases hown
  refine { distinct := ?_, nonzero := ?_, received := ?_ }
  · rw [idsOf_append, idsOf_singleton, if_pos hown]
    exact List.nodup_append.mpr ⟨h.distinct, List.nodup_singleton _, fun a ha b hb hab => by
      rw [List.mem_singleton.mp hb] at hab
      exact hnew (hab ▸ ha)⟩
  · rw [idsOf_append, idsOf_singleton, if_pos hown, List.mem_append, List.mem_singleton]
    rintro (hmem | hzero)
    · exact h.nonzero hmem
    · exact hid hzero.symm
  · rw [idsOf_append, idsOf_singleton, if_neg (by simpa using htype), List.append_nil]
    exact h.received

theorem Numbered.concat_pubrec (h : Numbered es) (htype : e.controlType = .pubrec)
    (hnew : findEntry es .pubrec (some e.packetId) = none) : Numbered (es ++ [e]) := by
  have hown : own e.controlType = false := by rw [htype]; rfl
  refine { distinct := ?_, nonzero := ?_, received := ?_ }
  · rw [idsOf_append, idsOf_singleton, if_neg (by rw [hown]; simp), List.append_nil]
    exact h.distinct
  · rw [idsOf_append, idsOf_singleton, if_neg (by rw [hown]; simp), List.append_nil]
    exact h.nonzero
  · rw [idsOf_append, idsOf_singleton, if_pos (by simpa using htype)]
    refine List.nodup_append.mpr ⟨h.received, List.nodup_singleton _, fun a ha b hb hab => ?_⟩
    obtain ⟨e', he', htype', hid'⟩ := mem_idsOf.mp ha
    rw [List.mem_singleton.mp hb] at hab
    exact findEntry_none hnew e' he' (of_decide_eq_true htype') (hid'.trans hab)

/-- An acknowledgement finds the request that it is for. -/
theorem Numbered.find_own (h : Numbered es) (hget : es[i]? = some e)
    (hown : own e.controlType = true) :
    findEntry es e.controlType (some e.packetId) = some i := by
  obtain ⟨hlt, hi⟩ := List.getElem?_eq_some_iff.mp hget
  have hpairs := List.pairwise_filter.mp (List.pairwise_map.mp h.distinct)
  rw [List.pairwise_iff_getElem] at hpairs
  rw [findEntry, List.findIdx?_eq_some_iff_getElem]
  refine ⟨hlt, by simp [hi], fun j hj hfound => ?_⟩
  rw [Bool.and_eq_true, decide_eq_true_iff] at hfound
  have hj' : own es[j].controlType = true := by rw [hfound.1]; exact hown
  have hi' : own es[i].controlType = true := by rw [hi]; exact hown
  have hsame : es[j].packetId = es[i].packetId := by rw [hi]; exact of_decide_eq_true hfound.2
  exact hpairs j i (by omega) hlt hj hj' hi' hsame

/-! ## Messages of level 2 -/

/-- Of the PUBLISH messages of level 2 only the first that is not completed can be under
way. -/
def InOrder (es : List Entry) : Prop :=
  es.Pairwise fun e e' => Qos2 e → Qos2 e' → e'.state = .awaitingAck → e.state = .complete

theorem InOrder.concat (h : InOrder es) (hunsent : e.state = .unsent) : InOrder (es ++ [e]) := by
  refine List.pairwise_append.mpr ⟨h, List.pairwise_singleton _ _, fun a _ b hb _ _ hstate => ?_⟩
  rw [List.mem_singleton.mp hb, hunsent] at hstate
  cases hstate

theorem InOrder.complete (h : InOrder es) (i : Nat) : InOrder (es.modify i complete) := by
  cases hget : es[i]? with
  | none => rwa [List.modify_eq_self (List.getElem?_eq_none_iff.mp hget)]
  | some e =>
      obtain ⟨hes, hmodify⟩ := split_at hget Protocol.complete
      rw [InOrder, hes, List.pairwise_append, List.pairwise_cons] at h
      obtain ⟨hbefore, ⟨_, hbehind⟩, hpairs⟩ := h
      rw [InOrder, hmodify, List.pairwise_append, List.pairwise_cons]
      refine ⟨hbefore, ⟨fun _ _ _ _ _ => rfl, hbehind⟩, fun a ha b hb => ?_⟩
      rcases List.mem_cons.mp hb with rfl | hb
      · intro _ _ hstate
        cases hstate
      · exact hpairs a ha b (List.mem_cons_of_mem _ hb)

theorem InOrder.sent (h : InOrder es) {time : Nat}
    (hadmits : Label.Admits es (.sent i time)) : InOrder (es.modify i (sentAt time)) := by
  cases hget : es[i]? with
  | none => rwa [List.modify_eq_self (List.getElem?_eq_none_iff.mp hget)]
  | some e =>
      obtain ⟨hstate, hfirst⟩ := hadmits e hget
      obtain ⟨hes, hmodify⟩ := split_at hget (sentAt time)
      rw [InOrder, hes, List.pairwise_append, List.pairwise_cons] at h
      obtain ⟨hbefore, ⟨hafter, hbehind⟩, hpairs⟩ := h
      rw [InOrder, hmodify, List.pairwise_append, List.pairwise_cons]
      refine ⟨hbefore, ⟨fun b hb he hb2 hawaiting => ?_, hbehind⟩, fun a ha b hb => ?_⟩
      · exact absurd (hafter b hb (qos2_sentAt.mp he) hb2 hawaiting) hstate
      · rcases List.mem_cons.mp hb with rfl | hb
        · exact fun ha2 he _ => hfirst (qos2_sentAt.mp he) a ha ha2
        · exact hpairs a ha b (List.mem_cons_of_mem _ hb)

/-- No two of them are under way. -/
theorem InOrder.one_under_way : ∀ {es : List Entry}, InOrder es →
    (es.countP fun e => Qos2 e ∧ e.state = .awaitingAck) ≤ 1 := by
  intro es
  induction es with
  | nil => intro _; exact Nat.zero_le 1
  | cons e es ih =>
      intro h
      obtain ⟨hfirst, hrest⟩ := List.pairwise_cons.mp h
      rw [List.countP_cons]
      by_cases hway : Qos2 e ∧ e.state = .awaitingAck
      · have hzero : (es.countP fun e => Qos2 e ∧ e.state = .awaitingAck) = 0 := by
          rw [List.countP_eq_zero]
          intro e' he' hway'
          obtain ⟨htwo, hstate⟩ := of_decide_eq_true hway'
          have hcomplete := hfirst e' he' hway.1 htwo hstate
          rw [hway.2] at hcomplete
          cases hcomplete
        rw [hzero]
        split <;> omega
      · have hnot : decide (Qos2 e ∧ e.state = .awaitingAck) = false := decide_eq_false hway
        rw [hnot]
        exact ih hrest

/-! ## The invariant -/

/-- What holds between two moves, whatever the broker sends: the requests can be told apart by their
numbers, and of the messages of level 2 only one is under way. -/
structure Inv (s : State α) : Prop where
  numbered : Numbered s.entries
  inOrder : InOrder s.entries

variable {callback : α → ResponsePublish → α} {s s' : State α} {labels : List Label}

theorem inv_init (app : α) : Inv (⟨[], app⟩ : State α) where
  numbered := { distinct := List.nodup_nil, nonzero := List.not_mem_nil
                received := List.nodup_nil }
  inOrder := List.Pairwise.nil

theorem inv_step {l : Label} (h : Inv s) (hstep : step callback s l = some s') : Inv s' := by
  obtain ⟨hadmits, rfl⟩ := step_eq_some.mp hstep
  cases l with
  | clean =>
      exact { numbered := h.numbered.of_sublist fun _ => idsOf_needed _
              inOrder := h.inOrder.sublist (List.dropWhile_sublist _) }
  | request e =>
      obtain ⟨hunsent, hown, hid, hfree⟩ := hadmits
      exact ⟨h.numbered.concat_request hown hid hfree, h.inOrder.concat hunsent⟩
  | reply e =>
      obtain ⟨hunsent, hown, htype⟩ := hadmits
      exact ⟨h.numbered.concat hown htype, h.inOrder.concat hunsent⟩
  | receive e p =>
      obtain ⟨hunsent, htype, hid, _, hnew⟩ := hadmits
      rw [← hid] at hnew
      exact ⟨h.numbered.concat_pubrec htype hnew, h.inOrder.concat hunsent⟩
  | deliver p => exact ⟨h.numbered, h.inOrder⟩
  | acked controlType packetId =>
      rw [effect]
      split
      · exact h
      · exact { numbered := h.numbered.modify complete (fun _ => ⟨rfl, rfl⟩) _
                inOrder := h.inOrder.complete _ }
  | sent i time =>
      exact { numbered := h.numbered.modify (sentAt time) (fun _ => ⟨rfl, rfl⟩) _
              inOrder := h.inOrder.sent hadmits }

theorem inv_run (h : Inv s) (hrun : Runs.run (step callback) s labels = some s') : Inv s' :=
  Runs.run_invariant (fun _ _ _ hs hstep => inv_step hs hstep) h hrun

/-! ## No request is lost -/

/-- A request to which an answer is due. -/
def Owed (e : Entry) : Prop :=
  own e.controlType = true ∧ e.state ≠ .complete ∧ (e.controlType = .publish → qos e ≠ 0)

/-- The same request, perhaps marked as sent before. -/
structure SameRequest (e e' : Entry) : Prop where
  controlType : e'.controlType = e.controlType
  packetId : e'.packetId = e.packetId
  bytes : e'.bytes = e.bytes ∨ e'.bytes = e.bytes.modify 0 fun b => b ||| 0x08

theorem SameRequest.refl (e : Entry) : SameRequest e e := ⟨rfl, rfl, .inl rfl⟩

theorem SameRequest.trans {e' e'' : Entry} (h : SameRequest e e') (h' : SameRequest e' e'') :
    SameRequest e e'' where
  controlType := h'.controlType.trans h.controlType
  packetId := h'.packetId.trans h.packetId
  bytes := by
    rcases h.bytes with hbytes | hbytes
    · rw [← hbytes]
      exact h'.bytes
    · rcases h'.bytes with hbytes' | hbytes'
      · exact .inr (hbytes'.trans hbytes)
      · -- the mark is set twice
        refine .inr (hbytes'.trans ?_)
        rw [hbytes, List.modify_modify_eq]
        congr 1
        funext b
        exact UInt8.or_assoc b 8 8

theorem sameRequest_sentAt (time : Nat) (e : Entry) : SameRequest e (sentAt time e) where
  controlType := rfl
  packetId := rfl
  bytes := by
    rw [sentAt, bytesAfterSend]
    split
    · exact .inr rfl
    · exact .inl rfl

theorem owed_sentAt (h : Owed e) (time : Nat) : Owed (sentAt time e) := by
  obtain ⟨hown, hstate, hlevel⟩ := h
  refine ⟨hown, ?_, fun htype => ?_⟩
  · show stateAfterSend e ≠ .complete
    rw [stateAfterSend]
    cases htype : e.controlType <;> rw [htype] at hown <;> try cases hown
    -- a PUBLISH message, then the two others
    · rw [if_neg (hlevel htype)]
      simp
    · simp
    · simp
  · rw [qos_sentAt]
    exact hlevel htype

theorem mem_needed (he : e ∈ es) (hstate : e.state ≠ .complete) : e ∈ needed es := by
  rw [← List.takeWhile_append_dropWhile (p := fun e : Entry => e.state = .complete) (l := es)] at he
  rcases List.mem_append.mp he with hdone | he
  · have hcomplete := List.mem_takeWhile_imp hdone
    exact absurd (of_decide_eq_true hcomplete) hstate
  · exact he

/-- Every message but the changed one. -/
theorem mem_modify (he : e ∈ es) (f : Entry → Entry) :
    e ∈ es.modify i f ∨ es[i]? = some e ∧ f e ∈ es.modify i f := by
  obtain ⟨j, hj⟩ := List.mem_iff_getElem?.mp he
  by_cases hij : i = j
  · subst hij
    refine .inr ⟨hj, List.mem_iff_getElem?.mpr ⟨i, ?_⟩⟩
    simp only [List.getElem?_modify, if_pos, hj]
    rfl
  · refine .inl (List.mem_iff_getElem?.mpr ⟨j, ?_⟩)
    simp only [List.getElem?_modify, if_neg hij, hj]
    rfl

theorem owed_step {l : Label} (he : e ∈ s.entries) (howed : Owed e)
    (hstep : step callback s l = some s')
    (hl : l ≠ .acked e.controlType (some e.packetId)) :
    ∃ e' ∈ s'.entries, Owed e' ∧ SameRequest e e' := by
  obtain ⟨hadmits, rfl⟩ := step_eq_some.mp hstep
  cases l with
  | clean => exact ⟨e, mem_needed he howed.2.1, howed, .refl e⟩
  | request e' => exact ⟨e, List.mem_append_left _ he, howed, .refl e⟩
  | reply e' => exact ⟨e, List.mem_append_left _ he, howed, .refl e⟩
  | receive e' p => exact ⟨e, List.mem_append_left _ he, howed, .refl e⟩
  | deliver p => exact ⟨e, he, howed, .refl e⟩
  | acked controlType packetId =>
      rw [effect]
      cases hfound : findEntry s.entries controlType packetId with
      | none => exact ⟨e, he, howed, .refl e⟩
      | some i =>
          rcases mem_modify (i := i) he complete with hmem | ⟨hget, _⟩
          · exact ⟨e, hmem, howed, .refl e⟩
          · -- the acknowledgement would be one of this request
            obtain ⟨e', hget', htype, hid⟩ := findEntry_some hfound
            rw [hget] at hget'
            cases hget'
            cases packetId with
            | none =>
                have hown := howed.1
                rw [htype, hadmits.1] at hown
                cases hown
            | some id => exact absurd (by rw [htype, hid id rfl]) hl
  | sent i time =>
      rcases mem_modify (i := i) he (sentAt time) with hmem | ⟨_, hmem⟩
      · exact ⟨e, hmem, howed, .refl e⟩
      · exact ⟨sentAt time e, hmem, owed_sentAt howed time, sameRequest_sentAt time e⟩

/-- **A request stays in the queue until it is acknowledged.** -/
theorem owed_run : ∀ {labels : List Label} {s : State α} {e : Entry}, e ∈ s.entries → Owed e →
    Runs.run (step callback) s labels = some s' →
      .acked e.controlType (some e.packetId) ∉ labels →
        ∃ e' ∈ s'.entries, Owed e' ∧ SameRequest e e' := by
  intro labels
  induction labels with
  | nil =>
      intro s e he howed hrun _
      cases hrun
      exact ⟨e, he, howed, .refl e⟩
  | cons l labels ih =>
      intro s e he howed hrun hnot
      obtain ⟨t, hstep, hrun⟩ := Runs.run_cons_eq_some.mp hrun
      rw [List.mem_cons, not_or] at hnot
      obtain ⟨e', he', howed', hsame⟩ := owed_step he howed hstep (Ne.symm hnot.1)
      have hnot' : .acked e'.controlType (some e'.packetId) ∉ labels := by
        rw [hsame.controlType, hsame.packetId]
        exact hnot.2
      obtain ⟨e'', he'', howed'', hsame'⟩ := ih he' howed' hrun hnot'
      exact ⟨e'', he'', howed'', hsame.trans hsame'⟩

/-! ## No message of level 2 is handed over twice -/

/-- An application that keeps what it has been handed. -/
def record (app : List ResponsePublish) (p : ResponsePublish) : List ResponsePublish := app ++ [p]

/-- How often a message of level 2 with an identifier was handed over. -/
def received (id : BitVec 16) (ps : List ResponsePublish) : Nat :=
  ps.countP fun p => p.qosLevel = 2 ∧ publishId p = id

/-- The PUBREC packets with an identifier that the broker has not released. -/
def held (id : BitVec 16) (es : List Entry) : Nat :=
  es.countP fun e => e.controlType = .pubrec ∧ e.packetId = id ∧ e.state ≠ .complete

theorem held_append (id : BitVec 16) (es es' : List Entry) :
    held id (es ++ es') = held id es + held id es' := List.countP_append

theorem held_cons (id : BitVec 16) (e : Entry) (es : List Entry) :
    held id (e :: es) = held id es
      + if e.controlType = .pubrec ∧ e.packetId = id ∧ e.state ≠ .complete then 1 else 0 := by
  rw [held, List.countP_cons]
  simp only [decide_eq_true_eq]
  rfl

theorem held_other {id : BitVec 16} (htype : e.controlType ≠ .pubrec) : held id [e] = 0 := by
  rw [held_cons, if_neg (fun h => htype h.1)]
  rfl

theorem held_needed (id : BitVec 16) (es : List Entry) : held id (needed es) = held id es := by
  have hzero : held id (es.takeWhile fun e => e.state = .complete) = 0 := by
    rw [held, List.countP_eq_zero]
    intro e he hheld
    have hcomplete := List.mem_takeWhile_imp he
    exact (of_decide_eq_true hheld).2.2 (of_decide_eq_true hcomplete)
  conv => rhs; rw [← List.takeWhile_append_dropWhile
    (p := fun e : Entry => e.state = .complete) (l := es)]
  rw [held_append, hzero, Nat.zero_add]
  rfl

theorem held_modify (id : BitVec 16) {f : Entry → Entry} (hget : es[i]? = some e) :
    held id (es.modify i f) + held id [e] = held id es + held id [f e] := by
  obtain ⟨hes, hmodify⟩ := split_at hget f
  have hes' := congrArg (held id) hes
  rw [hmodify]
  simp only [held_append, held_cons] at hes' ⊢
  omega

/-- There is never more than one. -/
theorem held_le_one (id : BitVec 16) : ∀ {es : List Entry},
    (idsOf (fun t => t = .pubrec) es).Nodup → held id es ≤ 1 := by
  intro es
  induction es with
  | nil => intro _; exact Nat.zero_le 1
  | cons e es ih =>
      intro h
      rw [idsOf_cons] at h
      rw [held_cons]
      by_cases hheld : e.controlType = .pubrec ∧ e.packetId = id ∧ e.state ≠ .complete
      · obtain ⟨htype, hid, _⟩ := hheld
        rw [if_pos (by simpa using htype), List.singleton_append, List.nodup_cons] at h
        -- the others have other identifiers
        have hzero : held id es = 0 := by
          rw [held, List.countP_eq_zero]
          intro e' he' hheld'
          obtain ⟨htype', hid', _⟩ := of_decide_eq_true hheld'
          exact h.1 (mem_idsOf.mpr ⟨e', he', by simpa using htype', hid'.trans hid.symm⟩)
        split <;> omega
      · rw [if_neg hheld]
        exact ih ((List.sublist_append_right _ _).nodup h)

theorem held_of_new {id : BitVec 16} (h : findEntry es .pubrec (some id) = none) :
    held id es = 0 := by
  rw [held, List.countP_eq_zero]
  intro e he hheld
  obtain ⟨htype, hid, _⟩ := of_decide_eq_true hheld
  exact findEntry_none h e he htype hid

theorem received_record (id : BitVec 16) (ps : List ResponsePublish) (p : ResponsePublish) :
    received id (record ps p)
      = received id ps + if p.qosLevel = 2 ∧ publishId p = id then 1 else 0 := by
  rw [received, record, List.countP_append, List.countP_singleton]
  simp only [decide_eq_true_eq]
  rfl

/-- **A message of level 2 is handed over again only after a release**: as often as its
identifier has been released, and once more while a PUBREC packet is waiting for that. -/
theorem received_run {s s' : State (List ResponsePublish)} (id : BitVec 16) (h : Inv s)
    (hrun : Runs.run (step record) s labels = some s') :
    received id s'.app + held id s.entries
      ≤ received id s.app + labels.count (.acked .pubrec (some id)) + held id s'.entries := by
  have hall := Runs.run_history (s := s)
    (R := fun (labels : List Label) (t : State (List ResponsePublish)) =>
      Inv t ∧ received id t.app + held id s.entries
        ≤ received id s.app + labels.count (.acked .pubrec (some id)) + held id t.entries)
    ⟨h, by simp⟩ ?_ hrun
  · exact hall.2
  · rintro labels t l t' ⟨hinv, hle⟩ hstep
    refine ⟨inv_step hinv hstep, ?_⟩
    obtain ⟨hadmits, rfl⟩ := step_eq_some.mp hstep
    rw [List.count_append, List.count_singleton]
    cases l with
    | clean =>
        simp only [effect, held_needed]
        omega
    | request e =>
        have htype : e.controlType ≠ .pubrec := by
          intro htype
          have hown := hadmits.2.1
          rw [htype] at hown
          cases hown
        simp only [effect, held_append, held_other htype]
        omega
    | reply e =>
        simp only [effect, held_append, held_other hadmits.2.2]
        omega
    | receive e p =>
        obtain ⟨hunsent, htype, hid, hlevel, hnew⟩ := hadmits
        simp only [effect, received_record, held_append]
        by_cases hsame : publishId p = id
        · rw [hsame] at hnew hid
          have hzero := held_of_new hnew
          have hone : held id [e] = 1 := by
            rw [held_cons, if_pos ⟨htype, hid, by rw [hunsent]; simp⟩]
            rfl
          rw [if_pos ⟨hlevel, hsame⟩]
          omega
        · rw [if_neg (fun h => hsame h.2)]
          omega
    | deliver p =>
        simp only [effect, received_record]
        rw [if_neg (fun h => hadmits h.1)]
        omega
    | acked controlType packetId =>
        rw [effect]
        cases hfound : findEntry t.entries controlType packetId with
        | none =>
            simp only
            omega
        | some i =>
            obtain ⟨e, hget, htype, hid⟩ := findEntry_some hfound
            have hmodify := held_modify id (f := complete) hget
            have hcomplete : held id [complete e] = 0 := by
              rw [held_cons, if_neg (fun h => h.2.2 rfl)]
              rfl
            simp only
            rw [held_cons id e] at hmodify
            split at hmodify
            · rename_i hheld
              -- one less is held, and there is one more release
              have hlabel : Label.acked controlType packetId = .acked .pubrec (some id) := by
                cases packetId with
                | none => exact absurd (htype.symm.trans hheld.1) hadmits.2
                | some id' => rw [← htype, hheld.1, ← hid id' rfl, hheld.2.1]
              rw [hlabel, beq_self_eq_true, if_pos rfl]
              have hnil : held id [] = 0 := rfl
              omega
            · have hnil : held id [] = 0 := rfl
              omega
    | sent i time =>
        simp only [effect]
        cases hget : t.entries[i]? with
        | none =>
            rw [List.modify_eq_self (List.getElem?_eq_none_iff.mp hget)]
            omega
        | some e =>
            have hmodify := held_modify id (f := sentAt time) hget
            have hsame : held id [e] ≤ held id [sentAt time e] := by
              rw [held_cons id e, held_cons]
              by_cases hheld : e.controlType = .pubrec ∧ e.packetId = id ∧ e.state ≠ .complete
              · have hstate : (sentAt time e).state = .awaitingAck := by
                  rw [sentAt, stateAfterSend, hheld.1]
                rw [if_pos hheld, if_pos ⟨hheld.1, hheld.2.1, by rw [hstate]; simp⟩]
              · rw [if_neg hheld]
                exact Nat.le_add_right ..
            omega

end Caeco.Mqtt.Protocol
