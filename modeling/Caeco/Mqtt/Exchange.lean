import Caeco.Mqtt.Session

/-!
# The client keeps to the exchange

What the functions of the client do to its queue is what the machine of the exchange admits:
each of them is some labels of the machine, and the labels that release a message stand for
packets that have come from the broker.
-/

namespace Caeco.Mqtt

open Client (ResponsePublish)
open MessageQueue (Entry SameBlock entryOf findEntry needed)
open Protocol (Label Qos2 publishId own complete sentAt)

/-! ## A call of `mqtt_pal_sendall` -/

/-- A `send` that takes `size` bytes or none. -/
def Ample (size : Nat) : Sending → Prop
  | .accepted n => size ≤ n
  | .again | .failed => True

instance (size : Nat) : ∀ x : Sending, Decidable (Ample size x)
  | .accepted n => inferInstanceAs (Decidable (size ≤ n))
  | .again | .failed => .isTrue trivial

/-- What one call takes off the socket's schedule. -/
structure SendTook (sendings : List Sending) (len : Nat) (r : Sendall) : Prop where
  sent : r.sent ≤ len
  suffix : r.sendings <:+ sendings
  ample : (∀ x ∈ sendings, Ample len x) → r.sent = 0 ∨ r.sent = len

theorem sendLoop_zero (sendings : List Sending) :
    sendLoop sendings 0 = ⟨0, false, sendings⟩ := by
  cases sendings <;> rfl

theorem sendLoop_took : ∀ (sendings : List Sending) (len : Nat),
    SendTook sendings len (sendLoop sendings len) := by
  intro sendings
  induction sendings with
  | nil =>
      intro len
      cases len with
      | zero => exact ⟨Nat.le_refl 0, List.suffix_refl _, fun _ => .inl rfl⟩
      | succ len => exact ⟨Nat.zero_le _, List.suffix_refl _, fun _ => .inl rfl⟩
  | cons x sendings ih =>
      intro len
      cases len with
      | zero => exact ⟨Nat.le_refl 0, List.suffix_refl _, fun _ => .inl rfl⟩
      | succ len =>
          cases x with
          | again => exact ⟨Nat.zero_le _, List.suffix_cons _ _, fun _ => .inl rfl⟩
          | failed => exact ⟨Nat.zero_le _, List.suffix_cons _ _, fun _ => .inl rfl⟩
          | accepted n =>
              rw [sendLoop]
              by_cases hzero : n = 0
              · rw [if_pos hzero]
                exact ⟨Nat.zero_le _, List.suffix_cons _ _, fun _ => .inl rfl⟩
              · rw [if_neg hzero]
                have hrest := ih (len + 1 - n)
                refine { sent := ?_, suffix := hrest.suffix.trans (List.suffix_cons _ _)
                         ample := fun hample => .inr ?_ }
                · have := hrest.sent
                  simp only
                  omega
                · have hn : len + 1 ≤ n := hample _ (List.mem_cons_self ..)
                  rw [Nat.sub_eq_zero_of_le hn, sendLoop_zero]
                  simp only
                  omega

/-! ## Labels -/

/-- The releases among the labels. -/
def acks (labels : List Label) : List (ControlPacketType × Option (BitVec 16)) :=
  labels.filterMap fun
    | .acked controlType packetId => some (controlType, packetId)
    | _ => none

theorem acks_append (ls ms : List Label) : acks (ls ++ ms) = acks ls ++ acks ms :=
  List.filterMap_append

/-- The message that a packet of the broker releases. -/
def answer : Packet → Option (ControlPacketType × Option (BitVec 16))
  | .connack .. => some (.connect, none)
  | .publish _ => none
  | .puback id | .pubrec id => some (.publish, some id)
  | .pubrel id => some (.pubrec, some id)
  | .pubcomp id => some (.pubrel, some id)
  | .suback id _ => some (.subscribe, some id)
  | .unsuback id => some (.unsubscribe, some id)
  | .pingresp => some (.pingreq, none)

/-- The acknowledgement that a packet of the broker has the client pack. -/
def reply : Packet → Option Request
  | .publish p =>
      if p.qosLevel = 1 then some (.pubxxx .puback (BitVec.ofNat 16 (p.packetId.getD 0)))
      else if p.qosLevel = 2 then some (.pubxxx .pubrec (BitVec.ofNat 16 (p.packetId.getD 0)))
      else none
  | .pubrec id => some (.pubxxx .pubrel id)
  | .pubrel id => some (.pubxxx .pubcomp id)
  | _ => none

/-- A message that is queued has been packed, from one of the requests `R`. -/
def Packs (R : Request → Prop) : Label → Prop
  | .request e | .reply e | .receive e _ =>
      ∃ r bufsz, R r ∧ r.controlType = e.controlType ∧ r.pack bufsz = .ok (some e.bytes)
  | _ => True

theorem Packs.mono {R R' : Request → Prop} (hR : ∀ r, R r → R' r) {l : Label} (h : Packs R l) :
    Packs R' l := by
  cases l with
  | request e | reply e | receive e _ =>
      obtain ⟨r, bufsz, hr, hkind, hpack⟩ := h
      exact ⟨r, bufsz, hR r hr, hkind, hpack⟩
  | _ => trivial

namespace MqttClient

variable {α : Type} {P : Platform α} {R : Request → Prop}

/-- The client as the machine sees it. -/
def view (c : MqttClient α) : Protocol.State α := ⟨c.mq.entries, c.publishResponseCallbackState⟩

/-- The client has gone through the labels. -/
structure Does (P : Platform α) (R : Request → Prop) (c : MqttClient α) (labels : List Label)
    (c' : MqttClient α) : Prop where
  ok : c'.mq.Ok
  block : SameBlock c.mq c'.mq
  packs : ∀ l ∈ labels, Packs R l
  run : Runs.run (Protocol.step P.publishResponseCallback) c.view labels = some c'.view

variable {c c' c'' : MqttClient α} {ls ms : List Label}

theorem Does.nil (h : c.mq.Ok) (hmq : c'.mq = c.mq)
    (hstate : c'.publishResponseCallbackState = c.publishResponseCallbackState) :
    Does P R c [] c' where
  ok := by rw [hmq]; exact h
  block := by rw [hmq]; exact .refl _
  packs := fun _ hl => absurd hl List.not_mem_nil
  run := by rw [view, view, hmq, hstate]; rfl

theorem Does.trans (h : Does P R c ls c') (h' : Does P R c' ms c'') :
    Does P R c (ls ++ ms) c'' where
  ok := h'.ok
  block := h.block.trans h'.block
  packs := List.forall_mem_append.mpr ⟨h.packs, h'.packs⟩
  run := Runs.run_append_eq_some.mpr ⟨_, h.run, h'.run⟩

theorem Does.mono {R' : Request → Prop} (hR : ∀ r, R r → R' r) (h : Does P R c ls c') :
    Does P R' c ls c' where
  ok := h.ok
  block := h.block
  packs := fun l hl => (h.packs l hl).mono hR
  run := h.run

theorem Does.one {l : Label} (hok : c'.mq.Ok)
    (hblock : SameBlock c.mq c'.mq) (hpacks : Packs R l)
    (hadmits : l.Admits c.mq.entries)
    (heffect : Protocol.effect P.publishResponseCallback c.view l = c'.view) :
    Does P R c [l] c' where
  ok := hok
  block := hblock
  packs := List.forall_mem_singleton.mpr hpacks
  run := Runs.run_cons_eq_some.mpr ⟨_, Protocol.step_eq_some.mpr ⟨hadmits, heffect⟩, rfl⟩

/-- Labels that release nothing. -/
def Quietly (P : Platform α) (R : Request → Prop) (c c' : MqttClient α) : Prop :=
  ∃ labels, Does P R c labels c' ∧ acks labels = []

theorem Quietly.nil (h : c.mq.Ok) (hmq : c'.mq = c.mq)
    (hstate : c'.publishResponseCallbackState = c.publishResponseCallbackState) :
    Quietly P R c c' := ⟨[], .nil h hmq hstate, rfl⟩

theorem Quietly.trans (h : Quietly P R c c') (h' : Quietly P R c' c'') : Quietly P R c c'' := by
  obtain ⟨ls, hls, hquiet⟩ := h
  obtain ⟨ms, hms, hquiet'⟩ := h'
  exact ⟨ls ++ ms, hls.trans hms, by rw [acks_append, hquiet, hquiet', List.append_nil]⟩

theorem Quietly.ok (h : Quietly P R c c') : c'.mq.Ok := h.elim fun _ h => h.1.ok

/-! ## Queueing -/

theorem register_spec (h : c.mq.Ok) {bytes : List UInt8} (hpos : 0 < bytes.length)
    (hfits : bytes.length ≤ c.mq.currSz) (controlType : ControlPacketType)
    (packetId : Option (BitVec 16)) :
    ∃ e : Entry, e.state = .unsent ∧ e.controlType = controlType ∧ e.bytes = bytes ∧
      (∀ id, packetId = some id → e.packetId = id) ∧
      (c.register P bytes controlType packetId).mq.Ok ∧
      SameBlock c.mq (c.register P bytes controlType packetId).mq ∧
      (c.register P bytes controlType packetId).mq.entries = c.mq.entries ++ [e] := by
  obtain ⟨hok, hblock, hentries⟩ := MessageQueue.register_write h
    { P.leftover c.records with
      controlType := controlType, packetId := packetId.getD (P.leftover c.records).packetId }
    hpos hfits
  refine ⟨_, rfl, rfl, rfl, fun id hid => ?_, hok, hblock, hentries⟩
  rw [hid]
  rfl

/-- What comes of `MQTT_CLIENT_TRY_PACK`. The queue may have been cleaned. -/
inductive Packed (P : Platform α) (R : Request → Prop) (c : MqttClient α) (r : Request)
    (controlType : ControlPacketType) (packetId : Option (BitVec 16)) :
    Option Error × MqttClient α → Prop where
  | refused {e c'} (h : Quietly P R c c') : Packed P R c r controlType packetId (some e, c')
  | queued {c₁ c' : MqttClient α} {e : Entry} (hcleaned : Quietly P R c c₁)
      (hsub : c₁.mq.entries.Sublist c.mq.entries)
      (hunsent : e.state = .unsent) (htype : e.controlType = controlType)
      (hkind : r.controlType = e.controlType)
      (hbytes : ∃ bufsz, r.pack bufsz = .ok (some e.bytes))
      (hid : ∀ id, packetId = some id → e.packetId = id) (hok : c'.mq.Ok)
      (hblock : SameBlock c₁.mq c'.mq)
      (hentries : c'.mq.entries = c₁.mq.entries ++ [e])
      (hstate : c'.publishResponseCallbackState = c₁.publishResponseCallbackState) :
      Packed P R c r controlType packetId (none, c')

theorem clean_spec (h : c.mq.Ok) :
    Quietly P R c { c with mq := c.mq.clean } ∧
      c.mq.clean.entries.Sublist c.mq.entries := by
  obtain ⟨hok, hblock, hentries⟩ := MessageQueue.clean_spec h
  refine ⟨⟨[.clean], .one hok hblock trivial trivial ?_, rfl⟩, ?_⟩
  · simp only [Protocol.effect, view, hentries]
  · rw [hentries]
    exact List.dropWhile_sublist _

theorem tryPack_packed (h : c.mq.Ok) {r : Request} (hsize : r.size < 2 ^ 32)
    (packetId : Option (BitVec 16)) :
    Packed P R c r r.controlType packetId (c.tryPack P r r.controlType packetId) := by
  -- a packet that fits
  have hqueued : ∀ {c₁ : MqttClient α} {bytes : List UInt8}, Quietly P R c c₁ →
      c₁.mq.entries.Sublist c.mq.entries → r.pack c₁.mq.currSz = .ok (some bytes) →
        Packed P R c r r.controlType packetId
          (none, c₁.register P bytes r.controlType packetId) := by
    intro c₁ bytes hcleaned hsub hpack
    obtain ⟨hpos, hfits⟩ := Request.pack_length hsize hpack
    obtain ⟨e, hunsent, htype, hbytes, hid, hok, hblock, hentries⟩ :=
      register_spec (P := P) hcleaned.ok hpos hfits r.controlType packetId
    exact .queued hcleaned hsub hunsent htype htype.symm ⟨_, by rw [hbytes]; exact hpack⟩ hid hok
      hblock hentries rfl
  rw [tryPack]
  cases c.error with
  | some e => exact .refused (.nil h rfl rfl)
  | none =>
      simp only
      cases hpack : r.pack c.mq.currSz with
      | error e => exact .refused (.nil h rfl rfl)
      | ok bytes =>
          cases bytes with
          | some bytes => exact hqueued (.nil h rfl rfl) (List.Sublist.refl _) hpack
          | none =>
              obtain ⟨hcleaned, hsub⟩ := clean_spec (P := P) (R := R) h
              have hclean : ∀ {c' : MqttClient α}, c'.mq = c.mq.clean →
                  c'.publishResponseCallbackState = c.publishResponseCallbackState →
                    Quietly P R c c' :=
                fun hmq hstate => hcleaned.trans (.nil hcleaned.ok hmq hstate)
              simp only
              cases hpack' : r.pack c.mq.clean.currSz with
              | error e => exact .refused (hclean rfl rfl)
              | ok bytes =>
                  cases bytes with
                  | none => exact .refused (hclean rfl rfl)
                  | some bytes => exact hqueued (hclean rfl rfl) hsub hpack'

variable {r : Request} {controlType : ControlPacketType} {packetId : Option (BitVec 16)}
  {result : Option Error × MqttClient α}

/-- A message that is neither a request nor a PUBREC packet. -/
theorem Packed.reply (h : Packed P R c r controlType packetId result) (hr : R r)
    (hown : own controlType = false) (hrec : controlType ≠ .pubrec) : Quietly P R c result.2 := by
  cases h with
  | refused h => exact h
  | @queued c₁ c' e hcleaned hsub hunsent htype hkind hbytes hid hok hblock hentries hstate =>
      obtain ⟨bufsz, hbytes⟩ := hbytes
      refine hcleaned.trans ⟨[.reply e],
        .one hok hblock ⟨r, bufsz, hr, hkind, hbytes⟩ ⟨hunsent, ?_, ?_⟩ ?_, rfl⟩
      · rw [htype]
        exact hown
      · rw [htype]
        exact hrec
      · simp only [Protocol.effect, view, hentries, hstate]

/-- A request with a free number. -/
theorem Packed.request {id : BitVec 16} (h : Packed P R c r controlType (some id) result)
    (hr : R r) (hown : own controlType = true) (hid : id ≠ 0)
    (hfree : id ∉ c.mq.entries.map Entry.packetId) : Quietly P R c result.2 := by
  cases h with
  | refused h => exact h
  | @queued c₁ c' e hcleaned hsub hunsent htype hkind hbytes hide hok hblock hentries hstate =>
      obtain ⟨bufsz, hbytes⟩ := hbytes
      rw [← hide id rfl] at hid hfree
      refine hcleaned.trans ⟨[.request e],
        .one hok hblock ⟨r, bufsz, hr, hkind, hbytes⟩ ⟨hunsent, ?_, hid, ?_⟩ ?_, rfl⟩
      · rw [htype]
        exact hown
      · exact fun hmem => hfree ((hsub.map _).mem hmem)
      · simp only [Protocol.effect, view, hentries, hstate]

/-- A PUBREC packet, and the message that is handed over with it. -/
theorem Packed.receive {p : ResponsePublish} (hr : R r) (hlevel : p.qosLevel = 2)
    (hnew : findEntry c.mq.entries .pubrec (some (publishId p)) = none)
    (h : Packed P R c r .pubrec (some (publishId p)) (none, c')) :
    Quietly P R c (deliver P p c').2 := by
  cases h with
  | @queued c₁ c' e hcleaned hsub hunsent htype hkind hbytes hid hok hblock hentries hstate =>
      obtain ⟨bufsz, hbytes⟩ := hbytes
      refine hcleaned.trans ⟨[.receive e p],
        .one hok hblock ⟨r, bufsz, hr, hkind, hbytes⟩ ⟨hunsent, htype, hid _ rfl, hlevel, ?_⟩ ?_,
        rfl⟩
      · rw [findEntry, List.findIdx?_eq_none_iff] at hnew ⊢
        exact fun e he => hnew e (hsub.mem he)
      · simp only [Protocol.effect, view, deliver, hentries, hstate]

/-! ## The switch -/

/-- What is done next releases nothing. -/
def QuietNext (P : Platform α) (R : Request → Prop)
    (next : MqttClient α → Option Error × MqttClient α) : Prop :=
  ∀ c : MqttClient α, c.mq.Ok → Quietly P R c (next c).2

theorem quietNext_ok : QuietNext P R (ok (α := α)) := fun _ h => .nil h rfl rfl

theorem quietNext_fail (e : Error) : QuietNext P R (fun c : MqttClient α => c.fail e) :=
  fun _ h => .nil h rfl rfl

theorem QuietNext.ite {p : Prop} [Decidable p]
    {f g : MqttClient α → Option Error × MqttClient α} (hf : QuietNext P R f)
    (hg : QuietNext P R g) : QuietNext P R fun c => if p then f c else g c := by
  intro c h
  by_cases hp : p
  · simp only [if_pos hp]
    exact hf c h
  · simp only [if_neg hp]
    exact hg c h

theorem QuietNext.staged {f g : MqttClient α → Option Error × MqttClient α}
    (hf : QuietNext P R f) (hg : QuietNext P R g) :
    QuietNext P R fun c => staged (f c) g := by
  intro c h
  have hfirst := hf c h
  simp only
  cases hresult : f c with
  | mk error c₁ =>
      rw [hresult] at hfirst
      cases error with
      | some e => exact hfirst.trans (quietNext_fail e c₁ hfirst.ok)
      | none => exact hfirst.trans (hg c₁ hfirst.ok)

theorem quietNext_deliver {p : ResponsePublish} (hlevel : p.qosLevel ≠ 2) :
    QuietNext P R (deliver P p) := fun _ h =>
  ⟨[.deliver p], .one h (.refl _) trivial hlevel rfl, rfl⟩

theorem size_pubxxx (controlType : ControlPacketType) (id : BitVec 16) :
    (Request.pubxxx controlType id).size < 2 ^ 32 := by
  change 2 + 0 < 2 ^ 32
  decide

theorem quietNext_mqttPubxxx {controlType : ControlPacketType} {id : BitVec 16}
    (hr : R (.pubxxx controlType id)) (hown : own controlType = false)
    (hrec : controlType ≠ .pubrec) :
    QuietNext P R fun c => mqttPubxxx P controlType c id := fun _ h =>
  (tryPack_packed h (size_pubxxx controlType id) (some id)).reply hr hown hrec

/-- A release, and what is done next. -/
theorem release_does (h : c.mq.Ok) (controlType : ControlPacketType)
    (packetId : Option (BitVec 16))
    (hadmits : Label.Admits c.mq.entries (.acked controlType packetId))
    {next : MqttClient α → Option Error × MqttClient α} (hnext : QuietNext P R next) :
    ∃ labels, Does P R c labels (c.release controlType packetId next).2 ∧
      (acks labels).Sublist [(controlType, packetId)] := by
  rw [release]
  cases hfind : c.mq.find controlType packetId with
  | none => exact ⟨[], .nil h rfl rfl, List.nil_sublist _⟩
  | some i =>
      obtain ⟨hok, hblock, hentries⟩ := MessageQueue.modify_spec h i
        (f := fun m => { m with state := .complete }) (g := complete) (fun _ => rfl)
        (fun _ _ => rfl)
      have hacked : Does P R c [.acked controlType packetId]
          { c with mq := c.mq.modify i fun m => { m with state := .complete } } := by
        refine .one hok hblock trivial hadmits ?_
        rw [MessageQueue.find_eq] at hfind
        simp only [Protocol.effect, view, hfind, hentries]
      obtain ⟨labels, hdoes, hquiet⟩ := hnext
        { c with mq := c.mq.modify i fun m => { m with state := .complete } } hok
      refine ⟨_, hacked.trans hdoes, ?_⟩
      rw [acks_append, hquiet]
      exact List.Sublist.refl _

/-- **The switch keeps to the exchange.** -/
theorem handle_does {r : Response} (hreply : ∀ q, reply r.decoded.packet = some q → R q)
    (h : c.mq.Ok) : ∃ labels, Does P R c labels (c.handle P r).2 ∧
      (acks labels).Sublist (answer r.decoded.packet).toList := by
  have hquiet : ∀ {c' : MqttClient α} {as : List (ControlPacketType × Option (BitVec 16))},
      Quietly P R c c' → ∃ labels, Does P R c labels c' ∧ (acks labels).Sublist as := by
    rintro c' as ⟨labels, hdoes, hnone⟩
    exact ⟨labels, hdoes, by rw [hnone]; exact List.nil_sublist as⟩
  rw [handle]
  generalize r.decoded = body at hreply
  cases body with
  | connack sessionPresentFlag returnCode =>
      exact release_does h .connect none ⟨rfl, by simp⟩
        (.ite (.ite (quietNext_fail _) (quietNext_fail _)) quietNext_ok)
  | publish p =>
      refine hquiet ?_
      simp only
      by_cases hone : p.qosLevel = 1
      · have hlevel : p.qosLevel ≠ 2 := by rw [hone]; decide
        rw [if_pos hone]
        exact (quietNext_mqttPubxxx (hreply _ (if_pos hone)) rfl (by simp)).staged
          (quietNext_deliver hlevel) c h
      · rw [if_neg hone]
        by_cases htwo : p.qosLevel = 2
        · rw [if_pos htwo]
          cases hfind : c.mq.find .pubrec (some (publishId p)) with
          | some i => exact .nil h rfl rfl
          | none =>
              simp only [Option.isSome_none, Bool.false_eq_true, if_false]
              have hpacked := tryPack_packed (P := P) (R := R) h
                (size_pubxxx .pubrec (publishId p)) (some (publishId p))
              rw [MessageQueue.find_eq] at hfind
              rw [Request.controlType] at hpacked
              rw [mqttPubrec, mqttPubxxx]
              cases hresult : c.tryPack P (.pubxxx .pubrec (publishId p)) .pubrec
                (some (publishId p)) with
              | mk error c' =>
                  rw [hresult] at hpacked
                  cases error with
                  | none =>
                      refine hpacked.receive (hreply _ ?_) htwo hfind
                      exact (if_neg hone).trans (if_pos htwo)
                  | some e =>
                      cases hpacked with
                      | refused hrefused =>
                          exact hrefused.trans (quietNext_fail e c' hrefused.ok)
        · rw [if_neg htwo]
          exact quietNext_deliver htwo c h
  | puback id => exact release_does h .publish (some id) trivial quietNext_ok
  | pubrec id =>
      simp only
      by_cases hdup : (c.mq.find .pubrel (some id)).isSome = true
      · rw [if_pos hdup]
        exact hquiet (.nil h rfl rfl)
      · rw [if_neg hdup]
        exact release_does h .publish (some id) trivial
          ((quietNext_mqttPubxxx (hreply _ rfl) rfl (by simp)).staged quietNext_ok)
  | pubrel id =>
      exact release_does h .pubrec (some id) trivial
        ((quietNext_mqttPubxxx (hreply _ rfl) rfl (by simp)).staged quietNext_ok)
  | pubcomp id => exact release_does h .pubrel (some id) trivial quietNext_ok
  | suback id returnCodes =>
      refine release_does h .subscribe (some id) trivial ?_
      exact .ite (quietNext_fail _) quietNext_ok
  | unsuback id => exact release_does h .unsubscribe (some id) trivial quietNext_ok
  | pingresp => exact release_does h .pingreq none ⟨rfl, by simp⟩ quietNext_ok

/-! ## The loop over the queue -/

variable {mq : MessageQueue} {i : Nat} {msg : QueuedMessage}

theorem entry_of_message (hget : mq.messages[i]? = some msg) :
    mq.entries[i]? = some (entryOf mq.mem msg) := by
  rw [MessageQueue.entries, List.getElem?_map, hget]
  rfl

/-- The first byte of a message, in the block and in the message. -/
theorem first_byte (h : mq.Ok) (hget : mq.messages[i]? = some msg) :
    mq.mem.getD msg.start 0 = (entryOf mq.mem msg).bytes.headD 0 := by
  have hmem := List.mem_of_getElem? hget
  have hpos := h.pos _ (List.mem_map_of_mem hmem)
  simp only [MessageQueue.stretch] at hpos
  rw [entryOf, List.headD_eq_head?_getD, List.head?_take, if_neg (Nat.ne_of_gt hpos),
    List.head?_drop, List.getD_eq_getElem?_getD]

theorem inflightQos2_iff (h : c.mq.Ok) (hget : c.mq.messages[i]? = some msg) :
    c.inflightQos2 msg = true ↔ Qos2 (entryOf c.mq.mem msg) ∧ msg.state ≠ .complete := by
  have hlevel : ∀ b : UInt8, b >>> 1 &&& 0x03 = Client.qosLevel b :=
    forall_byte (by decide +kernel)
  rw [inflightQos2, Qos2, Protocol.qos, ← first_byte h hget, ← hlevel]
  simp only [Bool.and_eq_true, decide_eq_true_eq, entryOf]
  constructor
  · rintro ⟨⟨htype, hstate⟩, hqos⟩
    exact ⟨⟨htype, hqos⟩, hstate⟩
  · rintro ⟨⟨htype, hqos⟩, hstate⟩
    exact ⟨⟨htype, hstate⟩, hqos⟩

theorem due_same (c : MqttClient α) (msg : QueuedMessage) :
    (c.due P msg).2.mq = c.mq ∧
      (c.due P msg).2.publishResponseCallbackState = c.publishResponseCallbackState := by
  rw [due]
  cases msg.state with
  | unsent => exact ⟨rfl, rfl⟩
  | awaitingAck =>
      simp only
      split <;> exact ⟨rfl, rfl⟩
  | complete => exact ⟨rfl, rfl⟩

theorem state_of_due (msg : QueuedMessage) (h : (c.due P msg).1 = true) :
    msg.state ≠ .complete := by
  intro hstate
  rw [due, hstate] at h
  cases h

theorem modify_congr {es : List Entry} {e : Entry} {f g : Entry → Entry}
    (hget : es[i]? = some e) (h : f e = g e) : es.modify i f = es.modify i g := by
  rw [(Protocol.split_at hget f).2, (Protocol.split_at hget g).2, h]

/-- What the switch of `__mqtt_send` does to a message. -/
def switched (e : Entry) : Entry :=
  { e with state := Protocol.stateAfterSend e, bytes := Protocol.bytesAfterSend e }

theorem afterSend_spec (msg : QueuedMessage) (h : mq.Ok) {m : QueuedMessage}
    (hget : mq.messages[i]? = some m)
    (htype : msg.controlType = m.controlType) (hstart : msg.start = m.start) :
    (∃ mq', afterSend mq i msg = some mq' ∧ mq'.Ok ∧ SameBlock mq mq' ∧
        mq'.entries = mq.entries.modify i switched) ∨
      afterSend mq i msg = none ∧ mq.entries.modify i switched = mq.entries := by
  have hentry := entry_of_message hget
  have hfirst := first_byte h hget
  -- a change of the state alone, where that is what the switch does
  have hput : ∀ state, switched (entryOf mq.mem m) = { entryOf mq.mem m with state := state } →
      (mq.modify i fun m => { m with state := state }).Ok ∧
        SameBlock mq (mq.modify i fun m => { m with state := state }) ∧
        (mq.modify i fun m => { m with state := state }).entries
          = mq.entries.modify i switched := by
    intro state hswitched
    obtain ⟨hok, hblock, hentries⟩ := MessageQueue.modify_spec h i
      (f := fun m => { m with state := state }) (g := fun e => { e with state := state })
      (fun _ => rfl) (fun _ _ => rfl)
    exact ⟨hok, hblock, hentries.trans (modify_congr hentry hswitched.symm)⟩
  have hbytes : m.controlType ≠ .publish →
      Protocol.bytesAfterSend (entryOf mq.mem m) = (entryOf mq.mem m).bytes := fun hne =>
    if_neg fun h => hne h.1
  rw [afterSend, htype, hstart]
  cases htype' : m.controlType with
  | puback | pubcomp | disconnect =>
      refine .inl ⟨_, rfl, hput .complete ?_⟩
      rw [switched, hbytes (by rw [htype']; simp), Protocol.stateAfterSend]
      simp only [entryOf, htype']
  | connect | pubrec | pubrel | subscribe | unsubscribe | pingreq =>
      refine .inl ⟨_, rfl, hput .awaitingAck ?_⟩
      rw [switched, hbytes (by rw [htype']; simp), Protocol.stateAfterSend]
      simp only [entryOf, htype']
  | publish =>
      have hstate : Protocol.stateAfterSend (entryOf mq.mem m)
          = if Protocol.qos (entryOf mq.mem m) = 0 then .complete else .awaitingAck := by
        rw [Protocol.stateAfterSend]
        simp only [entryOf, htype']
      have hqos : (0x06 &&& mq.mem.getD m.start 0) >>> 1 = Protocol.qos (entryOf mq.mem m) := by
        rw [Protocol.qos, ← hfirst, Client.qosLevel, UInt8.and_comm]
      simp only [hqos]
      by_cases hzero : Protocol.qos (entryOf mq.mem m) = 0
      · rw [if_pos hzero] at hstate ⊢
        have hlevel : ¬ ((entryOf mq.mem m).controlType = .publish ∧
            Protocol.qos (entryOf mq.mem m) = 1) :=
          fun hone => absurd (hzero.symm.trans hone.2) (by decide)
        refine .inl ⟨_, rfl, hput .complete ?_⟩
        rw [switched, hstate, Protocol.bytesAfterSend, if_neg hlevel]
      · rw [if_neg hzero] at hstate ⊢
        by_cases hone : Protocol.qos (entryOf mq.mem m) = 1
        · rw [if_pos hone]
          obtain ⟨hok, hblock, hentries⟩ := MessageQueue.modify_spec h i
            (f := fun m => { m with state := .awaitingAck })
            (g := fun e => { e with state := .awaitingAck }) (fun _ => rfl) (fun _ _ => rfl)
          obtain ⟨hok', hblock', hentries'⟩ :=
            MessageQueue.modifyFirst_spec hok i fun b => b ||| 0x08
          refine .inl ⟨_, rfl, hok', hblock.trans hblock', ?_⟩
          rw [hentries', hentries, List.modify_modify_eq]
          refine modify_congr hentry ?_
          rw [switched, hstate, Protocol.bytesAfterSend, if_pos ⟨htype', hone⟩]
          rfl
        · rw [if_neg hone]
          refine .inl ⟨_, rfl, hput .awaitingAck ?_⟩
          rw [switched, hstate, Protocol.bytesAfterSend, if_neg (fun h => hone h.2)]
  | _ =>
      refine .inr ⟨rfl, ?_⟩
      rw [modify_congr (g := id) hentry, List.modify_id]
      rw [switched, hbytes (by rw [htype']; simp), Protocol.stateAfterSend]
      simp only [entryOf, htype']
      rfl

/-- A message has gone out to its end. -/
structure SentAll (c : MqttClient α) (i : Nat) (b : List UInt8) (c' : MqttClient α) : Prop where
  ok : c'.mq.Ok
  block : SameBlock c.mq c'.mq
  entries : ∃ time, c'.mq.entries = c.mq.entries.modify i (sentAt time)
  state : c'.publishResponseCallbackState = c.publishResponseCallbackState
  wire : c'.wire = c.wire ++ b.drop c.sendOffset
  offset : c'.sendOffset = 0
  sendings : c'.sendings <:+ c.sendings

/-- What comes of the turn of a message with the bytes `b`. -/
inductive TurnEffect (c : MqttClient α) (i : Nat) (b : List UInt8) : Turn α → Prop where
  | undefined (h : b.length < c.sendOffset) : TurnEffect c i b .undefined
  | refused {e} {c' : MqttClient α} (hmq : c'.mq = c.mq)
      (hstate : c'.publishResponseCallbackState = c.publishResponseCallbackState)
      (hwire : c'.wire = c.wire) (hoffset : c'.sendOffset = c.sendOffset)
      (hsendings : c'.sendings <:+ c.sendings) : TurnEffect c i b (.returns e c')
  | part {c' : MqttClient α} {sent : Nat} (hmq : c'.mq = c.mq)
      (hstate : c'.publishResponseCallbackState = c.publishResponseCallbackState)
      (hless : c'.sendOffset < b.length) (hoffset : c'.sendOffset = c.sendOffset + sent)
      (hwire : c'.wire = c.wire ++ (b.drop c.sendOffset).take sent)
      (hsendings : c'.sendings <:+ c.sendings)
      (hample : (∀ x ∈ c.sendings, Ample (b.length - c.sendOffset) x) → sent = 0) :
      TurnEffect c i b (.breaks c')
  | returns {e} {c' : MqttClient α} (h : SentAll c i b c') : TurnEffect c i b (.returns e c')
  | continues {c' : MqttClient α} (h : SentAll c i b c') : TurnEffect c i b (.continues c')

theorem mqttPalSendall_took {sendings sendings' : List Sending} {buf : List UInt8}
    {result : Except Error Nat} (h : mqttPalSendall sendings buf = (result, sendings')) :
    sendings' <:+ sendings ∧ ∀ sent, result = .ok sent → sent ≤ buf.length ∧
      ((∀ x ∈ sendings, Ample buf.length x) → sent = 0 ∨ sent = buf.length) := by
  have htook := sendLoop_took sendings buf.length
  rw [mqttPalSendall] at h
  split at h <;> cases h
  · exact ⟨htook.suffix, fun sent hsent => by cases hsent⟩
  · exact ⟨htook.suffix, fun sent hsent => by cases hsent; exact ⟨htook.sent, htook.ample⟩⟩

theorem length_bytes (h : mq.Ok) (hget : mq.messages[i]? = some msg) :
    (entryOf mq.mem msg).bytes.length = msg.size := by
  have hinside := h.inside (List.mem_of_getElem? hget)
  have hcurr := h.curr_le
  rw [entryOf, List.length_take, List.length_drop]
  omega

theorem sendMessage_effect (h : c.mq.Ok) (hget : c.mq.messages[i]? = some msg) :
    TurnEffect c i (entryOf c.mq.mem msg).bytes (c.sendMessage P i msg) := by
  have hlen := length_bytes h hget
  have hrest : (c.mq.mem.drop (msg.start + c.sendOffset)).take (msg.size - c.sendOffset)
      = (entryOf c.mq.mem msg).bytes.drop c.sendOffset := by
    rw [entryOf, List.drop_take, List.drop_drop]
  have hlenRest : ((entryOf c.mq.mem msg).bytes.drop c.sendOffset).length
      = msg.size - c.sendOffset := by rw [List.length_drop, hlen]
  rw [sendMessage]
  by_cases hunder : msg.size < c.sendOffset
  · rw [if_pos hunder]
    exact .undefined (by rw [hlen]; exact hunder)
  · rw [if_neg hunder]
    simp only [hrest]
    cases hsendall : mqttPalSendall c.sendings ((entryOf c.mq.mem msg).bytes.drop c.sendOffset) with
    | mk result sendings =>
        obtain ⟨hsuffix, hsent⟩ := mqttPalSendall_took hsendall
        cases result with
        | error e => exact .refused rfl rfl rfl rfl hsuffix
        | ok sent =>
            obtain ⟨hle, hample⟩ := hsent sent rfl
            rw [hlenRest] at hle hample
            simp only
            by_cases hpart : c.sendOffset + sent < msg.size
            · rw [if_pos hpart]
              refine .part rfl rfl (by rw [hlen]; exact hpart) rfl rfl hsuffix fun hall => ?_
              rw [hlen] at hall
              rcases hample hall with hzero | hwhole <;> omega
            · rw [if_neg hpart]
              simp only [readTime]
              have hwire : c.wire ++ ((entryOf c.mq.mem msg).bytes.drop c.sendOffset).take sent
                  = c.wire ++ (entryOf c.mq.mem msg).bytes.drop c.sendOffset := by
                rw [List.take_of_length_le (by omega)]
              obtain ⟨hok, hblock, hentries⟩ := MessageQueue.modify_spec h i
                (f := fun m => { m with timeSent := P.time c.readings })
                (g := fun e => { e with timeSent := P.time c.readings })
                (fun _ => rfl) (fun _ _ => rfl)
              have hget' : (c.mq.modify i fun m =>
                  { m with timeSent := P.time c.readings }).messages[i]?
                    = some { msg with timeSent := P.time c.readings } := by
                simp only [MessageQueue.modify, List.getElem?_modify, hget, if_pos]
                rfl
              have hboth : ((c.mq.modify i fun m =>
                  { m with timeSent := P.time c.readings }).entries).modify i switched
                    = c.mq.entries.modify i (sentAt (P.time c.readings)) := by
                rw [hentries, List.modify_modify_eq]
                rfl
              rcases afterSend_spec msg hok hget' rfl rfl with
                ⟨mq, hafter, hok', hblock', hentries'⟩ | ⟨hafter, hsame⟩
              · simp only [hafter]
                exact .continues ⟨hok', hblock.trans hblock',
                  ⟨_, hentries'.trans hboth⟩, rfl, hwire, rfl, hsuffix⟩
              · simp only [hafter]
                exact .returns ⟨hok, hblock, ⟨_, hsame.symm.trans hboth⟩, rfl, hwire, rfl,
                  hsuffix⟩

theorem SentAll.quietly {b : List UInt8} (h : SentAll c i b c')
    (hadmits : ∀ time, Label.Admits c.mq.entries (.sent i time)) : Quietly P R c c' := by
  obtain ⟨time, hentries⟩ := h.entries
  refine ⟨[.sent i time], .one h.ok h.block trivial (hadmits time) ?_, rfl⟩
  simp only [Protocol.effect, view, hentries, h.state]

/-- Unless a message of level 2 is under way, those before the `i`th are completed. -/
def Visited (i : Nat) (inflight : Bool) (es : List Entry) : Prop :=
  inflight = false → ∀ e ∈ es.take i, Qos2 e → e.state = .complete

inductive SentDoes (P : Platform α) (R : Request → Prop) (c : MqttClient α) : Sent α → Prop where
  | undefined : SentDoes P R c .undefined
  | returned {e} {c' : MqttClient α} (h : Quietly P R c c') : SentDoes P R c (.returned e c')
  | done {c' : MqttClient α} (h : Quietly P R c c') : SentDoes P R c (.done c')

theorem SentDoes.trans {sent : Sent α} (h : Quietly P R c c') (h' : SentDoes P R c' sent) :
    SentDoes P R c sent := by
  cases h' with
  | undefined => exact .undefined
  | returned h' => exact .returned (h.trans h')
  | done h' => exact .done (h.trans h')

theorem sendMessages_does : ∀ {n i : Nat} {inflight : Bool} {c : MqttClient α}, c.mq.Ok →
    Visited i inflight c.mq.entries → SentDoes P R c (sendMessages P n i inflight c) := by
  intro n
  induction n with
  | zero => intro i inflight c h _; exact .done (.nil h rfl rfl)
  | succ n ih =>
      intro i inflight c h hvisited
      rw [sendMessages]
      cases hget : c.mq.messages[i]? with
      | none => exact .undefined
      | some msg =>
          obtain ⟨hmq, hstate⟩ := due_same (P := P) c msg
          have hdue := state_of_due (P := P) (c := c) msg
          simp only
          generalize c.due P msg = result at hmq hstate hdue
          obtain ⟨resend, c₁⟩ := result
          simp only at hmq hstate hdue
          have hsame : Quietly P R c c₁ := .nil h hmq hstate
          rw [← hmq] at hget hvisited
          have hentry := entry_of_message hget
          have hqos2 := inflightQos2_iff hsame.ok hget
          -- the `i`th message has been looked at, too
          have hnext : ∀ f : Entry → Entry,
              (Qos2 (f (entryOf c₁.mq.mem msg)) → c₁.inflightQos2 msg = false →
                (f (entryOf c₁.mq.mem msg)).state = .complete) →
              Visited (i + 1) (inflight || c₁.inflightQos2 msg) (c₁.mq.entries.modify i f) := by
            intro f hf hnone e he htwo
            obtain ⟨hinflight, hother⟩ := Bool.or_eq_false_iff.mp hnone
            obtain ⟨hlt, _⟩ := List.getElem?_eq_some_iff.mp hentry
            have hlen : (c₁.mq.entries.take i).length = i := by rw [List.length_take]; omega
            rw [(Protocol.split_at hentry f).2, List.take_append, hlen, Nat.add_sub_cancel_left,
              List.take_succ_cons, List.take_zero, List.take_of_length_le (by omega)] at he
            rcases List.mem_append.mp he with he | he
            · exact hvisited hinflight e he htwo
            · rw [List.mem_singleton.mp he] at htwo ⊢
              exact hf htwo hother
          have hskip : SentDoes P R c₁
              (sendMessages P n (i + 1) (inflight || c₁.inflightQos2 msg) c₁) := by
            refine ih hsame.ok ?_
            have hkept := hnext id fun htwo hnot => by
              by_contra hstate
              rw [hqos2.mpr ⟨htwo, hstate⟩] at hnot
              cases hnot
            rwa [List.modify_id] at hkept
          cases hsend : (resend && !(c₁.inflightQos2 msg && inflight)) with
          | false => exact .trans hsame hskip
          | true =>
              rw [Bool.and_eq_true, Bool.not_eq_true', Bool.and_eq_false_iff] at hsend
              have hneeded : msg.state ≠ .complete := hdue hsend.1
              have hadmits : ∀ time, Label.Admits c₁.mq.entries (.sent i time) := by
                intro time e he
                rw [hentry] at he
                cases he
                refine ⟨hneeded, fun htwo => hvisited ?_⟩
                rcases hsend.2 with hother | hinflight
                · rw [hqos2.mpr ⟨htwo, hneeded⟩] at hother
                  cases hother
                · exact hinflight
              have hturn := sendMessage_effect (P := P) hsame.ok hget
              simp only [if_true]
              generalize c₁.sendMessage P i msg = turn at hturn
              cases hturn with
              | undefined _ => exact .undefined
              | refused hmq hstate _ _ _ =>
                  exact .returned (hsame.trans (.nil hsame.ok hmq hstate))
              | part hmq hstate _ _ _ _ _ => exact .done (hsame.trans (.nil hsame.ok hmq hstate))
              | returns h => exact .returned (hsame.trans (h.quietly hadmits))
              | @continues c₂ h =>
                  obtain ⟨time, hentries⟩ := h.entries
                  refine .trans (hsame.trans (h.quietly hadmits)) (ih h.ok ?_)
                  rw [hentries]
                  refine hnext (sentAt time) fun htwo hnot => ?_
                  rw [hqos2.mpr ⟨Protocol.qos2_sentAt.mp htwo, hneeded⟩] at hnot
                  cases hnot

theorem quietNext_keepAlivePing (hr : R .pingreq) : QuietNext P R (keepAlivePing P) := by
  have hping : QuietNext P R (mqttPing P) := fun c h =>
    (tryPack_packed h (by decide) none).reply hr rfl (by simp [Request.controlType])
  intro c h
  have hread : Quietly P R c (c.readTime P).2 := .nil h rfl rfl
  rw [keepAlivePing]
  simp only
  by_cases hlate : (c.readTime P).1 > c.timeOfLastSend + c.keepAlive.toNat
  · rw [if_pos hlate]
    exact hread.trans (hping.staged quietNext_ok _ hread.ok)
  · rw [if_neg hlate]
    exact hread.trans (quietNext_ok _ hread.ok)

theorem mqttSend_does (hr : R .pingreq) (h : c.mq.Ok) {result : Option Error × MqttClient α}
    (hsend : c.mqttSend P = some result) : Quietly P R c result.2 := by
  rw [mqttSend] at hsend
  split at hsend
  · have hvisited : Visited 0 false c.mq.entries := fun _ e he => absurd he List.not_mem_nil
    have hloop : SentDoes P R c (c.sendMessages P c.mq.messages.length 0 false) :=
      sendMessages_does h hvisited
    generalize c.sendMessages P c.mq.messages.length 0 false = sent at hloop hsend
    cases hloop with
    | undefined => cases hsend
    | returned h =>
        cases hsend
        exact h
    | done h =>
        cases hsend
        exact h.trans (quietNext_keepAlivePing hr _ h.ok)
  · cases hsend
    exact .nil h rfl rfl

/-! ## The application's calls -/

theorem nextPid_spec {id : BitVec 16} (hnext : c.nextPid = some (id, c')) :
    c'.view = c.view ∧ c'.mq = c.mq ∧ id ≠ 0 ∧ id ∉ c'.mq.entries.map Entry.packetId := by
  rw [nextPid] at hnext
  cases hpid : mqttNextPid c.pidLfsr (c.mq.messages.map QueuedMessage.packetId) with
  | none =>
      rw [hpid] at hnext
      cases hnext
  | some id' =>
      rw [hpid] at hnext
      cases hnext
      obtain ⟨hid, hfree⟩ := mqttNextPid_some hpid
      refine ⟨rfl, rfl, hid, ?_⟩
      rw [MessageQueue.entries, List.map_map]
      exact hfree

/-- A request under a number of its own. -/
theorem request_does (h : c.mq.Ok) {controlType : ControlPacketType} {r : BitVec 16 → Request}
    (hr : ∀ id ≠ 0, R (r id)) (hkind : ∀ id, (r id).controlType = controlType)
    (hsize : ∀ id, (r id).size < 2 ^ 32) (hown : own controlType = true)
    {result : Option Error × MqttClient α}
    (hcall : (c.nextPid.map fun x => x.2.tryPack P (r x.1) controlType (some x.1)) = some result) :
    Quietly P R c result.2 := by
  obtain ⟨⟨id, c₁⟩, hnext, rfl⟩ := Option.map_eq_some_iff.mp hcall
  obtain ⟨hview, hmq, hid, hfree⟩ := nextPid_spec hnext
  have hpid : Quietly P R c c₁ := .nil h hmq (congrArg Protocol.State.app hview)
  have hpacked := tryPack_packed (P := P) (R := R) hpid.ok (hsize id) (some id)
  rw [hkind id] at hpacked
  exact hpid.trans (hpacked.request (hr id hid) hown hid hfree)

theorem mqttPublish_does (h : c.mq.Ok) {topicName applicationMessage : List UInt8}
    {publishFlags : UInt8}
    (hr : ∀ id ≠ 0, R (.publish topicName id applicationMessage publishFlags))
    (hsize : (Request.publish topicName 0 applicationMessage publishFlags).size < 2 ^ 32)
    {result : Option Error × MqttClient α}
    (hcall : c.mqttPublish P topicName applicationMessage publishFlags = some result) :
    Quietly P R c result.2 :=
  request_does h hr (fun _ => rfl) (fun _ => hsize) rfl hcall

theorem mqttSubscribe_does (h : c.mq.Ok) {topicName : List UInt8} {maxQosLevel : UInt8}
    (hr : ∀ id ≠ 0, R (.subscribe id [(topicName, maxQosLevel)]))
    (hsize : (Request.subscribe 0 [(topicName, maxQosLevel)]).size < 2 ^ 32)
    {result : Option Error × MqttClient α}
    (hcall : c.mqttSubscribe P topicName maxQosLevel = some result) : Quietly P R c result.2 :=
  request_does h hr (fun _ => rfl) (fun _ => hsize) rfl hcall

theorem mqttUnsubscribe_does (h : c.mq.Ok) {topicName : List UInt8}
    (hr : ∀ id ≠ 0, R (.unsubscribe id [topicName]))
    (hsize : (Request.unsubscribe 0 [topicName]).size < 2 ^ 32)
    {result : Option Error × MqttClient α}
    (hcall : c.mqttUnsubscribe P topicName = some result) : Quietly P R c result.2 :=
  request_does h hr (fun _ => rfl) (fun _ => hsize) rfl hcall

theorem mqttConnect_does (h : c.mq.Ok) {r : ConnectRequest} (hr : R (.connect r))
    (hsize : (Request.connect r).size < 2 ^ 32) : Quietly P R c (c.mqttConnect P r).2 := by
  have hpack : ∀ {c₁ : MqttClient α}, Quietly P R c c₁ →
      Quietly P R c { (c₁.tryPack P (.connect r) .connect none).2 with locked := false } := by
    intro c₁ hset
    have hpacked := (tryPack_packed (P := P) hset.ok hsize none).reply hr rfl
      (by simp [Request.controlType])
    exact (hset.trans hpacked).trans (.nil hpacked.ok rfl rfl)
  rw [mqttConnect]
  simp only
  split
  · exact hpack (.nil h rfl rfl)
  · exact hpack (.nil h rfl rfl)

end MqttClient

end Caeco.Mqtt
