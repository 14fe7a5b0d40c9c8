import Caeco.Mqtt.Wire

/-!
# What the application is handed

Nothing but the messages of the broker reaches the application's callback. Of messages of
level 0 every one does, in the order in which they came. The mutex is free between the calls
once `mqtt_connect` has unlocked it.
-/

namespace Caeco.Mqtt

open Client (ResponsePublish)

namespace MqttClient

variable {α : Type} {P : Platform α}

/-- The application's state is the same. -/
def SameApp (c c' : MqttClient α) : Prop :=
  c'.publishResponseCallbackState = c.publishResponseCallbackState

theorem framed_sameApp : Framed (SameApp (α := α)) where
  change _ _ _ _ _ _ _ := rfl
  trans h h' := h'.trans h

/-- The mutex is as before. -/
def SameLock (c c' : MqttClient α) : Prop := c'.locked = c.locked

theorem framed_sameLock : Framed (SameLock (α := α)) where
  change _ _ _ _ _ _ _ := rfl
  trans h h' := h'.trans h

/-- What `__mqtt_send` leaves alone. -/
def SameCaller (c c' : MqttClient α) : Prop := SameApp c c' ∧ SameLock c c'

theorem framed_sameCaller : Framed (SameCaller (α := α)) where
  change _ _ _ _ _ _ _ := ⟨rfl, rfl⟩
  trans h h' := ⟨framed_sameApp.trans h.1 h'.1, framed_sameLock.trans h.2 h'.2⟩

def Turn.All (p : MqttClient α → Prop) : Turn α → Prop
  | .undefined => True
  | .returns _ c => p c
  | .breaks c => p c
  | .continues c => p c

def Sent.All (p : MqttClient α → Prop) : Sent α → Prop
  | .undefined => True
  | .returned _ c => p c
  | .done c => p c

theorem Sent.All.imp {p q : MqttClient α → Prop} (h : ∀ c, p c → q c) {sent : Sent α}
    (hall : sent.All p) : sent.All q := by
  cases sent with
  | undefined => trivial
  | returned e c => exact h c hall
  | done c => exact h c hall

theorem due_caller (c : MqttClient α) (msg : QueuedMessage) : SameCaller c (c.due P msg).2 := by
  rw [due]
  cases msg.state with
  | unsent => exact ⟨rfl, rfl⟩
  | awaitingAck =>
      simp only
      split <;> exact ⟨rfl, rfl⟩
  | complete => exact ⟨rfl, rfl⟩

theorem sendMessage_caller (c : MqttClient α) (i : Nat) (msg : QueuedMessage) :
    (c.sendMessage P i msg).All (SameCaller c) := by
  rw [sendMessage]
  split
  · trivial
  · simp only
    split
    · exact ⟨rfl, rfl⟩
    · simp only [readTime]
      split
      · exact ⟨rfl, rfl⟩
      · split
        · exact ⟨rfl, rfl⟩
        · exact ⟨rfl, rfl⟩

theorem sendMessages_caller : ∀ (n i : Nat) (inflight : Bool) (c : MqttClient α),
    (c.sendMessages P n i inflight).All (SameCaller c) := by
  intro n
  induction n with
  | zero => intro i inflight c; exact ⟨rfl, rfl⟩
  | succ n ih =>
      intro i inflight c
      rw [sendMessages]
      cases c.mq.messages[i]? with
      | none => trivial
      | some msg =>
          have hdue := due_caller (P := P) c msg
          simp only
          generalize c.due P msg = result at hdue
          obtain ⟨resend, c₁⟩ := result
          have hrest : ∀ {c₂ : MqttClient α}, SameCaller c c₂ → ∀ inflight : Bool,
              (c₂.sendMessages P n (i + 1) inflight).All (SameCaller c) := fun hsame inflight =>
            Sent.All.imp (fun _ h => framed_sameCaller.trans hsame h) (ih (i + 1) inflight _)
          simp only
          split
          · have hturn := sendMessage_caller (P := P) c₁ i msg
            generalize c₁.sendMessage P i msg = turn at hturn
            cases turn with
            | undefined => trivial
            | returns e c₂ => exact framed_sameCaller.trans hdue hturn
            | breaks c₂ => exact framed_sameCaller.trans hdue hturn
            | continues c₂ => exact hrest (framed_sameCaller.trans hdue hturn) _
          · exact hrest hdue _

theorem mqttSend_caller {c : MqttClient α} {result : Option Error × MqttClient α}
    (h : c.mqttSend P = some result) : SameCaller c result.2 := by
  rw [mqttSend] at h
  split at h
  · have hloop := sendMessages_caller (P := P) c.mq.messages.length 0 false c
    generalize c.sendMessages P c.mq.messages.length 0 false = sent at hloop h
    cases sent with
    | undefined => cases h
    | returned e c' =>
        cases h
        exact hloop
    | done c' =>
        cases h
        exact framed_sameCaller.trans hloop (framed_sameCaller.keepAlivePing c')
  · cases h
    exact ⟨rfl, rfl⟩

end MqttClient

/-- The messages among the packets. -/
def publishes (packets : List Packet) : List Publish :=
  packets.filterMap fun
    | .publish p => some p
    | _ => none

theorem publishes_append (ps qs : List Packet) :
    publishes (ps ++ qs) = publishes ps ++ publishes qs := List.filterMap_append

namespace Session

open MqttClient (SameApp framed_sameApp)

variable {α : Type} {P : Platform α} {s s' : Session α}

/-- The application has come to its state through the messages of the log, unless one of them
is of another level than 0. -/
def Handed (J : α → List Publish → Prop) (x : MqttClient α × List Packet) : Prop :=
  (∀ q ∈ publishes x.2, q.qosLevel = 0) →
    J x.1.publishResponseCallbackState (publishes x.2)

variable {J : α → List Publish → Prop} {x : MqttClient α × List Packet}

theorem Handed.same (h : Handed J x) {c : MqttClient α} (hsame : SameApp x.1 c) :
    Handed J (c, x.2) := by
  intro hlevel
  show J c.publishResponseCallbackState _
  rw [hsame]
  exact h hlevel

variable (hJ : ∀ a ps p, J a ps → J (P.publishResponseCallback a p) (ps ++ [publishOf p]))

include hJ

theorem Handed.handle (h : Handed J x) (r : Response) :
    Handed J (logging (MqttClient.handle P) x r).2 := by
  intro hlevel
  simp only [logging] at hlevel ⊢
  rw [publishes_append] at hlevel ⊢
  have hbefore := h (List.forall_mem_append.mp hlevel).1
  by_cases hpublish : ∃ p, r.decoded = .publish p
  · obtain ⟨p, hp⟩ := hpublish
    rw [hp] at hlevel ⊢
    have hnew : publishes [(ResponseBody.publish p).packet] = [publishOf p] := rfl
    rw [hnew] at hlevel ⊢
    have hzero : p.qosLevel = 0 :=
      (List.forall_mem_append.mp hlevel).2 _ (List.mem_singleton_self _)
    have hhandle : (x.1.handle P r).2.publishResponseCallbackState
        = P.publishResponseCallback x.1.publishResponseCallbackState p := by
      rw [MqttClient.handle, hp]
      simp only [hzero]
      rfl
    rw [hhandle]
    exact hJ _ _ p hbefore
  · have hsame : SameApp x.1 (x.1.handle P r).2 :=
      framed_sameApp.handle r (fun p hp => absurd ⟨p, hp⟩ hpublish) x.1
    have hnone : publishes [r.decoded.packet] = [] := by
      cases hdecoded : r.decoded with
      | publish p => exact absurd ⟨p, hdecoded⟩ hpublish
      | _ => rfl
    rw [hnone, List.append_nil, show _ = _ from hsame]
    exact hbefore

theorem step_handed (h : Handed J s.client) (hs : s.buffer.Ok) {a : Action}
    (hstep : step P s a = some s') : Handed J s'.client ∧ s'.buffer.Ok := by
  obtain ⟨_, hstep⟩ := step_eq_some.mp hstep
  have hrequest : ∀ {call : Option (Option Error × MqttClient α)},
      (∀ result, call = some result → SameApp s.client.1 result.2) →
      (call.map fun r => withClient s r.2) = some s' →
        Handed J s'.client ∧ s'.buffer.Ok := by
    intro call hcall hresult
    obtain ⟨r, hr, rfl⟩ := Option.map_eq_some_iff.mp hresult
    exact ⟨h.same (hcall r hr), hs⟩
  cases a with
  | arrive arrivals =>
      cases hstep
      exact ⟨h, hs⟩
  | accept sendings =>
      cases hstep
      exact ⟨h.same rfl, hs⟩
  | connect r =>
      cases hstep
      exact ⟨h.same (framed_sameApp.mqttConnect (fun _ => rfl) r _), hs⟩
  | publish topicName applicationMessage publishFlags =>
      exact hrequest (fun _ hcall => framed_sameApp.request
        (fun id => .publish topicName id applicationMessage publishFlags) hcall) hstep
  | subscribe topicName maxQosLevel =>
      exact hrequest (fun _ hcall => framed_sameApp.request
        (fun id => .subscribe id [(topicName, maxQosLevel)]) hcall) hstep
  | unsubscribe topicName =>
      exact hrequest (fun _ hcall => framed_sameApp.request
        (fun id => .unsubscribe id [topicName]) hcall) hstep
  | ping =>
      cases hstep
      exact ⟨h.same (framed_sameApp.tryPack .pingreq .pingreq none _), hs⟩
  | disconnect =>
      cases hstep
      exact ⟨h.same (framed_sameApp.tryPack .disconnect .disconnect none _), hs⟩
  | recv =>
      obtain ⟨r, hrecv, rfl⟩ := Option.map_eq_some_iff.mp hstep
      exact mqttRecv_invariant (fun _ r hx => hx.handle hJ r) (fun _ _ hx => hx.same rfl) h hs
        hrecv
  | send => exact hrequest (fun _ hsend => (MqttClient.mqttSend_caller hsend).1) hstep

/-- **The application sees the broker's messages and nothing else**: what its callback keeps
between its state and the messages so far holds of every session's messages of level 0. -/
theorem run_handed {recvbuf sendbuf : List UInt8} {sizeofMessage timeOfLastSend : Nat}
    {keepAlive : BitVec 16} {state : α} {actions : List Action} (hinit : J state [])
    (hsmall : recvbuf.length < 2 ^ 32)
    (hrun : Runs.run (step P)
      (init recvbuf sendbuf sizeofMessage keepAlive timeOfLastSend state) actions = some s)
    (hlevel : ∀ q ∈ publishes s.log, q.qosLevel = 0) :
    J s.client.1.publishResponseCallbackState (publishes s.log) := by
  have hhanded := Runs.run_invariant
    (I := fun t : Session α => Handed J t.client ∧ t.buffer.Ok)
    (fun _ _ _ ht hstep => step_handed hJ ht.1 ht.2 hstep)
    ⟨fun _ => hinit, ⟨Nat.zero_add _, hsmall⟩⟩ hrun
  exact hhanded.1 hlevel

omit hJ

/-! ## The mutex -/

open MqttClient (SameLock framed_sameLock)

theorem mqttRecv_locked (hs : s.buffer.Ok) {r : Option Error × Session α}
    (hrecv : mqttRecv P s = some r) : r.2.client.1.locked = s.client.1.locked :=
  (mqttRecv_invariant (I := fun x => x.1.locked = s.client.1.locked)
    (fun x r hx => (framed_sameLock.handle r (fun _ _ _ => rfl) x.1).trans hx)
    (fun _ _ hx => hx) rfl hs hrecv).1

/-- Once the mutex is free, it is free after every call. -/
theorem step_unlocked (h : s.client.1.locked = false) (hs : s.buffer.Ok) {a : Action}
    (hstep : step P s a = some s') : s'.client.1.locked = false := by
  obtain ⟨hcallable, hstep⟩ := step_eq_some.mp hstep
  have hrequest : ∀ {call : Option (Option Error × MqttClient α)},
      (∀ result, call = some result → SameLock s.client.1 result.2) →
      (call.map fun r => withClient s r.2) = some s' → s'.client.1.locked = false := by
    intro call hcall hresult
    obtain ⟨r, hr, rfl⟩ := Option.map_eq_some_iff.mp hresult
    exact (hcall r hr).trans h
  cases a with
  | arrive arrivals =>
      cases hstep
      exact h
  | accept sendings =>
      cases hstep
      exact h
  | connect r =>
      cases hstep
      rfl
  | publish topicName applicationMessage publishFlags =>
      exact hrequest (fun _ hcall => framed_sameLock.request
        (fun id => .publish topicName id applicationMessage publishFlags) hcall) hstep
  | subscribe topicName maxQosLevel =>
      exact hrequest (fun _ hcall => framed_sameLock.request
        (fun id => .subscribe id [(topicName, maxQosLevel)]) hcall) hstep
  | unsubscribe topicName =>
      exact hrequest (fun _ hcall => framed_sameLock.request
        (fun id => .unsubscribe id [topicName]) hcall) hstep
  | ping =>
      cases hstep
      exact (framed_sameLock.tryPack .pingreq .pingreq none s.client.1).trans h
  | disconnect =>
      cases hstep
      exact (framed_sameLock.tryPack .disconnect .disconnect none s.client.1).trans h
  | recv =>
      obtain ⟨r, hrecv, rfl⟩ := Option.map_eq_some_iff.mp hstep
      exact (mqttRecv_locked hs hrecv).trans h
  | send => exact hrequest (fun _ hsend => (MqttClient.mqttSend_caller hsend).2) hstep

/-- A call of `mqtt_sync` is one of `__mqtt_recv` and, unless this fails, one of `__mqtt_send`. -/
theorem mqttSync_run (h : s.client.1.locked = false) (hs : s.buffer.Ok)
    {result : Option Error × Session α} (hcall : mqttSync P s = some result) :
    Runs.run (step P) s [.recv] = some result.2 ∨
      Runs.run (step P) s [.recv, .send] = some result.2 := by
  rw [mqttSync] at hcall
  cases hrecv : mqttRecv P s with
  | none =>
      rw [hrecv] at hcall
      cases hcall
  | some r =>
      obtain ⟨error, s₁⟩ := r
      have hfree : s₁.client.1.locked = false := (mqttRecv_locked hs hrecv).trans h
      have hstep : step P s .recv = some s₁ :=
        step_eq_some.mpr ⟨by rw [h]; rfl, by rw [call, hrecv]; rfl⟩
      rw [hrecv] at hcall
      cases error with
      | some e =>
          cases hcall
          exact .inl (Runs.run_cons_eq_some.mpr ⟨_, hstep, rfl⟩)
      | none =>
          obtain ⟨r, hsend, rfl⟩ := Option.map_eq_some_iff.mp hcall
          have hstep₁ : step P s₁ .send = some (withClient s₁ r.2) :=
            step_eq_some.mpr ⟨by rw [hfree]; rfl, by rw [call, hsend]; rfl⟩
          exact .inr (Runs.run_cons_eq_some.mpr
            ⟨_, hstep, Runs.run_cons_eq_some.mpr ⟨_, hstep₁, rfl⟩⟩)

end Session

end Caeco.Mqtt
