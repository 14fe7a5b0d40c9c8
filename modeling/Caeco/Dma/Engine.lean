import Caeco.Dma.Channels
import Caeco.Dma.Translation

/-!
# The engine behind the driver

The driver hands its transfers to the DMA engine of the kernel, which is not part of it. What
the driver calls there is an interface, and what it can rely on is written down as hypotheses:
an engine calls back once for each transfer that has completed, and to terminate a channel
drops the transfers that are not complete, but does not wait for the callbacks of those that
are. An engine that keeps its descriptors in a queue shows that the hypotheses can be met.
-/

namespace Caeco.Dma

/-- What a descriptor makes the engine do. -/
inductive Work where
  | slaveSg (sgList : List SgEntry)
  /-- `numf` lines of `size` bytes, one behind the other. -/
  | interleaved (start : Addr) (numf size : Nat)
deriving Repr, DecidableEq

/-- A descriptor that has been prepared; `callbackParam` is an index into `cb_data`. -/
structure TxDescriptor where
  channelId : BitVec 32
  dir : AxidmaDir
  work : Work
  callbackParam : Nat
deriving Repr, DecidableEq

/-- A descriptor that has been submitted. -/
structure Submitted extends TxDescriptor where
  cookie : Nat
deriving Repr, DecidableEq

/-- What tells one transfer from another: a channel gives out a cookie once. -/
def Submitted.key (d : Submitted) : BitVec 32 × Nat := (d.channelId, d.cookie)

/-- The calls of an engine, and what it does by itself on a channel: it goes on with the
transfers, and it calls back. When it does so, and how far it gets, is left to its state. -/
structure Engine (ε : Type) where
  /-- The descriptors that may still be called back. -/
  queue : ε → List Submitted
  /-- `dma_async_is_tx_complete`, which says that a transfer is complete or not. -/
  isTxComplete : BitVec 32 → Nat → ε → Bool
  /-- `dmaengine_submit`, unless it fails. -/
  submit : TxDescriptor → ε → Option (Nat × ε)
  /-- `dma_async_issue_pending` -/
  issuePending : BitVec 32 → ε → ε
  /-- `dmaengine_terminate_all` -/
  terminateAll : BitVec 32 → ε → ε
  work : BitVec 32 → ε → ε
  callBack : BitVec 32 → ε → Option (Submitted × ε)

namespace Engine

variable {ε : Type} (E : Engine ε)

/-- What may be called back could be so before, and what has been complete is complete. -/
structure GoesOn (e e' : ε) : Prop where
  queue : (E.queue e').Sublist (E.queue e)
  complete : ∀ channelId cookie, E.isTxComplete channelId cookie e = true →
    E.isTxComplete channelId cookie e' = true

/-- What the driver can rely on, as long as no channel has used up its cookies. Nothing is said
about when a transfer completes, or that it does. -/
structure Documented : Prop where
  issuePending : ∀ channelId e, E.GoesOn e (E.issuePending channelId e)
  terminateAll : ∀ channelId e, E.GoesOn e (E.terminateAll channelId e)
  work : ∀ channelId e, E.GoesOn e (E.work channelId e)
  /-- A terminated transfer that is not complete is not called back. One that is may be. -/
  dropped : ∀ channelId e, ∀ d ∈ E.queue (E.terminateAll channelId e), d.channelId = channelId →
    E.isTxComplete channelId d.cookie e = true
  /-- The cookie is unlike those of the channel that are in the queue. -/
  submit : ∀ {d e cookie e'}, E.submit d e = some (cookie, e') →
    E.queue e' = E.queue e ++ [⟨d, cookie⟩] ∧
      (d.channelId, cookie) ∉ (E.queue e).map Submitted.key ∧
      ∀ channelId k, E.isTxComplete channelId k e = true → E.isTxComplete channelId k e' = true
  /-- A descriptor is called back once, when it is complete. -/
  callBack : ∀ {channelId e d e'}, E.callBack channelId e = some (d, e') →
    d.channelId = channelId ∧
      (∃ before behind, E.queue e = before ++ d :: behind ∧
        (E.queue e').Sublist (before ++ behind)) ∧
      (∀ channelId k, E.isTxComplete channelId k e = true →
        E.isTxComplete channelId k e' = true) ∧
      E.isTxComplete channelId d.cookie e' = true

/-- The engine may be late with its callbacks: it can do all that has been issued on a channel
before it calls back for any of it, and then calls back for one after the other. -/
structure Lags : Prop where
  work : ∀ channelId e, ∃ n,
    E.queue ((E.work channelId)^[n] (E.issuePending channelId e)) = E.queue e ∧
      ∀ d ∈ E.queue e, d.channelId = channelId →
        E.isTxComplete channelId d.cookie
          ((E.work channelId)^[n] (E.issuePending channelId e)) = true
  callBack : ∀ {channelId e}, (∃ d ∈ E.queue e, d.channelId = channelId) →
    (∀ d ∈ E.queue e, d.channelId = channelId →
      E.isTxComplete channelId d.cookie e = true) →
    ∃ d e', E.callBack channelId e = some (d, e') ∧ E.queue e' = (E.queue e).erase d

end Engine

/-! ## An engine with a queue -/

/-- The descriptors of all channels in the order in which they have come, with the keys of
those that have been issued and of those that have completed. -/
structure QueueState where
  descriptors : List Submitted
  cookies : Nat
  issued : List (BitVec 32 × Nat)
  completed : List (BitVec 32 × Nat)
  fresh : ∀ d ∈ descriptors, d.cookie < cookies

namespace QueueState

variable (channelId : BitVec 32) (e : QueueState)

def empty : QueueState := ⟨[], 0, [], [], List.forall_mem_nil _⟩

/-- Descriptors leave the queue. -/
def drop (ds : List Submitted) (h : ds.Sublist e.descriptors) : QueueState where
  descriptors := ds
  cookies := e.cookies
  issued := e.issued
  completed := e.completed
  fresh := fun d hd => e.fresh d (h.subset hd)

def submit (d : TxDescriptor) : QueueState where
  descriptors := e.descriptors ++ [⟨d, e.cookies⟩]
  cookies := e.cookies + 1
  issued := e.issued
  completed := e.completed
  fresh := List.forall_mem_append.mpr ⟨fun x hx => Nat.lt_succ_of_lt (e.fresh x hx),
    List.forall_mem_singleton.mpr (Nat.lt_succ_self _)⟩

def issuePending : QueueState :=
  { e with
    issued := e.issued ++
      (e.descriptors.filter (·.channelId = channelId)).map Submitted.key }

/-- What has completed stays, until it has been called back. -/
def terminateAll : QueueState :=
  e.drop (e.descriptors.filter fun d => d.channelId ≠ channelId ∨ d.key ∈ e.completed)
    List.filter_sublist

/-- The engine has to do what has been issued on the channel and is not complete. -/
def ToDo (d : Submitted) : Prop :=
  d.channelId = channelId ∧ d.key ∈ e.issued ∧ d.key ∉ e.completed

instance : DecidablePred (e.ToDo channelId) := fun d =>
  inferInstanceAs (Decidable (d.channelId = channelId ∧ d.key ∈ e.issued ∧ d.key ∉ e.completed))

/-- The engine has done what a descriptor asks for. -/
def finish (d : Submitted) : QueueState :=
  { e with completed := e.completed ++ [d.key] }

/-- The next descriptor of the channel is done. -/
def work : QueueState :=
  match e.descriptors.find? fun d => e.ToDo channelId d with
  | none => e
  | some d => e.finish d

def callBack : Option (Submitted × QueueState) :=
  (e.descriptors.find? fun d => d.channelId = channelId ∧ d.key ∈ e.completed).map fun d =>
    (d, e.drop (e.descriptors.erase d) List.erase_sublist)

end QueueState

/-- Cookies are numbered over all channels, and no submission fails. -/
def queueEngine : Engine QueueState where
  queue := QueueState.descriptors
  isTxComplete channelId cookie e := (channelId, cookie) ∈ e.completed
  submit d e := some (e.cookies, e.submit d)
  issuePending := QueueState.issuePending
  terminateAll := QueueState.terminateAll
  work := QueueState.work
  callBack := QueueState.callBack

namespace QueueState

variable {channelId : BitVec 32} {e : QueueState}

theorem goesOn_work (channelId : BitVec 32) (e : QueueState) :
    queueEngine.GoesOn e (e.work channelId) := by
  rw [work]
  split
  · exact ⟨List.Sublist.refl _, fun _ _ h => h⟩
  · refine ⟨List.Sublist.refl _, fun _ _ h => decide_eq_true ?_⟩
    exact List.mem_append_left _ (of_decide_eq_true h)

theorem callBack_eq_some {d : Submitted} {e' : QueueState}
    (h : e.callBack channelId = some (d, e')) :
    d ∈ e.descriptors ∧ d.channelId = channelId ∧ d.key ∈ e.completed ∧
      e'.descriptors = e.descriptors.erase d ∧ e'.completed = e.completed := by
  obtain ⟨x, hfound, heq⟩ := Option.map_eq_some_iff.mp h
  cases heq
  have hx := List.find?_some hfound
  obtain ⟨hchannel, hcomplete⟩ := of_decide_eq_true hx
  exact ⟨List.mem_of_find?_eq_some hfound, hchannel, hcomplete, rfl, rfl⟩

end QueueState

/-- There are such engines. -/
theorem documented_queueEngine : queueEngine.Documented where
  issuePending _ _ := ⟨List.Sublist.refl _, fun _ _ h => h⟩
  terminateAll _ _ := ⟨List.filter_sublist, fun _ _ h => h⟩
  work := QueueState.goesOn_work
  dropped channelId e d hd hchannel := by
    obtain ⟨_, hkept⟩ := List.mem_filter.mp hd
    rcases of_decide_eq_true hkept with hother | hcomplete
    · exact absurd hchannel hother
    · exact decide_eq_true (hchannel ▸ hcomplete)
  submit := by
    rintro d e cookie e' ⟨⟩
    refine ⟨rfl, fun hmem => ?_, fun _ _ h => h⟩
    obtain ⟨x, hx, hkey⟩ := List.mem_map.mp hmem
    have hlt := e.fresh x hx
    have hsame : x.cookie = e.cookies := congrArg Prod.snd hkey
    omega
  callBack := by
    intro channelId e d e' hcall
    obtain ⟨hmem, hchannel, hcomplete, hqueue, hsame⟩ := QueueState.callBack_eq_some hcall
    obtain ⟨before, behind, _, hsplit, herase⟩ := List.exists_erase_eq hmem
    refine ⟨hchannel, ⟨before, behind, hsplit, ?_⟩, fun channelId k h => ?_, ?_⟩
    · show e'.descriptors.Sublist _
      rw [hqueue, herase]
    · exact decide_eq_true (hsame ▸ of_decide_eq_true h)
    · exact decide_eq_true (hsame ▸ hchannel ▸ hcomplete)

/-! ## It may be late -/

namespace QueueState

variable {channelId : BitVec 32} {e : QueueState}

theorem countP_lt_countP {α : Type} {p q : α → Bool} (hle : ∀ x, p x → q x) {l : List α} {d : α}
    (hd : d ∈ l) (hq : q d) (hp : ¬ p d) : l.countP p < l.countP q := by
  obtain ⟨before, behind, rfl⟩ := List.append_of_mem hd
  have hbefore := List.countP_mono_left (l := before) fun x _ => hle x
  have hbehind := List.countP_mono_left (l := behind) fun x _ => hle x
  rw [List.countP_append, List.countP_append, List.countP_cons_of_neg hp,
    List.countP_cons_of_pos hq]
  omega

theorem todo_finish {d : Submitted}
    (hd : e.descriptors.find? (fun d => e.ToDo channelId d) = some d) :
    (e.finish d).descriptors.countP (fun x => (e.finish d).ToDo channelId x)
      < e.descriptors.countP (fun x => e.ToDo channelId x) := by
  have htodo := List.find?_some hd
  refine countP_lt_countP (fun x hx => ?_) (List.mem_of_find?_eq_some hd) htodo ?_
  · obtain ⟨hchannel, hissued, hnot⟩ := of_decide_eq_true hx
    exact decide_eq_true ⟨hchannel, hissued, fun hmem => hnot (List.mem_append_left _ hmem)⟩
  · intro hagain
    obtain ⟨_, _, hnot⟩ := of_decide_eq_true hagain
    exact hnot (List.mem_append_right _ (List.mem_singleton_self _))

/-- After as many steps as there is to do, nothing is. -/
theorem work_all (channelId : BitVec 32) (k : Nat) : ∀ {e : QueueState},
    e.descriptors.countP (fun x => e.ToDo channelId x) ≤ k →
    ∃ n, ((work channelId)^[n] e).descriptors = e.descriptors ∧
      ((work channelId)^[n] e).issued = e.issued ∧
      ∀ d ∈ e.descriptors, ¬ ((work channelId)^[n] e).ToDo channelId d := by
  induction k with
  | zero =>
      intro e hk
      refine ⟨0, rfl, rfl, fun d hd htodo => ?_⟩
      exact List.countP_eq_zero.mp (Nat.le_zero.mp hk) d hd (decide_eq_true htodo)
  | succ k ih =>
      intro e hk
      cases hnext : e.descriptors.find? fun d => e.ToDo channelId d with
      | none =>
          refine ⟨0, rfl, rfl, fun d hd htodo => ?_⟩
          exact List.find?_eq_none.mp hnext d hd (decide_eq_true htodo)
      | some d =>
          have hless := todo_finish hnext
          obtain ⟨n, hn⟩ := ih (e := e.finish d) (by omega)
          refine ⟨n + 1, ?_⟩
          have hwork : e.work channelId = e.finish d := by rw [work, hnext]
          rw [Function.iterate_succ_apply, hwork]
          exact hn

end QueueState

theorem lags_queueEngine : queueEngine.Lags where
  work channelId e := by
    obtain ⟨n, hqueue, hissued, hnone⟩ :=
      QueueState.work_all channelId _ (le_refl
        ((e.issuePending channelId).descriptors.countP
          fun x => (e.issuePending channelId).ToDo channelId x))
    refine ⟨n, hqueue, fun d hd hchannel => ?_⟩
    have hmem : d.key ∈ (e.issuePending channelId).issued := by
      refine List.mem_append_right _ (List.mem_map_of_mem ?_)
      exact List.mem_filter.mpr ⟨hd, decide_eq_true hchannel⟩
    have hcomplete := hnone d hd
    rw [QueueState.ToDo, hissued] at hcomplete
    have hkey : d.key ∈ ((QueueState.work channelId)^[n] (e.issuePending channelId)).completed :=
      not_not.mp fun hnot => hcomplete ⟨hchannel, hmem, hnot⟩
    exact decide_eq_true (hchannel ▸ hkey)
  callBack := by
    rintro channelId e ⟨d, hd, hchannel⟩ hcomplete
    have hkey : (channelId, d.cookie) ∈ e.completed := of_decide_eq_true (hcomplete d hd hchannel)
    rw [← hchannel] at hkey
    cases hfound : e.descriptors.find? fun d => d.channelId = channelId ∧ d.key ∈ e.completed with
    | none => exact absurd (decide_eq_true ⟨hchannel, hkey⟩) (List.find?_eq_none.mp hfound d hd)
    | some x =>
        refine ⟨x, e.drop (e.descriptors.erase x) List.erase_sublist, ?_, rfl⟩
        show QueueState.callBack channelId e = _
        rw [QueueState.callBack, hfound]
        rfl

end Caeco.Dma
