import Caeco.Payload.FillTxBuffer

/-!
# What a fill stores

`stored` gives the values without the machinery: it depends on the keys, the text and the
bytes `malloc` finds, not on the buffer. Every run of the assignments ends with exactly
these values in the buffer, and ends well exactly if there is one for each key.
-/

namespace Caeco.Payload

open Search CInt

/-- The values stored for the keys, up to the first assignment that does not come
through. -/
def stored (malloc : Malloc) : List (List UInt8) → Nat → List UInt8 → List (BitVec 32)
  | [], _, _ => []
  | key :: rest, calls, text =>
      match lookup comma key text with
      | none => []
      | some (token, text') =>
          match malloc calls (token.length + 1) with
          | none => []
          | some bytes => atoi (copied token bytes) :: stored malloc rest (calls + 1) text'

/-- Store the values at consecutive indices from `i` on. -/
def storeAll : List (BitVec 32) → Nat → List (BitVec 32) → List (BitVec 32)
  | buf, _, [] => buf
  | buf, i, v :: vs => storeAll (buf.set i v) (i + 1) vs

/-- Consecutive stores replace a stretch of the buffer and nothing else. -/
theorem storeAll_eq :
    ∀ (vs buf : List (BitVec 32)) (i : Nat), i + vs.length ≤ buf.length →
      storeAll buf i vs = buf.take i ++ vs ++ buf.drop (i + vs.length) := by
  intro vs
  induction vs with
  | nil => intro buf i _; simp [storeAll]
  | cons v vs ih =>
      intro buf i h
      simp only [List.length_cons] at h
      have hset : i + 1 + vs.length ≤ (buf.set i v).length := by
        rw [List.length_set]
        omega
      have htake : (buf.set i v).take (i + 1) = buf.take i ++ [v] := by
        rw [List.take_set, List.take_succ_eq_append_getElem (by omega : i < buf.length),
          List.set_append_right _ _ (by simp)]
        simp [Nat.min_eq_left (by omega : i ≤ buf.length)]
      rw [storeAll, ih _ _ hset, htake, List.drop_set_of_lt (by omega : i < i + 1 + vs.length),
        List.length_cons, show i + 1 + vs.length = i + (vs.length + 1) from by omega]
      simp

/-- **The run lemma**: whatever state it starts in, a list of assignments stores `stored`
and gets through exactly if that is one value per key. -/
theorem assigns_run (malloc : Malloc) :
    ∀ (ks : List (List UInt8)) (s : State) (text : List UInt8), s.payload = some text →
      (final ((assigns malloc ks).run s)).cnt
          = s.cnt + (stored malloc ks s.heap.calls text).length ∧
        (final ((assigns malloc ks).run s)).txBuffer
          = storeAll s.txBuffer s.cnt (stored malloc ks s.heap.calls text) ∧
        ((∃ s', (assigns malloc ks).run s = .ok ⟨⟩ s') ↔
          (stored malloc ks s.heap.calls text).length = ks.length) := by
  intro ks
  induction ks with
  | nil =>
      intro s text _
      exact ⟨rfl, rfl, fun _ => rfl, fun _ => ⟨s, rfl⟩⟩
  | cons key rest ih =>
      intro s text hs
      have hrun := assign_run malloc key hs
      simp only [assigns, EStateM.run_bind]
      generalize (assign malloc key).run s = r at hrun
      cases hrun with
      | failed hl hcnt hbuf htrace harg =>
          -- nothing stored, although there is a key left
          simp only [stored, hl]
          refine ⟨hcnt, hbuf, ?_, fun h => by cases h⟩
          rintro ⟨s'', h⟩
          cases h
      | outOfMemory hl hm hcnt hbuf htrace =>
          simp only [stored, hl, hm]
          refine ⟨hcnt, hbuf, ?_, fun h => by cases h⟩
          rintro ⟨s'', h⟩
          cases h
      | @found token text' start bytes hl hm =>
          obtain ⟨hcnt, hbuf, hok⟩ := ih (s.assigned text start token text' bytes) text' rfl
          simp only [stored, hl, hm, List.length_cons]
          refine ⟨?_, hbuf, ?_⟩
          · rw [hcnt]
            simp only [State.assigned]
            omega
          · rw [hok]
            simp only [State.assigned]
            omega

/-! ## Which texts serve every key -/

/-- A fill that gets through has found every key. -/
theorem scan_of_stored {malloc : Malloc} :
    ∀ {ks : List (List UInt8)} {calls : Nat} {text : List UInt8},
      (stored malloc ks calls text).length = ks.length →
      ∃ tokens, scan comma ks text = some tokens := by
  intro ks
  induction ks with
  | nil => intro calls text _; exact ⟨[], rfl⟩
  | cons key rest ih =>
      intro calls text h
      rw [stored] at h
      cases hl : lookup comma key text with
      | none => rw [hl] at h; cases h
      | some r =>
          obtain ⟨token, text'⟩ := r
          cases hm : malloc calls (token.length + 1) with
          | none => simp only [hl, hm] at h; cases h
          | some bytes =>
              simp only [hl, hm, List.length_cons, Nat.add_right_cancel_iff] at h
              obtain ⟨tokens, htokens⟩ := ih h
              exact ⟨token :: tokens, by simp [scan, hl, htokens]⟩

/-- If every key is found and `malloc` does not fail, the fill gets through. -/
theorem stored_of_scan {malloc : Malloc} (hm : ∀ k n, ∃ bytes, malloc k n = some bytes) :
    ∀ {ks : List (List UInt8)} (calls : Nat) {text : List UInt8} {tokens : List (List UInt8)},
      scan comma ks text = some tokens → (stored malloc ks calls text).length = ks.length := by
  intro ks
  induction ks with
  | nil => intro calls text tokens _; rfl
  | cons key rest ih =>
      intro calls text tokens h
      obtain ⟨token, text', tokens', hl, htokens, _⟩ := exists_of_scan_cons h
      obtain ⟨bytes, hbytes⟩ := hm calls (token.length + 1)
      simp only [stored, hl, hbytes, List.length_cons, ih (calls + 1) htokens]

/-- **Stability**: once every key is found in the text, the values stored do not depend on
what follows it. -/
theorem stored_append (malloc : Malloc) :
    ∀ {ks : List (List UInt8)} (calls : Nat) {text : List UInt8} {tokens : List (List UInt8)},
      scan comma ks text = some tokens →
      ∀ r, stored malloc ks calls (text ++ r) = stored malloc ks calls text := by
  intro ks
  induction ks with
  | nil => intro calls text tokens _ r; rfl
  | cons key rest ih =>
      intro calls text tokens h r
      obtain ⟨token, text', tokens', hl, htokens, _⟩ := exists_of_scan_cons h
      simp only [stored, hl, lookup_append hl r, ih (calls + 1) htokens r]

/-- If each token reads as its value, whichever call of `malloc` its block is from, the fill
stores the values. -/
theorem stored_of_reads {malloc : Malloc} :
    ∀ {ks : List (List UInt8)} (calls : Nat) {text : List UInt8} {tokens : List (List UInt8)}
      {values : List (BitVec 32)}, scan comma ks text = some tokens →
      List.Forall₂ (fun token v => ∀ k, ∃ bytes, malloc k (token.length + 1) = some bytes ∧
        atoi (copied token bytes) = v) tokens values →
      stored malloc ks calls text = values := by
  intro ks
  induction ks with
  | nil =>
      intro calls text tokens values h hvalues
      cases h
      cases hvalues
      rfl
  | cons key rest ih =>
      intro calls text tokens values h hvalues
      obtain ⟨token, text', tokens', hl, htokens, rfl⟩ := exists_of_scan_cons h
      cases hvalues with
      | cons hread hrest =>
          obtain ⟨bytes, hm, hatoi⟩ := hread calls
          simp only [stored, hl, hm, hatoi, ih (calls + 1) htokens hrest]

end Caeco.Payload
