import Caeco.Payload.Stored

/-!
# Which pointers a fill uses

`extract_val` reports a missing comma and returns `NULL`, and returns nothing at all for a
missing pattern; its caller passes the result to `atoi` either way. So a fill is clean
exactly on the payloads that serve every lookup.
-/

namespace Caeco.Payload

open Search CInt

/-- What may happen right after `prev`: `strstr` gets a cursor, and `atoi` gets the block
that the call of `extract_val` just finished has allocated. -/
def OkAfter (prev : Option Event) : Event → Prop
  | .strstr cursor => cursor ≠ none
  | .atoi arg => ∃ id, arg = .block id ∧ prev = some (.malloc (some id))
  | .malloc _ => True
  | .store _ => True

def CleanFrom : Option Event → List Event → Prop
  | _, [] => True
  | prev, e :: es => OkAfter prev e ∧ CleanFrom (some e) es

/-- No absent result was used. -/
def Clean (trace : List Event) : Prop := CleanFrom none trace

theorem CleanFrom.append {es : List Event} (hes : ∀ p, CleanFrom p es) :
    ∀ {trace : List Event} {prev : Option Event},
      CleanFrom prev trace → CleanFrom prev (trace ++ es) := by
  intro trace
  induction trace with
  | nil => intro prev _; exact hes prev
  | cons e trace ih => intro prev h; exact ⟨h.1, ih h.2⟩

theorem CleanFrom.of_append {es : List Event} :
    ∀ {trace : List Event} {prev : Option Event},
      CleanFrom prev (trace ++ es) → ∃ p, CleanFrom p es := by
  intro trace
  induction trace with
  | nil => intro prev h; exact ⟨prev, h⟩
  | cons e trace ih => intro prev h; exact ih h.2

/-- The events of a lookup that serves its key, up to its failing or finished use. -/
theorem cleanFrom_lookup (text start : List UInt8) (block : Option Nat) (p : Option Event) :
    CleanFrom p [.strstr (some text), .strstr (some start), .malloc block] :=
  ⟨Option.some_ne_none _, Option.some_ne_none _, trivial, trivial⟩

theorem cleanFrom_assigned (text start : List UInt8) (id i : Nat) (p : Option Event) :
    CleanFrom p [.strstr (some text), .strstr (some start), .malloc (some id),
      .atoi (.block id), .store i] :=
  ⟨Option.some_ne_none _, Option.some_ne_none _, trivial, ⟨id, rfl, rfl⟩, trivial, trivial⟩

/-- `atoi` on what is no block is never clean. -/
theorem not_clean_atoi {pre : List Event} {arg : Returned}
    (harg : arg = .noValue ∨ arg = .null) : ¬ Clean (pre ++ [.atoi arg]) := by
  intro h
  obtain ⟨p, ⟨id, hid, _⟩, _⟩ := CleanFrom.of_append h
  subst hid
  rcases harg with h | h
  · cases h
  · cases h

/-- A text that serves every key keeps the run clean, whatever `malloc` answers: if it
fails, the run ends in the copy to `NULL` before any value is used. -/
theorem assigns_clean {malloc : Malloc} :
    ∀ {ks : List (List UInt8)} {s : State} {text : List UInt8} {tokens : List (List UInt8)},
      s.payload = some text → scan comma ks text = some tokens → Clean s.trace →
        Clean (final ((assigns malloc ks).run s)).trace := by
  intro ks
  induction ks with
  | nil => intro s text tokens _ _ hclean; exact hclean
  | cons key rest ih =>
      intro s text tokens hs h hclean
      obtain ⟨token, text', tokens', hlookup, htokens, _⟩ := exists_of_scan_cons h
      have hrun := assign_run malloc key hs
      simp only [assigns, EStateM.run_bind]
      generalize (assign malloc key).run s = r at hrun
      cases hrun with
      | failed hl hcnt hbuf htrace harg =>
          rw [hl] at hlookup
          cases hlookup
      | @outOfMemory _ _ start s' hl hm hcnt hbuf htrace =>
          show Clean s'.trace
          rw [htrace]
          exact hclean.append (cleanFrom_lookup text start none)
      | @found _ _ start bytes hl hm =>
          rw [hl] at hlookup
          cases hlookup
          refine ih (s := s.assigned text start token text' bytes) rfl htokens ?_
          exact hclean.append (cleanFrom_assigned text start s.heap.calls s.cnt)

/-- A text that does not serve every key ends in `atoi` of what is no block, as long as
`malloc` does not fail before. -/
theorem assigns_not_clean {malloc : Malloc} (hm : ∀ k n, ∃ bytes, malloc k n = some bytes) :
    ∀ {ks : List (List UInt8)} {s : State} {text : List UInt8},
      s.payload = some text → scan comma ks text = none →
        ¬ Clean (final ((assigns malloc ks).run s)).trace := by
  intro ks
  induction ks with
  | nil => intro s text _ h; cases h
  | cons key rest ih =>
      intro s text hs h
      have hrun := assign_run malloc key hs
      simp only [assigns, EStateM.run_bind]
      generalize (assign malloc key).run s = r at hrun
      cases hrun with
      | @failed f s' arg pre hl hcnt hbuf htrace harg =>
          show ¬ Clean s'.trace
          rw [htrace]
          exact not_clean_atoi harg
      | outOfMemory hl hnone hcnt hbuf htrace =>
          obtain ⟨bytes, hbytes⟩ := hm _ _
          rw [hbytes] at hnone
          cases hnone
      | @found token text' start bytes hl hbytes =>
          have hrest : scan comma rest text' = none := by
            cases hscan : scan comma rest text' with
            | none => rfl
            | some tokens => simp [scan, hl, hscan] at h
          exact ih (s := s.assigned text start token text' bytes) rfl hrest

/-- **Which payloads are safe**: a fill uses no absent result, whatever `malloc` answers,
exactly if the payload is `r` repetitions of `x":` … `,` `y":` … `,` `z":` … `,` with any
text in between and behind, `r` being the rounds the buffer takes. On every other payload
it goes on with what the failed lookup returned. -/
theorem fillTxBuffer_clean_iff (payload : List UInt8) (txBuffSize : Nat)
    (txBuffer : List (BitVec 32)) (heap : Heap) :
    (∀ malloc, Clean (final (fillTxBuffer malloc txBuffer txBuffSize payload heap)).trace) ↔
      Splits comma (keys (rounds (txBuffSize / sizeofInt))) payload := by
  simp only [fillTxBuffer_unrolled]
  rw [← scan_isSome_iff (key_ok _)]
  constructor
  · intro h
    cases hscan : scan comma (keys (rounds (txBuffSize / sizeofInt))) payload with
    | some tokens => exact ⟨tokens, rfl⟩
    | none =>
        have hm : ∀ k n, ∃ bytes, (fun _ _ => some [] : Malloc) k n = some bytes :=
          fun _ _ => ⟨[], rfl⟩
        exact absurd (h _) (assigns_not_clean hm rfl hscan)
  · rintro ⟨tokens, hscan⟩ malloc
    exact assigns_clean rfl hscan trivial

/-- A message cut off behind a `y":`. -/
def cutOff : List UInt8 := lit "\x7b\"x\":-12,\"y\":7"

/-- The second lookup of this fill returns `NULL`, and `atoi` gets it. -/
theorem cutOff_not_clean :
    ¬ ∀ (payload : List UInt8) (txBuffSize : Nat) (txBuffer : List (BitVec 32)) (heap : Heap)
      (malloc : Malloc),
        Clean (final (fillTxBuffer malloc txBuffer txBuffSize payload heap)).trace := by
  intro h
  have hcut := h cutOff 1320 [] ⟨0, []⟩ (fun _ _ => some [])
  have htrace : (final (fillTxBuffer (fun _ _ => some []) [] 1320 cutOff ⟨0, []⟩)).trace
      = [.strstr (some cutOff), .strstr (some (lit "-12,\"y\":7")), .malloc (some 0),
          .atoi (.block 0), .store 0, .strstr (some (lit ",\"y\":7")),
          .strstr (some (lit "7"))] ++ [.atoi .null] := by
    decide
  rw [htrace] at hcut
  exact not_clean_atoi (.inr rfl) hcut

end Caeco.Payload
