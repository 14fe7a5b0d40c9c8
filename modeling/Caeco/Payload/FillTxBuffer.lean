import Caeco.Kit.CInt
import Caeco.Payload.ExtractVal

/-!
# `fill_tx_buffer`

The loop stores three values per round and tests its bound once per round. Unrolled, it is
a list of assignments, one per key; what they store is a function of the text and of the
bytes `malloc` finds, given by `stored`.
-/

namespace Caeco.Payload

open Search CInt

/-- The body of the loop: three values are looked up and stored, and only then is the index
compared with the size again. -/
def fillRound (malloc : Malloc) : C Unit := do
  assign malloc (lit "x\":")
  assign malloc (lit "y\":")
  assign malloc (lit "z\":")

/-- `while(cnt < tx_buff_size / sizeof(int)) { ... }` with `n` for the bound. A round
raises `cnt`, so `n` rounds are more than enough (`fillLoop_unrolled`). -/
def fillLoop (malloc : Malloc) (n : Nat) : Nat → C Unit
  | 0 => pure ()
  | fuel + 1 => do
      -- not tested again between the three stores of a round
      if (← get).cnt < n then
        fillRound malloc
        fillLoop malloc n fuel

/-- `fill_tx_buffer`. The payload is a C string that ends where the memory behind it has its first
NUL; an undefined step ends the run with the fault. -/
def fillTxBuffer (malloc : Malloc) (txBuffer : List (BitVec 32)) (txBuffSize : Nat)
    (payload : List UInt8) (heap : Heap) : EStateM.Result Fault State Unit :=
  (fillLoop malloc (txBuffSize / sizeofInt) (txBuffSize / sizeofInt)).run
    { cnt := 0, txBuffer := txBuffer, payload := some payload, heap := heap, trace := [] }

/-- The state a run ends in, well or in a fault. -/
def final (r : EStateM.Result Fault State Unit) : State :=
  match r with
  | .ok _ s => s
  | .error _ s => s

/-! ## The loop, unrolled -/

/-- The keys of `r` rounds. -/
def keys : Nat → List (List UInt8)
  | 0 => []
  | r + 1 => lit "x\":" :: lit "y\":" :: lit "z\":" :: keys r

/-- The rounds it takes to raise `cnt` by `n`. -/
def rounds (n : Nat) : Nat := (n + 2) / 3

/-- The stores for the keys in turn, each with the value that is extracted for its key. -/
def assigns (malloc : Malloc) : List (List UInt8) → C Unit
  | [] => pure ()
  | key :: rest => do
      assign malloc key
      assigns malloc rest

theorem length_keys (r : Nat) : (keys r).length = 3 * r := by
  induction r with
  | zero => rfl
  | succ r ih => simp only [keys, List.length_cons, ih]; omega

theorem mem_keys {r : Nat} {key : List UInt8} (h : key ∈ keys r) :
    key = lit "x\":" ∨ key = lit "y\":" ∨ key = lit "z\":" := by
  induction r with
  | zero => cases h
  | succ r ih =>
      simp only [keys, List.mem_cons] at h
      rcases h with h | h | h | h
      · exact .inl h
      · exact .inr (.inl h)
      · exact .inr (.inr h)
      · exact ih h

theorem key_ok (r : Nat) : ∀ key ∈ keys r, key ≠ [] ∧ comma ∉ key := by
  intro key h
  rcases mem_keys h with rfl | rfl | rfl
  · decide
  · decide
  · decide

theorem assign_null_cursor {malloc : Malloc} {key : List UInt8} {s : State}
    (hs : s.payload = none) :
    (assign malloc key).run s = .error .strstrNull (s.logged [.strstr none]) := by
  simp only [assign, extractVal, EStateM.run_bind, EStateM.run_get, hs]
  rfl

/-- What an assignment that comes through has done. -/
theorem assign_ok {malloc : Malloc} {key : List UInt8} {s s' : State} {u : Unit}
    (h : (assign malloc key).run s = .ok u s') :
    ∃ text token rest bytes, s.payload = some text ∧
      lookup comma key text = some (token, rest) ∧
      s' = s.assigned text (token ++ rest) token rest bytes := by
  cases hs : s.payload with
  | none =>
      rw [assign_null_cursor hs] at h
      cases h
  | some text =>
      have hrun := assign_run malloc key hs
      rw [h] at hrun
      cases hrun with
      | found hl hm =>
          rw [assign_found hs hl hm] at h
          injection h with _ hstate
          exact ⟨text, _, _, _, rfl, hl, hstate.symm⟩

/-- An assignment that comes through counts one. -/
theorem assign_cnt {malloc : Malloc} {key : List UInt8} {s s' : State} {u : Unit}
    (h : (assign malloc key).run s = .ok u s') : s'.cnt = s.cnt + 1 := by
  obtain ⟨text, token, rest, bytes, _, _, rfl⟩ := assign_ok h
  rfl

/-- A round is its three assignments, followed by whatever comes after it. -/
theorem fillRound_bind (malloc : Malloc) (next : C Unit) (s : State) :
    (fillRound malloc >>= fun _ => next).run s
      = (do assign malloc (lit "x\":")
            assign malloc (lit "y\":")
            assign malloc (lit "z\":")
            next : C Unit).run s := by
  simp only [fillRound, bind_assoc]

/-- **Unrolling**: from any state the loop does exactly the assignments of the rounds still
missing. -/
theorem fillLoop_unrolled (malloc : Malloc) (n : Nat) :
    ∀ (fuel : Nat) (s : State), n - s.cnt ≤ fuel →
      (fillLoop malloc n fuel).run s = (assigns malloc (keys (rounds (n - s.cnt)))).run s := by
  intro fuel
  induction fuel with
  | zero =>
      intro s h
      have hz : n - s.cnt = 0 := by omega
      rw [hz]
      rfl
  | succ fuel ih =>
      intro s h
      simp only [fillLoop, EStateM.run_bind, EStateM.run_get]
      by_cases hlt : s.cnt < n
      · have hr : rounds (n - s.cnt) = rounds (n - (s.cnt + 3)) + 1 := by
          simp only [rounds]
          omega
        rw [if_pos hlt, hr, fillRound_bind, keys, assigns, assigns, assigns]
        simp only [EStateM.run_bind]
        -- the three assignments agree; after them `cnt` is three higher
        cases hx : (assign malloc (lit "x\":")).run s with
        | error f s₁ => rfl
        | ok u s₁ =>
            simp only
            cases hy : (assign malloc (lit "y\":")).run s₁ with
            | error f s₂ => rfl
            | ok u s₂ =>
                simp only
                cases hz : (assign malloc (lit "z\":")).run s₂ with
                | error f s₃ => rfl
                | ok u s₃ =>
                    have hcnt : s₃.cnt = s.cnt + 3 := by
                      rw [assign_cnt hz, assign_cnt hy, assign_cnt hx]
                    simp only
                    rw [ih s₃ (by omega), hcnt]
      · have hz : n - s.cnt = 0 := by omega
        rw [if_neg hlt, hz]
        rfl

/-- The unrolled form of `fill_tx_buffer`. -/
theorem fillTxBuffer_unrolled (malloc : Malloc) (txBuffer : List (BitVec 32))
    (txBuffSize : Nat) (payload : List UInt8) (heap : Heap) :
    fillTxBuffer malloc txBuffer txBuffSize payload heap
      = (assigns malloc (keys (rounds (txBuffSize / sizeofInt)))).run
          { cnt := 0, txBuffer := txBuffer, payload := some payload, heap := heap,
            trace := [] } :=
  fillLoop_unrolled malloc _ _ _ (by simp)

/-- A list of assignments that comes through has come through the first one. -/
theorem exists_of_assigns_cons {malloc : Malloc} {key : List UInt8} {rest : List (List UInt8)}
    {s s' : State} {u : Unit} (h : (assigns malloc (key :: rest)).run s = .ok u s') :
    ∃ s₁, (assign malloc key).run s = .ok u s₁ ∧ (assigns malloc rest).run s₁ = .ok u s' := by
  simp only [assigns, EStateM.run_bind] at h
  cases hrun : (assign malloc key).run s with
  | error f s₁ =>
      rw [hrun] at h
      cases h
  | ok v s₁ =>
      rw [hrun] at h
      exact ⟨s₁, rfl, h⟩

theorem assigns_cnt {malloc : Malloc} :
    ∀ (ks : List (List UInt8)) {s s' : State} {u : Unit},
      (assigns malloc ks).run s = .ok u s' → s'.cnt = s.cnt + ks.length := by
  intro ks
  induction ks with
  | nil =>
      intro s s' u h
      cases h
      rfl
  | cons key rest ih =>
      intro s s' u h
      obtain ⟨s₁, hrun, h⟩ := exists_of_assigns_cons h
      rw [ih h, assign_cnt hrun, List.length_cons]
      omega

end Caeco.Payload
