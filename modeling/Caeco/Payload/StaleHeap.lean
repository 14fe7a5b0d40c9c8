import Mathlib.Data.List.Forall2
import Caeco.Payload.Acceptance
import Caeco.Payload.Decimal

/-!
# What a fill reads from the heap

The block for a token is one byte longer than the token, and nothing writes that byte. It
is read unless `atoi` has stopped before, at a byte of the token that is no digit.
-/

namespace Caeco.Payload

open Search CInt

/-- `atoi` has its result when it has read the token: it stops inside, or the token is so
long a number that every further digit gives the saturated value, and so does none. -/
def Settled (token : List UInt8) : Prop :=
  ¬ AllDigits (signed token).2 ∨
    2 ^ 63 ≤ 10 * digits (signed token).2 ∧
      (2 ^ 63 ≤ digits (signed token).2 ∨
        digits (signed token).2 % 2 ^ 32 = if (signed token).1 then 0 else 2 ^ 32 - 1)

instance : DecidablePred Settled := fun _ => instDecidableOr

theorem ofInt_eq_iff {a b : Int} :
    BitVec.ofInt 32 a = BitVec.ofInt 32 b ↔ a % 2 ^ 32 = b % 2 ^ 32 := by
  rw [← BitVec.toNat_inj, BitVec.toNat_ofInt, BitVec.toNat_ofInt]
  omega

/-! ## One token -/

/-- Where `strtol` ends up with a number that is too long. -/
def bound (negative : Bool) : Int := if negative then -2 ^ 63 else 2 ^ 63 - 1

theorem saturate_large (negative : Bool) {n : Nat} (h : 2 ^ 63 ≤ n) :
    saturate (negateIf negative n) = bound negative := by
  cases negative with
  | true =>
      show max (-2 ^ 63) (min (2 ^ 63 - 1) (-(n : Int))) = -2 ^ 63
      omega
  | false =>
      show max (-2 ^ 63) (min (2 ^ 63 - 1) (n : Int)) = 2 ^ 63 - 1
      omega

theorem saturate_small (negative : Bool) {n : Nat} (h : n < 2 ^ 63) :
    saturate (negateIf negative n) = negateIf negative n := by
  cases negative with
  | true =>
      show max (-2 ^ 63) (min (2 ^ 63 - 1) (-(n : Int))) = -n
      omega
  | false =>
      show max (-2 ^ 63) (min (2 ^ 63 - 1) (n : Int)) = n
      omega

theorem mod_bound_iff (negative : Bool) {n : Nat} :
    negateIf negative n % 2 ^ 32 = bound negative % 2 ^ 32 ↔
      n % 2 ^ 32 = if negative then 0 else 2 ^ 32 - 1 := by
  cases negative with
  | true =>
      show -(n : Int) % 2 ^ 32 = -2 ^ 63 % 2 ^ 32 ↔ n % 2 ^ 32 = 0
      omega
  | false =>
      show (n : Int) % 2 ^ 32 = (2 ^ 63 - 1) % 2 ^ 32 ↔ n % 2 ^ 32 = 2 ^ 32 - 1
      omega

theorem atoi_append_of_settled {token : List UInt8} (h : Settled token) (r : List UInt8) :
    atoi (token ++ r) = atoi token := by
  have hne : (signed token).2 ≠ [] := by
    intro hnil
    rw [Settled, hnil] at h
    rcases h with h | ⟨h, _⟩
    · exact h (by simp [AllDigits])
    · exact absurd h (by decide)
  rw [atoi, atoi, strtol_eq, strtol_eq, parsed, parsed, signed_append hne]
  by_cases hall : AllDigits (signed token).2
  · obtain ⟨hlarge, hsat⟩ := h.resolve_left (not_not.mpr hall)
    rw [digits_append hall, ofInt_eq_iff]
    -- no digit follows, or the number is ten times as large at least
    rcases accumulate_eq_or_ge (digits (signed token).2) (r.takeWhile isdigit) with heq | hge
    · rw [heq]
    · rw [saturate_large _ (by omega)]
      by_cases hn : 2 ^ 63 ≤ digits (signed token).2
      · rw [saturate_large _ hn]
      · rw [saturate_small _ (by omega)]
        exact ((mod_bound_iff _).mpr (hsat.resolve_left hn)).symm
  · rw [digits_append_of_stop hall]

/-- A number that reads the same with nothing, a 0 or a 1 behind it has saturated. -/
theorem saturated_of_same (negative : Bool) {n : Nat}
    (h0 : saturate (negateIf negative n) % 2 ^ 32
      = saturate (negateIf negative (10 * n)) % 2 ^ 32)
    (h1 : saturate (negateIf negative n) % 2 ^ 32
      = saturate (negateIf negative (10 * n + 1)) % 2 ^ 32) :
    2 ^ 63 ≤ 10 * n ∧ (2 ^ 63 ≤ n ∨ n % 2 ^ 32 = if negative then 0 else 2 ^ 32 - 1) := by
  by_cases hlarge : 2 ^ 63 ≤ 10 * n
  · refine ⟨hlarge, ?_⟩
    by_cases hn : 2 ^ 63 ≤ n
    · exact .inl hn
    · right
      rw [saturate_small negative (by omega), saturate_large negative hlarge] at h0
      exact (mod_bound_iff negative).mp h0
  · -- neither further digit saturates, and they differ in the last place
    exfalso
    rw [h0, saturate_small negative (by omega), saturate_small negative (by omega)] at h1
    cases negative with
    | true => simp only [negateIf] at h1; omega
    | false => simp only [negateIf] at h1; omega

/-- The digits 0 and 1 in the unwritten byte tell whether it is read. -/
theorem settled_of_same {token : List UInt8}
    (h0 : atoi (token ++ [0]) = atoi (token ++ [0x30]))
    (h1 : atoi (token ++ [0]) = atoi (token ++ [0x31])) : Settled token := by
  by_cases hall : AllDigits (signed token).2
  · have hz : Plain 0 := by constructor <;> decide
    have h30 : Plain 0x30 := plain_of_isdigit (by decide)
    have h31 : Plain 0x31 := plain_of_isdigit (by decide)
    have hd (b : UInt8) := digits_append hall [b]
    have hd0 : digits ((signed token).2 ++ [0]) = digits (signed token).2 := hd 0
    have hd30 : digits ((signed token).2 ++ [0x30]) = 10 * digits (signed token).2 := hd 0x30
    have hd31 : digits ((signed token).2 ++ [0x31]) = 10 * digits (signed token).2 + 1 :=
      hd 0x31
    simp only [atoi, strtol_eq, parsed, signed_concat hz, signed_concat h30, signed_concat h31,
      hd0, hd30, hd31, ofInt_eq_iff] at h0 h1
    exact .inr (saturated_of_same _ h0 h1)
  · exact .inl hall

/-! ## All tokens of a fill -/

/-- A `malloc` whose blocks are filled with the byte `b`. -/
def filledBlocks (b : UInt8) : Malloc := fun _ n => some (.replicate n b)

theorem filledBlocks_succeeds (b : UInt8) : (filledBlocks b).Succeeds :=
  fun _ n => ⟨.replicate n b, rfl⟩

theorem stored_filledBlocks {ks : List (List UInt8)} {text : List UInt8}
    {tokens : List (List UInt8)} (h : scan comma ks text = some tokens) (b : UInt8)
    (calls : Nat) :
    stored (filledBlocks b) ks calls text = tokens.map fun token => atoi (token ++ [b]) := by
  apply stored_of_reads calls h
  rw [List.forall₂_map_right_iff, List.forall₂_same]
  intro token _ k
  exact ⟨_, rfl, by simp [copied]⟩

theorem stored_of_settled {malloc : Malloc} (hmalloc : malloc.Succeeds)
    {ks : List (List UInt8)} {text : List UInt8} {tokens : List (List UInt8)}
    (h : scan comma ks text = some tokens) (hsettled : ∀ token ∈ tokens, Settled token)
    (calls : Nat) : stored malloc ks calls text = tokens.map atoi := by
  apply stored_of_reads calls h
  rw [List.forall₂_map_right_iff, List.forall₂_same]
  intro token htoken k
  obtain ⟨bytes, hbytes⟩ := hmalloc k (token.length + 1)
  exact ⟨bytes, hbytes, atoi_append_of_settled (hsettled token htoken) _⟩

/-- A buffer that takes the values and no more holds them after the stores. -/
theorem storeAll_whole (values : List (BitVec 32)) :
    storeAll (.replicate values.length 0) 0 values = values := by
  rw [storeAll_eq _ _ _ (by simp)]
  simp

/-- **What does not depend on stale memory**: two fills whose lookups all succeed store the
same, whatever `malloc` finds in the blocks, exactly if `atoi` has settled on the value of
each token before it gets to the byte behind it. -/
theorem fillTxBuffer_stale_iff (payload : List UInt8) (txBuffSize : Nat)
    {tokens : List (List UInt8)}
    (h : scan comma (keys (rounds (txBuffSize / sizeofInt))) payload = some tokens) :
    (∀ (txBuffer : List (BitVec 32)) (heap : Heap) (malloc₁ malloc₂ : Malloc),
        malloc₁.Succeeds → malloc₂.Succeeds →
        (final (fillTxBuffer malloc₁ txBuffer txBuffSize payload heap)).txBuffer
          = (final (fillTxBuffer malloc₂ txBuffer txBuffSize payload heap)).txBuffer) ↔
      ∀ token ∈ tokens, Settled token := by
  constructor
  · intro hsame
    -- fill the blocks with one byte or another
    have hbytes (b c : UInt8) : ∀ token ∈ tokens, atoi (token ++ [b]) = atoi (token ++ [c]) := by
      have hfill := hsame (.replicate tokens.length 0) ⟨0, []⟩ (filledBlocks b)
        (filledBlocks c) (filledBlocks_succeeds b) (filledBlocks_succeeds c)
      rw [fillTxBuffer_stores, fillTxBuffer_stores, stored_filledBlocks h,
        stored_filledBlocks h] at hfill
      have hb := storeAll_whole (tokens.map fun token => atoi (token ++ [b]))
      have hc := storeAll_whole (tokens.map fun token => atoi (token ++ [c]))
      rw [List.length_map] at hb hc
      rw [hb, hc] at hfill
      exact List.map_inj_left.mp hfill
    intro token htoken
    exact settled_of_same (hbytes 0 0x30 token htoken) (hbytes 0 0x31 token htoken)
  · intro hsettled txBuffer heap malloc₁ malloc₂ h₁ h₂
    rw [fillTxBuffer_stores, fillTxBuffer_stores, stored_of_settled h₁ h hsettled,
      stored_of_settled h₂ h hsettled]

/-- A sample with a blank behind each number. -/
def blankSample : List UInt8 := lit "\"x\":1 ,\"y\":2 ,\"z\":3 ,"

/-- There a digit 5 left behind in the blocks does no harm. -/
theorem fillTxBuffer_stale_blanks :
    (final (fillTxBuffer (filledBlocks 0) [0, 0, 0] 12 blankSample ⟨0, []⟩)).txBuffer
      = (final (fillTxBuffer (filledBlocks 0x35) [0, 0, 0] 12 blankSample ⟨0, []⟩)).txBuffer := by
  have hscan : scan comma (keys 1) blankSample = some [lit "1 ", lit "2 ", lit "3 "] := by
    decide
  have hsettled : ∀ token ∈ [lit "1 ", lit "2 ", lit "3 "], Settled token := by decide
  exact (fillTxBuffer_stale_iff blankSample 12 hscan).mpr hsettled _ _ _ _
    (filledBlocks_succeeds 0) (filledBlocks_succeeds 0x35)

/-- One sample, as a sensor sends it. -/
def oneSample : List UInt8 :=
  lit "\x7b\"vibration\":[\x7b\"x\":1,\"y\":2,\"z\":3\x7d],\"time\":4\x7d"

/-- A digit 5 left behind in the blocks turns the 1 into a 15. -/
theorem oneSample_stale :
    ¬ ∀ (payload : List UInt8) (txBuffSize : Nat) (txBuffer : List (BitVec 32)) (heap : Heap)
      (malloc₁ malloc₂ : Malloc), malloc₁.Succeeds → malloc₂.Succeeds →
        Splits comma (keys (rounds (txBuffSize / sizeofInt))) payload →
        (final (fillTxBuffer malloc₁ txBuffer txBuffSize payload heap)).txBuffer
          = (final (fillTxBuffer malloc₂ txBuffer txBuffSize payload heap)).txBuffer := by
  intro h
  have hscan : scan comma (keys 1) oneSample = some [lit "1", lit "2", lit "3\x7d]"] := by
    decide
  have hsplits := (scan_isSome_iff (key_ok 1) oneSample).mp ⟨_, hscan⟩
  have hsame := h oneSample 12 [0, 0, 0] ⟨0, []⟩ _ _ (filledBlocks_succeeds 0)
    (filledBlocks_succeeds 0x35) hsplits
  rw [fillTxBuffer_stores, fillTxBuffer_stores, show rounds (12 / sizeofInt) = 1 from rfl,
    stored_filledBlocks hscan, stored_filledBlocks hscan] at hsame
  have h0 : storeAll [0, 0, 0] 0 ([lit "1", lit "2", lit "3\x7d]"].map
      fun token => atoi (token ++ [0])) = [1, 2, 3] := by decide
  have h5 : storeAll [0, 0, 0] 0 ([lit "1", lit "2", lit "3\x7d]"].map
      fun token => atoi (token ++ [0x35])) = [15, 25, 3] := by decide
  rw [h0, h5] at hsame
  cases hsame

end Caeco.Payload
