import Mathlib.Tactic.Ring
import Caeco.Kit.Framing

/-!
# The fixed header

Every control packet begins with its type, four flags and the length of what follows. The
length is written seven bits a byte, low bits first, and the top bit of a byte says that
another one follows.
-/

namespace Caeco.Mqtt

open Framing

/-- `enum MQTTControlPacketType`; the two values that no packet has can be read. -/
inductive ControlPacketType where
  | reserved0
  | connect
  | connack
  | publish
  | puback
  | pubrec
  | pubrel
  | pubcomp
  | subscribe
  | suback
  | unsubscribe
  | unsuback
  | pingreq
  | pingresp
  | disconnect
  | reserved15
deriving Repr, DecidableEq

def ControlPacketType.code : ControlPacketType → UInt8
  | reserved0 => 0
  | connect => 1
  | connack => 2
  | publish => 3
  | puback => 4
  | pubrec => 5
  | pubrel => 6
  | pubcomp => 7
  | subscribe => 8
  | suback => 9
  | unsubscribe => 10
  | unsuback => 11
  | pingreq => 12
  | pingresp => 13
  | disconnect => 14
  | reserved15 => 15

/-- `(enum MQTTControlPacketType) code`, for a code of four bits. -/
def ControlPacketType.ofCode (code : UInt8) : ControlPacketType :=
  match code.toNat with
  | 0 => reserved0
  | 1 => connect
  | 2 => connack
  | 3 => publish
  | 4 => puback
  | 5 => pubrec
  | 6 => pubrel
  | 7 => pubcomp
  | 8 => subscribe
  | 9 => suback
  | 10 => unsubscribe
  | 11 => unsuback
  | 12 => pingreq
  | 13 => pingresp
  | 14 => disconnect
  | _ => reserved15

/-- The members of `enum MQTTErrors` that the client returns. -/
inductive Error where
  | controlForbiddenType
  | controlInvalidFlags
  | connectClientIdRefused
  | connectNullWillMessage
  | connectForbiddenWillQos
  | connackForbiddenFlags
  | connackForbiddenCode
  | publishForbiddenQos
  | subscribeTooManyTopics
  | malformedResponse
  | unsubscribeTooManyTopics
  | responseInvalidControlType
  | connectNotCalled
  | sendBufferIsFull
  | socketError
  | malformedRequest
  | recvBufferTooSmall
  | ackOfUnknown
  | connectionRefused
  | subscribeFailed
  | invalidRemainingLength
  | cleanSessionIsRequired
deriving Repr, DecidableEq

/-- `struct mqtt_fixed_header`; the flags are a bit field of four bits. -/
structure FixedHeader where
  controlType : ControlPacketType
  controlFlags : UInt8
  remainingLength : Nat
deriving Repr, DecidableEq

/-! ## The rules -/

/-- `mqtt_fixed_header_rules.control_type_is_valid` -/
def controlTypeIsValid : ControlPacketType → Bool
  | .reserved0 | .reserved15 => false
  | _ => true

/-- `mqtt_fixed_header_rules.required_flags` -/
def requiredFlags : ControlPacketType → UInt8
  | .pubrel | .subscribe | .unsubscribe => 0x02
  | _ => 0x00

/-- `mqtt_fixed_header_rules.mask_required_flags` -/
def maskRequiredFlags : ControlPacketType → UInt8
  | .reserved0 | .publish | .reserved15 => 0x00
  | _ => 0x0F

def mqttFixedHeaderRuleViolation (h : FixedHeader) : Option Error :=
  if controlTypeIsValid h.controlType = false then some .controlForbiddenType
  else if (h.controlFlags ^^^ requiredFlags h.controlType) &&&
      maskRequiredFlags h.controlType ≠ 0 then
    some .controlInvalidFlags
  else none

/-! ## Unpacking -/

/-- The loop over the bytes of the length, from the bit position `lshift` on. It consumes
the bytes that it has looked at. -/
def unpackRemainingLength : List UInt8 → Nat → Nat → Decoded Error Nat
  | [], lshift, _ => if lshift = 28 then .failed .invalidRemainingLength else .incomplete
  | b :: bs, lshift, n =>
      if lshift = 28 then .failed .invalidRemainingLength
      else
        let n' := n + (b &&& 0x7F).toNat <<< lshift
        if b &&& 0x80 ≠ 0 then
          match unpackRemainingLength bs (lshift + 7) n' with
          | .done m k => .done m (k + 1)
          | r => r
        else .done n' 1

/-- The header, and the number of its bytes, if the whole packet is there. -/
def mqttUnpackFixedHeader (buf : List UInt8) : Decoded Error FixedHeader :=
  match buf with
  | [] => .incomplete
  | b :: bs =>
      match unpackRemainingLength bs 0 0 with
      | .incomplete => .incomplete
      | .failed e => .failed e
      | .done n k =>
          let h : FixedHeader :=
            { controlType := .ofCode (b >>> 4), controlFlags := b &&& 0x0F, remainingLength := n }
          match mqttFixedHeaderRuleViolation h with
          | some e => .failed e
          | none => if bs.length - k < n then .incomplete else .done h (k + 1)

/-! ## Packing -/

/-- The loop over the bytes of the length, with `bufsz` bytes left, the one before them
included. -/
def packRemainingLength : Nat → Nat → Option (List UInt8 × Nat)
  | 0, _ => none
  | bufsz + 1, n =>
      if bufsz = 0 then none
      else if n > 127 then do
        let (bytes, left) ← packRemainingLength bufsz (n >>> 7)
        return ((UInt8.ofNat (n &&& 0x7F) ||| 0x80) :: bytes, left)
      else some ([UInt8.ofNat (n &&& 0x7F)], bufsz - 1)

/-- The bytes of the header, or none if they and the rest of the packet do not fit. -/
def mqttPackFixedHeader (bufsz : Nat) (h : FixedHeader) : Except Error (Option (List UInt8)) :=
  match mqttFixedHeaderRuleViolation h with
  | some e => .error e
  | none =>
      if bufsz = 0 then .ok none
      else if h.remainingLength ≥ 256 * 1024 * 1024 then .error .invalidRemainingLength
      else
        match packRemainingLength bufsz h.remainingLength with
        | none => .ok none
        | some (bytes, left) =>
            if left < h.remainingLength then .ok none
            else .ok (some (((h.controlType.code <<< 4 &&& 0xF0) |||
              (h.controlFlags &&& 0x0F)) :: bytes))

/-! ## The length -/

/-- The two parts of a byte of the length. -/
theorem lengthByte_last {m : Nat} (h : m < 128) :
    (UInt8.ofNat m &&& 0x7F).toNat = m ∧ UInt8.ofNat m &&& 0x80 = 0 := by
  have hall : ∀ m : Fin 128, (UInt8.ofNat m &&& 0x7F).toNat = m ∧
      UInt8.ofNat m &&& 0x80 = 0 := by decide +kernel
  exact hall ⟨m, h⟩

theorem lengthByte_more {m : Nat} (h : m < 128) :
    ((UInt8.ofNat m ||| 0x80) &&& 0x7F).toNat = m ∧
      (UInt8.ofNat m ||| 0x80) &&& 0x80 ≠ 0 := by
  have hall : ∀ m : Fin 128, ((UInt8.ofNat m ||| 0x80) &&& 0x7F).toNat = m ∧
      (UInt8.ofNat m ||| 0x80) &&& 0x80 ≠ 0 := by decide +kernel
  exact hall ⟨m, h⟩

theorem and_0x7F (n : Nat) : n &&& 0x7F = n % 128 := Nat.and_two_pow_sub_one_eq_mod n 7

/-- The bytes of a length. -/
def lengthBytes (n : Nat) : List UInt8 :=
  if n > 127 then (UInt8.ofNat (n &&& 0x7F) ||| 0x80) :: lengthBytes (n >>> 7)
  else [UInt8.ofNat (n &&& 0x7F)]
termination_by n
decreasing_by
  rw [Nat.shiftRight_eq_div_pow]
  omega

theorem lengthBytes_more {n : Nat} (h : n > 127) :
    lengthBytes n = (UInt8.ofNat (n % 128) ||| 0x80) :: lengthBytes (n / 128) := by
  rw [lengthBytes, if_pos h, and_0x7F, Nat.shiftRight_eq_div_pow]

theorem lengthBytes_last {n : Nat} (h : ¬ n > 127) : lengthBytes n = [UInt8.ofNat n] := by
  rw [lengthBytes, if_neg h, and_0x7F, Nat.mod_eq_of_lt (by omega)]

theorem length_lengthBytes_pos (n : Nat) : 0 < (lengthBytes n).length := by
  by_cases h : n > 127
  · rw [lengthBytes_more h]
    exact Nat.succ_pos _
  · rw [lengthBytes_last h]
    exact Nat.succ_pos _

theorem lt_of_many {k n : Nat} (hn : n < 128 ^ (4 - k)) (hmany : n > 127) (hk : k < 4) :
    k + 1 < 4 ∧ n / 128 < 128 ^ (4 - (k + 1)) := by
  constructor
  · by_contra hlast
    rw [show 4 - k = 1 by omega] at hn
    omega
  · rw [show 4 - k = 4 - (k + 1) + 1 by omega, Nat.pow_succ] at hn
    exact (Nat.div_lt_iff_lt_mul (by omega)).mpr hn

theorem packRemainingLength_eq :
    ∀ (bufsz n : Nat), packRemainingLength bufsz n
      = if bufsz ≤ (lengthBytes n).length then none
        else some (lengthBytes n, bufsz - 1 - (lengthBytes n).length) := by
  intro bufsz
  induction bufsz with
  | zero => intro n; rw [if_pos (Nat.zero_le _), packRemainingLength]
  | succ bufsz ih =>
      intro n
      have hpos := length_lengthBytes_pos n
      rw [packRemainingLength]
      by_cases hz : bufsz = 0
      · rw [if_pos hz, if_pos (by omega)]
      · rw [if_neg hz, and_0x7F]
        by_cases hmany : n > 127
        · rw [if_pos hmany, ih, Nat.shiftRight_eq_div_pow, show 2 ^ 7 = 128 from rfl,
            lengthBytes_more hmany, List.length_cons]
          by_cases hfits : bufsz ≤ (lengthBytes (n / 128)).length
          · rw [if_pos hfits, if_pos (by omega)]
            rfl
          · rw [if_neg hfits, if_neg (by omega)]
            show some (_, bufsz - 1 - (lengthBytes (n / 128)).length) = some (_, _)
            rw [show bufsz + 1 - 1 - ((lengthBytes (n / 128)).length + 1)
              = bufsz - 1 - (lengthBytes (n / 128)).length by omega]
        · rw [if_neg hmany, lengthBytes_last hmany, List.length_singleton, if_neg (by omega),
            Nat.mod_eq_of_lt (by omega)]
          rfl

/-- A length of up to four bytes is read back, whatever follows it. -/
theorem unpackRemainingLength_lengthBytes (rest : List UInt8) {n : Nat} :
    ∀ {k : Nat} (acc : Nat), n < 128 ^ (4 - k) → k < 4 →
      unpackRemainingLength (lengthBytes n ++ rest) (7 * k) acc
        = .done (acc + n <<< (7 * k)) (lengthBytes n).length := by
  induction n using Nat.strong_induction_on with
  | _ n ih =>
      intro k acc hn hk
      by_cases hmany : n > 127
      · obtain ⟨hk', hdiv⟩ := lt_of_many hn hmany hk
        obtain ⟨hvalue, hcontinue⟩ := lengthByte_more (show n % 128 < 128 by omega)
        have hrest := ih (n / 128) (by omega) (acc + (n % 128) <<< (7 * k)) hdiv hk'
        have hsplit : n % 128 * 2 ^ (7 * k) + n / 128 * 2 ^ (7 * (k + 1)) = n * 2 ^ (7 * k) := by
          conv => rhs; rw [← Nat.div_add_mod n 128]
          rw [Nat.mul_add, Nat.pow_add, show (2 : Nat) ^ (7 * 1) = 128 from rfl]
          ring
        rw [lengthBytes_more hmany, List.cons_append, unpackRemainingLength, if_neg (by omega),
          hvalue]
        simp only [if_pos hcontinue, show 7 * k + 7 = 7 * (k + 1) by omega, hrest,
          List.length_cons]
        rw [Nat.shiftLeft_eq, Nat.shiftLeft_eq, Nat.shiftLeft_eq, Nat.add_assoc, hsplit]
      · obtain ⟨hvalue, hstop⟩ := lengthByte_last (show n < 128 by omega)
        rw [lengthBytes_last hmany, List.cons_append, unpackRemainingLength, if_neg (by omega),
          hvalue]
        simp only [hstop, ne_eq, not_true_eq_false, if_false, List.length_singleton]

/-- What the loop finds lies in the bytes it has looked at, and has 28 bits at most. -/
theorem unpackRemainingLength_done :
    ∀ {bs : List UInt8} {k acc m c : Nat}, acc < 2 ^ (7 * k) → k ≤ 4 →
      unpackRemainingLength bs (7 * k) acc = .done m c →
        1 ≤ c ∧ c ≤ 4 - k ∧ c ≤ bs.length ∧ m < 2 ^ 28 := by
  intro bs
  induction bs with
  | nil =>
      intro k acc m c _ _ h
      rw [unpackRemainingLength] at h
      split at h <;> cases h
  | cons b bs ih =>
      intro k acc m c hacc hk h
      rw [unpackRemainingLength] at h
      by_cases hlast : 7 * k = 28
      · rw [if_pos hlast] at h
        cases h
      · rw [if_neg hlast] at h
        have hseven : (b &&& 0x7F).toNat < 128 := by
          rw [UInt8.toNat_and]
          exact Nat.lt_of_le_of_lt Nat.and_le_right (by decide)
        have hacc' : acc + (b &&& 0x7F).toNat <<< (7 * k) < 2 ^ (7 * (k + 1)) := by
          rw [Nat.shiftLeft_eq, Nat.mul_add, Nat.pow_add]
          have hpow : (0 : Nat) < 2 ^ (7 * k) := Nat.two_pow_pos _
          have hmul : (b &&& 0x7F).toNat * 2 ^ (7 * k) ≤ 127 * 2 ^ (7 * k) :=
            Nat.mul_le_mul_right _ (by omega)
          omega
        simp only at h
        by_cases hmore : b &&& 0x80 ≠ 0
        · rw [if_pos hmore, show 7 * k + 7 = 7 * (k + 1) by omega] at h
          cases hrest : unpackRemainingLength bs (7 * (k + 1))
              (acc + (b &&& 0x7F).toNat <<< (7 * k)) with
          | incomplete => rw [hrest] at h; cases h
          | failed e => rw [hrest] at h; cases h
          | done m' c' =>
              rw [hrest] at h
              cases h
              obtain ⟨hpos, hle, hlen, hm⟩ := ih hacc' (by omega) hrest
              rw [List.length_cons]
              omega
        · rw [if_neg hmore] at h
          cases h
          have hbound : 2 ^ (7 * (k + 1)) ≤ 2 ^ 28 := Nat.pow_le_pow_right (by omega) (by omega)
          rw [List.length_cons]
          omega

/-- The loop does not take back what it has found when more bytes arrive. -/
theorem unpackRemainingLength_append (cs : List UInt8) :
    ∀ {bs : List UInt8} {lshift acc : Nat},
      unpackRemainingLength bs lshift acc ≠ .incomplete →
        unpackRemainingLength (bs ++ cs) lshift acc = unpackRemainingLength bs lshift acc := by
  intro bs
  induction bs with
  | nil =>
      intro lshift acc h
      rw [unpackRemainingLength] at h
      split at h
      · rename_i hlast
        rw [List.nil_append, unpackRemainingLength, if_pos hlast]
        cases cs <;> rw [unpackRemainingLength, if_pos hlast]
      · exact absurd rfl h
  | cons b bs ih =>
      intro lshift acc h
      rw [unpackRemainingLength] at h
      rw [List.cons_append, unpackRemainingLength, unpackRemainingLength]
      by_cases hlast : lshift = 28
      · rw [if_pos hlast, if_pos hlast]
      · rw [if_neg hlast] at h ⊢
        rw [if_neg hlast]
        simp only at h ⊢
        by_cases hmore : b &&& 0x80 ≠ 0
        · rw [if_pos hmore] at h ⊢
          rw [if_pos hmore]
          rw [ih]
          intro hrest
          rw [hrest] at h
          exact h rfl
        · rw [if_neg hmore, if_neg hmore]

/-! ## The header -/

/-- The first byte of a packet. -/
def FixedHeader.firstByte (h : FixedHeader) : UInt8 :=
  (h.controlType.code <<< 4 &&& 0xF0) ||| (h.controlFlags &&& 0x0F)

def FixedHeader.bytes (h : FixedHeader) : List UInt8 :=
  h.firstByte :: lengthBytes h.remainingLength

/-- A header that can be sent. -/
structure FixedHeader.Valid (h : FixedHeader) : Prop where
  rules : mqttFixedHeaderRuleViolation h = none
  flags : h.controlFlags.toNat < 16
  length : h.remainingLength < 2 ^ 28

/-- What holds of the 256 bytes. -/
theorem forall_byte {p : UInt8 → Prop} (h : ∀ n : Fin 256, p (UInt8.ofNat n)) (b : UInt8) :
    p b := by
  have hb := h ⟨b.toNat, b.toNat_lt⟩
  rwa [UInt8.ofNat_toNat] at hb

/-- Two values of four bits in one byte. -/
theorem nibbles {c f : UInt8} (hc : c.toNat < 16) (hf : f.toNat < 16) :
    ((c <<< 4 &&& 0xF0) ||| (f &&& 0x0F)) >>> 4 = c ∧
      ((c <<< 4 &&& 0xF0) ||| (f &&& 0x0F)) &&& 0x0F = f := by
  have hall : ∀ c f : Fin 16,
      ((UInt8.ofNat c <<< 4 &&& 0xF0) ||| (UInt8.ofNat f &&& 0x0F)) >>> 4 = UInt8.ofNat c ∧
      ((UInt8.ofNat c <<< 4 &&& 0xF0) ||| (UInt8.ofNat f &&& 0x0F)) &&& 0x0F
        = UInt8.ofNat f := by decide +kernel
  have hparts := hall ⟨c.toNat, hc⟩ ⟨f.toNat, hf⟩
  simpa only [UInt8.ofNat_toNat] using hparts

theorem ControlPacketType.ofCode_code (c : ControlPacketType) : ofCode c.code = c := by
  cases c <;> rfl

theorem ControlPacketType.code_lt (c : ControlPacketType) : c.code.toNat < 16 := by
  cases c <;> decide

theorem mqttPackFixedHeader_eq {h : FixedHeader} (hv : h.Valid) (bufsz : Nat) :
    mqttPackFixedHeader bufsz h
      = .ok (if bufsz < h.bytes.length + h.remainingLength then none else some h.bytes) := by
  have hpos := length_lengthBytes_pos h.remainingLength
  have hlength := hv.length
  have hlen : h.bytes.length = (lengthBytes h.remainingLength).length + 1 := List.length_cons
  rw [mqttPackFixedHeader, hv.rules]
  simp only [packRemainingLength_eq]
  by_cases hz : bufsz = 0
  · rw [if_pos hz, if_pos (by omega)]
  · rw [if_neg hz, if_neg (by omega)]
    by_cases hsmall : bufsz ≤ (lengthBytes h.remainingLength).length
    · rw [if_pos hsmall, if_pos (by omega)]
    · rw [if_neg hsmall]
      simp only
      by_cases hleft : bufsz - 1 - (lengthBytes h.remainingLength).length < h.remainingLength
      · rw [if_pos hleft, if_pos (by omega)]
      · rw [if_neg hleft, if_neg (by omega)]
        rfl

/-- **A header is read back**, as soon as the rest of its packet is there. -/
theorem mqttUnpackFixedHeader_bytes {h : FixedHeader} (hv : h.Valid) {rest : List UInt8}
    (hrest : h.remainingLength ≤ rest.length) :
    mqttUnpackFixedHeader (h.bytes ++ rest) = .done h h.bytes.length := by
  have hlength := unpackRemainingLength_lengthBytes rest (n := h.remainingLength) (k := 0) 0
    (by have := hv.length; omega) (by omega)
  obtain ⟨htype, hflags⟩ := nibbles h.controlType.code_lt hv.flags
  rw [FixedHeader.bytes, List.cons_append, mqttUnpackFixedHeader]
  simp only [Nat.mul_zero, Nat.shiftLeft_zero, Nat.zero_add] at hlength
  simp only [hlength, FixedHeader.firstByte, htype, hflags, ControlPacketType.ofCode_code]
  have hsame : (⟨h.controlType, h.controlFlags, h.remainingLength⟩ : FixedHeader) = h := rfl
  rw [hsame, hv.rules, List.length_append]
  simp only [Nat.add_sub_cancel_left, if_neg (Nat.not_lt.mpr hrest), List.length_cons]

/-- What is known of a header that was found. -/
structure FixedHeader.Found (h : FixedHeader) (buf : List UInt8) (n : Nat) : Prop where
  rules : mqttFixedHeaderRuleViolation h = none
  length : h.remainingLength < 2 ^ 28
  pos : 2 ≤ n
  le : n ≤ 5
  whole : n + h.remainingLength ≤ buf.length

theorem mqttUnpackFixedHeader_done {buf : List UInt8} {h : FixedHeader} {n : Nat}
    (hdone : mqttUnpackFixedHeader buf = .done h n) : h.Found buf n := by
  cases buf with
  | nil => cases hdone
  | cons b bs =>
      rw [mqttUnpackFixedHeader] at hdone
      cases hlength : unpackRemainingLength bs 0 0 with
      | incomplete => rw [hlength] at hdone; cases hdone
      | failed e => rw [hlength] at hdone; cases hdone
      | done m k =>
          obtain ⟨hpos, hle, hlen, hm⟩ :=
            unpackRemainingLength_done (k := 0) (by omega) (by omega) hlength
          rw [hlength] at hdone
          simp only at hdone
          split at hdone
          · cases hdone
          · rename_i hrules
            split at hdone
            · cases hdone
            · rename_i hwhole
              cases hdone
              exact { rules := hrules, length := hm, pos := by omega, le := by omega
                      whole := by simp only [List.length_cons]; omega }

/-- The verdict stands when more bytes arrive. -/
theorem mqttUnpackFixedHeader_append {buf : List UInt8} (cs : List UInt8)
    (h : mqttUnpackFixedHeader buf ≠ .incomplete) :
    mqttUnpackFixedHeader (buf ++ cs) = mqttUnpackFixedHeader buf := by
  cases buf with
  | nil => exact absurd rfl h
  | cons b bs =>
      rw [mqttUnpackFixedHeader] at h
      have hlength := @unpackRemainingLength_append cs bs 0 0
      rw [List.cons_append, mqttUnpackFixedHeader, mqttUnpackFixedHeader]
      cases hdecoded : unpackRemainingLength bs 0 0 with
      | incomplete => rw [hdecoded] at h; exact absurd rfl h
      | failed e =>
          rw [hlength (by rw [hdecoded]; simp), hdecoded]
      | done m k =>
          rw [hlength (by rw [hdecoded]; simp), hdecoded]
          rw [hdecoded] at h
          simp only at h ⊢
          split
          · rfl
          · rename_i hrules
            rw [hrules] at h
            simp only at h
            split at h
            · exact absurd rfl h
            · rename_i hwhole
              rw [if_neg hwhole, if_neg (by rw [List.length_append]; omega)]

end Caeco.Mqtt
