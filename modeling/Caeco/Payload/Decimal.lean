import Caeco.Payload.ExtractVal

/-!
# What `atoi` reads

`strtol` skips blanks, takes a sign and reads digits up to the first byte that is none. What
it returns on a number followed by other text depends on that text only if every byte of
the number's body is a digit.
-/

namespace Caeco.Payload

/-! ## Digits -/

/-- The number read so far is `v`, and the digits `ds` follow. -/
def accumulate (v : Nat) (ds : List UInt8) : Nat :=
  ds.foldl (fun v d => 10 * v + (d.toNat - 0x30)) v

theorem digits_eq (s : List UInt8) : digits s = accumulate 0 (s.takeWhile isdigit) := rfl

theorem accumulate_append (v : Nat) (ds es : List UInt8) :
    accumulate v (ds ++ es) = accumulate (accumulate v ds) es :=
  List.foldl_append

/-- A further digit multiplies by ten at least. -/
theorem le_accumulate (ds : List UInt8) : ∀ v, v ≤ accumulate v ds := by
  induction ds with
  | nil => intro v; exact Nat.le_refl v
  | cons d ds ih =>
      intro v
      have hstep := ih (10 * v + (d.toNat - 0x30))
      simp only [accumulate, List.foldl_cons] at hstep ⊢
      omega

theorem accumulate_eq_or_ge (v : Nat) (ds : List UInt8) :
    accumulate v ds = v ∨ 10 * v ≤ accumulate v ds := by
  cases ds with
  | nil => exact .inl rfl
  | cons d ds =>
      have hstep := le_accumulate ds (10 * v + (d.toNat - 0x30))
      simp only [accumulate, List.foldl_cons] at hstep ⊢
      exact .inr (by omega)

/-- Every byte is a digit. -/
def AllDigits (s : List UInt8) : Prop := ∀ b ∈ s, isdigit b = true

instance : DecidablePred AllDigits := fun s =>
  inferInstanceAs (Decidable (∀ b ∈ s, isdigit b = true))

theorem takeWhile_of_allDigits {s : List UInt8} (h : AllDigits s) (r : List UInt8) :
    (s ++ r).takeWhile isdigit = s ++ r.takeWhile isdigit :=
  List.takeWhile_append_of_pos h

theorem digits_append {s : List UInt8} (h : AllDigits s) (r : List UInt8) :
    digits (s ++ r) = accumulate (digits s) (r.takeWhile isdigit) := by
  have hs : s.takeWhile isdigit = s := by
    have htake := takeWhile_of_allDigits h []
    simpa using htake
  rw [digits_eq, digits_eq, takeWhile_of_allDigits h, hs, accumulate_append]

/-- Text behind a byte that is no digit is not read. -/
theorem digits_append_of_stop {s : List UInt8} (h : ¬ AllDigits s) (r : List UInt8) :
    digits (s ++ r) = digits s := by
  have hshort : (s.takeWhile isdigit).length ≠ s.length := by
    intro hlen
    apply h
    intro b hb
    have hself := (List.takeWhile_prefix (p := isdigit) (l := s)).eq_of_length hlen
    rw [← hself] at hb
    exact List.all_eq_true.mp List.all_takeWhile b hb
  rw [digits_eq, digits_eq, List.takeWhile_append, if_neg hshort]

/-! ## The sign -/

/-- Whether there is a minus sign, and what is left for the digits. -/
def takeSign : List UInt8 → Bool × List UInt8
  | 0x2D :: r => (true, r)
  | 0x2B :: r => (false, r)
  | r => (false, r)

def signed (s : List UInt8) : Bool × List UInt8 := takeSign (s.dropWhile isspace)

/-- The `long` nearest to `v`. -/
def saturate (v : Int) : Int := max (-2 ^ 63) (min (2 ^ 63 - 1) v)

def negateIf : Bool → Nat → Int
  | true, n => -n
  | false, n => n

/-- The integer before saturation. -/
def parsed (s : List UInt8) : Int := negateIf (signed s).1 (digits (signed s).2)

theorem strtol_eq (s : List UInt8) : strtol s = saturate (parsed s) := by
  simp only [strtol, saturate, parsed, signed]
  congr 2
  fun_cases takeSign (s.dropWhile isspace) with
  | case1 r => simp [negateIf]
  | case2 r => simp [negateIf]
  | case3 hminus hplus => simp [negateIf]

/-- No blank and no sign. -/
def Plain (b : UInt8) : Prop := isspace b = false ∧ b ≠ 0x2D ∧ b ≠ 0x2B

theorem signed_plain {b : UInt8} (hb : Plain b) (r : List UInt8) :
    signed (b :: r) = (false, b :: r) := by
  obtain ⟨hspace, hminus, hplus⟩ := hb
  rw [signed, List.dropWhile_cons_of_neg (by simp [hspace]), takeSign]
  · intro r h
    cases h
    exact hminus rfl
  · intro r h
    cases h
    exact hplus rfl

theorem signed_minus (r : List UInt8) : signed (0x2D :: r) = (true, r) := by
  rw [signed, List.dropWhile_cons_of_neg (by decide)]
  rfl

theorem plain_of_isdigit {b : UInt8} (h : isdigit b = true) : Plain b := by
  simp only [isdigit, Bool.and_eq_true, decide_eq_true_eq, UInt8.le_iff_toNat_le] at h
  refine ⟨?_, ?_, ?_⟩
  · simp only [isspace, Bool.or_eq_false_iff, Bool.and_eq_false_iff, decide_eq_false_iff_not,
      UInt8.le_iff_toNat_le, UInt8.toNat_inj.symm]
    simp only [UInt8.toNat_ofNat] at h ⊢
    omega
  · rintro rfl
    revert h
    decide
  · rintro rfl
    revert h
    decide

theorem takeSign_append {s : List UInt8} (hs : s ≠ []) (r : List UInt8) :
    takeSign (s ++ r) = ((takeSign s).1, (takeSign s).2 ++ r) := by
  fun_cases takeSign s with
  | case1 s => rfl
  | case2 s => rfl
  | case3 s hminus hplus =>
      obtain ⟨b, bs, rfl⟩ := List.exists_cons_of_ne_nil hs
      rw [List.cons_append, takeSign]
      · intro r' h
        cases h
        exact hminus _ rfl
      · intro r' h
        cases h
        exact hplus _ rfl

/-- Text behind the body of a number is behind it still when the number is read. -/
theorem signed_append {s : List UInt8} (hs : (signed s).2 ≠ []) (r : List UInt8) :
    signed (s ++ r) = ((signed s).1, (signed s).2 ++ r) := by
  have hne : s.dropWhile isspace ≠ [] := by
    intro h
    rw [signed, h] at hs
    exact hs rfl
  rw [signed, List.dropWhile_append, if_neg (by simpa using hne), takeSign_append hne]
  rfl

theorem signed_concat {b : UInt8} (hb : Plain b) (s : List UInt8) :
    signed (s ++ [b]) = ((signed s).1, (signed s).2 ++ [b]) := by
  by_cases hne : s.dropWhile isspace = []
  · rw [signed, List.dropWhile_append, if_pos (by simp [hne])]
    rw [show signed s = (false, []) by rw [signed, hne]; rfl]
    exact signed_plain hb []
  · rw [signed, List.dropWhile_append, if_neg (by simpa using hne), takeSign_append hne]
    rfl

/-! ## Decimal numbers -/

/-- `v` in plain decimal. -/
def decimal (v : Int) : List UInt8 := lit (toString v)

/-- The digits of `n`. -/
def decimalDigits (n : Nat) : List UInt8 := (Nat.toDigits 10 n).map Char.toUInt8

theorem decimal_of_nonneg {v : Int} (h : 0 ≤ v) : decimal v = decimalDigits v.natAbs := by
  rw [decimal, lit, Int.toString_eq_repr, Int.repr_eq_if, if_pos h, Nat.toList_repr]
  congr 2
  omega

theorem decimal_of_neg {v : Int} (h : v < 0) :
    decimal v = 0x2D :: decimalDigits v.natAbs := by
  rw [decimal, lit, Int.toString_eq_repr, Int.repr_eq_if, if_neg (by omega),
    String.toList_append, Nat.toList_repr, List.map_append]
  have habs : (-v).toNat = v.natAbs := by omega
  rw [habs]
  rfl

theorem toNat_toUInt8 {c : Char} (h : c.isDigit = true) : c.toUInt8.toNat = c.toNat := by
  rw [Char.isDigit_iff_toNat] at h
  have hlt : c.toNat < 256 := by
    have hnine : '9'.toNat < 256 := by decide
    omega
  exact Nat.mod_eq_of_lt hlt

theorem allDigits_decimalDigits (n : Nat) : AllDigits (decimalDigits n) := by
  intro b hb
  obtain ⟨c, hc, rfl⟩ := List.mem_map.mp hb
  have hdigit := Nat.isDigit_of_mem_toDigits (by decide) (by decide) hc
  have htoNat := toNat_toUInt8 hdigit
  rw [Char.isDigit_iff_toNat] at hdigit
  simp only [isdigit, Bool.and_eq_true, decide_eq_true_eq, UInt8.le_iff_toNat_le, htoNat]
  exact hdigit

theorem decimalDigits_ne_nil (n : Nat) : decimalDigits n ≠ [] := by
  simp [decimalDigits, Nat.toDigits_ne_nil]

theorem digits_decimalDigits (n : Nat) : digits (decimalDigits n) = n := by
  have hall : (decimalDigits n).takeWhile isdigit = decimalDigits n := by
    have htake := takeWhile_of_allDigits (allDigits_decimalDigits n) []
    simpa using htake
  -- the same fold, over the characters
  have hchars : ∀ (cs : List Char) (v : Nat), (∀ c ∈ cs, c.isDigit = true) →
      accumulate v (cs.map Char.toUInt8) = Nat.ofDigitChars 10 cs v := by
    intro cs
    induction cs with
    | nil => intro v _; simp [accumulate]
    | cons c cs ih =>
        intro v hcs
        obtain ⟨hc, hcs⟩ := List.forall_mem_cons.mp hcs
        rw [Nat.ofDigitChars_cons, ← ih _ hcs]
        simp only [accumulate, List.map_cons, List.foldl_cons, toNat_toUInt8 hc]
        rfl
  have hdigits : ∀ c ∈ Nat.toDigits 10 n, c.isDigit = true :=
    fun c hc => Nat.isDigit_of_mem_toDigits (by decide) (by decide) hc
  rw [digits_eq, hall, decimalDigits, hchars _ 0 hdigits, Nat.ofDigitChars_ten_toDigits]

/-- The number ends here: no digit follows. -/
def Ends (r : List UInt8) : Prop := ∀ b ∈ r.head?, isdigit b = false

theorem digits_decimalDigits_append (n : Nat) {r : List UInt8} (hr : Ends r) :
    digits (decimalDigits n ++ r) = n := by
  have hstop : r.takeWhile isdigit = [] := by
    cases r with
    | nil => rfl
    | cons b bs => simp [hr b rfl]
  rw [digits_append (allDigits_decimalDigits n), hstop, digits_decimalDigits]
  rfl

/-- **Reading back**: a decimal number is read as its value, if no digit follows. -/
theorem parsed_decimal (v : Int) {r : List UInt8} (hr : Ends r) :
    parsed (decimal v ++ r) = v := by
  by_cases h : 0 ≤ v
  · have hne := decimalDigits_ne_nil v.natAbs
    have hall := allDigits_decimalDigits v.natAbs
    have hdigits := digits_decimalDigits_append v.natAbs hr
    rw [decimal_of_nonneg h]
    obtain ⟨b, bs, hb⟩ := List.exists_cons_of_ne_nil hne
    rw [hb] at hall hdigits ⊢
    have hplain := plain_of_isdigit (hall b (by simp))
    rw [List.cons_append] at hdigits ⊢
    rw [parsed, signed_plain hplain, hdigits, negateIf]
    omega
  · rw [decimal_of_neg (by omega), List.cons_append, parsed, signed_minus]
    simp only [digits_decimalDigits_append v.natAbs hr, negateIf]
    omega

theorem atoi_decimal (v : BitVec 32) {r : List UInt8} (hr : Ends r) :
    atoi (decimal v.toInt ++ r) = v := by
  have hlo := BitVec.le_toInt v
  have hhi := BitVec.toInt_lt (x := v)
  have hsat : saturate v.toInt = v.toInt := by
    simp only [saturate]
    omega
  rw [atoi, strtol_eq, parsed_decimal v.toInt hr, hsat, BitVec.ofInt_toInt]

end Caeco.Payload
