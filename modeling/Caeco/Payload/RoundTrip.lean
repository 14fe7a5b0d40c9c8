import Mathlib.Data.List.Forall2
import Caeco.Payload.Decimal
import Caeco.Payload.Triples

/-!
# Decoding what was encoded

A list of samples, rendered the way the test programs write it, is read back value by
value.
-/

namespace Caeco.Payload

open Search CInt

/-- The three readings of one sample, as the words that are to be stored. -/
structure Triple where
  x : BitVec 32
  y : BitVec 32
  z : BitVec 32
deriving Repr, DecidableEq

/-- The object that the sensor writes for a sample. -/
def renderTriple (v : Triple) : List UInt8 :=
  lit "\x7b\"x\":" ++ decimal v.x.toInt ++ lit ",\"y\":" ++ decimal v.y.toInt ++
    lit ",\"z\":" ++ decimal v.z.toInt ++ lit "\x7d"

/-- The message for some samples and a time. -/
def render (vs : List Triple) (time : List UInt8) : List UInt8 :=
  lit "\x7b\"vibration\":[" ++ joined (vs.map renderTriple) ++ lit "],\"time\":" ++ time ++
    lit "\x7d"

def values (vs : List Triple) : List (BitVec 32) := vs.flatMap fun v => [v.x, v.y, v.z]

/-! ## The message as samples -/

theorem isInteger_decimal (v : Int) : IsInteger (decimal v) := by
  by_cases h : 0 ≤ v
  · have hall := allDigits_decimalDigits v.natAbs
    obtain ⟨b, bs, hb⟩ := List.exists_cons_of_ne_nil (decimalDigits_ne_nil v.natAbs)
    have hplain := plain_of_isdigit (hall b (by simp [hb]))
    have hunsigned : unsigned (decimal v) = decimalDigits v.natAbs := by
      rw [decimal_of_nonneg h, hb, unsigned, if_neg]
      intro hminus
      exact hplain.2.1 (Option.some.inj hminus)
    rw [IsInteger, hunsigned]
    exact ⟨decimalDigits_ne_nil _, hall⟩
  · rw [decimal_of_neg (by omega)]
    exact ⟨decimalDigits_ne_nil _, allDigits_decimalDigits _⟩

def Axis.member (a : Axis) (v : BitVec 32) : Member :=
  .bare a (decimal v.toInt) (isInteger_decimal _)

def Triple.sample (v : Triple) : Sample :=
  .bare [Axis.x.member v.x, Axis.y.member v.y, Axis.z.member v.z] (List.Sublist.refl _)

theorem Axis.member_text (a : Axis) (v : BitVec 32) :
    (a.member v).text = 0x22 :: a.letter :: 0x22 :: 0x3A :: decimal v.toInt := by
  simp [Axis.member, Member.bare, Member.text, Member.label, Member.value, Blanks.none]

theorem Axis.member_value (a : Axis) (v : BitVec 32) : (a.member v).value = decimal v.toInt := by
  simp [Axis.member, Member.bare, Member.value, Blanks.none]

theorem Triple.sample_text (v : Triple) : v.sample.text = renderTriple v := by
  simp only [Triple.sample, Sample.bare, Sample.text, List.map_cons, List.map_nil,
    joined_cons, Axis.member_text, Blanks.none, renderTriple]
  rw [show lit "\x7b\"x\":" = [0x7B, 0x22, 0x78, 0x22, 0x3A] by decide,
    show lit ",\"y\":" = [comma, 0x22, 0x79, 0x22, 0x3A] by decide,
    show lit ",\"z\":" = [comma, 0x22, 0x7A, 0x22, 0x3A] by decide,
    show lit "\x7d" = [0x7D] by decide]
  simp [Axis.letter]

/-- The text of a message, as the text of an array of samples. -/
def message (vs : List Triple) (time : List UInt8) : Vibration where
  head := lit "\x7b\"vibration\":"
  samples := vs.map Triple.sample
  tail := lit ",\"time\":" ++ time ++ lit "\x7d"

theorem message_text (vs : List Triple) (time : List UInt8) :
    (message vs time).text = render vs time := by
  have htexts : (vs.map Triple.sample).map Sample.text = vs.map renderTriple := by
    rw [List.map_map]
    exact List.map_congr_left fun v _ => v.sample_text
  rw [Vibration.text, render, message, htexts]
  rw [show lit "\x7b\"vibration\":[" = lit "\x7b\"vibration\":" ++ [0x5B] by decide,
    show lit "],\"time\":" = 0x5D :: lit ",\"time\":" by decide]
  simp

/-! ## The tokens -/

/-- The token reads as the value, whatever it is copied in front of. -/
def Reads (token : List UInt8) (v : BitVec 32) : Prop :=
  ∀ r, Ends r → atoi (token ++ r) = v

theorem reads_decimal (v : BitVec 32) : Reads (decimal v.toInt) v :=
  fun _ hr => atoi_decimal v hr

theorem reads_decimal_brace (v : BitVec 32) (u : List UInt8) :
    Reads (decimal v.toInt ++ 0x7D :: u) v := by
  intro r _
  rw [List.append_assoc]
  apply atoi_decimal
  intro b hb
  cases hb
  decide

theorem Axis.visible_member (a : Axis) (v : BitVec 32) : (a.member v).visible = true :=
  Member.visible_iff.mpr ⟨rfl, rfl⟩

/-- The tokens of one sample; the last one goes on to the next comma. -/
theorem Triple.scan_sample (v : Triple) {u rest : List UInt8} (hu : comma ∉ u) (m : Nat)
    {tokens : List (List UInt8)} (h : scan comma (keys m) (comma :: rest) = some tokens) :
    scan comma (keys (m + 1)) (v.sample.text ++ (u ++ comma :: rest))
      = some (decimal v.x.toInt :: decimal v.y.toInt :: (decimal v.z.toInt ++ 0x7D :: u)
          :: tokens) := by
  have hcomma (a : Axis) : Clear a.key [comma] := a.clear_punctuation (by decide)
  have hbrace : comma ∉ 0x7D :: u := by
    simp only [List.mem_cons, not_or]
    exact ⟨by decide, hu⟩
  -- the text from the comma behind each member on
  let cx := Member.following [Axis.y.member v.y, Axis.z.member v.z] (0x7D :: (u ++ comma :: rest))
  let cy := Member.following [Axis.z.member v.z] (0x7D :: (u ++ comma :: rest))
  have hx : lookup comma Axis.x.key (v.sample.text ++ (u ++ comma :: rest))
      = some (decimal v.x.toInt, cx) := by
    have hlookup := Member.lookup_following (Axis.x.visible_member v.x) (v.sample.clear_front _)
      (Axis.y.member v.y) [Axis.z.member v.z] (0x7D :: (u ++ comma :: rest))
    rw [Axis.member_value] at hlookup
    rw [v.sample.text_cons rfl, Axis.member_value]
    exact hlookup
  have hy : lookup comma Axis.y.key cx = some (decimal v.y.toInt, cy) := by
    have hlookup := Member.lookup_following (Axis.y.visible_member v.y) (hcomma _)
      (Axis.z.member v.z) [] (0x7D :: (u ++ comma :: rest))
    rw [Axis.member_value] at hlookup
    rw [show cx = _ from Member.following_cons _ _ _, Axis.member_value]
    exact hlookup
  have hz : lookup comma Axis.z.key cy
      = some (decimal v.z.toInt ++ 0x7D :: u, comma :: rest) := by
    have hlookup := Member.lookup_visible (Axis.z.visible_member v.z) (hcomma _) hbrace rest
    rw [Axis.member_value] at hlookup
    rw [show cy = _ from Member.following_cons _ _ _, Axis.member_value]
    exact hlookup
  rw [keys_succ]
  exact scan_cons hx (scan_cons hy (scan_cons hz h))

theorem values_cons (v : Triple) (vs : List Triple) :
    values (v :: vs) = v.x :: v.y :: v.z :: values vs := rfl

theorem length_values (vs : List Triple) : (values vs).length = 3 * vs.length := by
  induction vs with
  | nil => rfl
  | cons v vs ih => simp only [values_cons, List.length_cons, ih]; omega

/-- Each lookup in the array finds its own field. The last sample is closed by the comma
behind the bracket. -/
theorem scan_array (r : List UInt8) :
    ∀ {vs : List Triple} {m : Nat}, m ≤ vs.length →
      ∃ tokens, scan comma (keys m)
          (Sample.array (vs.map Triple.sample) (0x5D :: comma :: r)) = some tokens ∧
        List.Forall₂ Reads tokens (values (vs.take m)) := by
  intro vs
  induction vs with
  | nil =>
      intro m hm
      rw [Nat.le_zero.mp hm]
      exact ⟨[], rfl, .nil⟩
  | cons v rest ih =>
      intro m hm
      cases m with
      | zero => exact ⟨[], rfl, .nil⟩
      | succ m =>
          rw [List.map_cons, Sample.array, List.take_succ_cons, values_cons]
          by_cases hnil : rest = []
          · subst hnil
            have hm0 : m = 0 := by simpa using hm
            subst hm0
            have hend : scan comma (keys 0) (comma :: r) = some [] := rfl
            have hscan := v.scan_sample (u := [0x5D]) (by decide) 0 hend
            refine ⟨_, hscan, ?_⟩
            exact .cons (reads_decimal _) (.cons (reads_decimal _)
              (.cons (reads_decimal_brace _ _) .nil))
          · obtain ⟨tokens, htokens, hreads⟩ := ih (Nat.le_of_succ_le_succ hm)
            rw [Sample.following_eq_array (by simpa using hnil)]
            have hcomma : Clear Axis.x.key [comma] := Axis.x.clear_punctuation (by decide)
            rw [← scan_skip hcomma] at htokens
            have hscan := v.scan_sample List.not_mem_nil m htokens
            refine ⟨_, hscan, ?_⟩
            exact .cons (reads_decimal _) (.cons (reads_decimal _)
              (.cons (reads_decimal_brace _ _) hreads))

/-! ## The round trip -/

theorem zero_not_mem_decimal (v : Int) : 0 ∉ decimal v :=
  fun h => absurd ((isInteger_decimal v).mem_numberBytes h) (by decide)

theorem zero_not_mem_joined :
    ∀ {texts : List (List UInt8)}, (∀ text ∈ texts, 0 ∉ text) → 0 ∉ joined texts := by
  intro texts
  cases texts with
  | nil => intro _; exact List.not_mem_nil
  | cons text texts =>
      intro h
      rw [joined_cons, List.mem_append, List.mem_flatMap]
      rintro (hmem | ⟨text', htext', hmem⟩)
      · exact h text List.mem_cons_self hmem
      · rcases List.mem_cons.mp hmem with hmem | hmem
        · revert hmem
          decide
        · exact h text' (List.mem_cons_of_mem _ htext') hmem

theorem zero_not_mem_render (vs : List Triple) {time : List UInt8} (htime : 0 ∉ time) :
    0 ∉ render vs time := by
  have htriple : ∀ text ∈ vs.map renderTriple, 0 ∉ text := by
    intro text htext
    obtain ⟨v, _, rfl⟩ := List.mem_map.mp htext
    simp only [renderTriple, List.mem_append, not_or]
    exact ⟨⟨⟨⟨⟨⟨by decide, zero_not_mem_decimal _⟩, by decide⟩, zero_not_mem_decimal _⟩,
      by decide⟩, zero_not_mem_decimal _⟩, by decide⟩
  simp only [render, List.mem_append, not_or]
  exact ⟨⟨⟨⟨by decide, zero_not_mem_joined htriple⟩, by decide⟩, htime⟩, by decide⟩

theorem scan_render {vs : List Triple} {m : Nat} (hm : m ≤ vs.length) (time : List UInt8) :
    ∃ tokens, scan comma (keys m) (render vs time) = some tokens ∧
      List.Forall₂ Reads tokens (values (vs.take m)) := by
  have hhead : find Axis.x.key (message vs time).head = none := by
    show find Axis.x.key (lit "\x7b\"vibration\":") = none
    decide
  have hclear := clear_of_find_eq_none (b := 0x5B) (by decide) (by decide) hhead
  rw [← message_text, Vibration.text_eq, scan_skip hclear]
  exact scan_array (lit "\"time\":" ++ time ++ lit "\x7d") hm

/-- The byte of a block that `extract_val` leaves unwritten is not a digit. -/
def Malloc.NoDigit (malloc : Malloc) : Prop :=
  ∀ k n bytes, malloc k (n + 1) = some bytes → ∀ b ∈ bytes[n]?, isdigit b = false

theorem atoi_copied_of_reads {malloc : Malloc} (hmalloc : malloc.Succeeds)
    (hbyte : malloc.NoDigit) {token : List UInt8} {v : BitVec 32} (h : Reads token v) (k : Nat) :
    ∃ bytes, malloc k (token.length + 1) = some bytes ∧ atoi (copied token bytes) = v := by
  obtain ⟨bytes, hbytes⟩ := hmalloc k (token.length + 1)
  refine ⟨bytes, hbytes, h _ fun b hb => ?_⟩
  rw [List.head?_drop] at hb
  exact hbyte k token.length bytes hbytes b hb

/-- **Decoding undoes encoding**: from the rendered list a fill takes the first `n / 3`
samples, value by value. -/
theorem fillTxBuffer_render (malloc : Malloc) (hmalloc : malloc.Succeeds)
    (hbyte : malloc.NoDigit) (n : Nat) (hn : 3 ∣ n) (vs : List Triple)
    (hvs : n / 3 ≤ vs.length) (time : List UInt8) (htime : 0 ∉ time) (behind : List UInt8)
    (txBuffer : List (BitVec 32)) (hbuf : n ≤ txBuffer.length) (heap : Heap) :
    ∃ s, fillTxBuffer malloc txBuffer (4 * n) (cstr (render vs time ++ 0 :: behind)) heap
        = .ok ⟨⟩ s ∧
      s.cnt = n ∧ s.txBuffer = values (vs.take (n / 3)) ++ txBuffer.drop n := by
  have hr : rounds (4 * n / sizeofInt) = n / 3 := by
    simp only [rounds, sizeofInt]
    omega
  obtain ⟨tokens, hscan, hreads⟩ := scan_render hvs time
  have hatoi := hreads.imp fun _ _ h => atoi_copied_of_reads hmalloc hbyte h
  have hstored := stored_of_reads heap.calls hscan hatoi
  have hlen : (values (vs.take (n / 3))).length = n := by
    rw [length_values, List.length_take, Nat.min_eq_left hvs]
    omega
  rw [cstr_terminated (zero_not_mem_render vs htime)]
  obtain ⟨s, hs⟩ := (fillTxBuffer_ok_iff malloc txBuffer (4 * n) (render vs time) heap).mpr (by
    rw [hr, hstored, hlen, length_keys]
    omega)
  have hstores := fillTxBuffer_stores malloc txBuffer (4 * n) (render vs time) heap
  rw [hs, hr, hstored, storeAll_eq _ _ _ (by omega), hlen] at hstores
  refine ⟨s, hs, ?_, ?_⟩
  · rw [fillTxBuffer_cnt hs, hr]
    omega
  · simpa [final] using hstores

theorem fillTxBuffer_render_one :
    ∃ s, fillTxBuffer (fun _ n => some (.replicate n 0)) [7, 7, 7, 7] 12
        (cstr (render [⟨-13375, 194, -220⟩, ⟨1, 2, 3⟩] (decimal 1690) ++ 0 :: lit "5,")) ⟨0, []⟩
        = .ok ⟨⟩ s ∧
      s.cnt = 3 ∧ s.txBuffer = [-13375, 194, -220, 7] := by
  have hbyte : Malloc.NoDigit fun _ n => some (.replicate n 0) := by
    intro k n bytes h b hb
    cases h
    have hmem := List.mem_of_getElem? hb
    rw [List.eq_of_mem_replicate hmem]
    decide
  exact fillTxBuffer_render _ (fun _ n => ⟨.replicate n 0, rfl⟩) hbyte 3 (by decide)
    [⟨-13375, 194, -220⟩, ⟨1, 2, 3⟩] (by decide) (decimal 1690) (zero_not_mem_decimal _)
    (lit "5,") [7, 7, 7, 7] (by decide) ⟨0, []⟩

end Caeco.Payload
