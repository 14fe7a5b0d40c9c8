import Caeco.Payload.StaleHeap
import Caeco.Payload.Triples

/-!
# Which stored triples are a sample's

A triple in the buffer is a sample's if its three integers were parsed from the sample's
members, and are the integers that stand there. The first is a matter of the scan alone. For
the second the integer must fit into an `int`, and what `malloc` finds behind the copied
token must not be read as more digits of it.
-/

namespace Caeco.Payload

open Search CInt

/-- Where in its triple the value of an axis is stored. -/
def Axis.offset : Axis → Nat
  | .x => 0
  | .y => 1
  | .z => 2

/-- The first `m` triples are whole: of each there is an object of the array (number `k`, as
a sample and with the places of its values), and for every axis a member of it that the value
in the buffer was parsed from and whose integer it is. -/
def TriplesWhole (p : Vibration) (m : Nat) (s : State) : Prop :=
  ∀ i < m, ∃ (k : Nat) (sample : Sample) (object : List (Axis × List UInt8)),
    p.samples[k]? = some sample ∧ p.objects[k]? = some object ∧
    ∀ a : Axis, ∃ member ∈ sample.members, member.axis = a ∧
      (∃ place, (a, place) ∈ object ∧ (place, 3 * i + a.offset) ∈ sources s.trace) ∧
      (s.txBuffer[3 * i + a.offset]?).map BitVec.toInt = some member.integer

/-! ## What `atoi` makes of a token and the block behind it -/

/-- The range of an `int`. -/
def Fits (v : Int) : Prop := -2 ^ 31 ≤ v ∧ v < 2 ^ 31

/-- The digits `ds` behind a token that ends in digits: there are none, or read on they give
the same `int`. -/
def Harmless (token ds : List UInt8) : Prop :=
  ds = [] ∨ BitVec.ofInt 32 (saturate (negateIf (signed token).1
    (accumulate (digits (signed token).2) ds))) = BitVec.ofInt 32 (parsed token)

/-- The token is read as the integer that it begins with: this fits, and if it goes up to the
token's end, no digits do harm in the block that call number `call` of `malloc` returns. -/
def ReadsBack (malloc : Malloc) (call : Nat) (token : List UInt8) : Prop :=
  Fits (parsed token) ∧ (¬ AllDigits (signed token).2 ∨
    ∀ bytes, malloc call (token.length + 1) = some bytes →
      Harmless token ((bytes.drop token.length).takeWhile isdigit))

instance : DecidablePred Fits := fun _ => instDecidableAnd

instance (token ds : List UInt8) : Decidable (Harmless token ds) := instDecidableOr

theorem toInt_eq_iff {b : BitVec 32} {v : Int} :
    b.toInt = v ↔ Fits v ∧ b = BitVec.ofInt 32 v := by
  constructor
  · rintro rfl
    exact ⟨⟨BitVec.le_toInt b, BitVec.toInt_lt⟩, (BitVec.ofInt_toInt).symm⟩
  · rintro ⟨⟨hlo, hhi⟩, rfl⟩
    rw [BitVec.toInt_ofInt]
    exact Int.bmod_eq_of_le (by omega) (by omega)

theorem Fits.saturate_eq {v : Int} (h : Fits v) : saturate v = v := by
  obtain ⟨hlo, hhi⟩ := h
  simp only [saturate]
  omega

/-- `r` is what the block holds behind the token. -/
theorem toInt_atoi_iff {token : List UInt8} (hne : (signed token).2 ≠ []) (r : List UInt8) :
    (atoi (token ++ r)).toInt = parsed token ↔
      Fits (parsed token) ∧
        (¬ AllDigits (signed token).2 ∨ Harmless token (r.takeWhile isdigit)) := by
  have hparsed : negateIf (signed token).1 (digits (signed token).2) = parsed token := rfl
  rw [toInt_eq_iff]
  refine and_congr_right fun hfits => ?_
  rw [atoi, strtol_eq, parsed, signed_append hne]
  by_cases hall : AllDigits (signed token).2
  · rw [digits_append hall, Harmless]
    by_cases hnil : r.takeWhile isdigit = []
    · refine iff_of_true ?_ (.inr (.inl hnil))
      rw [hnil, show accumulate (digits (signed token).2) [] = digits (signed token).2 from rfl,
        hparsed, hfits.saturate_eq]
    · simp [hall, hnil]
  · refine iff_of_true ?_ (.inl hall)
    rw [digits_append_of_stop hall, hparsed, hfits.saturate_eq]

/-! ## What stands at a place -/

theorem unsigned_eq {s : List UInt8} (h : IsInteger s) (r : List UInt8) :
    signed (s ++ r) = (decide (s.head? = some 0x2D), unsigned s ++ r) := by
  obtain ⟨hne, hdigits⟩ := h
  rw [unsigned] at hne hdigits ⊢
  split at hne
  · rename_i hminus
    obtain ⟨ds, rfl⟩ := List.head?_eq_some_iff.mp hminus
    rw [List.cons_append, signed_minus]
    simp
  · rename_i hminus
    obtain ⟨b, bs, rfl⟩ := List.exists_cons_of_ne_nil hne
    rw [if_neg hminus] at hdigits
    have hplain := plain_of_isdigit (hdigits b List.mem_cons_self)
    rw [List.cons_append, signed_plain hplain, if_neg hminus, decide_eq_false hminus]
    rfl

theorem isspace_of_isBlank {b : UInt8} (h : isBlank b = true) : isspace b = true := by
  simp only [isBlank, Bool.or_eq_true, decide_eq_true_eq] at h
  rcases h with ((rfl | rfl) | rfl) | rfl <;> decide

theorem Member.signed_value (m : Member) (r : List UInt8) :
    signed (m.value ++ r)
      = (decide (m.number.head? = some 0x2D), unsigned m.number ++ (m.behind.val ++ r)) := by
  have hblank : ∀ b ∈ m.after.val, isspace b = true :=
    fun b hb => isspace_of_isBlank (m.after.property b hb)
  rw [← unsigned_eq m.number_ok, signed, signed, Member.value]
  simp only [List.append_assoc]
  rw [List.dropWhile_append_of_pos hblank]

/-- The number ends with the member, whatever follows that is no digit. -/
theorem Member.parsed_value (m : Member) {r : List UInt8} (hr : Ends r) :
    parsed (m.value ++ r) = m.integer := by
  have hends : Ends (m.behind.val ++ r) := by
    intro b hb
    cases hbehind : m.behind.val with
    | nil =>
        rw [hbehind] at hb
        exact hr b hb
    | cons c cs =>
        rw [hbehind] at hb
        cases hb
        have hblank : isBlank b = true := m.behind.property b (by rw [hbehind]; simp)
        simp only [isBlank, Bool.or_eq_true, decide_eq_true_eq] at hblank
        rcases hblank with ((rfl | rfl) | rfl) | rfl <;> decide
  have hstop : (m.behind.val ++ r).takeWhile isdigit = [] := by
    cases hbehind : m.behind.val ++ r with
    | nil => rfl
    | cons b bs => simp [hends b (by rw [hbehind]; rfl)]
  rw [parsed, m.signed_value, Member.integer]
  simp only [digits_append m.number_ok.2, hstop]
  rfl

/-- A place is a member's value and the text that follows it, which is no digit. -/
theorem Member.value_of_mem {a : Axis} {place t : List UInt8} (ht : Ends t) :
    ∀ {ms : List Member}, (a, place) ∈ Member.places ms t →
      ∃ m ∈ ms, m.axis = a ∧ ∃ r, place = m.value ++ r ∧ Ends r := by
  intro ms
  induction ms with
  | nil => intro h; cases h
  | cons m ms ih =>
      intro h
      rcases List.mem_cons.mp h with h | h
      · cases h
        refine ⟨m, List.mem_cons_self, rfl, _, rfl, ?_⟩
        cases ms with
        | nil => exact ht
        | cons m' ms =>
            rw [Member.following_cons]
            intro b hb
            cases hb
            decide
      · obtain ⟨m', hm', hrest⟩ := ih h
        exact ⟨m', List.mem_cons_of_mem _ hm', hrest⟩

/-- The token at the place of a member has a number in it, the member's. -/
theorem Sample.token_of_place {sample : Sample} {a : Axis} {place token rest t : List UInt8}
    (hplace : (a, place) ∈ sample.places t) (h : place = token ++ comma :: rest) :
    ∃ member ∈ sample.members, member.axis = a ∧ (signed token).2 ≠ [] ∧
      parsed token = member.integer := by
  have hbrace : Ends (0x7D :: sample.trail.val ++ t) := by
    intro b hb
    cases hb
    decide
  obtain ⟨m, hm, haxis, r, hr, hends⟩ := Member.value_of_mem hbrace hplace
  -- the comma is behind the value
  obtain ⟨u, rfl, hu⟩ : ∃ u, token = m.value ++ u ∧ r = u ++ comma :: rest := by
    rw [hr] at h
    rcases List.append_eq_append_iff.mp h with ⟨u, htoken, hrest⟩ | ⟨u, hvalue, hrest⟩
    · exact ⟨u, htoken, hrest⟩
    · cases u with
      | nil => exact ⟨[], by simpa using hvalue.symm, by simpa using hrest.symm⟩
      | cons b u =>
          rw [List.cons_append, List.cons.injEq] at hrest
          have hcomma : comma ∈ m.value := by
            rw [hvalue, hrest.1]
            simp
          exact absurd hcomma m.comma_not_mem_value
  refine ⟨m, hm, haxis, ?_, m.parsed_value fun b hb => hends b ?_⟩
  · rw [m.signed_value]
    simp [m.number_ok.1]
  · rw [hu]
    cases u with
    | nil => cases hb
    | cons c u => exact hb

/-- A sample has one member for an axis at most. -/
theorem Sample.member_unique {sample : Sample} {m m' : Member} (hm : m ∈ sample.members)
    (hm' : m' ∈ sample.members) (h : m.axis = m'.axis) : m = m' :=
  List.inj_on_of_nodup_map (sample.ordered.nodup (by decide)) hm hm' h

theorem Sample.getElem?_allPlaces {t : List UInt8} {object : List (Axis × List UInt8)} :
    ∀ {samples : List Sample} {k : Nat}, (Sample.allPlaces samples t)[k]? = some object →
      ∃ sample t', samples[k]? = some sample ∧ object = sample.places t' := by
  intro samples
  induction samples with
  | nil => intro k h; cases h
  | cons s rest ih =>
      intro k h
      cases k with
      | zero =>
          cases h
          exact ⟨s, _, rfl, rfl⟩
      | succ k => exact ih h

/-! ## What is stored at an index -/

theorem stored_getElem? {malloc : Malloc} :
    ∀ {ks : List (List UInt8)} {calls : Nat} {text : List UInt8} {tokens : List (List UInt8)},
      scan comma ks text = some tokens → (stored malloc ks calls text).length = ks.length →
      ∀ {j : Nat} {token : List UInt8}, tokens[j]? = some token →
        ∃ bytes, malloc (calls + j) (token.length + 1) = some bytes ∧
          (stored malloc ks calls text)[j]? = some (atoi (copied token bytes)) := by
  intro ks
  induction ks with
  | nil =>
      intro calls text tokens h _ j token htoken
      cases h
      cases htoken
  | cons key rest ih =>
      intro calls text tokens h hlen j token htoken
      obtain ⟨first, text', tokens', hl, hscan, rfl⟩ := exists_of_scan_cons h
      cases hm : malloc calls (first.length + 1) with
      | none =>
          simp only [stored, hl, hm] at hlen
          cases hlen
      | some bytes =>
          simp only [stored, hl, hm, List.length_cons, Nat.add_right_cancel_iff] at hlen ⊢
          cases j with
          | zero =>
              cases htoken
              exact ⟨bytes, hm, rfl⟩
          | succ j =>
              obtain ⟨bytes', hm', hstored⟩ := ih hscan hlen htoken
              refine ⟨bytes', ?_, hstored⟩
              rw [← Nat.add_assoc, Nat.add_right_comm]
              exact hm'

theorem placesFound_token :
    ∀ {ks : List (List UInt8)} {text : List UInt8} {tokens : List (List UInt8)},
      scan comma ks text = some tokens → ∀ {j : Nat} {place : List UInt8},
        (placesFound ks text)[j]? = some place →
          ∃ token rest, tokens[j]? = some token ∧ place = token ++ comma :: rest := by
  intro ks
  induction ks with
  | nil => intro text tokens _ j place h; cases h
  | cons key keys ih =>
      intro text tokens h j place hplace
      obtain ⟨token, text', tokens', hl, hscan, rfl⟩ := exists_of_scan_cons h
      simp only [placesFound, hl] at hplace
      cases j with
      | zero =>
          cases hplace
          obtain ⟨r, hr⟩ := (find_spec (find_of_lookup hl).2).2
          exact ⟨token, r, rfl, by rw [← hr]; rfl⟩
      | succ j => exact ih hscan hplace

theorem length_of_scan :
    ∀ {ks : List (List UInt8)} {text : List UInt8} {tokens : List (List UInt8)},
      scan comma ks text = some tokens → tokens.length = ks.length := by
  intro ks
  induction ks with
  | nil => intro text tokens h; cases h; rfl
  | cons key keys ih =>
      intro text tokens h
      obtain ⟨token, text', tokens', _, hscan, rfl⟩ := exists_of_scan_cons h
      rw [List.length_cons, List.length_cons, ih hscan]

theorem exists_axis {m j : Nat} (h : j < 3 * m) : ∃ i < m, ∃ a : Axis, j = 3 * i + a.offset := by
  refine ⟨j / 3, by omega, ?_⟩
  have hcases : j % 3 = 0 ∨ j % 3 = 1 ∨ j % 3 = 2 := by omega
  rcases hcases with h | h | h
  · exact ⟨.x, by rw [Axis.offset]; omega⟩
  · exact ⟨.y, by rw [Axis.offset]; omega⟩
  · exact ⟨.z, by rw [Axis.offset]; omega⟩

/-- What a fill that comes through has done for each of its tokens: where the token is, what
`malloc` returned for it, and what is in the buffer. -/
structure Filled (malloc : Malloc) (m : Nat) (text : List UInt8) (heap : Heap) (s : State)
    (tokens : List (List UInt8)) : Prop where
  length : tokens.length = 3 * m
  places : ∀ {j place}, (place, j) ∈ sources s.trace →
    ∃ token rest, tokens[j]? = some token ∧ place = token ++ comma :: rest
  value : ∀ {j token}, tokens[j]? = some token → ∃ bytes,
    malloc (heap.calls + j) (token.length + 1) = some bytes ∧
      s.txBuffer[j]? = some (atoi (token ++ bytes.drop token.length))

theorem filled_of_ok {malloc : Malloc} {txBuffer : List (BitVec 32)} {m : Nat}
    (hbuf : 3 * m ≤ txBuffer.length) {text : List UInt8} {heap : Heap} {s : State}
    (h : fillTxBuffer malloc txBuffer (12 * m) text heap = .ok ⟨⟩ s)
    {tokens : List (List UInt8)} (hscan : scan comma (keys m) text = some tokens) :
    Filled malloc m text heap s tokens := by
  have hr : rounds (12 * m / sizeofInt) = m := by
    simp only [rounds, sizeofInt]
    omega
  have hlen := (fillTxBuffer_ok_iff malloc txBuffer (12 * m) text heap).mp ⟨s, h⟩
  have hstores := fillTxBuffer_stores malloc txBuffer (12 * m) text heap
  have hsources := fillTxBuffer_sources h
  rw [hr] at hlen hstores hsources
  rw [h, storeAll_eq _ _ _ (by rw [hlen, length_keys]; omega), List.take_zero,
    List.nil_append] at hstores
  refine ⟨?_, fun hmem => ?_, fun {j token} htoken => ?_⟩
  · rw [length_of_scan hscan, length_keys]
  · rw [hsources, List.mem_zipIdx_iff_getElem?] at hmem
    exact placesFound_token hscan hmem
  · obtain ⟨bytes, hm, hstored⟩ := stored_getElem? hscan hlen htoken
    refine ⟨bytes, hm, ?_⟩
    rw [show s.txBuffer = _ from hstores,
      List.getElem?_append_left (List.getElem?_eq_some_iff.mp hstored).1]
    exact hstored

/-! ## The whole message -/

/-- **When triples are not mixed**: a fill that comes through stores triples of one object each
exactly if there is no x to be seen in front of the array, the objects whose x is seen show
their y and z too, as far as they are needed, and every token is read as its integer. -/
theorem triples_whole_iff (malloc : Malloc) (txBuffer : List (BitVec 32)) (m : Nat)
    (hbuf : 3 * m ≤ txBuffer.length) (p : Vibration) (heap : Heap) {s : State}
    (h : fillTxBuffer malloc txBuffer (12 * m) p.text heap = .ok ⟨⟩ s)
    {tokens : List (List UInt8)} (hscan : scan comma (keys m) p.text = some tokens) :
    TriplesWhole p m s ↔
      ((0 < m → find Axis.x.key p.head = none) ∧ Shown m p.samples) ∧
        ∀ j token, tokens[j]? = some token → ReadsBack malloc (heap.calls + j) token := by
  have hfilled := filled_of_ok hbuf h hscan
  -- a value is its member's integer exactly if the token is read back
  have hvalue {i : Nat} {a : Axis} {place t : List UInt8} {sample : Sample}
      (hplace : (a, place) ∈ sample.places t)
      (hsource : (place, 3 * i + a.offset) ∈ sources s.trace) :
      ∃ token member, tokens[3 * i + a.offset]? = some token ∧ member ∈ sample.members ∧
        member.axis = a ∧
        ((s.txBuffer[3 * i + a.offset]?).map BitVec.toInt = some member.integer ↔
          ReadsBack malloc (heap.calls + (3 * i + a.offset)) token) := by
    obtain ⟨token, rest, htoken, hsplit⟩ := hfilled.places hsource
    obtain ⟨member, hmember, haxis, hne, hparsed⟩ := Sample.token_of_place hplace hsplit
    obtain ⟨bytes, hm, hbuffer⟩ := hfilled.value htoken
    refine ⟨token, member, htoken, hmember, haxis, ?_⟩
    rw [hbuffer, Option.map_some, Option.some.injEq, ← hparsed, toInt_atoi_iff hne, ReadsBack, hm]
    simp
  constructor
  · intro hwhole
    refine ⟨(fromOneObject_iff malloc txBuffer m p heap h).mp fun i hi => ?_,
      fun j token htoken => ?_⟩
    · obtain ⟨k, sample, object, _, hobject, hall⟩ := hwhole i hi
      obtain ⟨_, _, _, ⟨px, hx, hsx⟩, _⟩ := hall .x
      obtain ⟨_, _, _, ⟨py, hy, hsy⟩, _⟩ := hall .y
      obtain ⟨_, _, _, ⟨pz, hz, hsz⟩, _⟩ := hall .z
      exact ⟨object, List.mem_of_getElem? hobject, px, py, pz, hsx, hsy, hsz, hx, hy, hz⟩
    · obtain ⟨hj, _⟩ := List.getElem?_eq_some_iff.mp htoken
      obtain ⟨i, hi, a, rfl⟩ := exists_axis (hfilled.length ▸ hj)
      obtain ⟨k, sample, object, hsample, hobject, hall⟩ := hwhole i hi
      obtain ⟨member, hmember, haxis, ⟨place, hplace, hsource⟩, hinteger⟩ := hall a
      obtain ⟨sample', t, hsample', rfl⟩ := Sample.getElem?_allPlaces hobject
      rw [hsample] at hsample'
      cases hsample'
      obtain ⟨token', member', htoken', hmember', haxis', hiff⟩ := hvalue hplace hsource
      rw [htoken] at htoken'
      cases htoken'
      rw [Sample.member_unique hmember hmember' (haxis.trans haxis'.symm)] at hinteger
      exact hiff.mp hinteger
  · rintro ⟨hshown, hreads⟩ i hi
    obtain ⟨object, hobject, px, py, pz, hsx, hsy, hsz, hx, hy, hz⟩ :=
      (fromOneObject_iff malloc txBuffer m p heap h).mpr hshown i hi
    obtain ⟨k, hk⟩ := List.mem_iff_getElem?.mp hobject
    obtain ⟨sample, t, hsample, rfl⟩ := Sample.getElem?_allPlaces hk
    refine ⟨k, sample, _, hsample, hk, fun a => ?_⟩
    obtain ⟨place, hplace, hsource⟩ : ∃ place, (a, place) ∈ sample.places t ∧
        (place, 3 * i + a.offset) ∈ sources s.trace := by
      cases a with
      | x => exact ⟨px, hx, hsx⟩
      | y => exact ⟨py, hy, hsy⟩
      | z => exact ⟨pz, hz, hsz⟩
    obtain ⟨token, member, htoken, hmember, haxis, hiff⟩ := hvalue hplace hsource
    exact ⟨member, hmember, haxis, ⟨place, hplace, hsource⟩, hiff.mpr (hreads _ token htoken)⟩

theorem isInteger_digit (d : Fin 10) : IsInteger [0x30 + UInt8.ofNat d] := by
  have hdigit : isdigit (0x30 + UInt8.ofNat d) = true := by
    have hlt := d.isLt
    simp only [isdigit, Bool.and_eq_true, decide_eq_true_eq, UInt8.le_iff_toNat_le,
      UInt8.toNat_add, UInt8.toNat_ofNat']
    have hlow : (0x30 : UInt8).toNat = 48 := rfl
    have hhigh : (0x39 : UInt8).toNat = 57 := rfl
    omega
  have hunsigned : unsigned [0x30 + UInt8.ofNat d] = [0x30 + UInt8.ofNat d] := by
    rw [unsigned, if_neg]
    intro hminus
    rw [Option.some.inj hminus] at hdigit
    cases hdigit
  rw [IsInteger, hunsigned]
  exact ⟨List.cons_ne_nil _ _, List.forall_mem_singleton.mpr hdigit⟩

def digitMember (a : Axis) (d : Fin 10) : Member := .bare a _ (isInteger_digit d)

/-- The message with one object that has all three members. -/
def wholeTriple : Vibration where
  head := lit "\x7b\"vibration\":"
  samples := [.bare [digitMember .x 1, digitMember .y 2,
    digitMember .z 3] (by decide)]
  tail := lit ",\"time\":4\x7d"

theorem triples_whole_one_sample :
    ∃ s, fillTxBuffer (filledBlocks 0) [0, 0, 0] 12 wholeTriple.text ⟨0, []⟩ = .ok ⟨⟩ s ∧
      TriplesWhole wholeTriple 1 s := by
  have hscan : scan comma (keys 1) wholeTriple.text = some [lit "1", lit "2", lit "3\x7d]"] := by
    decide
  obtain ⟨s, hs⟩ := (fillTxBuffer_ok_iff_splits (filledBlocks_succeeds 0) [0, 0, 0] 12
    wholeTriple.text ⟨0, []⟩).mpr ((scan_isSome_iff (key_ok 1) _).mp ⟨_, hscan⟩)
  refine ⟨s, hs, (triples_whole_iff _ _ 1 (by decide) wholeTriple _ hs hscan).mpr
    ⟨⟨fun _ => by decide, by decide, by decide⟩, fun j token htoken => ⟨?_, .inr ?_⟩⟩⟩
  · have hfits : ∀ token ∈ [lit "1", lit "2", lit "3\x7d]"], Fits (parsed token) := by decide
    exact hfits token (List.mem_of_getElem? htoken)
  · -- the blocks hold no digit
    rintro bytes ⟨⟩
    refine .inl ?_
    rw [List.drop_replicate, Nat.add_sub_cancel_left]
    rfl

/-- The first of two objects has no z. -/
def missingZ : Vibration where
  head := lit "\x7b\"vibration\":"
  samples := [.bare [digitMember .x 1, digitMember .y 2] (by decide),
    .bare [digitMember .x 3, digitMember .y 4, digitMember .z 5]
      (by decide)]
  tail := lit ",\"time\":6\x7d"

/-- The z of the second object takes its place: no object has the three integers stored. -/
theorem missingZ_mixed :
    ∃ s, fillTxBuffer (filledBlocks 0) [0, 0, 0] 12 missingZ.text ⟨0, []⟩ = .ok ⟨⟩ s ∧
      s.txBuffer = [1, 2, 5] ∧ ¬ TriplesWhole missingZ 1 s ∧
      ∀ sample ∈ missingZ.samples, ¬ ∀ a : Axis, ∃ member ∈ sample.members, member.axis = a ∧
        (s.txBuffer[a.offset]?).map BitVec.toInt = some member.integer := by
  have hscan : scan comma (keys 1) missingZ.text = some [lit "1", lit "2\x7d", lit "5\x7d]"] := by
    decide
  obtain ⟨s, hs⟩ := (fillTxBuffer_ok_iff_splits (filledBlocks_succeeds 0) [0, 0, 0] 12
    missingZ.text ⟨0, []⟩).mpr ((scan_isSome_iff (key_ok 1) _).mp ⟨_, hscan⟩)
  have hstored := fillTxBuffer_stores (filledBlocks 0) [0, 0, 0] 12 missingZ.text ⟨0, []⟩
  rw [hs, show rounds (12 / sizeofInt) = 1 from rfl, stored_filledBlocks hscan] at hstored
  have hbuffer : s.txBuffer = [1, 2, 5] := hstored.trans (by decide)
  have hnone : ∀ sample ∈ missingZ.samples, ¬ ∀ a : Axis, ∃ member ∈ sample.members,
      member.axis = a ∧ (s.txBuffer[a.offset]?).map BitVec.toInt = some member.integer := by
    rw [hbuffer]
    intro sample hsample hall
    -- the first has no z, the second another x
    rcases List.mem_cons.mp hsample with rfl | hsample
    · obtain ⟨member, hmember, hz, _⟩ := hall .z
      revert member
      decide
    · cases List.mem_singleton.mp hsample
      obtain ⟨member, hmember, hx, hvalue⟩ := hall .x
      revert member
      decide
  refine ⟨s, hs, hbuffer, fun hwhole => ?_, hnone⟩
  obtain ⟨k, sample, object, hsample, _, hall⟩ := hwhole 0 (by decide)
  refine hnone sample (List.mem_of_getElem? hsample) fun a => ?_
  obtain ⟨member, hmember, haxis, _, hinteger⟩ := hall a
  rw [Nat.mul_zero, Nat.zero_add] at hinteger
  exact ⟨member, hmember, haxis, hinteger⟩

end Caeco.Payload
