import Caeco.Payload.Decimal
import Caeco.Payload.FillTxBuffer

/-!
# Vibration messages

The text of a message: a JSON object with an array of samples, each with some of the integer
members x, y and z in this order, and with white space and escapes where JSON allows them.
What the scanner sees of a member is its key: the letter, the quote and the colon side by
side.
-/

namespace Caeco.Payload

open Search

/-- The members that a sample can have. -/
inductive Axis where
  | x
  | y
  | z
deriving Repr, DecidableEq

def Axis.letter : Axis → UInt8
  | .x => 0x78
  | .y => 0x79
  | .z => 0x7A

/-- What `fill_tx_buffer` looks for. -/
def Axis.key (a : Axis) : List UInt8 := [a.letter, 0x22, 0x3A]

theorem keys_succ (r : Nat) : keys (r + 1) = Axis.x.key :: Axis.y.key :: Axis.z.key :: keys r :=
  rfl

/-! ## The text -/

def isBlank (b : UInt8) : Bool := b = 0x20 || b = 0x09 || b = 0x0A || b = 0x0D

/-- White space between two tokens. -/
abbrev Blanks := { s : List UInt8 // ∀ b ∈ s, isBlank b = true }

def Blanks.none : Blanks := ⟨[], nofun⟩

/-- The bytes of escapes for letters. -/
def escapeBytes : List UInt8 := lit "\\u0123456789abcdefABCDEF"

def numberBytes : List UInt8 := lit "0123456789-"

/-- A number without its minus sign, if it has one. -/
def unsigned (s : List UInt8) : List UInt8 := if s.head? = some 0x2D then s.tail else s

/-- An integer as JSON writes it: digits, with a minus sign in front of them or without. -/
def IsInteger (s : List UInt8) : Prop := unsigned s ≠ [] ∧ AllDigits (unsigned s)

instance : DecidablePred IsInteger := fun _ => instDecidableAnd

/-- A member of a sample, with the blanks before its name, on both sides of its colon and
behind its number, an integer of any size. The name may be escaped. -/
structure Member where
  axis : Axis
  before : Blanks
  name : List UInt8
  gap : Blanks
  after : Blanks
  number : List UInt8
  behind : Blanks
  name_ok : name = [axis.letter] ∨ ∀ b ∈ name, b ∈ escapeBytes
  number_ok : IsInteger number

/-- The text up to the colon. -/
def Member.label (m : Member) : List UInt8 :=
  m.before.val ++ 0x22 :: (m.name ++ 0x22 :: (m.gap.val ++ [0x3A]))

/-- The text behind the colon. -/
def Member.value (m : Member) : List UInt8 := m.after.val ++ m.number ++ m.behind.val

def Member.text (m : Member) : List UInt8 := m.label ++ m.value

/-- The integer that the number stands for. -/
def Member.integer (m : Member) : Int :=
  negateIf (m.number.head? = some 0x2D) (digits (unsigned m.number))

/-- The key stands in the text of the member. -/
def Member.visible (m : Member) : Bool := m.name = [m.axis.letter] ∧ m.gap.val = []

/-- The texts with commas in between. -/
def joined (texts : List (List UInt8)) : List UInt8 := [comma].intercalate texts

/-- An object of the array: its members, x before y before z, with the blanks around it. -/
structure Sample where
  lead : Blanks
  inside : Blanks
  members : List Member
  trail : Blanks
  ordered : (members.map Member.axis).Sublist [.x, .y, .z]

/-- The object as it stands in the message. -/
def Sample.text (s : Sample) : List UInt8 :=
  s.lead.val ++ 0x7B :: (s.inside.val ++ joined (s.members.map Member.text)) ++
    0x7D :: s.trail.val

/-- The scanner sees a member for the axis. -/
def Sample.shows (s : Sample) (a : Axis) : Bool :=
  s.members.any fun m => m.axis = a && m.visible

/-- A message: its samples, with any text around the array. -/
structure Vibration where
  head : List UInt8
  samples : List Sample
  tail : List UInt8

/-- The message as it stands in the payload. -/
def Vibration.text (p : Vibration) : List UInt8 :=
  p.head ++ 0x5B :: joined (p.samples.map Sample.text) ++ 0x5D :: p.tail

/-- A member without white space and escapes. -/
def Member.bare (a : Axis) (number : List UInt8) (h : IsInteger number) : Member where
  axis := a
  before := .none
  name := [a.letter]
  gap := .none
  after := .none
  number := number
  behind := .none
  name_ok := .inl rfl
  number_ok := h

def Sample.bare (members : List Member)
    (h : (members.map Member.axis).Sublist [.x, .y, .z]) : Sample where
  lead := .none
  inside := .none
  members := members
  trail := .none
  ordered := h

/-! ## Where the values are -/

/-- The text that follows a member, up to the end of the message: `ms` are the members that
are left, `t` is what follows them. -/
def Member.following (ms : List Member) (t : List UInt8) : List UInt8 :=
  ms.flatMap (fun m => comma :: m.text) ++ t

def Sample.following (samples : List Sample) (t : List UInt8) : List UInt8 :=
  samples.flatMap (fun s => comma :: s.text) ++ t

/-- The place of each member's value: the text from there on. -/
def Member.places : List Member → List UInt8 → List (Axis × List UInt8)
  | [], _ => []
  | m :: ms, t => (m.axis, m.value ++ Member.following ms t) :: Member.places ms t

/-- The places in one sample that `t` follows. -/
def Sample.places (s : Sample) (t : List UInt8) : List (Axis × List UInt8) :=
  Member.places s.members (0x7D :: s.trail.val ++ t)

def Sample.allPlaces : List Sample → List UInt8 → List (List (Axis × List UInt8))
  | [], _ => []
  | s :: rest, t => s.places (Sample.following rest t) :: Sample.allPlaces rest t

/-- For each object of the array, the places of its values. -/
def Vibration.objects (p : Vibration) : List (List (Axis × List UInt8)) :=
  Sample.allPlaces p.samples (0x5D :: p.tail)

theorem joined_cons (text : List UInt8) (texts : List (List UInt8)) :
    joined (text :: texts) = text ++ texts.flatMap (comma :: ·) := by
  induction texts generalizing text with
  | nil => simp [joined]
  | cons text' texts ih =>
      rw [joined, List.intercalate_cons_cons, ← joined, ih]
      simp

theorem Sample.text_cons (s : Sample) {m : Member} {ms : List Member} (h : s.members = m :: ms)
    (t : List UInt8) :
    s.text ++ t = s.lead.val ++ 0x7B :: s.inside.val ++ m.label ++
      (m.value ++ Member.following ms (0x7D :: s.trail.val ++ t)) := by
  rw [Sample.text, h, List.map_cons, joined_cons]
  simp [Member.following, Member.text, List.flatMap_map]

theorem Member.following_cons (m : Member) (ms : List Member) (t : List UInt8) :
    Member.following (m :: ms) t = comma :: (m.label ++ (m.value ++ Member.following ms t)) := by
  simp [Member.following, Member.text]

/-- A place is right behind the label of a member. -/
theorem Member.label_of_mem {a : Axis} {place t : List UInt8} :
    ∀ {ms : List Member}, (a, place) ∈ Member.places ms t →
      ∃ m ∈ ms, m.axis = a ∧ ∃ v, Member.following ms t = comma :: (v ++ m.label ++ place) := by
  intro ms
  induction ms with
  | nil => intro h; cases h
  | cons m ms ih =>
      intro h
      rw [Member.following_cons]
      rcases List.mem_cons.mp h with h | h
      · cases h
        exact ⟨m, List.mem_cons_self, rfl, [], by simp⟩
      · obtain ⟨m', hm', haxis, v, hv⟩ := ih h
        refine ⟨m', List.mem_cons_of_mem _ hm', haxis, m.label ++ m.value ++ comma :: v, ?_⟩
        rw [hv]
        simp

theorem Sample.label_of_mem {s : Sample} {a : Axis} {place t : List UInt8}
    (h : (a, place) ∈ s.places t) :
    ∃ m ∈ s.members, m.axis = a ∧ ∃ v, s.text ++ t = v ++ m.label ++ place := by
  obtain ⟨m, hm, haxis, v, hv⟩ := Member.label_of_mem h
  obtain ⟨m₁, ms, hms⟩ := List.exists_cons_of_ne_nil (List.ne_nil_of_mem hm)
  rw [hms, Member.following_cons, List.cons.injEq] at hv
  refine ⟨m, hm, haxis, s.lead.val ++ 0x7B :: s.inside.val ++ v, ?_⟩
  rw [s.text_cons hms t, List.append_assoc, hv.2]
  simp

/-! ## Places in order -/

theorem Sample.following_cons (s : Sample) (rest : List Sample) (t : List UInt8) :
    Sample.following (s :: rest) t = comma :: (s.text ++ Sample.following rest t) := by
  simp [Sample.following]

theorem Member.length_le_of_mem {a : Axis} {place t : List UInt8} :
    ∀ {ms : List Member}, (a, place) ∈ Member.places ms t → t.length ≤ place.length := by
  intro ms
  induction ms with
  | nil => intro h; cases h
  | cons m ms ih =>
      intro h
      rcases List.mem_cons.mp h with h | h
      · cases h
        simp only [Member.following, List.length_append]
        omega
      · exact ih h

/-- A value of a sample is before the text that follows the sample. -/
theorem Sample.length_lt_of_mem {s : Sample} {a : Axis} {place t : List UInt8}
    (h : (a, place) ∈ s.places t) : t.length < place.length := by
  have hle := Member.length_le_of_mem h
  simp only [List.length_append, List.length_cons] at hle
  omega

/-- And it is behind the text in front of the sample. -/
theorem Sample.length_le_of_mem {s : Sample} {a : Axis} {place t : List UInt8}
    (h : (a, place) ∈ s.places t) : place.length ≤ (s.text ++ t).length := by
  obtain ⟨m, _, _, v, hv⟩ := Sample.label_of_mem h
  rw [hv, List.length_append]
  omega

theorem Sample.length_lt_of_mem_all {a : Axis} {place t : List UInt8} :
    ∀ {samples : List Sample}, ∀ object ∈ Sample.allPlaces samples t, (a, place) ∈ object →
      place.length < (Sample.following samples t).length := by
  intro samples
  induction samples with
  | nil => intro object hobject; cases hobject
  | cons s rest ih =>
      intro object hobject h
      rw [Sample.following_cons, List.length_cons]
      rcases List.mem_cons.mp hobject with rfl | hobject
      · have hle := Sample.length_le_of_mem h
        omega
      · have hlt := ih object hobject h
        rw [List.length_append]
        omega

/-- The samples with commas in between, and then `t`. -/
def Sample.array : List Sample → List UInt8 → List UInt8
  | [], t => t
  | s :: rest, t => s.text ++ Sample.following rest t

theorem Vibration.text_eq (p : Vibration) :
    p.text = (p.head ++ [0x5B]) ++ Sample.array p.samples (0x5D :: p.tail) := by
  rw [Vibration.text]
  cases p.samples with
  | nil => simp [joined, Sample.array]
  | cons s rest =>
      rw [List.map_cons, joined_cons]
      simp [Sample.array, Sample.following, List.flatMap_map]

theorem Sample.length_following_le (samples : List Sample) (t : List UInt8) :
    (Sample.following samples t).length ≤ (Sample.array samples t).length + 1 := by
  cases samples with
  | nil => simp [Sample.following, Sample.array]
  | cons s rest => rw [Sample.following_cons, Sample.array, List.length_cons]

theorem Sample.following_eq_array {rest : List Sample} (h : rest ≠ []) (t : List UInt8) :
    Sample.following rest t = comma :: Sample.array rest t := by
  obtain ⟨s, rest, rfl⟩ := List.exists_cons_of_ne_nil h
  rw [Sample.following_cons, Sample.array]

/-! ## What the scanner sees -/

theorem Blanks.not_mem (s : Blanks) {b : UInt8} (hb : isBlank b = false) : b ∉ s.val := by
  intro h
  rw [s.property b h] at hb
  cases hb

theorem Axis.letter_not_escape (a : Axis) : a.letter ∉ escapeBytes := by
  cases a <;> decide

theorem Axis.letter_not_number (a : Axis) : a.letter ∉ numberBytes := by
  cases a <;> decide

theorem Axis.letter_not_blank (a : Axis) : isBlank a.letter = false := by
  cases a <;> decide

/-- The bytes between the parts of a message. -/
def punctuation : List UInt8 := lit "\x7b\x7d[]\":,"

theorem Axis.letter_ne (a : Axis) {b : UInt8} (hb : b ∈ punctuation) : a.letter ≠ b := by
  rintro rfl
  revert hb
  cases a <;> decide

theorem Member.visible_iff {m : Member} :
    m.visible = true ↔ m.name = [m.axis.letter] ∧ m.gap.val = [] := by
  simp [Member.visible]

/-- Where a key stands right before a member's value, it is the member's own. -/
theorem Member.visible_of_preceded {m : Member} {v w place : List UInt8}
    (h : v ++ m.label ++ place = w ++ m.axis.key ++ place) : m.visible = true := by
  have hlabel : v ++ m.before.val ++ 0x22 :: m.name ++ [0x22] ++ m.gap.val ++ [0x3A]
      = w ++ [m.axis.letter] ++ [0x22] ++ [0x3A] := by
    have hcancel := List.append_cancel_right h
    simpa [Member.label, Axis.key] using hcancel
  have hgap := (List.append_inj' hlabel rfl).1
  -- from the colon backwards: no blank, the quote, and the name
  rcases List.eq_nil_or_concat m.gap.val with hnil | ⟨gap, b, hconcat⟩
  · rw [hnil, List.append_nil] at hgap
    have hname := (List.append_inj' hgap rfl).1
    refine Member.visible_iff.mpr ⟨?_, hnil⟩
    rcases m.name_ok with hplain | hescape
    · exact hplain
    · exfalso
      rcases List.eq_nil_or_concat m.name with hname' | ⟨name, b, hname'⟩
      · rw [hname'] at hname
        have hquote := (List.append_inj' hname rfl).2
        revert hquote
        cases m.axis <;> decide
      · rw [hname', List.concat_eq_append, ← List.cons_append, ← List.append_assoc] at hname
        have hb := (List.append_inj' hname rfl).2
        rw [List.cons.injEq] at hb
        have hmem : b ∈ m.name := by
          rw [hname', List.concat_eq_append]
          simp
        exact m.axis.letter_not_escape (hb.1 ▸ hescape b hmem)
  · exfalso
    rw [hconcat, List.concat_eq_append, ← List.append_assoc] at hgap
    have hb := (List.append_inj' hgap rfl).2
    rw [List.cons.injEq] at hb
    have hmem : b ∈ m.gap.val := by
      rw [hconcat, List.concat_eq_append]
      simp
    rw [hb.1] at hmem
    exact m.gap.not_mem (by decide) hmem

/-! ## Text without the key -/

theorem isdigit_mem_numberBytes {b : UInt8} (h : isdigit b = true) : b ∈ numberBytes := by
  simp only [isdigit, Bool.and_eq_true, decide_eq_true_eq, UInt8.le_iff_toNat_le] at h
  have hrange : 0x30 ≤ b.toNat ∧ b.toNat ≤ 0x39 := h
  have hall : ∀ n < 10, UInt8.ofNat (0x30 + n) ∈ numberBytes := by decide
  have hmem := hall (b.toNat - 0x30) (by omega)
  rwa [Nat.add_sub_cancel' hrange.1, UInt8.ofNat_toNat] at hmem

theorem IsInteger.mem_numberBytes {s : List UInt8} (h : IsInteger s) {b : UInt8} (hb : b ∈ s) :
    b ∈ numberBytes := by
  have hdigits := h.2
  rw [unsigned] at hdigits
  split at hdigits
  · rename_i hminus
    obtain ⟨r, rfl⟩ := List.head?_eq_some_iff.mp hminus
    rcases List.mem_cons.mp hb with rfl | hb
    · decide
    · exact isdigit_mem_numberBytes (hdigits b hb)
  · exact isdigit_mem_numberBytes (hdigits b hb)

theorem Member.letter_not_mem_value (m : Member) (a : Axis) : a.letter ∉ m.value := by
  rw [Member.value]
  simp only [List.mem_append, not_or]
  refine ⟨⟨m.after.not_mem a.letter_not_blank, ?_⟩, m.behind.not_mem a.letter_not_blank⟩
  exact fun h => a.letter_not_number (m.number_ok.mem_numberBytes h)

/-- A label without the key of an axis is passed over in the search for it. -/
theorem Member.clear_label (m : Member) {a : Axis} (h : ¬ (m.axis = a ∧ m.visible = true)) :
    Clear a.key m.label := by
  have hbefore : a.letter ∉ m.before.val ++ [0x22] := by
    simp only [List.mem_append, List.mem_singleton, not_or]
    exact ⟨m.before.not_mem a.letter_not_blank, a.letter_ne (by decide)⟩
  have hgap : a.letter ∉ 0x22 :: (m.gap.val ++ [0x3A]) := by
    simp only [List.mem_cons, List.mem_append, List.not_mem_nil, or_false, not_or]
    exact ⟨a.letter_ne (by decide), m.gap.not_mem a.letter_not_blank, a.letter_ne (by decide)⟩
  rw [Member.label, show m.before.val ++ 0x22 :: (m.name ++ 0x22 :: (m.gap.val ++ [0x3A]))
    = (m.before.val ++ [0x22]) ++ (m.name ++ 0x22 :: (m.gap.val ++ [0x3A])) by simp]
  refine (clear_of_not_mem _ hbefore).append ?_
  by_cases hname : a.letter ∈ m.name
  · -- the letter alone; then a blank comes before the colon
    have hplain : m.name = [m.axis.letter] := by
      rcases m.name_ok with hplain | hescape
      · exact hplain
      · exact absurd (hescape _ hname) a.letter_not_escape
    have haxis : m.axis = a := by
      rw [hplain, List.mem_singleton] at hname
      revert hname
      cases a <;> cases m.axis <;> decide
    have hne : m.gap.val ≠ [] := by
      intro hnil
      exact h ⟨haxis, Member.visible_iff.mpr ⟨hplain, hnil⟩⟩
    obtain ⟨b, bs, hcons⟩ := List.exists_cons_of_ne_nil hne
    rw [hplain, haxis, List.singleton_append]
    refine ⟨fun r hp => ?_, clear_of_not_mem _ hgap⟩
    simp only [hcons, List.cons_append, List.cons_prefix_cons] at hp
    have hcolon : isBlank 0x3A = true := by
      rw [hp.2.2.1]
      exact m.gap.property b (by rw [hcons]; exact List.mem_cons_self)
    revert hcolon
    decide
  · exact (clear_of_not_mem _ hname).append (clear_of_not_mem _ hgap)

theorem Member.clear_text (m : Member) {a : Axis} (h : ¬ (m.axis = a ∧ m.visible = true)) :
    Clear a.key m.text :=
  (m.clear_label h).append (clear_of_not_mem _ (m.letter_not_mem_value a))

theorem Axis.clear_punctuation (a : Axis) {b : UInt8} (hb : b ∈ punctuation) :
    Clear a.key [b] :=
  clear_of_not_mem _ fun h => a.letter_ne hb (List.mem_singleton.mp h)

theorem clear_joined {a : Axis} :
    ∀ {texts : List (List UInt8)}, (∀ text ∈ texts, Clear a.key text) →
      Clear a.key (joined texts) := by
  intro texts
  induction texts with
  | nil => intro _; trivial
  | cons text texts ih =>
      intro h
      obtain ⟨htext, htexts⟩ := List.forall_mem_cons.mp h
      cases texts with
      | nil => simpa [joined] using htext
      | cons text' texts =>
          rw [joined, List.intercalate_cons_cons]
          exact (htext.append (a.clear_punctuation (by decide))).append (ih htexts)

/-- A sample that shows nothing for an axis is passed over in the search for its key. -/
theorem Sample.clear_text (s : Sample) {a : Axis} (h : s.shows a = false) :
    Clear a.key s.text := by
  have hmembers : ∀ text ∈ s.members.map Member.text, Clear a.key text := by
    intro text htext
    obtain ⟨m, hm, rfl⟩ := List.mem_map.mp htext
    refine m.clear_text fun hshown => ?_
    have hnone := List.any_eq_false.mp h m hm
    simp [hshown.1, hshown.2] at hnone
  have hleft : Clear a.key [0x7B] := a.clear_punctuation (by decide)
  have hright : Clear a.key [0x7D] := a.clear_punctuation (by decide)
  have hblank (s : Blanks) : Clear a.key s.val :=
    clear_of_not_mem _ (s.not_mem a.letter_not_blank)
  rw [Sample.text, show s.lead.val ++ 0x7B :: (s.inside.val ++ joined (s.members.map Member.text))
      ++ 0x7D :: s.trail.val
    = (s.lead.val ++ ([0x7B] ++ (s.inside.val ++ joined (s.members.map Member.text))))
      ++ ([0x7D] ++ s.trail.val) by simp]
  refine ((hblank s.lead).append (hleft.append ?_)).append (hright.append (hblank s.trail))
  exact (hblank s.inside).append (clear_joined hmembers)

/-! ## The members a sample shows -/

theorem Sample.shows_iff {s : Sample} {a : Axis} :
    s.shows a = true ↔ ∃ m ∈ s.members, m.axis = a ∧ m.visible = true := by
  simp [Sample.shows]

/-- The member for the first axis that may come is the first member. -/
theorem Member.exists_first {a : Axis} {axes : List Axis} (ha : a ∉ axes) {ms : List Member}
    (hordered : (ms.map Member.axis).Sublist (a :: axes))
    (h : ∃ m ∈ ms, m.axis = a ∧ m.visible = true) :
    ∃ m rest, ms = m :: rest ∧ m.axis = a ∧ m.visible = true ∧
      (rest.map Member.axis).Sublist axes := by
  obtain ⟨m, hm, haxis, hvisible⟩ := h
  cases ms with
  | nil => cases hm
  | cons m₁ rest =>
      rw [List.map_cons] at hordered
      by_cases hfirst : m₁.axis = a
      · rw [hfirst, List.cons_sublist_cons] at hordered
        rcases List.mem_cons.mp hm with rfl | hrest
        · exact ⟨m, rest, rfl, haxis, hvisible, hordered⟩
        · exact absurd (hordered.subset (List.mem_map.mpr ⟨m, hrest, haxis⟩)) ha
      · exfalso
        have hlater : (m₁.axis :: rest.map Member.axis).Sublist axes := by
          cases hordered with
          | cons _ hsub => exact hsub
          | cons_cons _ hsub => exact absurd rfl hfirst
        have hmem : m ∈ rest := by
          rcases List.mem_cons.mp hm with rfl | hrest
          · exact absurd haxis hfirst
          · exact hrest
        have hsub := (List.sublist_cons_self _ _).trans hlater
        exact ha (hsub.subset (List.mem_map.mpr ⟨m, hmem, haxis⟩))

theorem Sample.exists_x {s : Sample} (h : s.shows .x = true) :
    ∃ m rest, s.members = m :: rest ∧ m.axis = .x ∧ m.visible = true ∧
      (rest.map Member.axis).Sublist [.y, .z] :=
  Member.exists_first (by decide) s.ordered (Sample.shows_iff.mp h)

/-- What is shown for another axis is behind the first member. -/
theorem Member.shown_later {a b : Axis} (hab : b ≠ a) {m : Member} {rest : List Member}
    (hm : m.axis = a) (h : ∃ m' ∈ m :: rest, m'.axis = b ∧ m'.visible = true) :
    ∃ m' ∈ rest, m'.axis = b ∧ m'.visible = true := by
  obtain ⟨m', hm', haxis, hvisible⟩ := h
  rcases List.mem_cons.mp hm' with rfl | hrest
  · exact absurd (haxis.symm.trans hm) hab
  · exact ⟨m', hrest, haxis, hvisible⟩

theorem Sample.exists_xyz {s : Sample} (hx : s.shows .x = true) (hy : s.shows .y = true)
    (hz : s.shows .z = true) :
    ∃ mx my mz, s.members = [mx, my, mz] ∧ (mx.axis = .x ∧ mx.visible = true) ∧
      (my.axis = .y ∧ my.visible = true) ∧ (mz.axis = .z ∧ mz.visible = true) := by
  rw [Sample.shows_iff] at hy hz
  obtain ⟨mx, ms, hms, hmx, hvx, hordered⟩ := Sample.exists_x hx
  rw [hms] at hy hz
  have hy' := Member.shown_later (by decide) hmx hy
  have hz' := Member.shown_later (by decide) hmx hz
  obtain ⟨my, ms', rfl, hmy, hvy, hordered'⟩ := Member.exists_first (by decide) hordered hy'
  have hz'' := Member.shown_later (by decide) hmy hz'
  obtain ⟨mz, ms'', rfl, hmz, hvz, hnil⟩ := Member.exists_first (by decide) hordered' hz''
  have hnone : ms'' = [] := List.map_eq_nil_iff.mp (List.sublist_nil.mp hnil)
  subst hnone
  exact ⟨mx, my, mz, hms, ⟨hmx, hvx⟩, ⟨hmy, hvy⟩, ⟨hmz, hvz⟩⟩

/-! ## Lookups -/

theorem Member.label_of_visible {m : Member} (h : m.visible = true) :
    m.label = m.before.val ++ [0x22] ++ m.axis.key := by
  obtain ⟨hname, hgap⟩ := Member.visible_iff.mp h
  simp [Member.label, hname, hgap, Axis.key]

theorem Member.clear_before (m : Member) (a : Axis) : Clear a.key (m.before.val ++ [0x22]) :=
  (clear_of_not_mem _ (m.before.not_mem a.letter_not_blank)).append
    (a.clear_punctuation (by decide))

theorem Member.comma_not_mem_value (m : Member) : comma ∉ m.value := by
  rw [Member.value]
  simp only [List.mem_append, not_or]
  refine ⟨⟨m.after.not_mem (by decide), fun h => ?_⟩, m.behind.not_mem (by decide)⟩
  exact absurd (m.number_ok.mem_numberBytes h) (by decide)

/-- The search for the key of a visible member ends there. -/
theorem Member.find_visible {m : Member} (h : m.visible = true) {w : List UInt8}
    (hw : Clear m.axis.key w) (t : List UInt8) :
    find m.axis.key (w ++ m.label ++ t) = some (m.axis.key ++ t) := by
  rw [Member.label_of_visible h, ← List.append_assoc, List.append_assoc _ m.axis.key,
    find_skip (hw.append (m.clear_before m.axis)), find_here]

/-- Its token goes on to the next comma. -/
theorem Member.lookup_visible {m : Member} (h : m.visible = true) {w u : List UInt8}
    (hw : Clear m.axis.key w) (hu : comma ∉ u) (r : List UInt8) :
    lookup comma m.axis.key (w ++ m.label ++ (m.value ++ (u ++ comma :: r)))
      = some (m.value ++ u, comma :: r) := by
  have htoken : comma ∉ m.value ++ u := by
    simp only [List.mem_append, not_or]
    exact ⟨m.comma_not_mem_value, hu⟩
  have hhere := lookup_here (hw.append (m.clear_before m.axis)) htoken r
  rw [Member.label_of_visible h]
  simpa using hhere

/-- In front of another member the token is the value. -/
theorem Member.lookup_following {m : Member} (h : m.visible = true) {w : List UInt8}
    (hw : Clear m.axis.key w) (m' : Member) (ms : List Member) (t : List UInt8) :
    lookup comma m.axis.key (w ++ m.label ++ (m.value ++ Member.following (m' :: ms) t))
      = some (m.value, Member.following (m' :: ms) t) := by
  have hlookup := Member.lookup_visible h hw List.not_mem_nil
    (m'.label ++ (m'.value ++ Member.following ms t))
  rw [List.append_nil, List.nil_append, ← Member.following_cons] at hlookup
  exact hlookup

end Caeco.Payload
