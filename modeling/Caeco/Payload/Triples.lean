import Caeco.Payload.Acceptance
import Caeco.Payload.Vibration

/-!
# Which values make a triple

The scanner knows no objects. It takes the next x it sees, then the next y and the next z,
wherever they are. A triple is one sample's exactly if the sample whose x was taken shows a
y and a z as well.
-/

namespace Caeco.Payload

open Search CInt

/-! ## Where the stored values come from -/

/-- For each store the text that its value was parsed from, and the index: the cursor of the
last `strstr` before it, which is behind the pattern. -/
def sourcesFrom : Option (List UInt8) → List Event → List (List UInt8 × Nat)
  | _, [] => []
  | _, .strstr cursor :: es => sourcesFrom cursor es
  | some place, .store i :: es => (place, i) :: sourcesFrom (some place) es
  | cursor, _ :: es => sourcesFrom cursor es

def sources (trace : List Event) : List (List UInt8 × Nat) := sourcesFrom none trace

/-- The texts from the place of each value on, for keys looked up from a cursor. -/
def placesFound : List (List UInt8) → List UInt8 → List (List UInt8)
  | [], _ => []
  | key :: rest, text =>
      match lookup comma key text with
      | none => []
      | some (token, text') => (token ++ text') :: placesFound rest text'

theorem sourcesFrom_assigned (text place : List UInt8) (id i : Nat) :
    ∀ (trace : List Event) (cursor : Option (List UInt8)),
      sourcesFrom cursor (trace ++ [.strstr (some text), .strstr (some place),
          .malloc (some id), .atoi (.block id), .store i])
        = sourcesFrom cursor trace ++ [(place, i)] := by
  intro trace
  induction trace with
  | nil => intro cursor; rfl
  | cons e trace ih =>
      intro cursor
      cases e with
      | strstr cursor' => exact ih cursor'
      | store j =>
          cases cursor with
          | none => exact ih none
          | some place' => exact congrArg ((place', j) :: ·) (ih (some place'))
      | malloc block => cases cursor <;> exact ih _
      | atoi arg => cases cursor <;> exact ih _

theorem assigns_sources {malloc : Malloc} :
    ∀ (ks : List (List UInt8)) {s s' : State} {text : List UInt8} {u : Unit},
      s.payload = some text → (assigns malloc ks).run s = .ok u s' →
        sources s'.trace = sources s.trace ++ (placesFound ks text).zipIdx s.cnt := by
  intro ks
  induction ks with
  | nil =>
      intro s s' text u _ h
      cases h
      simp [placesFound]
  | cons key rest ih =>
      intro s s' text u hs h
      obtain ⟨s₁, hrun, h⟩ := exists_of_assigns_cons h
      obtain ⟨text₁, token, text', bytes, hs₁, hl, rfl⟩ := assign_ok hrun
      rw [hs] at hs₁
      cases hs₁
      have hone : sources (s.assigned text (token ++ text') token text' bytes).trace
          = sources s.trace ++ [(token ++ text', s.cnt)] :=
        sourcesFrom_assigned text (token ++ text') s.heap.calls s.cnt s.trace none
      rw [ih rfl h, hone]
      simp only [placesFound, hl, List.zipIdx_cons]
      simp [State.assigned]

theorem fillTxBuffer_sources {malloc : Malloc} {txBuffer : List (BitVec 32)}
    {txBuffSize : Nat} {payload : List UInt8} {heap : Heap} {u : Unit} {s : State}
    (h : fillTxBuffer malloc txBuffer txBuffSize payload heap = .ok u s) :
    sources s.trace
      = (placesFound (keys (rounds (txBuffSize / sizeofInt))) payload).zipIdx := by
  rw [fillTxBuffer_unrolled] at h
  rw [assigns_sources _ rfl h]
  rfl

/-! ## Rounds -/

theorem placesFound_length_le :
    ∀ {ks : List (List UInt8)} {text : List UInt8}, ∀ place ∈ placesFound ks text,
      place.length ≤ text.length := by
  intro ks
  induction ks with
  | nil => intro text place h; cases h
  | cons key rest ih =>
      intro text place h
      rw [placesFound] at h
      cases hl : lookup comma key text with
      | none => rw [hl] at h; cases h
      | some r =>
          obtain ⟨token, text'⟩ := r
          obtain ⟨w, post, rfl, _⟩ := lookup_spec hl
          rw [hl] at h
          rcases List.mem_cons.mp h with rfl | h
          · simp only [List.length_append]
            omega
          · have hle := ih place h
            simp only [List.length_append]
            omega

/-- The three lookups of a round, and what they leave to the others. -/
theorem scan_round {m : Nat} {text : List UInt8} {tokens : List (List UInt8)}
    (h : scan comma (keys (m + 1)) text = some tokens) :
    ∃ tx cx ty cy tz cz tokens', lookup comma Axis.x.key text = some (tx, cx) ∧
      lookup comma Axis.y.key cx = some (ty, cy) ∧
      lookup comma Axis.z.key cy = some (tz, cz) ∧ scan comma (keys m) cz = some tokens' ∧
      tokens = tx :: ty :: tz :: tokens' ∧
      placesFound (keys (m + 1)) text
        = (tx ++ cx) :: (ty ++ cy) :: (tz ++ cz) :: placesFound (keys m) cz := by
  rw [keys_succ] at h ⊢
  obtain ⟨tx, cx, _, hx, hyz, rfl⟩ := exists_of_scan_cons h
  obtain ⟨ty, cy, _, hy, hrest, rfl⟩ := exists_of_scan_cons hyz
  obtain ⟨tz, cz, tokens', hz, htokens, rfl⟩ := exists_of_scan_cons hrest
  refine ⟨tx, cx, ty, cy, tz, cz, tokens', hx, hy, hz, htokens, rfl, ?_⟩
  simp only [placesFound, hx, hy, hz]

/-- One triple at a time: its three places are in one object. -/
def Matched (objects : List (List (Axis × List UInt8))) : List (List UInt8) → Prop
  | px :: py :: pz :: places =>
      (∃ object ∈ objects, (.x, px) ∈ object ∧ (.y, py) ∈ object ∧ (.z, pz) ∈ object) ∧
        Matched objects places
  | _ => True

/-- An object in front whose values are all before the places makes no difference. -/
theorem matched_cons_iff {object : List (Axis × List UInt8)}
    {objects : List (List (Axis × List UInt8))} :
    ∀ {places : List (List UInt8)},
      (∀ a, ∀ place ∈ places, (a, place) ∉ object) →
        (Matched (object :: objects) places ↔ Matched objects places) := by
  intro places
  fun_induction Matched (object :: objects) places with
  | case1 px py pz places ih =>
      intro h
      have hrest := ih fun a place hplace => h a place (by simp [hplace])
      rw [Matched, hrest]
      have hnone := h .x px (by simp)
      simp [hnone]
  | case2 places hshort =>
      intro _
      rw [Matched]
      exact hshort

theorem matched_iff {objects : List (List (Axis × List UInt8))} :
    ∀ {m : Nat} {places : List (List UInt8)}, places.length = 3 * m →
      (Matched objects places ↔ ∀ i < m, ∃ object ∈ objects, ∃ px py pz,
        (px, 3 * i) ∈ places.zipIdx ∧ (py, 3 * i + 1) ∈ places.zipIdx ∧
        (pz, 3 * i + 2) ∈ places.zipIdx ∧
        (.x, px) ∈ object ∧ (.y, py) ∈ object ∧ (.z, pz) ∈ object) := by
  simp only [List.mem_zipIdx_iff_getElem?]
  intro m
  induction m with
  | zero =>
      intro places h
      rw [List.length_eq_zero_iff.mp h]
      simp [Matched]
  | succ m ih =>
      intro places h
      match places, h with
      | px :: py :: pz :: places, h =>
          have hlen : places.length = 3 * m := by
            simp only [List.length_cons] at h
            omega
          rw [Matched, ih hlen]
          constructor
          · rintro ⟨⟨object, hobject, hx, hy, hz⟩, hrest⟩ i hi
            cases i with
            | zero => exact ⟨object, hobject, px, py, pz, rfl, rfl, rfl, hx, hy, hz⟩
            | succ i => exact hrest i (by omega)
          · intro hall
            constructor
            · obtain ⟨object, hobject, px', py', pz', hpx, hpy, hpz, hx, hy, hz⟩ :=
                hall 0 (by omega)
              cases hpx
              cases hpy
              cases hpz
              exact ⟨object, hobject, hx, hy, hz⟩
            · intro i hi
              exact hall (i + 1) (by omega)

/-! ## Which triples are whole -/

/-- The first `m` samples that show an x are there, and show a y and a z too. -/
def Shown (m : Nat) (samples : List Sample) : Prop :=
  m ≤ (samples.filter (·.shows .x)).length ∧
    ∀ s ∈ (samples.filter (·.shows .x)).take m, s.shows .y = true ∧ s.shows .z = true

theorem shown_zero (samples : List Sample) : Shown 0 samples :=
  ⟨Nat.zero_le _, by simp⟩

theorem shown_nil {m : Nat} : Shown m [] ↔ m = 0 := by
  simp [Shown]

theorem shown_cons_of_hidden {m : Nat} {s : Sample} (rest : List Sample)
    (h : s.shows .x = false) : Shown m (s :: rest) ↔ Shown m rest := by
  rw [Shown, List.filter_cons_of_neg (by simp [h])]
  rfl

theorem shown_cons_of_shows {m : Nat} {s : Sample} (rest : List Sample)
    (h : s.shows .x = true) :
    Shown (m + 1) (s :: rest) ↔ (s.shows .y = true ∧ s.shows .z = true) ∧ Shown m rest := by
  rw [Shown, List.filter_cons_of_pos (by simp [h]), List.take_succ_cons, List.length_cons,
    List.forall_mem_cons, Nat.add_le_add_iff_right, Shown]
  constructor
  · rintro ⟨hlen, hs, hrest⟩
    exact ⟨hs, hlen, hrest⟩
  · rintro ⟨hs, hlen, hrest⟩
    exact ⟨hlen, hs, hrest⟩

theorem placesFound_skip {w : List UInt8} (hw : Clear Axis.x.key w) (m : Nat)
    (text : List UInt8) : placesFound (keys m) (w ++ text) = placesFound (keys m) text := by
  cases m with
  | zero => rfl
  | succ m => rw [keys_succ, placesFound, placesFound, lookup_skip hw]

theorem scan_skip {w : List UInt8} (hw : Clear Axis.x.key w) (m : Nat) (text : List UInt8) :
    scan comma (keys m) (w ++ text) = scan comma (keys m) text := by
  cases m with
  | zero => rfl
  | succ m => rw [keys_succ, scan, scan, lookup_skip hw]

theorem matched_nil {m : Nat} {text : List UInt8} {tokens : List (List UInt8)}
    (h : scan comma (keys m) text = some tokens) :
    Matched [] (placesFound (keys m) text) ↔ m = 0 := by
  cases m with
  | zero => exact ⟨fun _ => rfl, fun _ => trivial⟩
  | succ m =>
      obtain ⟨_, _, _, _, _, _, _, _, _, _, _, _, hplaces⟩ := scan_round h
      rw [hplaces]
      simp [Matched]

/-- A visible member's lookup takes its value, and then whatever comes up to a comma. -/
theorem Member.lookup_eq {m : Member} (hm : m.visible = true) {w t token rest : List UInt8}
    (hw : Clear m.axis.key w)
    (h : lookup comma m.axis.key (w ++ m.label ++ (m.value ++ t)) = some (token, rest)) :
    token ++ rest = m.value ++ t ∧ find [comma] t = some rest := by
  obtain ⟨hfound, hrest⟩ := find_of_lookup h
  rw [Member.find_visible hm hw, Option.some.injEq] at hfound
  have hplace := (List.append_cancel_left hfound).symm
  rw [hplace, find_skip (clear_of_not_mem [] m.comma_not_mem_value)] at hrest
  exact ⟨hplace, hrest⟩

/-- What precedes the first member of a sample. -/
def Sample.front (s : Sample) : List UInt8 := s.lead.val ++ 0x7B :: s.inside.val

theorem Sample.clear_front (s : Sample) (a : Axis) : Clear a.key s.front := by
  refine clear_of_not_mem _ ?_
  simp only [Sample.front, List.mem_append, List.mem_cons, not_or]
  exact ⟨s.lead.not_mem a.letter_not_blank, a.letter_ne (by decide),
    s.inside.not_mem a.letter_not_blank⟩

/-- The x of a sample that shows one is found. -/
theorem Sample.first_place {s : Sample} {mx : Member} {ms : List Member}
    (hms : s.members = mx :: ms) (hx : mx.axis = .x) (hv : mx.visible = true)
    {t token rest : List UInt8} (h : lookup comma Axis.x.key (s.text ++ t) = some (token, rest)) :
    token ++ rest = mx.value ++ Member.following ms (0x7D :: s.trail.val ++ t) ∧
      (.x, token ++ rest) ∈ s.places t := by
  rw [s.text_cons hms, ← hx] at h
  obtain ⟨hplace, _⟩ := Member.lookup_eq hv (s.clear_front _) h
  refine ⟨hplace, ?_⟩
  rw [hplace, Sample.places, hms, Member.places, hx]
  exact List.mem_cons_self

/-- A round that starts at a whole sample takes its triple and ends at the comma behind it. -/
theorem Sample.whole_round {s : Sample} (hx : s.shows .x = true) (hy : s.shows .y = true)
    (hz : s.shows .z = true) {t tx cx ty cy tz cz : List UInt8}
    (hlx : lookup comma Axis.x.key (s.text ++ t) = some (tx, cx))
    (hly : lookup comma Axis.y.key cx = some (ty, cy))
    (hlz : lookup comma Axis.z.key cy = some (tz, cz)) :
    (.x, tx ++ cx) ∈ s.places t ∧ (.y, ty ++ cy) ∈ s.places t ∧ (.z, tz ++ cz) ∈ s.places t ∧
      find [comma] t = some cz := by
  obtain ⟨mx, my, mz, hms, ⟨hmx, hvx⟩, ⟨hmy, hvy⟩, ⟨hmz, hvz⟩⟩ := Sample.exists_xyz hx hy hz
  have hcomma (a : Axis) : Clear a.key [comma] := a.clear_punctuation (by decide)
  have htrail : comma ∉ 0x7D :: s.trail.val := by
    simp only [List.mem_cons, not_or]
    exact ⟨by decide, s.trail.not_mem (by decide)⟩
  rw [s.text_cons hms, ← hmx] at hlx
  cases hlx.symm.trans (Member.lookup_following hvx (s.clear_front _) my [mz] _)
  rw [Member.following_cons, ← List.singleton_append, ← List.append_assoc, ← hmy] at hly
  cases hly.symm.trans (Member.lookup_following hvy (hcomma _) mz [] _)
  rw [Member.following_cons, ← List.singleton_append, ← List.append_assoc, ← hmz] at hlz
  obtain ⟨hpz, hcz⟩ := Member.lookup_eq hvz (hcomma _) hlz
  rw [Sample.places, hms, ← hmx, ← hmy, ← hmz, hpz]
  refine ⟨?_, ?_, ?_, ?_⟩
  · exact List.mem_cons_self
  · exact List.mem_cons_of_mem _ List.mem_cons_self
  · exact List.mem_cons_of_mem _ (List.mem_cons_of_mem _ List.mem_cons_self)
  · rw [← find_skip (clear_of_not_mem [] htrail)]
    exact hcz

/-- A place in a sample that a lookup of the axis has found is shown. -/
theorem Sample.shows_of_found {s : Sample} {a : Axis} {place t v : List UInt8}
    (hplace : (a, place) ∈ s.places t) (h : s.text ++ t = v ++ a.key ++ place) :
    s.shows a = true := by
  obtain ⟨m, hm, rfl, w, hw⟩ := Sample.label_of_mem hplace
  exact Sample.shows_iff.mpr ⟨m, hm, rfl, Member.visible_of_preceded (hw.symm.trans h)⟩

/-- If the triple taken from the x of a sample on is in the sample, the sample is whole. -/
theorem Sample.shows_of_round {s : Sample} {t tx cx ty cy tz cz : List UInt8}
    (hlx : lookup comma Axis.x.key (s.text ++ t) = some (tx, cx))
    (hly : lookup comma Axis.y.key cx = some (ty, cy))
    (hlz : lookup comma Axis.z.key cy = some (tz, cz))
    (hy : (.y, ty ++ cy) ∈ s.places t) (hz : (.z, tz ++ cz) ∈ s.places t) :
    s.shows .y = true ∧ s.shows .z = true := by
  obtain ⟨wx, _, htext, _⟩ := lookup_spec hlx
  obtain ⟨wy, _, hcx, _⟩ := lookup_spec hly
  obtain ⟨wz, _, hcy, _⟩ := lookup_spec hlz
  constructor
  · apply Sample.shows_of_found hy (v := wx ++ Axis.x.key ++ tx ++ wy)
    rw [htext, hcx]
    simp
  · apply Sample.shows_of_found hz (v := wx ++ Axis.x.key ++ tx ++ wy ++ Axis.y.key ++ ty ++ wz)
    rw [htext, hcx, hcy]
    simp

/-- A sample has no value in what is found behind it. -/
theorem matched_behind {s : Sample} {rest : List Sample} {t text : List UInt8}
    (hle : text.length ≤ (Sample.following rest t).length) (ks : List (List UInt8)) :
    Matched (Sample.allPlaces (s :: rest) t) (placesFound ks text) ↔
      Matched (Sample.allPlaces rest t) (placesFound ks text) := by
  apply matched_cons_iff
  intro a place hplace hmem
  have hlt := Sample.length_lt_of_mem hmem
  have hfound := placesFound_length_le place hplace
  omega

/-- The triples of every scan that comes through from the first sample on are whole exactly
if the samples whose x it takes show all three. -/
def ScannedWhole (samples : List Sample) (t : List UInt8) : Prop :=
  ∀ m tokens, scan comma (keys m) (Sample.array samples t) = some tokens →
    (Matched (Sample.allPlaces samples t) (placesFound (keys m) (Sample.array samples t)) ↔
      Shown m samples)

/-- The scan may as well start at the comma in front of the first sample. -/
theorem ScannedWhole.following {rest : List Sample} {t : List UInt8} (h : ScannedWhole rest t)
    {m : Nat} {text : List UInt8} {tokens : List (List UInt8)}
    (htext : text = Sample.following rest t ∨ rest = [])
    (hscan : scan comma (keys m) text = some tokens) :
    Matched (Sample.allPlaces rest t) (placesFound (keys m) text) ↔ Shown m rest := by
  by_cases hnil : rest = []
  · subst hnil
    rw [shown_nil]
    exact matched_nil hscan
  · have hcomma : Clear Axis.x.key [comma] := Axis.x.clear_punctuation (by decide)
    rw [htext.resolve_right hnil, Sample.following_eq_array hnil,
      ← List.singleton_append] at hscan ⊢
    rw [scan_skip hcomma] at hscan
    rw [placesFound_skip hcomma]
    exact h m tokens hscan

theorem ScannedWhole.cons_of_hidden {s : Sample} {rest : List Sample} {t : List UInt8}
    (hx : s.shows .x = false) (h : ScannedWhole rest t) : ScannedWhole (s :: rest) t := by
  intro m tokens hscan
  have hclear := s.clear_text hx
  rw [Sample.array] at hscan ⊢
  rw [scan_skip hclear] at hscan
  rw [shown_cons_of_hidden rest hx, placesFound_skip hclear, matched_behind (Nat.le_refl _)]
  exact h.following (.inl rfl) hscan

/-- The object of a sample's x is the sample: the values of the others are behind it. -/
theorem Sample.eq_places_of_mem {s : Sample} {rest : List Sample} {t place : List UInt8}
    {object : List (Axis × List UInt8)} (hobject : object ∈ Sample.allPlaces (s :: rest) t)
    (h : (.x, place) ∈ object) (hplace : (.x, place) ∈ s.places (Sample.following rest t)) :
    object = s.places (Sample.following rest t) := by
  rcases List.mem_cons.mp hobject with rfl | hrest
  · rfl
  · have hlt := Sample.length_lt_of_mem hplace
    have hlt' := Sample.length_lt_of_mem_all object hrest h
    omega

theorem ScannedWhole.cons_of_shows {s : Sample} {rest : List Sample} {t : List UInt8}
    (hx : s.shows .x = true) (h : ScannedWhole rest t) : ScannedWhole (s :: rest) t := by
  intro m tokens hscan
  cases m with
  | zero => exact ⟨fun _ => shown_zero _, fun _ => trivial⟩
  | succ m =>
      rw [Sample.array] at hscan ⊢
      obtain ⟨tx, cx, ty, cy, tz, cz, tokens', hlx, hly, hlz, hrest, _, hplaces⟩ :=
        scan_round hscan
      -- behind a whole sample the scan goes on at the comma
      have hnext (hcz : find [comma] (Sample.following rest t) = some cz) :
          Matched (Sample.allPlaces (s :: rest) t) (placesFound (keys m) cz) ↔
            Shown m rest := by
        rw [matched_behind (find_spec hcz).1.length_le]
        apply h.following _ hrest
        by_cases hnil : rest = []
        · exact .inr hnil
        · left
          rw [Sample.following_eq_array hnil] at hcz ⊢
          have hhere := find_here [comma] (Sample.array rest t)
          exact Option.some.inj (hcz.symm.trans hhere)
      obtain ⟨mx, ms, hms, hmx, hvx, _⟩ := Sample.exists_x hx
      have hpx := (Sample.first_place hms hmx hvx hlx).2
      rw [shown_cons_of_shows rest hx, hplaces, Matched]
      constructor
      · rintro ⟨⟨object, hobject, hox, hoy, hoz⟩, hmatched⟩
        rw [Sample.eq_places_of_mem hobject hox hpx] at hoy hoz
        obtain ⟨hy, hz⟩ := Sample.shows_of_round hlx hly hlz hoy hoz
        obtain ⟨_, _, _, hcz⟩ := Sample.whole_round hx hy hz hlx hly hlz
        exact ⟨⟨hy, hz⟩, (hnext hcz).mp hmatched⟩
      · rintro ⟨⟨hy, hz⟩, hshown⟩
        obtain ⟨hox, hoy, hoz, hcz⟩ := Sample.whole_round hx hy hz hlx hly hlz
        exact ⟨⟨_, List.mem_cons_self, hox, hoy, hoz⟩, (hnext hcz).mpr hshown⟩

/-- **The scan of the array.** The induction is on the samples. -/
theorem scannedWhole (samples : List Sample) (t : List UInt8) : ScannedWhole samples t := by
  induction samples with
  | nil =>
      intro m tokens h
      rw [shown_nil]
      exact matched_nil h
  | cons s rest ih =>
      by_cases hx : s.shows .x = true
      · exact ih.cons_of_shows hx
      · exact ih.cons_of_hidden (by simpa using hx)

/-! ## The whole message -/

/-- The first `m` triples stored were parsed from one object of the array each. -/
def FromOneObject (p : Vibration) (m : Nat) (trace : List Event) : Prop :=
  ∀ i < m, ∃ object ∈ p.objects, ∃ px py pz,
    (px, 3 * i) ∈ sources trace ∧ (py, 3 * i + 1) ∈ sources trace ∧
    (pz, 3 * i + 2) ∈ sources trace ∧
    (.x, px) ∈ object ∧ (.y, py) ∈ object ∧ (.z, pz) ∈ object

theorem length_placesFound :
    ∀ {ks : List (List UInt8)} {text : List UInt8} {tokens : List (List UInt8)},
      scan comma ks text = some tokens → (placesFound ks text).length = ks.length := by
  intro ks
  induction ks with
  | nil => intro text tokens _; rfl
  | cons key rest ih =>
      intro text tokens h
      obtain ⟨token, text', tokens', hl, htokens, _⟩ := exists_of_scan_cons h
      simp only [placesFound, hl, List.length_cons, ih htokens]

/-- A key in front of the array draws the first lookup there. -/
theorem not_matched_of_head {p : Vibration} {m : Nat} {tokens : List (List UInt8)}
    {found : List UInt8} (hhead : find Axis.x.key p.head = some found)
    (h : scan comma (keys (m + 1)) p.text = some tokens) :
    ¬ Matched p.objects (placesFound (keys (m + 1)) p.text) := by
  obtain ⟨tx, cx, _, _, _, _, _, hlx, _, _, _, _, hplaces⟩ := scan_round h
  rw [hplaces, Matched]
  rintro ⟨⟨object, hobject, hox, _, _⟩, _⟩
  have hlt := Sample.length_lt_of_mem_all object hobject hox
  have hle := Sample.length_following_le p.samples (0x5D :: p.tail)
  -- the place found has the whole array behind it
  have hfound := (find_of_lookup hlx).1
  rw [p.text_eq, List.append_assoc, find_append hhead, Option.some.injEq] at hfound
  have hkey := (find_spec hhead).2.length_le
  have hlen := congrArg List.length hfound
  simp only [List.length_append, List.length_cons, List.length_nil] at hlen hlt
  omega

theorem matched_text_iff {p : Vibration} {m : Nat} {tokens : List (List UInt8)}
    (h : scan comma (keys m) p.text = some tokens) :
    Matched p.objects (placesFound (keys m) p.text) ↔
      (0 < m → find Axis.x.key p.head = none) ∧ Shown m p.samples := by
  cases m with
  | zero =>
      exact ⟨fun _ => ⟨fun h => absurd h (Nat.lt_irrefl 0), shown_zero _⟩, fun _ => trivial⟩
  | succ m =>
      cases hhead : find Axis.x.key p.head with
      | some found =>
          have hnot := not_matched_of_head hhead h
          simp [hnot]
      | none =>
          have hclear := clear_of_find_eq_none (b := 0x5B) (by decide) (by decide) hhead
          rw [p.text_eq, scan_skip hclear] at h
          rw [p.text_eq, placesFound_skip hclear, Vibration.objects, scannedWhole _ _ (m + 1) _ h]
          simp

theorem fromOneObject_iff_matched {malloc : Malloc} {txBuffer : List (BitVec 32)} {m : Nat}
    {p : Vibration} {heap : Heap} {s : State}
    (h : fillTxBuffer malloc txBuffer (12 * m) p.text heap = .ok ⟨⟩ s) :
    ∃ tokens, scan comma (keys m) p.text = some tokens ∧
      (FromOneObject p m s.trace ↔ Matched p.objects (placesFound (keys m) p.text)) := by
  have hr : rounds (12 * m / sizeofInt) = m := by
    simp only [rounds, sizeofInt]
    omega
  have hlen := (fillTxBuffer_ok_iff malloc txBuffer (12 * m) p.text heap).mp ⟨s, h⟩
  obtain ⟨tokens, hscan⟩ := scan_of_stored hlen
  have hsources := fillTxBuffer_sources h
  rw [hr] at hscan hsources
  have hplaces := length_placesFound hscan
  rw [length_keys] at hplaces
  refine ⟨tokens, hscan, ?_⟩
  rw [matched_iff hplaces, FromOneObject, hsources]

/-- A fill that comes through takes each triple from one object of the array exactly if there
is no x to be seen in front of the array, and the objects whose x is seen show their y and z
too, as far as they are needed. -/
theorem fromOneObject_iff (malloc : Malloc) (txBuffer : List (BitVec 32)) (m : Nat)
    (p : Vibration) (heap : Heap) {s : State}
    (h : fillTxBuffer malloc txBuffer (12 * m) p.text heap = .ok ⟨⟩ s) :
    FromOneObject p m s.trace ↔
      (0 < m → find Axis.x.key p.head = none) ∧ Shown m p.samples := by
  obtain ⟨tokens, hscan, hiff⟩ := fromOneObject_iff_matched h
  rw [hiff]
  exact matched_text_iff hscan

end Caeco.Payload
