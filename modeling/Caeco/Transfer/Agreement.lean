import Caeco.Hls.Stream
import Caeco.Transfer.CalcOutput

/-!
# Hardware and software agree

The kernel's answer to a packet and the numbers `calc_output` prints for the same words
are both the sums of the packet's groups of 330. The kernel keeps no state across
packets, so this holds of every packet of a back-to-back run.
-/

namespace Caeco.Transfer

open Cut CInt Caeco.Hls

/-! ## The software side -/

theorem slice_chunk (buffer : List (BitVec 32)) (i : Nat) :
    slice buffer (330 * i) (330 * (i + 1)) = (buffer.drop (330 * i)).take 330 := by
  unfold slice
  rw [show 330 * (i + 1) - 330 * i = 330 from by omega]

theorem slice_rest (buffer : List (BitVec 32)) (s : Nat) :
    slice buffer s buffer.length = buffer.drop s := by
  unfold slice
  exact List.take_of_length_le (by simp)

/-- For a whole number of elements, `calc_output` prints one sum per group of 330. -/
theorem calcOutput_groups {b : List (BitVec 32)} (hmax : ((4 * b.length : Nat) : Int) ≤ intMax) :
    ∃ out, calcOutput b ((4 * b.length : Nat) : Int) = some out ∧
      values out = (pieces (groups 330 b)).map List.sum := by
  refine ⟨_, calcOutput_slices hmax (by omega), ?_⟩
  have hdiv : 4 * b.length / 1320 = b.length / 330 := by omega
  have helems : 4 * b.length / 4 = b.length := by omega
  rw [hdiv, helems, groups_eq_slices (by decide), slice_rest]
  simp only [slice_chunk]
  -- both sides have a last, shorter piece exactly if 330 does not divide the length
  by_cases hr : b.length % 330 = 0
  · have hsize : 4 * b.length % 1320 = 0 := by omega
    have hnil : b.drop (330 * (b.length / 330)) = [] := by
      rw [List.drop_eq_nil_iff]
      omega
    rw [if_pos hsize, hnil, pieces_closed]
    simp [values, Function.comp_def, List.filterMap_map]
  · have hsize : ¬ 4 * b.length % 1320 = 0 := by omega
    have hrest : b.drop (330 * (b.length / 330)) ≠ [] := by
      rw [ne_eq, List.drop_eq_nil_iff]
      omega
    rw [if_neg hsize, pieces_open _ hrest]
    simp [values, Function.comp_def, List.filterMap_map]

/-! ## The hardware side -/

/-- Beats that carry the words `b` as one packet: `last` is set on the final beat only. -/
structure Carries (packet : List SideChan) (b : List (BitVec 32)) : Prop where
  data : packet.map SideChan.data = b
  framed : ∃ pre f, packet = pre ++ [f] ∧ (∀ c ∈ pre, c.last = 0) ∧ f.last = 1

/-- What the kernel writes for a packet. -/
def answer (packet : List SideChan) : List SideChan :=
  (pieces (groups 330 packet)).filterMap groupBeat

theorem isLast_eq_false {c : SideChan} (h : c.last = 0) : isLast c = false := by
  simp [isLast, h]

theorem isLast_eq_true {c : SideChan} (h : c.last = 1) : isLast c = true := by
  simp [isLast, h]

theorem groupBeat_of_ne_nil {g : List SideChan} (hg : g ≠ []) :
    ∃ f, groupBeat g = some f ∧ f.data = (g.map SideChan.data).sum ∧
      isLast f = endsIn isLast g := by
  obtain ⟨as, a, rfl⟩ := List.eq_nil_or_concat' g |>.resolve_left hg
  refine ⟨_, groupBeat_concat as a, by simp, ?_⟩
  rw [endsIn_concat]
  cases ha : isLast a with
  | true => rfl
  | false => rfl

theorem map_data_groupBeats :
    ∀ gs : List (List SideChan), (∀ g ∈ gs, g ≠ []) →
      (gs.filterMap groupBeat).map SideChan.data
        = gs.map fun g => (g.map SideChan.data).sum := by
  intro gs
  induction gs with
  | nil => intro _; rfl
  | cons g gs ih =>
      intro h
      obtain ⟨f, hf, hdata, _⟩ := groupBeat_of_ne_nil (h g (by simp))
      rw [List.filterMap_cons_some hf, List.map_cons, List.map_cons, hdata,
        ih fun q hq => h q (by simp [hq])]

/-- The answer's data words are the sums of the groups of 330 words. -/
theorem answer_data (packet : List SideChan) :
    (answer packet).map SideChan.data
      = (pieces (groups 330 (packet.map SideChan.data))).map List.sum := by
  rw [answer, map_data_groupBeats _ fun g hg => pieces_groups_ne_nil (by decide) hg,
    pieces_groups_map, List.map_map]
  rfl

/-- `last` is set on the final beat and on no other. -/
def IsPacket (packet : List SideChan) : Prop :=
  ∃ pre f, packet = pre ++ [f] ∧ (∀ c ∈ pre, isLast c = false) ∧ isLast f = true

/-- The answer to a packet is itself a packet. -/
theorem IsPacket.answer {packet : List SideChan} (h : IsPacket packet) :
    IsPacket (answer packet) := by
  obtain ⟨pre, f, rfl, hpre, hf⟩ := h
  rw [Transfer.answer, pieces_groups_concat, List.filterMap_append]
  obtain ⟨l, hl, _, hlast⟩ := groupBeat_of_ne_nil (g := (groups 330 pre).2 ++ [f]) (by simp)
  rw [endsIn_concat, hf] at hlast
  refine ⟨_, l, by rw [List.filterMap_cons_some hl]; rfl, ?_, hlast⟩
  intro c hc
  obtain ⟨g, hg, hgc⟩ := List.mem_filterMap.mp hc
  obtain ⟨c', hc', _, hlastc⟩ := groupBeat_of_ne_nil (groups_ne_nil (by decide) hg)
  rw [hgc] at hc'
  cases hc'
  rw [hlastc]
  -- an inner group consists of beats of `pre`, none of which has `last` set
  exact endsIn_of_forall fun a ha => hpre a (mem_of_mem_groups hg ha)

/-- **The kernel on back-to-back packets**: the `k`-th return comes exactly at the end of
the `k`-th packet, and the packets' answers have been written one after the other. -/
theorem invoke_packets :
    ∀ packets : List (List SideChan),
      (∀ p ∈ packets, IsPacket p) →
      invoke packets.length packets.flatten = ((packets.map answer).flatten, .returned []) := by
  intro packets
  induction packets with
  | nil => intro _; rfl
  | cons p ps ih =>
      intro h
      obtain ⟨pre, f, rfl, hpre, hf⟩ := h p (by simp)
      rw [List.flatten_cons, List.append_assoc, List.singleton_append, List.length_cons,
        invoke, sum330_packet hpre hf]
      simp only [ih fun q hq => h q (by simp [hq])]
      rfl

/-- Cutting the output after its `last` beats gives the answers back. -/
theorem cutAfter_answers :
    ∀ packets : List (List SideChan),
      (∀ p ∈ packets, IsPacket p) →
      cutAfter isLast (packets.map answer).flatten = (packets.map answer, []) := by
  intro packets
  induction packets with
  | nil => intro _; rfl
  | cons p ps ih =>
      intro h
      obtain ⟨out, l, hanswer, hout, hl⟩ := (h p (by simp)).answer
      rw [List.map_cons, List.flatten_cons, hanswer, List.append_assoc,
        List.singleton_append, cutAfter_marked hout hl, ih fun q hq => h q (by simp [hq])]

/-! ## Agreement -/

theorem Carries.isPacket {packet : List SideChan} {b : List (BitVec 32)}
    (h : Carries packet b) : IsPacket packet := by
  obtain ⟨pre, f, hp, hpre, hf⟩ := h.framed
  exact ⟨pre, f, hp, fun c hc => isLast_eq_false (hpre c hc), isLast_eq_true hf⟩

/-- One packet: the words answered are the numbers printed. -/
theorem Carries.answer_eq_values {packet : List SideChan} {b : List (BitVec 32)}
    (h : Carries packet b) (hmax : ((4 * b.length : Nat) : Int) ≤ intMax) :
    ∃ printed, calcOutput b ((4 * b.length : Nat) : Int) = some printed ∧
      (answer packet).map SideChan.data = values printed := by
  obtain ⟨printed, hprinted, hvalues⟩ := calcOutput_groups hmax
  exact ⟨printed, hprinted, by rw [answer_data, h.data, hvalues]⟩

theorem answers_eq_values {packets : List (List SideChan)} {bs : List (List (BitVec 32))}
    (hcarry : List.Forall₂ Carries packets bs)
    (hmax : ∀ b ∈ bs, ((4 * b.length : Nat) : Int) ≤ intMax) :
    List.Forall₂ (fun packet b => ∃ printed,
      calcOutput b ((4 * b.length : Nat) : Int) = some printed ∧
        packet.map SideChan.data = values printed) (packets.map answer) bs := by
  induction hcarry with
  | nil => exact .nil
  | cons h _ ih =>
      exact .cons (h.answer_eq_values (hmax _ (by simp)))
        (ih fun b hb => hmax b (by simp [hb]))

theorem isPacket_of_carries {packets : List (List SideChan)} {bs : List (List (BitVec 32))}
    (hcarry : List.Forall₂ Carries packets bs) : ∀ p ∈ packets, IsPacket p := by
  induction hcarry with
  | nil => intro p hp; cases hp
  | cons h _ ih =>
      intro p hp
      rcases List.mem_cons.mp hp with rfl | hp
      · exact h.isPacket
      · exact ih p hp

/-- Hardware and software agree on every run: after the `k`-th return of `sum_330` on the
packets of `k` arrays the output stream is `k` packets, and the data words of the `i`-th
are the numbers `calc_output` prints for the `i`-th array. -/
theorem sum330_agrees_with_calcOutput (bs : List (List (BitVec 32)))
    (packets : List (List SideChan)) (hcarry : List.Forall₂ Carries packets bs)
    (hmax : ∀ b ∈ bs, ((4 * b.length : Nat) : Int) ≤ intMax) :
    ∃ out, invoke bs.length packets.flatten = (out, .returned []) ∧
      ∃ answers, cutAfter isLast out = (answers, []) ∧ answers.length = bs.length ∧
        List.Forall₂ (fun packet b => ∃ printed,
          calcOutput b ((4 * b.length : Nat) : Int) = some printed ∧
            packet.map SideChan.data = values printed) answers bs := by
  have hpackets := isPacket_of_carries hcarry
  have hlen : packets.length = bs.length := hcarry.length_eq
  refine ⟨_, by rw [← hlen]; exact invoke_packets packets hpackets, packets.map answer,
    cutAfter_answers packets hpackets, by rw [List.length_map, hlen], ?_⟩
  exact answers_eq_values hcarry hmax

/-- A beat with the word 1. -/
def oneBeat (last : BitVec 1) : SideChan := ⟨1, 15, 15, 0, last, 0, 0⟩

/-- A packet of two words, and one that is longer than a group. -/
theorem sum330_agrees_with_calcOutput_two_packets :
    ∃ out, invoke 2 [[⟨5, 15, 15, 0, 0, 0, 0⟩, ⟨7, 15, 15, 0, 1, 0, 0⟩],
        .replicate 330 (oneBeat 0) ++ [oneBeat 1]].flatten = (out, .returned []) ∧
      ∃ answers, cutAfter isLast out = (answers, []) ∧ answers.length = 2 ∧
        List.Forall₂ (fun packet b => ∃ printed,
          calcOutput b ((4 * b.length : Nat) : Int) = some printed ∧
            packet.map SideChan.data = values printed) answers [[5, 7], .replicate 331 1] := by
  refine sum330_agrees_with_calcOutput [[5, 7], .replicate 331 1] _
    (.cons ⟨rfl, [_], _, rfl, by simp, rfl⟩ (.cons ⟨?_, _, _, rfl, ?_, rfl⟩ .nil))
    (List.forall_mem_cons.mpr ⟨by decide, List.forall_mem_singleton.mpr ?_⟩)
  · rw [List.map_append, List.map_replicate]
    exact (List.replicate_succ' (n := 330)).symm
  · intro c hc
    rw [List.eq_of_mem_replicate hc]
    rfl
  · rw [List.length_replicate]
    decide

end Caeco.Transfer
