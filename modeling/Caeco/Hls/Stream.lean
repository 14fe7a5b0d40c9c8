import Caeco.Hls.Sum330

/-!
# `sum_330` over whole streams

The run lemmas: what one invocation does with a packet, and with a packet that is not
finished yet. From them, by cutting the stream at its `last` beats, what the free-running
kernel writes for a stream of any shape.
-/

namespace Caeco.Hls

open Cut

/-! ## One invocation -/

/-- Beats without `last` only fill groups: each group closed is written, and the loop
head's locals stand for the group left open. -/
theorem whileTrue_unmarked {g xs : List SideChan} (hg : g.length < 330)
    (h : ∀ b ∈ xs, isLast b = false) (rest : List SideChan) :
    whileTrue (localsOf g) (xs ++ rest)
      = ((cutWhen (hasLength 330) g xs).1.filterMap groupBeat
            ++ (whileTrue (localsOf (cutWhen (hasLength 330) g xs).2) rest).1,
          (whileTrue (localsOf (cutWhen (hasLength 330) g xs).2) rest).2) := by
  induction xs generalizing g with
  | nil => simp
  | cons b bs ih =>
      -- the locals stand for `g`; whether `b` fills it decides what they stand for next
      have hb : isLast b = false := h b (by simp)
      have hbs : ∀ c ∈ bs, isLast c = false := fun c hc => h c (by simp [hc])
      cases hfull : hasLength 330 (g ++ [b]) with
      | true =>
          have hlen : (g ++ [b]).length = 330 := by simpa [hasLength] using hfull
          have hbeat : groupBeat (g ++ [b]) = some _ := groupBeat_concat g b
          rw [cutWhen_cons_full _ hfull, List.cons_append, whileTrue,
            iteration_full hb hlen]
          simp [ih (g := []) (by simp) hbs, hbeat]
      | false =>
          have hlen : (g ++ [b]).length ≠ 330 := by simpa [hasLength] using hfull
          have hopen : (g ++ [b]).length < 330 := by
            simp only [List.length_append, List.length_singleton] at hlen ⊢
            omega
          rw [cutWhen_cons_open _ hfull, List.cons_append, whileTrue,
            iteration_open hb hlen]
          simp [ih hopen hbs]

/-- **A packet is one invocation**: `sum_330` reads up to the first `last` beat, writes
one beat per group of the packet and returns. -/
theorem sum330_packet {pre : List SideChan} {b : SideChan}
    (hpre : ∀ c ∈ pre, isLast c = false) (hb : isLast b = true) (rest : List SideChan) :
    sum330 (pre ++ b :: rest)
      = ((pieces (groups 330 (pre ++ [b]))).filterMap groupBeat, .returned rest) := by
  rw [sum330, ← localsOf_nil, whileTrue_unmarked (by simp) hpre, whileTrue,
    iteration_last _ hb, pieces_groups_concat, List.filterMap_append, groups]
  simp [groupBeat_concat]

/-- Without a `last` beat the invocation never returns: it has written the groups filled
so far and waits for more. -/
theorem sum330_unfinished {xs : List SideChan} (h : ∀ c ∈ xs, isLast c = false) :
    sum330 xs = ((groups 330 xs).1.filterMap groupBeat,
      .waiting (localsOf (groups 330 xs).2)) := by
  have hrun := whileTrue_unmarked (g := []) (by simp) h []
  rw [List.append_nil] at hrun
  rw [sum330, ← localsOf_nil, hrun, whileTrue, List.append_nil, groups]

/-! ## Free-running -/

/-- Is the group completed: 330 beats, or ended by a `last` beat? -/
def completed (g : List SideChan) : Bool := hasLength 330 g || endsIn isLast g

/-- The groups of a stream: cut after every `last` beat, each packet cut from its start
into groups of 330 beats. -/
def streamGroups (input : List SideChan) : List (List SideChan) :=
  (pieces (cutAfter isLast input)).flatMap fun packet => pieces (groups 330 packet)

/-- One beat per completed group, in order. -/
def groupedBeats (input : List SideChan) : List SideChan :=
  ((streamGroups input).filter completed).filterMap groupBeat

/-- Every group of a finished packet is completed. -/
theorem completed_of_packet {pre : List SideChan} {b : SideChan} (hb : isLast b = true) :
    ∀ g ∈ pieces (groups 330 (pre ++ [b])), completed g = true := by
  intro g hg
  rw [pieces_groups_concat] at hg
  rcases List.mem_append.mp hg with hg | hg
  · simp [completed, hasLength, groups_length 330 pre g hg]
  · rw [List.mem_singleton.mp hg]
    simp [completed, hb]

theorem groupedBeats_packet {pre : List SideChan} {b : SideChan}
    (hpre : ∀ c ∈ pre, isLast c = false) (hb : isLast b = true) (rest : List SideChan) :
    groupedBeats (pre ++ b :: rest)
      = (pieces (groups 330 (pre ++ [b]))).filterMap groupBeat ++ groupedBeats rest := by
  rw [groupedBeats, streamGroups, cutAfter_marked hpre hb, pieces_cons, List.flatMap_cons,
    List.filter_append, List.filter_eq_self.mpr (completed_of_packet hb),
    List.filterMap_append, groupedBeats, streamGroups]

/-- In an unfinished packet the full groups are completed, the open one is not. -/
theorem groupedBeats_unfinished {xs : List SideChan} (h : ∀ c ∈ xs, isLast c = false) :
    groupedBeats xs = (groups 330 xs).1.filterMap groupBeat := by
  have hclosed : ∀ g ∈ (groups 330 xs).1, completed g = true := fun g hg => by
    simp [completed, hasLength, groups_length 330 xs g hg]
  -- the open group is too short to be full and ends in no `last` beat
  have hopen : completed (groups 330 xs).2 = false := by
    have hlen := groups_rest_length (n := 330) (by decide) xs
    have hmark : endsIn isLast (groups 330 xs).2 = false :=
      endsIn_of_forall fun a ha => h a (mem_of_mem_groups_rest ha)
    simp only [completed, hmark, Bool.or_false, hasLength, beq_eq_false_iff_ne]
    omega
  have hfilter : (pieces (groups 330 xs)).filter completed = (groups 330 xs).1 := by
    unfold pieces
    split
    · exact List.filter_eq_self.mpr hclosed
    · simp [List.filter_append, List.filter_eq_self.mpr hclosed, hopen]
  rw [groupedBeats, streamGroups, cutAfter_unmarked h]
  cases xs with
  | nil => rfl
  | cons a as => rw [pieces_open _ (by simp), List.nil_append, List.flatMap_singleton, hfilter]

/-- **The free-running kernel**: invoked again whenever it returns, `sum_330` has written
exactly one beat for every completed group of the stream, in order, once it has consumed
the stream, and then waits for its next beat. -/
theorem invoke_writes_groups (input : List SideChan) :
    ∀ n, input.length < n →
      ∃ l, invoke n input = (groupedBeats input, .waiting l) := by
  intro n hn
  induction n generalizing input with
  | zero => omega
  | succ n ih =>
      rcases unmarked_or_first isLast input with h | ⟨pre, b, post, rfl, hpre, hb⟩
      · rw [invoke, sum330_unfinished h, groupedBeats_unfinished h]
        exact ⟨_, rfl⟩
      · -- the invocation returns behind `b`, and the next one gets a shorter stream
        have hpost : post.length < n := by simp at hn; omega
        obtain ⟨l, hl⟩ := ih post hpost
        rw [invoke, sum330_packet hpre hb, groupedBeats_packet hpre hb]
        simp only [hl]
        exact ⟨l, rfl⟩

/-- The output for a stream of any shape, once the kernel has consumed it. -/
theorem sum330_stream_output (input : List SideChan) (extra : Nat) :
    ∃ l, invoke (input.length + 1 + extra) input = (groupedBeats input, .waiting l) :=
  invoke_writes_groups input _ (by omega)

end Caeco.Hls
