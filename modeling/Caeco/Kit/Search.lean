import Mathlib.Data.List.Infix

/-!
# Leftmost search and cursor scans

`find` is leftmost substring search that answers with the text from the occurrence on,
the way `strstr` answers with a pointer. A scan looks up a list of keys one after the
other: each lookup searches its key from the cursor, takes the token up to the next
terminator and leaves the cursor at that terminator.

The scan is greedy, and greedy is enough: it succeeds on every text that any choice of
occurrences could serve (`scan_of_splits`). And each lookup is stable: what it finds in a text
it finds in every extension of that text (`lookup_append`).
-/

namespace Search

variable {α : Type}

/-! ## The texts a scan is meant for -/

/-- The text is a sequence of keys in order, each followed by some token and a `stop`, with
any text in between and behind. -/
inductive Splits (stop : α) : List (List α) → List α → Prop where
  | nil (rest : List α) : Splits stop [] rest
  | cons {key : List α} {keys : List (List α)} (w t : List α) {rest : List α} :
      Splits stop keys rest → Splits stop (key :: keys) (w ++ key ++ t ++ stop :: rest)

/-- Text in front does no harm. -/
theorem Splits.prepend {stop : α} {keys : List (List α)} {s : List α}
    (h : Splits stop keys s) (pre : List α) : Splits stop keys (pre ++ s) := by
  cases h with
  | nil rest => exact .nil _
  | @cons key keys w t rest hrest =>
      rw [show pre ++ (w ++ key ++ t ++ stop :: rest) = (pre ++ w) ++ key ++ t ++ stop :: rest
        from by simp]
      exact .cons (pre ++ w) t hrest

/-- A stop in front is not part of a key, so it can be left off. -/
theorem Splits.of_cons {stop : α} {keys : List (List α)} {s : List α}
    (hkeys : ∀ key ∈ keys, key ≠ [] ∧ stop ∉ key) (h : Splits stop keys (stop :: s)) :
    Splits stop keys s := by
  generalize hcur : stop :: s = cur at h
  cases h with
  | nil rest => exact .nil _
  | @cons key keys w t rest hrest =>
      obtain ⟨hne, hstop⟩ := hkeys key (by simp)
      cases w with
      | nil =>
          obtain ⟨a, as, rfl⟩ := List.exists_cons_of_ne_nil hne
          simp only [List.nil_append, List.cons_append, List.cons.injEq] at hcur
          exact absurd (by simp [hcur.1]) hstop
      | cons b w =>
          simp only [List.cons_append, List.cons.injEq] at hcur
          rw [hcur.2]
          exact .cons w t hrest

/-- The shortest text for the keys: each one followed by a stop. -/
theorem Splits.flatMap (stop : α) (keys : List (List α)) :
    Splits stop keys (keys.flatMap (· ++ [stop])) := by
  induction keys with
  | nil => exact .nil _
  | cons key keys ih => simpa using Splits.cons [] [] ih

/-! ## Search -/

variable [DecidableEq α]

/-- The text from the first occurrence of `needle` on. -/
def find (needle : List α) : List α → Option (List α)
  | [] => if needle = [] then some [] else none
  | a :: as => if needle <+: a :: as then some (a :: as) else find needle as

theorem find_spec {needle hay s : List α} (h : find needle hay = some s) :
    s <:+ hay ∧ needle <+: s := by
  induction hay with
  | nil =>
      simp only [find] at h
      split at h
      · rename_i hn
        cases h
        exact ⟨List.suffix_refl _, by rw [hn]⟩
      · cases h
  | cons a as ih =>
      simp only [find] at h
      split at h
      · rename_i hp
        cases h
        exact ⟨List.suffix_refl _, hp⟩
      · exact ⟨(ih h).1.trans (List.suffix_cons _ _), (ih h).2⟩

/-- Searching from an earlier place never finds a later occurrence: whatever occurrence
there is in `hay`, the one found is at it or before it. -/
theorem find_leftmost {needle s : List α} (hp : needle <+: s) :
    ∀ hay : List α, s <:+ hay → ∃ t, find needle hay = some t ∧ s <:+ t := by
  intro hay
  induction hay with
  | nil =>
      intro hs
      have hnil : s = [] := List.suffix_nil.mp hs
      subst hnil
      exact ⟨[], by simp [find, List.prefix_nil.mp hp], List.suffix_refl _⟩
  | cons a as ih =>
      intro hs
      by_cases hpre : needle <+: a :: as
      · exact ⟨a :: as, by simp only [find, if_pos hpre], hs⟩
      · rcases List.suffix_cons_iff.mp hs with rfl | hs
        · exact absurd hp hpre
        · obtain ⟨t, ht, hst⟩ := ih hs
          exact ⟨t, by simp only [find, if_neg hpre, ht], hst⟩

/-- What is found in a text is found, at the same place, in every extension of it. -/
theorem find_append {needle hay s : List α} (h : find needle hay = some s) (r : List α) :
    find needle (hay ++ r) = some (s ++ r) := by
  induction hay with
  | nil =>
      simp only [find] at h
      split at h
      · rename_i hn
        cases h
        cases r with
        | nil => simp [find, hn]
        | cons b bs => simp [find, hn]
      · cases h
  | cons a as ih =>
      simp only [find] at h
      split at h
      · rename_i hp
        cases h
        simp only [List.cons_append, find]
        rw [if_pos (by rw [← List.cons_append]; exact hp.trans (List.prefix_append _ _))]
      · rename_i hp
        -- the occurrence lies in `as`, so `needle` is too short to reach into `r`
        have hlen : needle.length ≤ (a :: as).length := by
          have h1 := (find_spec h).2.length_le
          have h2 := (find_spec h).1.length_le
          simp only [List.length_cons]
          omega
        have hp' : ¬ needle <+: a :: (as ++ r) := by
          intro hc
          rw [← List.cons_append] at hc
          exact hp (List.prefix_of_prefix_length_le hc (List.prefix_append _ _) hlen)
        simp only [List.cons_append, find]
        rw [if_neg hp']
        exact ih h

/-! ## Text that a search passes over -/

/-- Whatever follows, no occurrence of `needle` begins in the text. -/
def Clear (needle : List α) : List α → Prop
  | [] => True
  | a :: as => (∀ r, ¬ needle <+: a :: as ++ r) ∧ Clear needle as

omit [DecidableEq α] in
theorem Clear.append {needle v w : List α} (hv : Clear needle v) (hw : Clear needle w) :
    Clear needle (v ++ w) := by
  induction v with
  | nil => exact hw
  | cons a as ih =>
      refine ⟨fun r => ?_, ih hv.2⟩
      have hnone := hv.1 (w ++ r)
      rw [← List.append_assoc] at hnone
      exact hnone

omit [DecidableEq α] in
theorem clear_of_not_mem {b : α} (bs : List α) {w : List α} (h : b ∉ w) :
    Clear (b :: bs) w := by
  induction w with
  | nil => trivial
  | cons a as ih =>
      obtain ⟨hne, has⟩ := not_or.mp (mt List.mem_cons.mpr h)
      refine ⟨fun r hp => ?_, ih has⟩
      exact hne (List.cons_prefix_cons.mp hp).1

/-- A search that fails does not succeed across a byte that is not in the needle. -/
theorem clear_of_find_eq_none {needle w : List α} {b : α} (hne : needle ≠ [])
    (hb : b ∉ needle) (h : find needle w = none) : Clear needle (w ++ [b]) := by
  induction w with
  | nil =>
      refine ⟨fun r hp => ?_, trivial⟩
      obtain ⟨a, as, rfl⟩ := List.exists_cons_of_ne_nil hne
      exact hb (by simp [(List.cons_prefix_cons.mp hp).1])
  | cons a as ih =>
      simp only [find] at h
      split at h
      · cases h
      · rename_i hnone
        refine ⟨fun r hp => ?_, ih h⟩
        change needle <+: (a :: as ++ [b]) ++ r at hp
        rw [List.append_assoc] at hp
        -- the needle ends in `w` or reaches over `b`
        by_cases hlen : needle.length ≤ (a :: as).length
        · exact hnone (List.prefix_of_prefix_length_le hp (List.prefix_append _ _) hlen)
        · have hover : (a :: as) ++ [b] <+: needle := by
            refine List.prefix_of_prefix_length_le ?_ hp ?_
            · exact ⟨r, by simp⟩
            · rw [List.length_append, List.length_singleton]
              omega
          exact hb (hover.subset (by simp))

theorem find_skip {needle w : List α} (h : Clear needle w) (hay : List α) :
    find needle (w ++ hay) = find needle hay := by
  induction w with
  | nil => rfl
  | cons a as ih =>
      rw [List.cons_append, find, if_neg]
      · exact ih h.2
      · exact h.1 hay

theorem find_here (needle r : List α) : find needle (needle ++ r) = some (needle ++ r) := by
  cases hcons : needle ++ r with
  | nil =>
      rw [find, if_pos (List.append_eq_nil_iff.mp hcons).1]
  | cons a as =>
      rw [find, if_pos]
      rw [← hcons]
      exact List.prefix_append _ _

/-! ## One lookup -/

/-- Search `key` from the cursor, take the token up to the next `stop`, and leave the
cursor there. -/
def lookup (stop : α) (key cursor : List α) : Option (List α × List α) := do
  let found ← find key cursor
  let start := found.drop key.length
  let rest ← find [stop] start
  return (start.take (start.length - rest.length), rest)

/-- The two searches of a lookup. -/
theorem lookup_eq_some_iff {stop : α} {key cursor token rest : List α} :
    lookup stop key cursor = some (token, rest) ↔
      ∃ found, find key cursor = some found ∧
        find [stop] (found.drop key.length) = some rest ∧
        token = (found.drop key.length).take
          ((found.drop key.length).length - rest.length) := by
  simp only [lookup, Option.bind_eq_bind, Option.bind_eq_some_iff]
  constructor
  · rintro ⟨found, hfound, rest', hrest, heq⟩
    cases heq
    exact ⟨found, hfound, hrest, rfl⟩
  · rintro ⟨found, hfound, hrest, rfl⟩
    exact ⟨found, hfound, rest, hrest, rfl⟩

theorem lookup_eq_none_iff {stop : α} {key cursor : List α} :
    lookup stop key cursor = none ↔
      find key cursor = none ∨
        ∃ found, find key cursor = some found ∧ find [stop] (found.drop key.length) = none := by
  unfold lookup
  cases hfound : find key cursor with
  | none => simp
  | some found =>
      cases hrest : find [stop] (found.drop key.length) with
      | none => simp [hrest]
      | some rest => simp [hrest]

theorem lookup_spec {stop : α} {key cursor token rest : List α}
    (h : lookup stop key cursor = some (token, rest)) :
    ∃ w post, cursor = w ++ key ++ token ++ rest ∧ rest = stop :: post := by
  obtain ⟨found, hfound, hrest, rfl⟩ := lookup_eq_some_iff.mp h
  obtain ⟨⟨w, hw⟩, ⟨start, hstart⟩⟩ := find_spec hfound
  obtain ⟨⟨t, ht⟩, ⟨post, hpost⟩⟩ := find_spec hrest
  subst hstart
  rw [List.drop_left] at ht ⊢
  have htake : start.take (start.length - rest.length) = t := by
    rw [← ht, List.length_append, Nat.add_sub_cancel, List.take_left]
  exact ⟨w, post, by rw [htake, ← hw, ← ht]; simp, hpost.symm⟩

theorem lookup_append {stop : α} {key cursor token rest : List α}
    (h : lookup stop key cursor = some (token, rest)) (r : List α) :
    lookup stop key (cursor ++ r) = some (token, rest ++ r) := by
  obtain ⟨found, hfound, hrest, htoken⟩ := lookup_eq_some_iff.mp h
  have hkey : key.length ≤ found.length := (find_spec hfound).2.length_le
  have hdrop : (found ++ r).drop key.length = found.drop key.length ++ r :=
    List.drop_append_of_le_length hkey
  have hle : rest.length ≤ (found.drop key.length).length := (find_spec hrest).1.length_le
  refine lookup_eq_some_iff.mpr ⟨_, find_append hfound r, ?_, ?_⟩
  · rw [hdrop]
    exact find_append hrest r
  · rw [hdrop, List.length_append, List.length_append, Nat.add_sub_add_right,
      List.take_append_of_le_length (by omega)]
    exact htoken

/-- The token is what stands between the key and the cursor that is left. -/
theorem find_of_lookup {stop : α} {key cursor token rest : List α}
    (h : lookup stop key cursor = some (token, rest)) :
    find key cursor = some (key ++ (token ++ rest)) ∧
      find [stop] (token ++ rest) = some rest := by
  obtain ⟨found, hfound, hrest, rfl⟩ := lookup_eq_some_iff.mp h
  obtain ⟨⟨w, hw⟩, ⟨start, hstart⟩⟩ := find_spec hfound
  obtain ⟨⟨t, ht⟩, _⟩ := find_spec hrest
  subst hstart
  rw [List.drop_left] at ht hrest ⊢
  have htake : start.take (start.length - rest.length) = t := by
    rw [← ht, List.length_append, Nat.add_sub_cancel, List.take_left]
  rw [htake, ht]
  exact ⟨hfound, hrest⟩

/-- Text without the key in front makes no difference. -/
theorem lookup_skip {stop : α} {key w : List α} (hw : Clear key w) (cursor : List α) :
    lookup stop key (w ++ cursor) = lookup stop key cursor := by
  rw [lookup, lookup, find_skip hw]

/-- A lookup whose key is at hand. -/
theorem lookup_here {stop : α} {key w token : List α} (hw : Clear key w)
    (htoken : stop ∉ token) (rest : List α) :
    lookup stop key (w ++ (key ++ (token ++ stop :: rest))) = some (token, stop :: rest) := by
  rw [lookup_skip hw]
  refine lookup_eq_some_iff.mpr ⟨key ++ (token ++ stop :: rest), ?_, ?_, ?_⟩
  · rw [find_here]
  · rw [List.drop_left, find_skip (clear_of_not_mem [] htoken)]
    exact find_here [stop] rest
  · rw [List.drop_left, List.length_append, Nat.add_sub_cancel, List.take_left]

/-- Any occurrence of `key` with a `stop` behind it lets the lookup succeed, and leaves the
cursor no later than that `stop`. -/
theorem lookup_of_occurrence {stop : α} {key w t rest cursor : List α}
    (h : w ++ key ++ t ++ stop :: rest <:+ cursor) :
    ∃ token rest', lookup stop key cursor = some (token, rest') ∧ rest <:+ rest' := by
  have hkey : key ++ (t ++ stop :: rest) <:+ cursor := by
    refine List.IsSuffix.trans ⟨w, ?_⟩ h
    simp
  obtain ⟨found, hfound, hsuf⟩ := find_leftmost (List.prefix_append _ _) cursor hkey
  -- the text behind the key found is at least as long as the text behind the key given
  have hstart : t ++ stop :: rest <:+ found.drop key.length := by
    refine List.suffix_of_suffix_length_le ((List.suffix_append _ _).trans hsuf)
      (List.drop_suffix _ _) ?_
    have hlen := hsuf.length_le
    simp only [List.length_append, List.length_drop] at hlen ⊢
    omega
  have hstop : [stop] <+: stop :: rest := ⟨rest, rfl⟩
  obtain ⟨rest', hrest, hsuf'⟩ := find_leftmost hstop (found.drop key.length)
    ((List.suffix_append _ _).trans hstart)
  exact ⟨_, rest', lookup_eq_some_iff.mpr ⟨found, hfound, hrest, rfl⟩,
    (List.suffix_cons _ _).trans hsuf'⟩

/-! ## Scans -/

/-- Look up the keys one after the other; the tokens found. -/
def scan (stop : α) : List (List α) → List α → Option (List (List α))
  | [], _ => some []
  | key :: keys, cursor => do
      let r ← lookup stop key cursor
      let tokens ← scan stop keys r.2
      return r.1 :: tokens

theorem scan_cons {stop : α} {key : List α} {keys : List (List α)} {cursor token rest : List α}
    {tokens : List (List α)} (hl : lookup stop key cursor = some (token, rest))
    (h : scan stop keys rest = some tokens) :
    scan stop (key :: keys) cursor = some (token :: tokens) := by
  simp [scan, hl, h]

/-- A scan that serves a list of keys has served the first one. -/
theorem exists_of_scan_cons {stop : α} {key : List α} {keys : List (List α)} {cursor : List α}
    {tokens : List (List α)} (h : scan stop (key :: keys) cursor = some tokens) :
    ∃ token rest tokens', lookup stop key cursor = some (token, rest) ∧
      scan stop keys rest = some tokens' ∧ tokens = token :: tokens' := by
  simp only [scan, Option.bind_eq_bind, Option.bind_eq_some_iff] at h
  obtain ⟨⟨token, rest⟩, hl, tokens', htokens, htokens_eq⟩ := h
  cases htokens_eq
  exact ⟨token, rest, tokens', hl, htokens, rfl⟩

/-- **Greedy is enough**: if the text behind the cursor contains any way to serve the keys,
the scan serves them. -/
theorem scan_of_splits {stop : α} {keys : List (List α)} {s : List α}
    (h : Splits stop keys s) :
    ∀ cursor, s <:+ cursor → ∃ tokens, scan stop keys cursor = some tokens := by
  induction h with
  | nil rest => exact fun _ _ => ⟨[], rfl⟩
  | cons w t _ ih =>
      intro cursor hs
      obtain ⟨token, rest', hlookup, hrest⟩ := lookup_of_occurrence hs
      obtain ⟨tokens, htokens⟩ := ih rest' hrest
      exact ⟨token :: tokens, scan_cons hlookup htokens⟩

/-- **Exact acceptance**: a scan succeeds exactly on the texts that split. -/
theorem scan_isSome_iff {stop : α} {keys : List (List α)}
    (hkeys : ∀ key ∈ keys, key ≠ [] ∧ stop ∉ key) (cursor : List α) :
    (∃ tokens, scan stop keys cursor = some tokens) ↔ Splits stop keys cursor := by
  constructor
  · induction keys generalizing cursor with
    | nil => exact fun _ => .nil _
    | cons key keys ih =>
        rintro ⟨tokens, h⟩
        obtain ⟨token, rest, tokens', hlookup, htokens, _⟩ := exists_of_scan_cons h
        obtain ⟨w, post, rfl, rfl⟩ := lookup_spec hlookup
        have hsplit := ih (fun k hk => hkeys k (by simp [hk])) _ ⟨tokens', htokens⟩
        exact .cons w token (hsplit.of_cons fun k hk => hkeys k (by simp [hk]))
  · intro h
    exact scan_of_splits h cursor (List.suffix_refl _)

end Search
