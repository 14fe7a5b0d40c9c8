import Mathlib.Data.List.Basic

/-!
# Packets in a byte stream

A decoder looks at the bytes it has: they may begin with a packet, they may need more bytes
before that can be told, or no continuation will make them a packet. Where a verdict is not
taken back when more bytes arrive, the packets found depend on the bytes alone, and not on
the portions in which they came.
-/

namespace Framing

/-- The verdict on the bytes so far. -/
inductive Decoded (ε α : Type) where
  | incomplete
  | failed (e : ε)
  | done (a : α) (consumed : Nat)
deriving Repr, DecidableEq

variable {β ε α γ : Type}

def Decoded.map (f : α → γ) : Decoded ε α → Decoded ε γ
  | .incomplete => .incomplete
  | .failed e => .failed e
  | .done a n => .done (f a) n

/-- A decoder that keeps to the bytes it has and stands by its verdicts. -/
structure Decoder (β ε α : Type) where
  decode : List β → Decoded ε α
  pos {bs : List β} {a : α} {n : Nat} : decode bs = .done a n → 0 < n
  le {bs : List β} {a : α} {n : Nat} : decode bs = .done a n → n ≤ bs.length
  done_append {bs : List β} {a : α} {n : Nat} (cs : List β) :
    decode bs = .done a n → decode (bs ++ cs) = .done a n
  failed_append {bs : List β} {e : ε} (cs : List β) :
    decode bs = .failed e → decode (bs ++ cs) = .failed e

/-- The bytes are these packets, one after the other, and a rest. -/
inductive Parses (d : Decoder β ε α) : List β → List α → List β → Prop where
  | nil (bs : List β) : Parses d bs [] bs
  | cons {bs rest : List β} {a : α} {as : List α} {n : Nat} (h : d.decode bs = .done a n)
      (hrest : Parses d (bs.drop n) as rest) : Parses d bs (a :: as) rest

variable {d : Decoder β ε α}

theorem Parses.append {bs rest : List β} {as : List α} (h : Parses d bs as rest)
    (cs : List β) : Parses d (bs ++ cs) as (rest ++ cs) := by
  induction h with
  | nil bs => exact .nil _
  | cons h hrest ih =>
      refine .cons (d.done_append cs h) ?_
      rw [List.drop_append_of_le_length (d.le h)]
      exact ih

theorem Parses.trans {bs rest rest' : List β} {as as' : List α} (h : Parses d bs as rest)
    (h' : Parses d rest as' rest') : Parses d bs (as ++ as') rest' := by
  induction h with
  | nil bs => exact h'
  | cons h _ ih => exact .cons h (ih h')

/-- Packets that are decoded alone are decoded one after the other. -/
theorem parses_flatten (content : List β → α) : ∀ {packets : List (List β)},
    (∀ b ∈ packets, d.decode b = .done (content b) b.length) →
      Parses d packets.flatten (packets.map content) [] := by
  intro packets
  induction packets with
  | nil => intro _; exact .nil []
  | cons b packets ih =>
      intro h
      obtain ⟨hb, hrest⟩ := List.forall_mem_cons.mp h
      rw [List.flatten_cons, List.map_cons]
      refine .cons (d.done_append _ hb) ?_
      rw [List.drop_left]
      exact ih hrest

/-- **The packets are those of the bytes**: of two who have read the same bytes, one has
found what the other has found, and perhaps more. -/
theorem Parses.comparable {bs rest rest' : List β} {as as' : List α}
    (h : Parses d bs as rest) (h' : Parses d bs as' rest') : as <+: as' ∨ as' <+: as := by
  induction h generalizing as' with
  | nil bs => exact .inl List.nil_prefix
  | cons h _ ih =>
      cases h' with
      | nil => exact .inr List.nil_prefix
      | cons h₂ hrest₂ =>
          rw [h] at h₂
          cases h₂
          rcases ih hrest₂ with hle | hle
          · exact .inl ((List.prefix_cons_inj _).mpr hle)
          · exact .inr ((List.prefix_cons_inj _).mpr hle)

/-- A sender's packets, written one after the other, are the only ones found. -/
theorem Parses.of_flatMap {ι : Type} {encode : ι → List β} {content : ι → α}
    (hencode : ∀ i rest, d.decode (encode i ++ rest) = .done (content i) (encode i).length)
    {bs rest : List β} {as : List α} (h : Parses d bs as rest) :
    ∀ {items : List ι}, bs = items.flatMap encode →
      ∃ found todo, items = found ++ todo ∧ as = found.map content ∧
        rest = todo.flatMap encode := by
  induction h with
  | nil bs => exact fun hbs => ⟨[], _, rfl, rfl, hbs⟩
  | cons h _ ih =>
      intro items hbs
      cases items with
      | nil =>
          subst hbs
          have hle := d.le h
          have hpos := d.pos h
          rw [List.flatMap_nil, List.length_nil] at hle
          omega
      | cons i items =>
          subst hbs
          rw [List.flatMap_cons, hencode] at h
          cases h
          rw [List.flatMap_cons, List.drop_left] at ih
          obtain ⟨found, todo, rfl, rfl, hrest⟩ := ih rfl
          exact ⟨i :: found, todo, rfl, rfl, hrest⟩

end Framing
