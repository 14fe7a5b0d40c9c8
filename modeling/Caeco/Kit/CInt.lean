import Mathlib.Data.BitVec
import Mathlib.Data.Int.Basic

/-!
# C integers on an LP64 target

`int` values are `Int`s within 32 bits and `size_t` values are `Nat`s below `2 ^ 64`.
Signed overflow has no value: `checked` is `none` there. The two conversions between the
types are the ones C inserts when an `int` meets a `size_t`.
-/

namespace CInt

/-- `sizeof(int)` -/
def sizeofInt : Nat := 4

def intMin : Int := -2 ^ 31

def intMax : Int := 2 ^ 31 - 1

/-- The value of a signed arithmetic expression, if it has one. -/
def checked (v : Int) : Option Int :=
  if intMin ≤ v ∧ v ≤ intMax then some v else none

/-- An `int` operand converted to `size_t`. -/
def toSize (v : Int) : Nat := (v % 2 ^ 64).toNat

/-- A `size_t` operand converted to `int`: the low 32 bits in two's complement. -/
def ofSize (n : Nat) : Int := ((n : Int) + 2 ^ 31) % 2 ^ 32 - 2 ^ 31

theorem checked_eq_some {v : Int} (hlo : intMin ≤ v) (hhi : v ≤ intMax) :
    checked v = some v := if_pos ⟨hlo, hhi⟩

theorem eq_of_checked {v w : Int} (h : checked v = some w) : w = v := by
  rw [checked] at h
  split at h
  · exact (Option.some.inj h).symm
  · cases h

/-- Peel one defined computation off a chain. A `simp` with `Option.bind_some` would leave
the kernel to compare bound checks on open terms by evaluating them. -/
theorem bind_eq_of_some {α β : Type} {x : Option α} {a : α} {f : α → Option β}
    {r : Option β} (hx : x = some a) (hf : f a = r) : (x >>= f) = r := by
  subst hx
  exact hf

/-- A loop whose every round is defined collects the rounds' values. -/
theorem mapM_eq_map {α β : Type} {f : α → Option β} {g : α → β} :
    ∀ l : List α, (∀ a ∈ l, f a = some (g a)) → l.mapM f = some (l.map g) := by
  intro l
  induction l with
  | nil => intro _; rfl
  | cons a as ih =>
      intro h
      rw [List.mapM_cons]
      exact bind_eq_of_some (h a (by simp))
        (bind_eq_of_some (ih fun b hb => h b (by simp [hb])) rfl)

/-- What a loop makes of its rounds can be computed from what another has made of them. -/
theorem mapM_of_mapM {α β γ : Type} {f : α → Option β} {g : α → Option γ} {h : β → Option γ}
    (hfg : ∀ a b, f a = some b → g a = h b) :
    ∀ {l : List α} {bs : List β}, l.mapM f = some bs → l.mapM g = bs.mapM h := by
  intro l
  induction l with
  | nil =>
      intro bs hbs
      cases hbs
      rfl
  | cons a as ih =>
      intro bs hbs
      rw [List.mapM_cons] at hbs ⊢
      simp only [Option.bind_eq_bind, Option.bind_eq_some_iff] at hbs
      obtain ⟨b, hb, bs', hbs', hcons⟩ := hbs
      cases hcons
      rw [List.mapM_cons, hfg a b hb, ih hbs']

/-- A loop gets through exactly if each round does. -/
theorem mapM_eq_some_iff {α β : Type} {f : α → Option β} {l : List α} :
    (∃ bs, l.mapM f = some bs) ↔ ∀ a ∈ l, ∃ b, f a = some b := by
  induction l with
  | nil => simp
  | cons a as ih =>
      rw [List.forall_mem_cons, ← ih, List.mapM_cons]
      simp only [Option.bind_eq_bind, Option.bind_eq_some_iff]
      constructor
      · rintro ⟨_, b, hb, bs, hbs, _⟩
        exact ⟨⟨b, hb⟩, bs, hbs⟩
      · rintro ⟨⟨b, hb⟩, bs, hbs⟩
        exact ⟨b :: bs, b, hb, bs, hbs, rfl⟩

/-- Non-negative values need the upper bound only. -/
theorem checked_eq_natCast {v : Int} {n : Nat} (hv : v = n) (hmax : (n : Int) ≤ intMax) :
    checked v = some (n : Int) := by
  subst hv
  refine checked_eq_some ?_ hmax
  simp only [intMin]
  omega

/-- `i + 1` -/
theorem checked_succ {i : Nat} (hmax : ((i + 1 : Nat) : Int) ≤ intMax) :
    checked ((i : Int) + 1) = some ((i + 1 : Nat) : Int) := checked_eq_natCast (by omega) hmax

@[simp] theorem toSize_natCast {n : Nat} (h : (n : Int) ≤ intMax) : toSize (n : Int) = n := by
  simp only [toSize, intMax] at h ⊢
  omega

theorem ofSize_eq {n : Nat} (h : (n : Int) ≤ intMax) : ofSize n = n := by
  simp only [ofSize, intMax] at h ⊢
  omega

/-! ## Sums of few bounded values -/

/-- The values lie in `[-B, B]`. -/
def Within (B : Int) (vs : List Int) : Prop := ∀ v ∈ vs, -B ≤ v ∧ v ≤ B

instance (B : Int) (vs : List Int) : Decidable (Within B vs) :=
  inferInstanceAs (Decidable (∀ v ∈ vs, -B ≤ v ∧ v ≤ B))

theorem Within.sum_le {B : Int} {vs : List Int} (h : Within B vs) :
    -(vs.length * B) ≤ vs.sum ∧ vs.sum ≤ vs.length * B := by
  induction vs with
  | nil => simp
  | cons v vs ih =>
      obtain ⟨hv, hvs⟩ := List.forall_mem_cons.mp h
      obtain ⟨hlo, hhi⟩ := ih hvs
      have hlen : ((v :: vs).length : Int) * B = vs.length * B + B := by
        rw [List.length_cons, Int.natCast_succ, Int.add_mul, Int.one_mul]
      rw [hlen, List.sum_cons]
      omega

/-- At most `n` values, `n` times their bound in the range of `int`: so is their sum. -/
theorem Within.sum_int {B : Int} {n : Nat} {vs : List Int} (h : Within B vs)
    (hlen : vs.length ≤ n) (hB : n * B ≤ intMax) : intMin ≤ vs.sum ∧ vs.sum ≤ intMax := by
  cases vs with
  | nil => simp [intMin, intMax]
  | cons v vs =>
      have hv := h v List.mem_cons_self
      have hmul : ((v :: vs).length : Int) * B ≤ n * B :=
        Int.mul_le_mul_of_nonneg_right (by omega) (by omega)
      obtain ⟨hlo, hhi⟩ := h.sum_le
      simp only [intMin, intMax] at hB ⊢
      omega

/-- Then a 32-bit register that has added them up holds their sum. -/
theorem toInt_sum {B : Int} {n : Nat} {vs : List (BitVec 32)}
    (h : Within B (vs.map BitVec.toInt)) (hlen : vs.length ≤ n) (hB : n * B ≤ intMax) :
    vs.sum.toInt = (vs.map BitVec.toInt).sum := by
  induction vs with
  | nil => rfl
  | cons v vs ih =>
      have hrange := h.sum_int (by simpa using hlen) hB
      have hrest := ih (fun x hx => h x (List.mem_cons_of_mem _ hx))
        (Nat.le_of_succ_le hlen)
      rw [List.map_cons, List.sum_cons] at hrange ⊢
      rw [List.sum_cons, BitVec.toInt_add, hrest]
      simp only [intMin, intMax] at hrange
      exact Int.bmod_eq_of_le_mul_two (by omega) (by omega)

end CInt
