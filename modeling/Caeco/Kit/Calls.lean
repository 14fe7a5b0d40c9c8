/-!
# Programs that call their surroundings

A program is the tree of its calls: at a call it waits for the answer and goes on with what
the answer selects. `exec` runs it alone against a handler. A program that shares its state
with others is judged by `Guarded`, which lets the others act before each of its calls, as
far as they keep a relation.
-/

/-- A program that makes the calls `Op`, answered by `Ans`, and returns an `α`. -/
inductive Calls (Op : Type) (Ans : Op → Type) (α : Type) : Type where
  | pure (a : α)
  | call (op : Op) (next : Ans op → Calls Op Ans α)

namespace Calls

variable {Op : Type} {Ans : Op → Type} {α β σ ε : Type}

def bind : Calls Op Ans α → (α → Calls Op Ans β) → Calls Op Ans β
  | .pure a, f => f a
  | .call op next, f => .call op fun ans => (next ans).bind f

instance : Monad (Calls Op Ans) where
  pure := .pure
  bind := .bind

/-- The program that makes one call and returns the answer. -/
def invoke (op : Op) : Calls Op Ans (Ans op) := .call op .pure

/-! ## Alone -/

/-- The result and the state after the last call. -/
def exec (handle : (op : Op) → σ → Ans op × σ) : Calls Op Ans α → σ → α × σ
  | .pure a, s => (a, s)
  | .call op next, s => exec handle (next (handle op s).1) (handle op s).2

/-- Run from `s`, the program returns what satisfies `Post`. -/
def Returns (handle : (op : Op) → σ → Ans op × σ) (p : Calls Op Ans α) (s : σ)
    (Post : α → σ → Prop) : Prop :=
  Post (exec handle p s).1 (exec handle p s).2

variable {handle : (op : Op) → σ → Ans op × σ} {s : σ} {Post : α → σ → Prop}

/-- The rule for one call. -/
theorem returns_invoke {op : Op} {f : Ans op → Calls Op Ans α} :
    Returns handle (invoke op >>= f) s Post ↔
      Returns handle (f (handle op s).1) (handle op s).2 Post := Iff.rfl

theorem Returns.bind {Mid : β → σ → Prop} {p : Calls Op Ans β} {f : β → Calls Op Ans α} :
    ∀ {s : σ}, Returns handle p s Mid →
      (∀ b s', Mid b s' → Returns handle (f b) s' Post) →
      Returns handle (p >>= f) s Post := by
  induction p with
  | pure b => intro s h hf; exact hf b s h
  | call op next ih => intro s h hf; exact ih _ h hf

theorem Returns.mono {Post' : α → σ → Prop} {p : Calls Op Ans α}
    (h : Returns handle p s Post) (himp : ∀ a s', Post a s' → Post' a s') :
    Returns handle p s Post' :=
  himp _ _ h

/-- What every call keeps, a program keeps. -/
theorem returns_of_kept {I : σ → Prop} (hkeep : ∀ op s, I s → I (handle op s).2)
    (p : Calls Op Ans α) : ∀ {s : σ}, I s → Returns handle p s fun _ s' => I s' := by
  induction p with
  | pure a => intro s hs; exact hs
  | call op next ih => intro s hs; exact ih _ (hkeep op s hs)

/-! ## Among others -/

/-- How a program shares its state. The environment chooses an `ε` at every call. -/
structure Sharing (Op : Type) (Ans : Op → Type) (σ ε : Type) where
  handle : ε → (op : Op) → σ → Ans op × σ
  /-- What the others can do. -/
  rely : σ → σ → Prop
  /-- What the others can count on. -/
  inv : σ → Prop
  /-- What must hold when a call is made. -/
  good : Op → σ → Prop
  /-- What the environment may choose. -/
  allowed : ε → Op → σ → Prop

variable {S : Sharing Op Ans σ ε}

/-- Whatever the others do in between, the state keeps `inv`, is good for each call, and
satisfies `Post` when the program returns. -/
def Guarded (S : Sharing Op Ans σ ε) (Post : α → σ → Prop) : Calls Op Ans α → σ → Prop
  | .pure a, s => ∀ s', S.rely s s' → S.inv s' ∧ Post a s'
  | .call op next, s => ∀ s', S.rely s s' → S.inv s' ∧ S.good op s' ∧
      ∀ e, S.allowed e op s' → Guarded S Post (next (S.handle e op s').1) (S.handle e op s').2

theorem Guarded.rely (htrans : ∀ {a b c}, S.rely a b → S.rely b c → S.rely a c)
    {p : Calls Op Ans α} {s s' : σ} (h : p.Guarded S Post s) (hs : S.rely s s') :
    p.Guarded S Post s' := by
  cases p with
  | pure a => intro s'' hs'; exact h s'' (htrans hs hs')
  | call op next => intro s'' hs'; exact h s'' (htrans hs hs')

theorem Guarded.inv (hrefl : ∀ a, S.rely a a) {p : Calls Op Ans α} {s : σ}
    (h : p.Guarded S Post s) : S.inv s := by
  cases p with
  | pure a => exact (h s (hrefl s)).1
  | call op next => exact (h s (hrefl s)).1

/-- The rule for one call: `A` is known before it, and no other can change that. -/
theorem Guarded.invoke {A : σ → Prop} (hstable : ∀ {s s'}, A s → S.rely s s' → A s')
    {op : Op} {f : Ans op → Calls Op Ans α} {s : σ} (hA : A s)
    (h : ∀ s, A s → S.inv s ∧ S.good op s ∧ ∀ e, S.allowed e op s →
      (f (S.handle e op s).1).Guarded S Post (S.handle e op s).2) :
    (Calls.invoke op >>= f).Guarded S Post s :=
  fun s' hs => h s' (hstable hA hs)

theorem Guarded.bind {Mid : β → σ → Prop} (hrefl : ∀ a, S.rely a a) {p : Calls Op Ans β}
    {f : β → Calls Op Ans α} (hf : ∀ b s, Mid b s → (f b).Guarded S Post s) :
    ∀ {s : σ}, p.Guarded S Mid s → (p >>= f).Guarded S Post s := by
  induction p with
  | pure b => intro s h; exact hf b s (h s (hrefl s)).2
  | call op next ih =>
      intro s h s' hs
      obtain ⟨hinv, hgood, hnext⟩ := h s' hs
      exact ⟨hinv, hgood, fun e he => ih _ (hnext e he)⟩

end Calls
