import Mathlib.Data.List.Induction

/-!
# Runs of a step function

A transition system is a step function `σ → ι → Option σ`; `none` says that the action is
not enabled. A run is the list of its actions. Besides the invariant rule there are two
rules for systems that keep a property only as long as their steps meet a condition:
`always_iff_meets` when the property can be restored, `run_split` when it is lost for good.
-/

namespace Runs

variable {σ ι : Type}

/-- The state after the actions, if each of them is enabled when its turn comes. -/
def run (step : σ → ι → Option σ) : σ → List ι → Option σ
  | s, [] => some s
  | s, a :: as => (step s a).bind fun s' => run step s' as

/-- Every state on the way has the property. -/
def Always (step : σ → ι → Option σ) (P : σ → Prop) : σ → List ι → Prop
  | s, [] => P s
  | s, a :: as => P s ∧ ∀ s', step s a = some s' → Always step P s' as

/-- Every step on the way meets the condition. -/
def Meets (step : σ → ι → Option σ) (C : σ → ι → Prop) : σ → List ι → Prop
  | _, [] => True
  | s, a :: as => ∀ s', step s a = some s' → C s a ∧ Meets step C s' as

/-- Every action meets the condition when its turn comes, enabled or not. -/
def Obeys (step : σ → ι → Option σ) (C : σ → ι → Prop) : σ → List ι → Prop
  | _, [] => True
  | s, a :: as => C s a ∧ ∀ s', step s a = some s' → Obeys step C s' as

/-- A condition that can be checked for one step can be checked for a run. -/
instance decidableMeets (step : σ → ι → Option σ) (C : σ → ι → Prop)
    [∀ s a, Decidable (C s a)] : ∀ (s : σ) (as : List ι), Decidable (Meets step C s as)
  | _, [] => inferInstanceAs (Decidable True)
  | s, a :: as =>
      match h : step s a with
      | none => .isTrue fun _ hs' => nomatch h.symm.trans hs'
      | some t =>
          have := decidableMeets step C t as
          decidable_of_iff (C s a ∧ Meets step C t as)
            ⟨fun hmeets _ hs' => Option.some.inj (h.symm.trans hs') ▸ hmeets,
              fun hmeets => hmeets t h⟩

variable {step : σ → ι → Option σ} {P I : σ → Prop} {C : σ → ι → Prop}

theorem run_cons_eq_some {s t : σ} {a : ι} {as : List ι} :
    run step s (a :: as) = some t ↔ ∃ s', step s a = some s' ∧ run step s' as = some t :=
  Option.bind_eq_some_iff

theorem run_append_eq_some {as bs : List ι} :
    ∀ {s t : σ}, run step s (as ++ bs) = some t ↔
      ∃ m, run step s as = some m ∧ run step m bs = some t := by
  induction as with
  | nil =>
      intro s t
      constructor
      · intro h; exact ⟨s, rfl, h⟩
      · rintro ⟨m, hm, h⟩
        cases hm
        exact h
  | cons a as ih =>
      intro s t
      simp only [List.cons_append, run_cons_eq_some, ih]
      constructor
      · rintro ⟨s', hs', m, hm, h⟩
        exact ⟨m, ⟨s', hs', hm⟩, h⟩
      · rintro ⟨m, ⟨s', hs', hm⟩, h⟩
        exact ⟨s', hs', m, hm, h⟩

theorem run_append_of_run {as bs : List ι} :
    ∀ {s m : σ}, run step s as = some m → run step s (as ++ bs) = run step m bs := by
  induction as with
  | nil =>
      intro s m h
      cases h
      rfl
  | cons a as ih =>
      intro s m h
      obtain ⟨s', hs', h⟩ := run_cons_eq_some.mp h
      rw [List.cons_append, run, hs', Option.bind_some]
      exact ih h

/-! ## Invariants -/

/-- **The invariant rule**, for the runs whose steps all meet `C`. -/
theorem run_invariant_of_meets
    (hstep : ∀ s a s', I s → C s a → step s a = some s' → I s') :
    ∀ {as : List ι} {s t : σ}, I s → Meets step C s as → run step s as = some t → I t := by
  intro as
  induction as with
  | nil =>
      intro s t hs _ h
      cases h
      exact hs
  | cons a as ih =>
      intro s t hs hmeets h
      obtain ⟨s', hs', h⟩ := run_cons_eq_some.mp h
      obtain ⟨hC, hmeets⟩ := hmeets s' hs'
      exact ih (hstep s a s' hs hC hs') hmeets h

/-- **The progress rule**: where the invariant enables every action that meets `C`, and is kept
by it, the runs that obey `C` do not get stuck. -/
theorem run_of_obeys (hstep : ∀ s a, I s → C s a → ∃ s', step s a = some s' ∧ I s') :
    ∀ {as : List ι} {s : σ}, I s → Obeys step C s as → ∃ t, run step s as = some t ∧ I t := by
  intro as
  induction as with
  | nil =>
      intro s hs _
      exact ⟨s, rfl, hs⟩
  | cons a as ih =>
      intro s hs hobeys
      obtain ⟨hC, hrest⟩ := hobeys
      obtain ⟨s', hs', hI⟩ := hstep s a hs hC
      obtain ⟨t, ht, hIt⟩ := ih hI (hrest s' hs')
      exact ⟨t, run_cons_eq_some.mpr ⟨s', hs', ht⟩, hIt⟩

/-- A condition on actions alone. -/
theorem meets_of_forall {p : ι → Prop} :
    ∀ {as : List ι} {s : σ}, (∀ a ∈ as, p a) → Meets step (fun _ a => p a) s as := by
  intro as
  induction as with
  | nil => intro s _; trivial
  | cons a as ih =>
      intro s h s' _
      obtain ⟨ha, has⟩ := List.forall_mem_cons.mp h
      exact ⟨ha, ih has⟩

theorem forall_of_meets {p : ι → Prop} :
    ∀ {as : List ι} {s t : σ}, run step s as = some t →
      Meets step (fun _ a => p a) s as → ∀ a ∈ as, p a := by
  intro as
  induction as with
  | nil => intro s t _ _ a h; cases h
  | cons a as ih =>
      intro s t h hmeets
      obtain ⟨s', hs', h⟩ := run_cons_eq_some.mp h
      obtain ⟨ha, hmeets⟩ := hmeets s' hs'
      exact List.forall_mem_cons.mpr ⟨ha, ih h hmeets⟩

theorem Meets.append {as bs : List ι} :
    ∀ {s m : σ}, Meets step C s (as ++ bs) → run step s as = some m →
      Meets step C s as ∧ Meets step C m bs := by
  induction as with
  | nil =>
      intro s m hmeets h
      cases h
      exact ⟨trivial, hmeets⟩
  | cons a as ih =>
      intro s m hmeets h
      obtain ⟨s', hs', h⟩ := run_cons_eq_some.mp h
      obtain ⟨hC, hrest⟩ := hmeets s' hs'
      obtain ⟨has, hbs⟩ := ih hrest h
      refine ⟨fun s'' hs'' => ?_, hbs⟩
      rw [hs'] at hs''
      cases hs''
      exact ⟨hC, has⟩

theorem Meets.mono {D : σ → ι → Prop} (hCD : ∀ s a, C s a → D s a) :
    ∀ {as : List ι} {s : σ}, Meets step C s as → Meets step D s as := by
  intro as
  induction as with
  | nil => intro s _; trivial
  | cons a as ih =>
      intro s hmeets s' hs'
      obtain ⟨hC, hrest⟩ := hmeets s' hs'
      exact ⟨hCD s a hC, ih hrest⟩

theorem run_invariant_of_forall {p : ι → Prop}
    (hstep : ∀ s a s', I s → p a → step s a = some s' → I s') {as : List ι} {s t : σ}
    (hs : I s) (has : ∀ a ∈ as, p a) (h : run step s as = some t) : I t :=
  run_invariant_of_meets hstep hs (meets_of_forall has) h

theorem run_invariant (hstep : ∀ s a s', I s → step s a = some s' → I s') {as : List ι}
    {s t : σ} (hs : I s) (h : run step s as = some t) : I t :=
  run_invariant_of_forall (p := fun _ => True) (fun s a s' hI _ => hstep s a s' hI) hs
    (fun _ _ => trivial) h

/-- The invariant rule for relations between the actions so far and the state. -/
theorem run_history {R : List ι → σ → Prop} {s : σ} (hs : R [] s)
    (hstep : ∀ as s a s', R as s → step s a = some s' → R (as ++ [a]) s') {as : List ι} :
    ∀ {t : σ}, run step s as = some t → R as t := by
  induction as using List.reverseRecOn with
  | nil =>
      intro t h
      cases h
      exact hs
  | append_singleton as a ih =>
      intro t h
      obtain ⟨m, hm, h⟩ := run_append_eq_some.mp h
      obtain ⟨t', ht', h⟩ := run_cons_eq_some.mp h
      cases h
      exact hstep as m a t (ih hm) ht'

/-! ## Since -/

/-- Where a step keeps `P` exactly if it meets `C`, a run keeps `P` throughout exactly if
all its steps meet `C`. -/
theorem always_iff_meets (hI : ∀ s a s', I s → P s → step s a = some s' → P s' → I s')
    (hstep : ∀ s a s', I s → P s → step s a = some s' → (P s' ↔ C s a)) :
    ∀ {as : List ι} {s : σ}, I s → P s → (Always step P s as ↔ Meets step C s as) := by
  intro as
  induction as with
  | nil => intro s _ hP; exact ⟨fun _ => trivial, fun _ => hP⟩
  | cons a as ih =>
      intro s hs hP
      constructor
      · rintro ⟨_, h⟩ s' hs'
        have halways := h s' hs'
        have hP' : P s' := by
          cases as with
          | nil => exact halways
          | cons b bs => exact halways.1
        exact ⟨(hstep s a s' hs hP hs').mp hP', (ih (hI s a s' hs hP hs' hP') hP').mp halways⟩
      · intro h
        refine ⟨hP, fun s' hs' => ?_⟩
        obtain ⟨hC, hmeets⟩ := h s' hs'
        have hP' : P s' := (hstep s a s' hs hP hs').mpr hC
        exact (ih (hI s a s' hs hP hs' hP') hP').mpr hmeets

/-- Where a step that meets `C` keeps `I`, one that does not ends in `L`, and `L` is never
left, a run ends in `I` or in `L` according to whether all its steps meet `C`. `q` is what
is known about the actions. -/
theorem run_split {L : σ → Prop} {q : ι → Prop}
    (hmeets : ∀ s a s', I s → q a → step s a = some s' → C s a → I s')
    (hfails : ∀ s a s', I s → q a → step s a = some s' → ¬ C s a → L s')
    (hlost : ∀ s a s', L s → q a → step s a = some s' → L s') :
    ∀ {as : List ι} {s t : σ}, I s → (∀ a ∈ as, q a) → run step s as = some t →
      (Meets step C s as ∧ I t) ∨ (¬ Meets step C s as ∧ L t) := by
  intro as
  induction as with
  | nil =>
      intro s t hs _ h
      cases h
      exact .inl ⟨trivial, hs⟩
  | cons a as ih =>
      intro s t hs hq h
      obtain ⟨s', hs', h⟩ := run_cons_eq_some.mp h
      obtain ⟨hqa, hqs⟩ := List.forall_mem_cons.mp hq
      -- the first step that fails `C` settles it
      by_cases hC : C s a
      · rcases ih (hmeets s a s' hs hqa hs' hC) hqs h with ⟨hm, ht⟩ | ⟨hm, ht⟩
        · refine .inl ⟨fun s'' hs'' => ?_, ht⟩
          rw [hs'] at hs''
          cases hs''
          exact ⟨hC, hm⟩
        · exact .inr ⟨fun hall => hm (hall s' hs').2, ht⟩
      · have hL : L s' := hfails s a s' hs hqa hs' hC
        exact .inr ⟨fun hall => hC (hall s' hs').1,
          run_invariant_of_forall hlost hL hqs h⟩

end Runs
