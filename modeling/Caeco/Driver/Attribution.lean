import Caeco.Driver.Tasks

/-!
# Whose completion is signalled to whom

Jobs are started through the DMA driver, which `caeco.c` knows nothing about. So
`caeco_irq` cannot tell whose job has completed; it signals whoever is registered. Around
the kernel's tasks, threads and descriptors stand here the jobs of the accelerator, one at a
time, and the processes that the tasks belong to.
-/

namespace Caeco.Driver

open Runs

/-- The kernel with the accelerator behind it. A process is named by the descriptor table
that its threads share; `born` keeps every task there has been, so that the process of a task
that has exited is still known. `signalled` is history: for each completion the process whose
job it was, and the process that got the signal. -/
structure Bus where
  kernel : Kernel
  born : List Task
  job : Option Nat
  signalled : List (Nat × Option Nat)
deriving Repr, DecidableEq

/-- No task, no job, and nothing signalled. -/
def Bus.init : Bus where
  kernel := .init
  born := []
  job := none
  signalled := []

/-- What tasks do with the kernel, the start of a job by a task, and its end. Other than at
the end of a job there is no interrupt. -/
inductive BusAction where
  | kernel (a : Action)
  | transfer (t : Nat)
  | complete
deriving Repr, DecidableEq

/-- The tasks that an action of the kernel has created. -/
def Kernel.created (s s' : Kernel) : List Task := s'.tasks.filter fun x => s.nextTask ≤ x.id

/-- The process that a task belongs to, or belonged to. -/
def Bus.processOf (s : Bus) (u : Nat) : Option Nat :=
  (s.born.find? (·.id = u)).map (·.table)

/-- The process that `caeco_irq` signals. -/
def Bus.receiver (s : Bus) : Option Nat := (caecoIrq s.kernel.usTask).bind s.processOf

/-- The accelerator has one job at a time, which it completes when it likes; then `caeco_irq` runs.
Everything else is a step of the kernel, and a restarted program is a new process. -/
def Bus.step (s : Bus) : BusAction → Option Bus
  | .kernel a =>
      if a = .irq then none
      else (s.kernel.step a).map fun k =>
        { s with kernel := k, born := s.born ++ s.kernel.created k }
  | .transfer t =>
      (s.kernel.tableOf t).bind fun process =>
        if s.job = none then some { s with job := some process } else none
  | .complete =>
      s.job.map fun owner =>
        { s with job := none, signalled := s.signalled ++ [(owner, s.receiver)] }

/-- Another task is registered by the action, or `caeco_release` runs in task `u`. -/
def Bus.Disturbs (s : Bus) (u : Nat) : BusAction → Prop
  | .kernel (.open _) => True
  | .kernel a => s.kernel.Unregisters u a
  | .transfer _ | .complete => False

/-- The registered task loses the device only by an action of its own that makes
`caeco_release` run. -/
def Bus.LeavesProperly (s : Bus) : BusAction → Prop
  | .kernel a => s.kernel.LeavesProperly a
  | .transfer _ | .complete => True

/-! ## The pointer and the history of opens and releases -/

theorem Kernel.step_usTask {s s' : Kernel} {a : Action} {u : Nat} (h : s.step a = some s') :
    s'.usTask = some u ↔
      a = .open u ∨ ((∀ t, a ≠ .open t) ∧ s.usTask = some u ∧ ¬ s.Unregisters u a) := by
  cases a with
  | spawn =>
      cases h
      simp [Kernel.spawned, Kernel.Unregisters]
  | «open» t =>
      obtain ⟨table, _, rfl⟩ := Option.map_eq_some_iff.mp h
      simp [Kernel.opened, caecoOpen]
  | clone t =>
      obtain ⟨table, _, rfl⟩ := Option.map_eq_some_iff.mp h
      simp [Kernel.cloned, Kernel.Unregisters]
  | fork t =>
      obtain ⟨table, _, rfl⟩ := Option.map_eq_some_iff.mp h
      simp [Kernel.forked, Kernel.Unregisters]
  | close t file =>
      obtain ⟨table, ht, h⟩ := Option.bind_eq_some_iff.mp h
      split at h
      · cases h
        rw [Kernel.close_usTask ht]
        simp
      · cases h
  | exit t =>
      obtain ⟨table, ht, rfl⟩ := Option.map_eq_some_iff.mp h
      rw [Kernel.exited_usTask ht]
      simp
  | irq =>
      cases h
      simp [Kernel.Unregisters]

theorem Bus.step_usTask {s s' : Bus} {a : BusAction} {u : Nat} (h : s.step a = some s') :
    s'.kernel.usTask = some u ↔
      a = .kernel (.open u) ∨ (s.kernel.usTask = some u ∧ ¬ s.Disturbs u a) := by
  cases a with
  | kernel a =>
      simp only [Bus.step] at h
      split at h
      · cases h
      · obtain ⟨k, hk, rfl⟩ := Option.map_eq_some_iff.mp h
        rw [Kernel.step_usTask hk]
        cases a <;> simp [Bus.Disturbs]
  | transfer t =>
      obtain ⟨process, _, h⟩ := Option.bind_eq_some_iff.mp h
      split at h
      · cases h
        simp [Bus.Disturbs]
      · cases h
  | complete =>
      obtain ⟨owner, _, rfl⟩ := Option.map_eq_some_iff.mp h
      simp [Bus.Disturbs]

/-- Every task is known with its process, also when it has exited. -/
structure Bus.Known (s : Bus) : Prop where
  tasks : ∀ x ∈ s.kernel.tasks, x ∈ s.born
  fresh : ∀ x ∈ s.born, x.id < s.kernel.nextTask
  unique : (s.born.map Task.id).Nodup
  usTask : ∀ u, s.kernel.usTask = some u → ∃ x ∈ s.born, x.id = u

theorem Kernel.created_nil {s s' : Kernel} (hfresh : ∀ x ∈ s'.tasks, x.id < s.nextTask) :
    s.created s' = [] := by
  rw [created, List.filter_eq_nil_iff]
  intro x hx
  have hlt := hfresh x hx
  simpa using hlt

theorem Kernel.created_append {s s' : Kernel} {x : Task} (htasks : s'.tasks = s.tasks ++ [x])
    (hx : x.id = s.nextTask) (hfresh : ∀ y ∈ s.tasks, y.id < s.nextTask) :
    s.created s' = [x] := by
  have hold : s.created s = [] := created_nil hfresh
  rw [created] at hold
  rw [created, htasks, List.filter_append, hold]
  simp [hx]

/-- A step creates no task or the one with the next number. -/
theorem Kernel.step_created {s s' : Kernel} {a : Action} (h : s.step a = some s')
    (hfresh : ∀ x ∈ s.tasks, x.id < s.nextTask) :
    (s.created s' = [] ∧ s'.tasks ⊆ s.tasks ∧ s'.nextTask = s.nextTask) ∨
      ∃ table, s.created s' = [⟨s.nextTask, table⟩] ∧
        s'.tasks = s.tasks ++ [⟨s.nextTask, table⟩] ∧ s'.nextTask = s.nextTask + 1 := by
  have hsame {k : Kernel} (htasks : k.tasks = s.tasks) (hnext : k.nextTask = s.nextTask) :
      s.created k = [] ∧ k.tasks ⊆ s.tasks ∧ k.nextTask = s.nextTask :=
    ⟨created_nil (htasks ▸ hfresh), htasks ▸ List.Subset.refl _, hnext⟩
  cases a with
  | spawn =>
      cases h
      exact .inr ⟨s.nextTable, created_append rfl rfl hfresh, rfl, rfl⟩
  | «open» t =>
      obtain ⟨table, _, rfl⟩ := Option.map_eq_some_iff.mp h
      exact .inl (hsame rfl rfl)
  | clone t =>
      obtain ⟨table, _, rfl⟩ := Option.map_eq_some_iff.mp h
      exact .inr ⟨table, created_append rfl rfl hfresh, rfl, rfl⟩
  | fork t =>
      obtain ⟨table, _, rfl⟩ := Option.map_eq_some_iff.mp h
      exact .inr ⟨s.nextTable, created_append rfl rfl hfresh, rfl, rfl⟩
  | close t file =>
      obtain ⟨table, _, h⟩ := Option.bind_eq_some_iff.mp h
      split at h
      · cases h
        exact .inl (hsame rfl rfl)
      · cases h
  | exit t =>
      obtain ⟨table, _, rfl⟩ := Option.map_eq_some_iff.mp h
      have hsub : (s.exited t table).tasks ⊆ s.tasks := by
        rw [exited_tasks]
        exact List.filter_subset_self _
      refine .inl ⟨created_nil fun x hx => hfresh x (hsub hx), hsub, ?_⟩
      rw [exited]
      split
      · rfl
      · rfl
  | irq =>
      cases h
      exact .inl (hsame rfl rfl)

theorem Bus.Known.step {s s' : Bus} {a : BusAction} (hs : s.Known) (h : s.step a = some s') :
    s'.Known := by
  cases a with
  | kernel a =>
      have husTask := fun u => Bus.step_usTask (u := u) h
      simp only [Bus.step] at h
      split at h
      · cases h
      · obtain ⟨k, hk, rfl⟩ := Option.map_eq_some_iff.mp h
        have hlast : ∀ u, k.usTask = some u → ∃ x ∈ s.born ++ s.kernel.created k, x.id = u := by
          intro u hu
          rcases (husTask u).mp hu with ha | ⟨hu, _⟩
          · -- the task that opens is there
            cases ha
            obtain ⟨table, ht, _⟩ := Option.map_eq_some_iff.mp hk
            obtain ⟨x, hx, hxu, _⟩ := Kernel.exists_task_of_tableOf ht
            exact ⟨x, List.mem_append_left _ (hs.tasks x hx), hxu⟩
          · obtain ⟨x, hx, hxu⟩ := hs.usTask u hu
            exact ⟨x, List.mem_append_left _ hx, hxu⟩
        rcases Kernel.step_created hk fun x hx => hs.fresh x (hs.tasks x hx) with
          ⟨hnone, hsub, hnext⟩ | ⟨table, hone, htasks, hnext⟩
        · refine ⟨fun x hx => List.mem_append_left _ (hs.tasks x (hsub hx)), ?_, ?_, hlast⟩
          · rw [hnone, List.append_nil]
            exact fun x hx => hnext ▸ hs.fresh x hx
          · rw [hnone, List.append_nil]
            exact hs.unique
        · refine ⟨fun x hx => ?_, fun x hx => ?_, ?_, hlast⟩
          · rw [htasks] at hx
            rw [hone]
            exact (List.mem_append.mp hx).elim
              (fun hx => List.mem_append_left _ (hs.tasks x hx)) (List.mem_append_right _)
          · show x.id < k.nextTask
            rw [hone] at hx
            rw [hnext]
            rcases List.mem_append.mp hx with hx | hx
            · exact Nat.lt_succ_of_lt (hs.fresh x hx)
            · rw [List.mem_singleton.mp hx]
              exact Nat.lt_succ_self _
          · rw [hone, List.map_append, List.map_singleton, ← List.concat_eq_append]
            refine List.Nodup.concat ?_ hs.unique
            intro hmem
            obtain ⟨x, hx, hid⟩ := List.mem_map.mp hmem
            exact absurd (hs.fresh x hx) (hid ▸ Nat.lt_irrefl _)
  | transfer t =>
      obtain ⟨process, _, h⟩ := Option.bind_eq_some_iff.mp h
      split at h
      · cases h
        exact ⟨hs.tasks, hs.fresh, hs.unique, hs.usTask⟩
      · cases h
  | complete =>
      obtain ⟨owner, _, rfl⟩ := Option.map_eq_some_iff.mp h
      exact ⟨hs.tasks, hs.fresh, hs.unique, hs.usTask⟩

end Caeco.Driver
