import Mathlib.Data.List.Dedup
import Caeco.Kit.Runs

/-!
# `us_task` and the tasks it points at

The driver keeps one raw pointer to a task. `caeco_open` sets it, `caeco_release` clears it
if the releasing task is the registered one, and `caeco_irq` follows it. Around these three
callbacks is the kernel's part: threads share a descriptor table, a fork copies it, and
`caeco_release` runs once per open file, in the task that drops the last descriptor of it.
-/

namespace Caeco.Driver

open Runs

/-! ## The driver's callbacks

Tasks are named by numbers that are never used twice, so a name outlives its task the way
a pointer does. -/

/-- `us_task = get_current();` -/
def caecoOpen (current : Nat) (_usTask : Option Nat) : Option Nat := some current

/-- `if(ref_task == us_task) { us_task = NULL; }` -/
def caecoRelease (current : Nat) (usTask : Option Nat) : Option Nat :=
  if some current = usTask then none else usTask

/-- The task that `caeco_irq` sends `CAECO_SIGNAL` to. -/
def caecoIrq (usTask : Option Nat) : Option Nat := usTask

/-- `caeco_release`, once for each of the files. -/
def caecoReleases (current : Nat) (files : List Nat) (usTask : Option Nat) : Option Nat :=
  files.foldl (fun us _ => caecoRelease current us) usTask

theorem caecoRelease_eq_some_iff {current u : Nat} {usTask : Option Nat} :
    caecoRelease current usTask = some u ↔ usTask = some u ∧ current ≠ u := by
  unfold caecoRelease
  by_cases h : some current = usTask
  · subst h
    simp
  · rw [if_neg h]
    constructor
    · intro hu
      refine ⟨hu, ?_⟩
      rintro rfl
      exact h hu.symm
    · exact And.left

/-- Releasing several files in one task does what releasing one of them does. -/
theorem caecoReleases_eq_some_iff {current u : Nat} {files : List Nat} :
    ∀ {usTask : Option Nat}, caecoReleases current files usTask = some u ↔
      usTask = some u ∧ (files ≠ [] → current ≠ u) := by
  induction files with
  | nil =>
      intro usTask
      simp [caecoReleases]
  | cons f files ih =>
      intro usTask
      rw [caecoReleases, List.foldl_cons, ← caecoReleases, ih, caecoRelease_eq_some_iff]
      constructor
      · rintro ⟨⟨hu, hne⟩, _⟩
        exact ⟨hu, fun _ => hne⟩
      · rintro ⟨hu, hne⟩
        exact ⟨⟨hu, hne (List.cons_ne_nil f files)⟩, fun _ => hne (List.cons_ne_nil f files)⟩

/-! ## Tasks, descriptor tables and open files -/

/-- A thread of some process. Threads of one process share a descriptor table. -/
structure Task where
  id : Nat
  table : Nat
deriving Repr, DecidableEq

/-- A descriptor of the device: the table it is in and the open file it refers to. -/
structure Descriptor where
  table : Nat
  file : Nat
deriving Repr, DecidableEq

/-- The part of the kernel that decides when `caeco_release` runs, with the driver's `us_task`.
`tasks` are those that have not exited; the last three fields count the names given out. -/
structure Kernel where
  usTask : Option Nat
  tasks : List Task
  descriptors : List Descriptor
  nextTask : Nat
  nextTable : Nat
  nextFile : Nat
deriving Repr, DecidableEq

/-- No task has been started yet. -/
def Kernel.init : Kernel where
  usTask := none
  tasks := []
  descriptors := []
  nextTask := 0
  nextTable := 0
  nextFile := 0

/-- What tasks do: start, open the device, make a thread or a process, close a descriptor, exit;
and the interrupt of the accelerator. -/
inductive Action where
  | spawn
  | open (t : Nat)
  | clone (t : Nat)
  | fork (t : Nat)
  | close (t : Nat) (file : Nat)
  | exit (t : Nat)
  | irq
deriving Repr, DecidableEq

/-- The descriptor table of a task that has not exited. -/
def Kernel.tableOf (s : Kernel) (t : Nat) : Option Nat :=
  (s.tasks.find? (·.id = t)).map (·.table)

/-- Task `t` has not exited and has the device open. -/
def Kernel.Holds (s : Kernel) (t : Nat) : Prop :=
  ∃ table, s.tableOf t = some table ∧ ∃ d ∈ s.descriptors, d.table = table

/-- The files among `files` that have no descriptor left. -/
def unreferenced (rest : List Descriptor) (files : List Nat) : List Nat :=
  files.filter fun f => rest.all (·.file ≠ f)

/-- `current` drops descriptors of the files, and `rest` remains. -/
def Kernel.drop (s : Kernel) (current : Nat) (rest : List Descriptor) (files : List Nat) :
    Kernel :=
  { s with
    descriptors := rest
    usTask := caecoReleases current (unreferenced rest files) s.usTask }

/-- The descriptors of the device in a table. -/
def Kernel.inTable (s : Kernel) (table : Nat) : List Descriptor :=
  s.descriptors.filter (·.table = table)

/-- A file is opened in a table by task `t`. -/
def Kernel.opened (s : Kernel) (t table : Nat) : Kernel :=
  { s with
    usTask := caecoOpen t s.usTask
    descriptors := s.descriptors ++ [⟨table, s.nextFile⟩]
    nextFile := s.nextFile + 1 }

/-- A new process that does not have the device open. -/
def Kernel.spawned (s : Kernel) : Kernel :=
  { s with
    tasks := s.tasks ++ [⟨s.nextTask, s.nextTable⟩]
    nextTask := s.nextTask + 1
    nextTable := s.nextTable + 1 }

/-- A new thread on a table. -/
def Kernel.cloned (s : Kernel) (table : Nat) : Kernel :=
  { s with tasks := s.tasks ++ [⟨s.nextTask, table⟩], nextTask := s.nextTask + 1 }

/-- A new process with a copy of the table. -/
def Kernel.forked (s : Kernel) (table : Nat) : Kernel :=
  { s with
    tasks := s.tasks ++ [⟨s.nextTask, s.nextTable⟩]
    descriptors := s.descriptors ++ (s.inTable table).map fun d => ⟨s.nextTable, d.file⟩
    nextTask := s.nextTask + 1
    nextTable := s.nextTable + 1 }

/-- The task is not there any more; its descriptors are another matter. -/
def Kernel.gone (s : Kernel) (t : Nat) : Kernel :=
  { s with tasks := s.tasks.filter (·.id ≠ t) }

/-- Another task uses the table of `t`. -/
def Kernel.Shared (s : Kernel) (t table : Nat) : Prop :=
  ∃ x ∈ s.tasks, x.table = table ∧ x.id ≠ t

instance (s : Kernel) (t table : Nat) : Decidable (s.Shared t table) :=
  inferInstanceAs (Decidable (∃ x ∈ s.tasks, _))

/-- An exiting task gives up its table; the last one on it closes what is open there. -/
def Kernel.exited (s : Kernel) (t table : Nat) : Kernel :=
  if s.Shared t table then s.gone t
  else
    (s.drop t (s.descriptors.filter (·.table ≠ table))
      ((s.inTable table).map (·.file)).dedup).gone t

/-- An action of a task that does not exist, or on a descriptor that it does not have, is no step.
Which task acts next is left to the scheduler. -/
def Kernel.step (s : Kernel) : Action → Option Kernel
  | .spawn => some s.spawned
  | .open t => (s.tableOf t).map fun table => s.opened t table
  | .clone t => (s.tableOf t).map fun table => s.cloned table
  | .fork t => (s.tableOf t).map fun table => s.forked table
  | .close t file =>
      (s.tableOf t).bind fun table =>
        if ⟨table, file⟩ ∈ s.descriptors then
          some (s.drop t (s.descriptors.erase ⟨table, file⟩) [file])
        else none
  | .exit t => (s.tableOf t).map fun table => s.exited t table
  | .irq => some s

/-! ## Safety -/

/-- An interrupt would find a task that lives and has the device open, or none at all. -/
def Kernel.Safe (s : Kernel) : Prop := ∀ u, caecoIrq s.usTask = some u → s.Holds u

/-- The action takes task `u` its last descriptor of the device. -/
def Kernel.TakesLast (s : Kernel) (u : Nat) : Action → Prop
  | .close t file => ∃ table, s.tableOf t = some table ∧ s.tableOf u = some table ∧
      ∀ d ∈ s.descriptors.erase ⟨table, file⟩, d.table ≠ table
  | .exit t => t = u
  | _ => False

/-- The action is one of `u` itself, and drops the last descriptor of an open file. -/
def Kernel.Unregisters (s : Kernel) (u : Nat) : Action → Prop
  | .close t file => t = u ∧ ∃ table, s.tableOf t = some table ∧
      ∀ d ∈ s.descriptors.erase ⟨table, file⟩, d.file ≠ file
  | .exit t => t = u ∧ ∃ table, s.tableOf t = some table ∧ ¬ s.Shared t table ∧
      ∃ d ∈ s.descriptors, d.table = table ∧
        ∀ e ∈ s.descriptors, e.file = d.file → e.table = table
  | _ => False

/-- If the registered task loses the device, then by an action of its own that makes
`caeco_release` run. -/
def Kernel.LeavesProperly (s : Kernel) (a : Action) : Prop :=
  ∀ u, s.usTask = some u → s.TakesLast u a → s.Unregisters u a

theorem mem_unreferenced {rest : List Descriptor} {files : List Nat} {f : Nat} :
    f ∈ unreferenced rest files ↔ f ∈ files ∧ ∀ d ∈ rest, d.file ≠ f := by
  simp [unreferenced]

theorem Kernel.tableOf_append {s s' : Kernel} {u table : Nat} {ts : List Task}
    (htasks : s'.tasks = s.tasks ++ ts) (h : s.tableOf u = some table) :
    s'.tableOf u = some table := by
  obtain ⟨x, hx, rfl⟩ := Option.map_eq_some_iff.mp h
  simp [tableOf, htasks, List.find?_append, hx]

theorem Kernel.exists_task_of_tableOf {s : Kernel} {u table : Nat}
    (h : s.tableOf u = some table) : ∃ x ∈ s.tasks, x.id = u ∧ x.table = table := by
  obtain ⟨x, hx, rfl⟩ := Option.map_eq_some_iff.mp h
  exact ⟨x, List.mem_of_find?_eq_some hx, by simpa using List.find?_some hx, rfl⟩

theorem Kernel.tableOf_gone_of_ne {s s' : Kernel} {t u : Nat}
    (htasks : s'.tasks = s.tasks.filter (·.id ≠ t)) (h : u ≠ t) :
    s'.tableOf u = s.tableOf u := by
  have hsame : (fun x : Task => decide (decide (x.id ≠ t) = true ∧ decide (x.id = u) = true))
      = fun x : Task => decide (x.id = u) := by
    ext x
    by_cases hx : x.id = u
    · simp [hx, h]
    · simp [hx]
  rw [tableOf, htasks, List.find?_filter, hsame]
  rfl

theorem Kernel.tableOf_gone_self {s s' : Kernel} {t : Nat}
    (htasks : s'.tasks = s.tasks.filter (·.id ≠ t)) : s'.tableOf t = none := by
  simp [tableOf, htasks, List.find?_filter]

/-- Dropping descriptors clears the pointer exactly if the registered task drops the last
descriptor of a file. -/
theorem Kernel.drop_usTask {s : Kernel} {current u : Nat} {rest : List Descriptor}
    {files : List Nat} :
    (s.drop current rest files).usTask = some u ↔
      s.usTask = some u ∧ ¬ (current = u ∧ ∃ f ∈ files, ∀ d ∈ rest, d.file ≠ f) := by
  have hne : unreferenced rest files ≠ [] ↔ ∃ f ∈ files, ∀ d ∈ rest, d.file ≠ f := by
    constructor
    · intro h
      obtain ⟨f, hf⟩ := List.exists_mem_of_ne_nil _ h
      exact ⟨f, mem_unreferenced.mp hf⟩
    · rintro ⟨f, hf⟩
      exact List.ne_nil_of_mem (mem_unreferenced.mpr hf)
  rw [drop, caecoReleases_eq_some_iff, hne]
  refine and_congr_right fun _ => ?_
  constructor
  · rintro h ⟨hcurrent, hlast⟩
    exact h hlast hcurrent
  · intro h hlast hcurrent
    exact h ⟨hcurrent, hlast⟩

/-! ## One step

For every action that is no `open`, two facts decide: when it clears the pointer, and when
it takes a task the device. -/

/-- If the pointer is cleared exactly by proper leaves, and the device lost exactly with the
last descriptor, then safety is kept exactly if the registered task leaves properly. -/
theorem Kernel.Safe.safe_iff {s s' : Kernel} {a : Action} (hs : s.Safe)
    (hus : ∀ u, s'.usTask = some u ↔ s.usTask = some u ∧ ¬ s.Unregisters u a)
    (hholds : ∀ u, s.Holds u → (s'.Holds u ↔ ¬ s.TakesLast u a)) :
    s'.Safe ↔ s.LeavesProperly a := by
  constructor
  · intro hsafe u hu htakes
    by_contra hunreg
    exact (hholds u (hs u hu)).mp (hsafe u ((hus u).mpr ⟨hu, hunreg⟩)) htakes
  · intro hproper u hu
    obtain ⟨hu, hunreg⟩ := (hus u).mp hu
    exact (hholds u (hs u hu)).mpr fun htakes => hunreg (hproper u hu htakes)

/-- More tasks and more descriptors take nothing from anyone. -/
theorem Kernel.Holds.grow {s s' : Kernel} {u : Nat} {ts : List Task} {ds : List Descriptor}
    (hu : s.Holds u) (htasks : s'.tasks = s.tasks ++ ts)
    (hdesc : s'.descriptors = s.descriptors ++ ds) : s'.Holds u := by
  obtain ⟨table, htable, d, hd, hdt⟩ := hu
  refine ⟨table, tableOf_append htasks htable, d, ?_, hdt⟩
  rw [hdesc]
  exact List.mem_append_left ds hd

theorem Kernel.Safe.grow_iff {s s' : Kernel} {a : Action} {ts : List Task}
    {ds : List Descriptor} (hs : s.Safe) (hus : s'.usTask = s.usTask)
    (htasks : s'.tasks = s.tasks ++ ts) (hdesc : s'.descriptors = s.descriptors ++ ds)
    (htakes : ∀ u, ¬ s.TakesLast u a) (hunreg : ∀ u, ¬ s.Unregisters u a) :
    s'.Safe ↔ s.LeavesProperly a :=
  hs.safe_iff (fun u => by rw [hus]; exact (and_iff_left (hunreg u)).symm)
    (fun u hu => iff_of_true (hu.grow htasks hdesc) (htakes u))

theorem Kernel.close_usTask {s : Kernel} {t u table file : Nat}
    (ht : s.tableOf t = some table) :
    (s.drop t (s.descriptors.erase ⟨table, file⟩) [file]).usTask = some u ↔
      s.usTask = some u ∧ ¬ s.Unregisters u (.close t file) := by
  rw [drop_usTask]
  refine and_congr_right fun _ => not_congr (and_congr_right fun _ => ?_)
  rw [ht]
  constructor
  · rintro ⟨f, hf, hlast⟩
    rw [List.mem_singleton.mp hf] at hlast
    exact ⟨table, rfl, hlast⟩
  · rintro ⟨b, hb, hlast⟩
    cases hb
    exact ⟨file, List.mem_singleton_self file, hlast⟩

theorem Kernel.close_holds {s : Kernel} {t u table file : Nat} (ht : s.tableOf t = some table)
    (hu : s.Holds u) :
    (s.drop t (s.descriptors.erase ⟨table, file⟩) [file]).Holds u ↔
      ¬ s.TakesLast u (.close t file) := by
  constructor
  · rintro ⟨b, hb, d, hd, hdb⟩ ⟨c, hc, huc, htakes⟩
    rw [ht] at hc
    cases hc
    rw [show (s.drop t _ [file]).tableOf u = s.tableOf u from rfl, huc] at hb
    cases hb
    exact htakes d hd hdb
  · intro htakes
    obtain ⟨b, hb, d, hd, hdb⟩ := hu
    refine ⟨b, hb, ?_⟩
    show ∃ e ∈ s.descriptors.erase ⟨table, file⟩, e.table = b
    by_cases hsame : b = table
    · subst hsame
      by_contra hnone
      push Not at hnone
      exact htakes ⟨b, ht, hb, hnone⟩
    · -- the descriptor closed is not the one that `u` holds the device by
      refine ⟨d, (List.mem_erase_of_ne ?_).mpr hd, hdb⟩
      rintro rfl
      exact hsame hdb.symm

theorem Kernel.exited_tasks (s : Kernel) (t table : Nat) :
    (s.exited t table).tasks = s.tasks.filter (·.id ≠ t) := by
  unfold exited
  split
  · rfl
  · rfl

theorem Kernel.exited_usTask {s : Kernel} {t u table : Nat} (ht : s.tableOf t = some table) :
    (s.exited t table).usTask = some u ↔ s.usTask = some u ∧ ¬ s.Unregisters u (.exit t) := by
  unfold exited
  split
  · -- the table stays with the other task: no file is closed
    rename_i hshared
    refine (and_iff_left ?_).symm
    rintro ⟨_, b, hb, hnot, _⟩
    rw [ht] at hb
    cases hb
    exact hnot hshared
  · rename_i hshared
    show (s.drop t _ _).usTask = some u ↔ _
    rw [drop_usTask]
    refine and_congr_right fun _ => not_congr (and_congr_right fun _ => ?_)
    rw [ht]
    constructor
    · -- a file loses its last descriptor if it has none in another table
      rintro ⟨f, hf, hlast⟩
      obtain ⟨d, hd, rfl⟩ := List.mem_map.mp (List.mem_dedup.mp hf)
      obtain ⟨hd, hdt⟩ := List.mem_filter.mp hd
      refine ⟨table, rfl, hshared, d, hd, by simpa using hdt, ?_⟩
      intro e he hed
      by_contra het
      exact hlast e (List.mem_filter.mpr ⟨he, by simpa using het⟩) hed
    · rintro ⟨b, hb, _, d, hd, hdt, hall⟩
      cases hb
      refine ⟨d.file, List.mem_dedup.mpr (List.mem_map.mpr ⟨d, ?_, rfl⟩), ?_⟩
      · exact List.mem_filter.mpr ⟨hd, by simpa using hdt⟩
      · intro e he hed
        obtain ⟨he, het⟩ := List.mem_filter.mp he
        exact absurd (hall e he hed) (by simpa using het)

/-- An exiting task keeps nothing, and takes nothing from a task that is still there: its
table goes only if no other task is on it. -/
theorem Kernel.exited_holds {s : Kernel} {t u table : Nat} (hu : s.Holds u) :
    (s.exited t table).Holds u ↔ ¬ s.TakesLast u (.exit t) := by
  have htasks := s.exited_tasks t table
  constructor
  · rintro ⟨b, hb, _⟩ rfl
    rw [tableOf_gone_self htasks] at hb
    cases hb
  · intro htu
    obtain ⟨b, hb, d, hd, hdb⟩ := hu
    refine ⟨b, ?_, d, ?_, hdb⟩
    · rw [tableOf_gone_of_ne htasks (Ne.symm htu)]
      exact hb
    · unfold exited
      split
      · exact hd
      · rename_i hshared
        refine List.mem_filter.mpr ⟨hd, ?_⟩
        obtain ⟨x, hx, hxu, hxb⟩ := exists_task_of_tableOf hb
        have hne : d.table ≠ table := by
          intro hsame
          exact hshared ⟨x, hx, by rw [hxb, ← hdb, hsame], by rw [hxu]; exact Ne.symm htu⟩
        simpa using hne

/-- **The step lemma**: a step keeps the pointer safe exactly if the registered task leaves
properly. -/
theorem Kernel.step_safe_iff {s s' : Kernel} {a : Action} (hs : s.Safe)
    (h : s.step a = some s') : s'.Safe ↔ s.LeavesProperly a := by
  cases a with
  | spawn =>
      cases h
      exact hs.grow_iff rfl rfl (List.append_nil _).symm (fun _ => id) (fun _ => id)
  | «open» t =>
      obtain ⟨table, ht, rfl⟩ := Option.map_eq_some_iff.mp h
      refine iff_of_true ?_ (fun _ _ htakes => htakes.elim)
      intro u hu
      cases hu
      exact ⟨table, ht, ⟨table, s.nextFile⟩,
        List.mem_append_right _ (List.mem_singleton_self _), rfl⟩
  | clone t =>
      obtain ⟨table, ht, rfl⟩ := Option.map_eq_some_iff.mp h
      exact hs.grow_iff rfl rfl (List.append_nil _).symm (fun _ => id) (fun _ => id)
  | fork t =>
      obtain ⟨table, ht, rfl⟩ := Option.map_eq_some_iff.mp h
      exact hs.grow_iff rfl rfl rfl (fun _ => id) (fun _ => id)
  | close t file =>
      obtain ⟨table, ht, h⟩ := Option.bind_eq_some_iff.mp h
      split at h
      · cases h
        exact hs.safe_iff (fun _ => close_usTask ht) (fun _ hu => close_holds ht hu)
      · cases h
  | exit t =>
      obtain ⟨table, ht, rfl⟩ := Option.map_eq_some_iff.mp h
      exact hs.safe_iff (fun _ => exited_usTask ht) (fun _ hu => exited_holds hu)
  | irq =>
      cases h
      exact hs.grow_iff rfl (List.append_nil _).symm (List.append_nil _).symm (fun _ => id)
        (fun _ => id)

/-! ## Every run -/

/-- **When the driver signals no dead task**: in every run, with any number of tasks,
threads, forks and open files, an interrupt at any moment finds a task that lives and has
the device open exactly if the registered task never loses its last descriptor otherwise
than by an action of its own that runs `caeco_release`. -/
theorem always_safe_iff (as : List Action) :
    Always Kernel.step Kernel.Safe .init as ↔ Meets Kernel.step Kernel.LeavesProperly .init as :=
  always_iff_meets (I := fun _ => True) (fun _ _ _ _ _ _ _ => trivial)
    (fun _ _ _ _ hs h => Kernel.step_safe_iff hs h) trivial (fun _ hu => by cases hu)

/-- A program with a second thread, as the program with its client thread is: the opening
thread exits first, and the other one drops the last descriptor. -/
def openerExitsFirst : List Action :=
  [.spawn, .open 0, .clone 0, .exit 0, .exit 1, .irq]

theorem openerExitsFirst_not_safe : ¬ ∀ as, Always Kernel.step Kernel.Safe .init as := by
  intro h
  obtain ⟨_, h⟩ := h openerExitsFirst
  obtain ⟨_, h⟩ := h _ rfl
  obtain ⟨_, h⟩ := h _ rfl
  obtain ⟨_, h⟩ := h _ rfl
  obtain ⟨_, h⟩ := h _ rfl
  obtain ⟨hsafe, _⟩ := h _ rfl
  obtain ⟨table, htable, _⟩ := hsafe 0 rfl
  cases htable

end Caeco.Driver
