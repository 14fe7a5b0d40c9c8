import Mathlib.Data.BitVec
import Caeco.Kit.Cut

/-!
# The summing kernel `sum_330`

`sum_330` reads AXI4-Stream beats from `in`, adds their data words up and writes one beat
to `out` for every 330 beats read, or earlier when a beat has `last` set; after a `last`
beat it returns. The interface is `ap_ctrl_none`: the hardware starts the next invocation
by itself as soon as one returns.
-/

namespace Caeco.Hls

open Cut

/-- `#define N 330` -/
def N : Int := 330

/-- `typedef ap_axis<32, 2, 5, 6> side_chan` -/
structure SideChan where
  data : BitVec 32
  keep : BitVec 4
  strb : BitVec 4
  user : BitVec 2
  last : BitVec 1
  id : BitVec 5
  dest : BitVec 6
deriving Repr, DecidableEq

/-- The locals that survive an iteration. `sum` is a 32-bit register: `+=` wraps. -/
structure Locals where
  cnt : Int
  sum : BitVec 32
deriving Repr, DecidableEq

/-- The loop body once `in.read()` has returned `tmp1`: what it writes to `out`, and the
locals at the next loop head, or `none` if it leaves the loop by `break`. -/
def iteration (l : Locals) (tmp1 : SideChan) : List SideChan × Option Locals :=
  let sum := l.sum + tmp1.data
  let cnt := l.cnt + 1
  if tmp1.last ≠ 0 then
    -- the assignments to `cnt` and `sum` here are dead: the next invocation declares them anew
    ([{ data := sum, keep := -1, strb := tmp1.strb, user := tmp1.user, last := 1,
        id := tmp1.id, dest := tmp1.dest }], none)
  else if cnt = N then
    ([{ data := sum, keep := tmp1.keep, strb := tmp1.strb, user := tmp1.user,
        last := tmp1.last, id := tmp1.id, dest := tmp1.dest }], some { cnt := 0, sum := 0 })
  else
    ([], some { cnt := cnt, sum := sum })

/-- How an invocation stands once the input stream is used up. -/
inductive Exit where
  /-- It returned; these beats are still unread. -/
  | returned (rest : List SideChan)
  /-- It waits in `in.read()` with these locals. -/
  | waiting (l : Locals)
deriving Repr, DecidableEq

/-- `while (true) { ... }` from the loop head. -/
def whileTrue (l : Locals) : List SideChan → List SideChan × Exit
  | [] => ([], .waiting l)
  | tmp1 :: rest =>
      match iteration l tmp1 with
      | (out, none) => (out, .returned rest)
      | (out, some l') =>
          let r := whileTrue l' rest
          (out ++ r.1, r.2)

/-- One invocation: the beats it writes, and how it stands afterwards. -/
def sum330 (input : List SideChan) : List SideChan × Exit :=
  whileTrue { cnt := 0, sum := 0 } input

/-- Up to `n` invocations, each started when the one before has returned. -/
def invoke : Nat → List SideChan → List SideChan × Exit
  | 0, input => ([], .returned input)
  | n + 1, input =>
      match sum330 input with
      | (out, .waiting l) => (out, .waiting l)
      | (out, .returned rest) =>
          let r := invoke n rest
          (out ++ r.1, r.2)

/-! ## Groups -/

/-- Does the beat end its packet? -/
def isLast (b : SideChan) : Bool := b.last ≠ 0

/-- The beat that stands for a group: the sum of its data words with the side channels of
its final beat, `keep` forced to all ones at the end of a packet. -/
def groupBeat (g : List SideChan) : Option SideChan :=
  g.getLast?.map fun f =>
    { data := (g.map SideChan.data).sum, keep := if isLast f then BitVec.allOnes 4 else f.keep,
      strb := f.strb, user := f.user, last := if isLast f then 1 else 0, id := f.id,
      dest := f.dest }

/-- The locals that stand for the group read so far. -/
def localsOf (g : List SideChan) : Locals :=
  { cnt := g.length, sum := (g.map SideChan.data).sum }

theorem last_of_not_isLast {b : SideChan} (h : isLast b = false) : b.last = 0 := by
  simpa [isLast] using h

theorem localsOf_nil : localsOf [] = { cnt := 0, sum := 0 } := rfl

theorem groupBeat_concat (g : List SideChan) (b : SideChan) :
    groupBeat (g ++ [b])
      = some { data := (g.map SideChan.data).sum + b.data,
               keep := if isLast b then BitVec.allOnes 4 else b.keep, strb := b.strb,
               user := b.user, last := if isLast b then 1 else 0, id := b.id,
               dest := b.dest } := by
  simp [groupBeat]

/-! ## One iteration, in terms of groups -/

/-- A `last` beat closes its group and ends the invocation. -/
theorem iteration_last {b : SideChan} (g : List SideChan) (hb : isLast b = true) :
    iteration (localsOf g) b = ((groupBeat (g ++ [b])).toList, none) := by
  have hlast : b.last ≠ 0 := by simpa [isLast] using hb
  rw [groupBeat_concat, iteration]
  simp only [if_pos hlast, localsOf, hb, if_true, Option.toList_some]
  rfl

/-- The 330th beat closes its group and the loop goes on with an empty one. -/
theorem iteration_full {g : List SideChan} {b : SideChan} (hb : isLast b = false)
    (hg : (g ++ [b]).length = 330) :
    iteration (localsOf g) b = ((groupBeat (g ++ [b])).toList, some (localsOf [])) := by
  have hcnt : (g.length : Int) + 1 = N := by simp at hg; simp [N]; omega
  rw [groupBeat_concat, iteration]
  simp [last_of_not_isLast hb, localsOf, hcnt, hb]

/-- Any other beat only joins the open group. -/
theorem iteration_open {g : List SideChan} {b : SideChan} (hb : isLast b = false)
    (hg : (g ++ [b]).length ≠ 330) :
    iteration (localsOf g) b = ([], some (localsOf (g ++ [b]))) := by
  have hcnt : (g.length : Int) + 1 ≠ N := by simp at hg; simp [N]; omega
  rw [iteration]
  simp [last_of_not_isLast hb, localsOf, hcnt]

end Caeco.Hls
