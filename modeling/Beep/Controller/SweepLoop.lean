import Beep.Ebpf.Effects
import Beep.Loader.SweepIdleFlows

/-!
# `Controller.SweepLoop` — the loop of the idle sweeps, across restarts

`run_idle_sweep_loop` of `controller/src/main.rs`, with the accesses to `CONFIG` of `controller/src/seed.rs` and
`src/lib.rs`. The loop carries a clock for each class: the parity it believes in, and the index of the wall-clock
interval it last swept in. Only the parity outlives the process, in `CONFIG`; the index begins at the interval the
process starts in.

A process may end at any point, and the next one starts on the `CONFIG` row and the `FLOW_TABLE` it finds. Packets may
come between any two visits of the loop to a class.
-/

namespace Beep

/-! ## `CONFIG` -/

/-- `read_config_parity`. -/
def readConfigParity (config : Config) (proto : UInt8) : Bool :=
  (if proto = ipprotoUdp then config.udpParity else config.tcpParity) != 0

/-- `write_config_parity`. -/
def writeConfigParity (config : Config) (proto : UInt8) (parity : Bool) : Config :=
  let byte : UInt8 := if parity then 1 else 0
  if proto = ipprotoUdp then { config with udpParity := byte } else { config with tcpParity := byte }

/-- `write_config_seed`: the `CONFIG` row it writes. -/
def seededConfig (config : Config) (seed : UInt64) : Config := { config with flowHashSeed := seed }

/-! ## The clocks -/

/-- `sweep_bucket`. -/
def sweepBucket (unixSecs intervalSecs : Nat) : Nat := unixSecs / intervalSecs

/-- What the loop carries for one class: its interval in seconds, the index of the interval it last swept in, and the
    parity. -/
structure SweepClock where
  secs : Nat
  bucket : Nat
  parity : Bool

/-- The clock of a class at the start of the loop. -/
def SweepClock.start (config : Config) (now interval : Nat) (cls : SweepClass) : SweepClock where
  secs := max interval 1
  bucket := sweepBucket now (max interval 1)
  parity := readConfigParity config cls.proto

/-- How the sweep of a visit goes: whether the rows can be walked, which deletes fail, and whether the flipped parity
    can be written. -/
structure SweepCourse where
  readsRows : Bool
  failsDelete : FlowKey → Bool
  writesParity : Bool

/-- The parities the loop hands to the sweep of a class. -/
def SweepClock.gc (c : SweepClock) (cls : SweepClass) : GcParity where
  udp := if cls.proto = ipprotoUdp then c.parity else false
  tcp := if cls.proto = ipprotoTcp then c.parity else false

/-- The loop has not swept the class in the interval of this reading yet. -/
def SweepClock.due (c : SweepClock) (reading : Nat) : Bool := decide (c.bucket < sweepBucket reading c.secs)

variable [Host]

/-- The rows after the sweep of a class, and whether it went through. -/
def SweepClock.sweep (c : SweepClock) (cls : SweepClass) (course : SweepCourse) (rows : Table FlowKey FlowValue) :
    Table FlowKey FlowValue × Bool :=
  if course.readsRows then
    let (rows, swept) := sweepIdleFlows cls.proto (c.gc cls) course.failsDelete rows
    (rows, swept.isOk)
  else (rows, false)

/-- One turn of the loop over the classes, with the time the round began with. -/
def SweepClock.visit (c : SweepClock) (cls : SweepClass) (reading : Nat) (course : SweepCourse) (n : Node) :
    SweepClock × Node :=
  if c.due reading then
    let c := { c with bucket := sweepBucket reading c.secs }
    let (flowTable, swept) := c.sweep cls course n.flowTable
    match n.config with
    | some config =>
        if swept && course.writesParity then
          ({ c with parity := !c.parity },
            { n with flowTable, config := some (writeConfigParity config cls.proto !c.parity) })
        else (c, { n with flowTable })
    | none => (c, { n with flowTable })
  else (c, n)

/-- The visit sweeps the class, and the flipped parity is written. -/
def SweepClock.completes (c : SweepClock) (cls : SweepClass) (reading : Nat) (course : SweepCourse) (n : Node) : Bool :=
  c.due reading && (c.sweep cls course n.flowTable).2 && course.writesParity && n.config.isSome

/-- What a visit does. -/
theorem visit_eq (c : SweepClock) (cls : SweepClass) (reading : Nat) (course : SweepCourse) (n : Node) :
    c.visit cls reading course n =
      ({ secs := c.secs
         bucket := if c.due reading then sweepBucket reading c.secs else c.bucket
         parity := if c.completes cls reading course n then !c.parity else c.parity },
        { n with
          flowTable := if c.due reading then (c.sweep cls course n.flowTable).1 else n.flowTable
          config := if c.completes cls reading course n then n.config.map (writeConfigParity · cls.proto !c.parity)
            else n.config }) := by
  unfold SweepClock.completes SweepClock.visit
  cases c.due reading with
  | false => rfl
  | true =>
    -- the sweep does not look at the bucket
    have hsweep : ({ c with bucket := sweepBucket reading c.secs } : SweepClock).sweep cls course n.flowTable =
        c.sweep cls course n.flowTable := rfl
    simp only [if_true, Bool.true_and, hsweep]
    cases hconfig : n.config with
    | none => simp
    | some config => cases (c.sweep cls course n.flowTable).2 && course.writesParity <;> simp

/-! ## The node, the process and the time -/

/-- The maps of a node, the clocks of the loop if a controller runs, and the Unix time in seconds. -/
structure SweepWorld where
  node : Node
  loop : Option (SweepClass → SweepClock)
  now : Nat

/-- What happens on the node. -/
inductive SweepEvent where
  /-- anything but a write to `CONFIG` -/
  | maps (e : { e : NodeEvent // ∀ config, e ≠ .setConfig config })
  /-- time passes -/
  | passes (secs : Nat)
  /-- a controller starts, in the place of the one that runs, if any -/
  | start (geneveIfindex : UInt32) (flowHashSeed : UInt64) (interval : SweepClass → Nat)
  /-- the controller ends -/
  | stop
  /-- the controller adopts a seed -/
  | seed (flowHashSeed : UInt64)
  /-- the loop comes to a class, in a round that began some seconds ago -/
  | visit (cls : SweepClass) (ago : Nat) (course : SweepCourse)

namespace SweepWorld

/-- The row under a key and the parities the programs read. -/
def gcState (w : SweepWorld) (key : FlowKey) : GcState := ⟨w.node.flowTable.lookup key, w.node.gcParity⟩

/-- The world after an event. A start that finds no `CONFIG` row fails. -/
def step (w : SweepWorld) : SweepEvent → SweepWorld
  | .maps e => { w with node := w.node.step e.val }
  | .passes secs => { w with now := w.now + secs }
  | .start geneveIfindex flowHashSeed interval =>
      match w.node.config with
      | some existing =>
          let config := configKeepingParity existing geneveIfindex flowHashSeed
          { w with
            node := { w.node with config := some config }
            loop := some fun cls => .start config w.now (interval cls) cls }
      | none => { w with loop := none }
  | .stop => { w with loop := none }
  | .seed flowHashSeed =>
      { w with node := { w.node with config := w.node.config.map (seededConfig · flowHashSeed) } }
  | .visit cls ago course =>
      match w.loop with
      | some clocks =>
          let (clock, node) := (clocks cls).visit cls (w.now - ago) course w.node
          { w with node, loop := some (Function.update clocks cls clock) }
      | none => w

end SweepWorld

end Beep
