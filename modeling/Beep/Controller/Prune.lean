import Beep.Controller.Lease
import Beep.Controller.Parse

/-!
# `Controller.Prune` — the prune loop

`run_prune_loop` of `controller/src/main.rs`: one round lists the Leases, observes them, and takes the addresses without a
live Lease off the list of every Service it knows. The clock is read twice in a round, for the observation and for the
pass; a round whose listing fails reads no clock and leaves everything as it is.
-/

namespace Beep

open Json (Value)

/-- What the loop goes on with: the clock as it was read last, the Leases, and the suspects. -/
structure PruneLoop where
  clock : Instant
  tracker : LeaseTracker
  suspects : PruneSuspects

/-- How a round goes: how long after the last reading of the clock the Leases are observed, how long after that the pass
    begins, and the Services that are known then. -/
structure PruneRound where
  slept : Nat
  took : Nat
  keys : List ServiceKey

namespace PruneLoop

/-- Before the first round. -/
def start (now : Instant) : PruneLoop := { clock := now, tracker := .new now, suspects := {} }

/-- When the Leases are observed. -/
def observedAt (l : PruneLoop) (round : PruneRound) : Instant := l.clock + round.slept

/-- When the pass begins. -/
def passAt (l : PruneLoop) (round : PruneRound) : Instant := l.observedAt round + round.took

/-- The Leases as they are observed in the round. -/
def observed (l : PruneLoop) (round : PruneRound) (listed : List ListedLease) : LeaseTracker :=
  l.tracker.observe listed (l.observedAt round)

/-- A Service that could not be corrected is logged. -/
def logged (key : ServiceKey) : Except UpdateError Unit → List ServiceKey → List ServiceKey
  | .ok (), failed => failed
  | .error _, failed => key :: failed

/-- The pass over the Services, and the ones that it logs. -/
def pruneServices (leases : Table String ObservedLease) (now : Instant) :
    List ServiceKey → PruneSuspects → ApiTask (PruneSuspects × List ServiceKey)
  | [], s => return (s, [])
  | key :: keys, s => do
      let (result, s) ←
        updateIngress key.ns key.name (fun existing s => confirmedPrunedIngress existing leases now s) s
      let (s, failed) ← pruneServices leases now keys s
      return (s, logged key result failed)

/-- What the round does after the listing. -/
def afterListing (nodeName : String) (round : PruneRound) (l : PruneLoop) :
    Except String (List ListedLease) → ApiTask (PruneLoop × List ServiceKey)
  | .error _ => return (l, [])
  | .ok listed => do
      let tracker := l.observed round listed
      let now := l.passAt round
      if !tracker.mayPrune (leaseName nodeName) now then
        return ({ clock := now, tracker, suspects := l.suspects.reset }, [])
      let (suspects, failed) ← pruneServices tracker.leases now round.keys l.suspects
      return ({ clock := now, tracker, suspects := suspects.endPass }, failed)

/-- One round of `run_prune_loop`. -/
def prune (ns nodeName : String) (round : PruneRound) (l : PruneLoop) : ApiTask (PruneLoop × List ServiceKey) := do
  l.afterListing nodeName round (← listLeases ns)

end PruneLoop

end Beep
