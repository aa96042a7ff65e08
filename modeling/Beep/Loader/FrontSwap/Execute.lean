import Beep.Loader.FrontSwap.Plan

/-!
# `Loader.FrontSwap.Execute` — running the plans

`run_front_plan` and `run_front_plans`. The `write` closure is a state-passing function: it may change a
state of its own and may fail. The closure that the theorems use (`issueWrite`) keeps the log of the writes
issued so far with their outcome; what the two maps hold after any prefix of that log is `storeAfter`. A
write that fails changes nothing, and which writes fail is an arbitrary function of everything issued
before.
-/

namespace Beep

/-- A failed map operation: aya's syscall error with its errno and text, or any other error. -/
inductive MapError where
  | syscallError (call : String) (rawOsError : Option Int) (ioError : String)
  | other (text : String)
  deriving DecidableEq

/-- `FailureKind`: why a front write failed. -/
inductive FailureKind where
  | capacity
  | outOfMemory
  | other
  deriving DecidableEq

namespace FailureKind

/-- `libc::E2BIG`. -/
def e2big : Int := 7
/-- `libc::ENOMEM`. -/
def enomem : Int := 12

/-- `FailureKind::from_errno`. -/
def fromErrno (errno : Option Int) : FailureKind :=
  if errno = some e2big then .capacity else if errno = some enomem then .outOfMemory else .other

/-- `FailureKind::of`. -/
def of : MapError → FailureKind
  | .syscallError _ rawOsError _ => fromErrno rawOsError
  | .other _ => .other

end FailureKind

/-- `describe`: the text of a map error, errno included. -/
def describe : MapError → String
  | .syscallError call _ ioError => "`" ++ call ++ "` failed: " ++ ioError
  | .other text => text

/-- `FrontFailure`. -/
structure FrontFailure where
  kind : FailureKind
  message : String
  deriving DecidableEq

namespace FrontWrite

/-- What a failed write is called in its failure. -/
def what : FrontWrite → String
  | .deleteEndpoint _ => "FRONT_ENDPOINTS delete"
  | .putEndpoint .. => "FRONT_ENDPOINTS write"
  | .putMeta .. => "FRONT_META write"
  | .deleteMeta _ => "FRONT_META delete"

def isPutMeta : FrontWrite → Bool
  | .putMeta .. => true
  | _ => false

def isPutEndpoint : FrontWrite → Bool
  | .putEndpoint .. => true
  | _ => false

def isDeleteMeta : FrontWrite → Bool
  | .deleteMeta _ => true
  | _ => false

/-- Whether a write that succeeds makes another generation than the live one current. -/
def commits (live : Option FrontMeta) : FrontWrite → Bool
  | .putMeta _ m => live.map (·.generation) != some m.generation
  | _ => false

/-- The failure reported for a write. -/
def failure (step : FrontWrite) (e : MapError) : FrontFailure where
  kind := .of e
  message := step.what ++ " failed: " ++ describe e

end FrontWrite

section
variable {σ : Type*} (write : σ → FrontWrite → σ × Except MapError Unit)

/-- The loop of `run_front_plan`. A failed endpoint write blocks the commit, a failed meta delete stops. -/
def runSteps (commitBlocked : Bool) (s : σ) : List FrontWrite → σ × List FrontFailure
  | [] => (s, [])
  | step :: rest =>
      if commitBlocked && step.isPutMeta then runSteps commitBlocked s rest
      else
        match write s step with
        | (s', .ok _) => runSteps commitBlocked s' rest
        | (s', .error e) =>
            if step.isDeleteMeta then (s', [step.failure e])
            else
              let r := runSteps (commitBlocked || step.isPutEndpoint) s' rest
              (r.1, step.failure e :: r.2)

/-- `run_front_plan`. -/
def runFrontPlan (plan : FrontPlan) (s : σ) : σ × List FrontFailure :=
  runSteps write false s plan.steps

end

/-! ## Capacity -/

/-- `FrontCapacity`: the `max_entries` of the two maps. -/
structure FrontCapacity where
  metas : UInt32
  endpoints : UInt32

/-- `FrontUsage`: how many entries the two maps hold. -/
structure FrontUsage where
  metas : Nat := 0
  endpoints : Nat := 0

/-- `FrontUsage::apply`. -/
def FrontUsage.apply (u : FrontUsage) (step : FrontWrite) (frontHadMeta : Bool) : FrontUsage :=
  match step with
  | .putEndpoint .. => { u with endpoints := u.endpoints + 1 }
  | .deleteEndpoint _ => { u with endpoints := u.endpoints - 1 }
  | .putMeta .. => if frontHadMeta then u else { u with metas := u.metas + 1 }
  | .deleteMeta _ => { u with metas := u.metas - 1 }

/-- The refusal of a plan that does not fit. -/
def shortfall (map : String) (need used : Nat) (cap : UInt32) : FrontFailure where
  kind := .capacity
  message := map ++ " has " ++ toString used ++ " of " ++ toString cap.toNat
    ++ " entries used, but this front's update needs " ++ toString need ++ " more; nothing written"

/-- `capacity_shortfall`. -/
def capacityShortfall (plan : FrontPlan) (frontHadMeta : Bool) (used : FrontUsage) (cap : FrontCapacity) :
    Option FrontFailure :=
  let (_, epPeak, metaPeak) := planEffect plan frontHadMeta
  if used.endpoints + epPeak > cap.endpoints.toNat then
    some (shortfall "FRONT_ENDPOINTS" epPeak used.endpoints cap.endpoints)
  else if used.metas + metaPeak > cap.metas.toNat then
    some (shortfall "FRONT_META" metaPeak used.metas cap.metas)
  else none

/-! ## All plans -/

/-- `FrontApply`: what one pass did. -/
structure FrontApply where
  failures : List (LbFrontKey × FrontFailure) := []
  swapped : List LbFrontKey := []
  deriving DecidableEq

section
variable {σ : Type*} (write : σ → FrontWrite → σ × Except MapError Unit)

/-- The closure `run_front_plans` hands to `run_front_plan`: the caller's `write`, and behind a write that
    succeeded the bookkeeping of `used` and `committed`. -/
def trackedWrite (live : Option FrontMeta) (s : σ × FrontUsage × Bool) (step : FrontWrite) :
    (σ × FrontUsage × Bool) × Except MapError Unit :=
  match write s.1 step with
  | (s', .error e) => ((s', s.2.1, s.2.2), .error e)
  | (s', .ok _) =>
      ((s', s.2.1.apply step live.isSome, s.2.2 || step.commits live), .ok ())

/-- One plan of the loop in `run_front_plans`. -/
def runOnePlan (currentMeta : Table LbFrontKey FrontMeta) (cap : FrontCapacity)
    (st : σ × FrontUsage × FrontApply) (plan : FrontPlan) : σ × FrontUsage × FrontApply :=
  let (s, used, applied) := st
  let live := currentMeta.lookup plan.front
  match capacityShortfall plan live.isSome used cap with
  | some refused => (s, used, { applied with failures := applied.failures ++ [(plan.front, refused)] })
  | none =>
      let ((s', used', committed), errors) := runFrontPlan (trackedWrite write live) plan (s, used, false)
      (s', used',
        { failures := applied.failures ++ errors.map fun e => (plan.front, e)
          swapped := if committed then applied.swapped ++ [plan.front] else applied.swapped })

/-- `run_front_plans`. -/
def runFrontPlans (plans : List FrontPlan) (currentMeta : Table LbFrontKey FrontMeta) (used : FrontUsage)
    (cap : FrontCapacity) (s : σ) : σ × FrontApply :=
  let (s', _, applied) := plans.foldl (runOnePlan write currentMeta cap) (s, used, {})
  (s', applied)

end

/-! ## The two maps, and the log of issued writes -/

/-- The two front maps. -/
structure FrontStore where
  metas : Table LbFrontKey FrontMeta
  endpoints : Table FrontEndpointKey FrontEndpoint

namespace FrontStore

/-- The effect of a write that succeeds. -/
def apply (s : FrontStore) : FrontWrite → FrontStore
  | .deleteEndpoint k => { s with endpoints := s.endpoints.erase k }
  | .putEndpoint k v => { s with endpoints := s.endpoints.insert k v }
  | .putMeta f m => { s with metas := s.metas.insert f m }
  | .deleteMeta f => { s with metas := s.metas.erase f }

end FrontStore

/-- The writes issued so far, each with whether it succeeded. -/
abbrev FrontLog := List (FrontWrite × Bool)

/-- The maps after the writes of a log. -/
def storeAfter (s : FrontStore) (log : FrontLog) : FrontStore :=
  log.foldl (fun s w => if w.2 then s.apply w.1 else s) s

/-- The writing closure: `fails` decides, from what was issued before, whether and how a write fails. -/
def issueWrite (fails : FrontLog → FrontWrite → Option MapError) (log : FrontLog) (step : FrontWrite) :
    FrontLog × Except MapError Unit :=
  match fails log step with
  | some e => (log ++ [(step, false)], .error e)
  | none => (log ++ [(step, true)], .ok ())

/-- One pass: the plans for a store, run against it. The result is the log of the pass and its report. -/
def frontPass (fails : FrontLog → FrontWrite → Option MapError) (order : IterationOrder LbFrontKey)
    (s : FrontStore) (desired : Table LbFrontKey DesiredFront) (pruneAbsent : Bool)
    (keepPrevious : Finset LbFrontKey) (used : FrontUsage) (cap : FrontCapacity) : FrontLog × FrontApply :=
  runFrontPlans (issueWrite fails)
    (planFrontWrites s.metas s.endpoints desired pruneAbsent keepPrevious order) s.metas used cap []

end Beep
