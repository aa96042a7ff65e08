import Beep.Loader.Attach.Dataplane

/-!
# `Loader.Attach.BringUp` — from the loaded maps to the attached classifiers

What `main` of the loader and of the controller do after `load_ebpf`: `populate_config`, `populate_uplink_config`, and
`attach_and_pin` for each of the three classifiers. An interface whose link is pinned has the classifier of that link
swapped; a link that is severed is unpinned; and only where there is no pin is a new link made.
-/

namespace Beep

open Crash

/-! ## `UPLINK_CONFIG` -/

/-- `ARPHRD_ETHER`. -/
def arphrdEther : UInt16 := 1

/-- `L3_ONLY_ARPHRD`. -/
def l3OnlyArphrd : List UInt16 := [512, 519, 768, 769, 776, 778, 823, 0xFFFE]

/-- `uplink_l2_header_len`. -/
def uplinkL2HeaderLen (arphrdType : UInt16) : Option UInt32 :=
  if arphrdType = arphrdEther then some 14
  else if arphrdType ∈ l3OnlyArphrd then some 0
  else none

/-- `arphrd_name`. -/
def arphrdName (arphrd : UInt16) : String :=
  match arphrd.toNat with
  | 1 => "ETHER"
  | 6 => "IEEE802"
  | 32 => "INFINIBAND"
  | 512 => "PPP"
  | 519 => "RAWIP"
  | 768 => "TUNNEL"
  | 769 => "TUNNEL6"
  | 776 => "SIT"
  | 778 => "IPGRE"
  | 823 => "IP6GRE"
  | 0xFFFE => "NONE"
  | _ => "unknown"

/-- `uplink_l2_hlen_or_err`. -/
def uplinkL2HlenOrErr (iface : Iface) (arphrd : UInt16) : Starting UInt32 :=
  match uplinkL2HeaderLen arphrd with
  | some l2Hlen => pure l2Hlen
  | none =>
      let supported := (arphrdEther :: l3OnlyArphrd).map fun t => toString t ++ " (" ++ arphrdName t ++ ")"
      Prog.fail (.text ("uplink " ++ String.ofList iface ++ " has unsupported ARPHRD type " ++ toString arphrd ++ " (" ++
        arphrdName arphrd ++ "); supported types: " ++ ", ".intercalate supported))

/-- `uplink_config_capacity`: the `max_entries` of `UPLINK_CONFIG`. -/
def uplinkConfigCapacity : Nat := 8

/-- `check_uplink_count`. -/
def checkUplinkCount (count : Nat) : Starting Unit :=
  if uplinkConfigCapacity < count then
    Prog.fail (.text (toString count ++ " --uplink-iface values exceed UPLINK_CONFIG capacity (" ++
      toString uplinkConfigCapacity ++ ")"))
  else pure ()

/-- `stale_uplink_ifindexes`. -/
def staleUplinkIfindexes (existing configured : List UInt32) : List UInt32 :=
  existing.filter fun ifindex => ifindex ∉ configured

namespace AttachCourse

variable (c : AttachCourse)

/-- `insert` into `UPLINK_CONFIG`: a row more than it has room for is refused. -/
def insertUplink (ifindex : UInt32) (uplink : UplinkConfig) : Starting (Except IoError Unit) :=
  kernelOp c fun w =>
    if w.uplinkConfig.lookup ifindex = none ∧ uplinkConfigCapacity ≤ w.uplinkConfig.entries.length then
      (.error ⟨some e2big⟩, w)
    else (.ok (), { w with uplinkConfig := w.uplinkConfig.insert ifindex uplink })

/-- `remove` from `UPLINK_CONFIG`. -/
def removeUplink (ifindex : UInt32) : Starting (Except IoError Unit) :=
  kernelOp c fun w =>
    if w.uplinkConfig.lookup ifindex = none then (.error ⟨some enoent⟩, w)
    else (.ok (), { w with uplinkConfig := w.uplinkConfig.erase ifindex })

/-- The loop body of `populate_uplink_config`. -/
def configureUplink (iface : Iface) : Starting UInt32 := do
  let ifindex ← c.ifaceIndex iface
  let arphrd ← c.ifaceArphrdType iface
  let l2Hlen ← uplinkL2HlenOrErr iface arphrd
  orFail "" (← c.insertUplink ifindex ⟨l2Hlen⟩)
  return ifindex

/-- `populate_uplink_config`. -/
def populateUplinkConfig (uplinkIfaces : List Iface) : Starting Unit := do
  checkUplinkCount uplinkIfaces.length
  let configured ← Prog.collect (fun iface => some <$> c.configureUplink iface) uplinkIfaces
  let existing ← orFail "" (← kernelOp c fun w => (.ok w.uplinkConfig.keys, w))
  Prog.forEach (fun ifindex => do orFail "" (← c.removeUplink ifindex)) (staleUplinkIfindexes existing configured)

/-- `populate_config`. -/
def populateConfig (geneveIface : Iface) (flowHashSeed : UInt64) : Starting Unit := do
  let geneveIfindex ← c.ifaceIndex geneveIface
  let existing ← orFail "" (← kernelOp c fun w => (.ok w.config, w))
  orFail "" (← kernelOp c fun w =>
    (.ok (), { w with config := configKeepingParity existing geneveIfindex flowHashSeed }))

/-! ## Links -/

/-- Whether a new link is wanted: the match of `attach_and_pin` on the pin of an interface. -/
def reusePinned (classifier : Classifier) (iface : Iface) : Starting Bool := do
  let path := linkPinPath classifier.name iface
  match ← c.fromPin path with
  | .ok _ =>
      match ← c.attachToLink path classifier with
      | .ok () => return false
      | .error e =>
          if isSeveredLink e then do
            orFail ("removing severed link pin " ++ String.ofList path) (← c.removeLinkPin path)
            return true
          else Prog.fail (.io "" e)
  | .error e => if isNotFound e then return true else Prog.fail (.io "" e)

/-- A new link for an interface. -/
def attachFresh (classifier : Classifier) (attachType : TcAttachType) (iface : Iface) : Starting Unit := do
  orFail "" (← c.attach classifier iface attachType)
  orFail "" (← c.pinLink (linkPinPath classifier.name iface))

/-- The loop body of `attach_and_pin`. -/
def attachIface (classifier : Classifier) (attachType : TcAttachType) (iface : Iface) : Starting Unit := do
  let fresh ← c.reusePinned classifier iface
  if fresh then c.attachFresh classifier attachType iface else pure ()

/-- `attach_and_pin`. -/
def attachAndPin (classifier : Classifier) (ifaces : List Iface) (attachType : TcAttachType) : Starting Unit := do
  orFail "" (← kernelOp c fun w => (.ok (), w))
  Prog.forEach (c.attachIface classifier attachType) ifaces
  c.pinProgram classifier

end AttachCourse

/-! ## The start -/

/-- A start: its arguments, which load of the object it is, its course, and after how many operations it is stopped, if
    it is. -/
structure BringUp where
  uplinkIfaces : List Iface
  geneveIface : Iface
  flowHashSeed : UInt64
  load : Nat
  course : AttachCourse
  stop : Option Nat

namespace BringUp

/-- The `hooks` of `main`. -/
def hooks (s : BringUp) : List (HookName × List Iface × TcAttachType) :=
  [(.uplinkIngress, s.uplinkIfaces, .ingress), (.geneveIngress, [s.geneveIface], .ingress),
    (.uplinkEgressReturn, s.uplinkIfaces, .egress)]

/-- The calls of `main` from `populate_config` to the last `attach_and_pin`. -/
def prog (s : BringUp) : Starting Unit := do
  s.course.populateConfig s.geneveIface s.flowHashSeed
  s.course.populateUplinkConfig s.uplinkIfaces
  Prog.forEach (fun (name, ifaces, attachType) => s.course.attachAndPin ⟨name, s.load⟩ ifaces attachType) s.hooks

/-- How a start runs. -/
def outcome (s : BringUp) (w : Dataplane) : Outcome Dataplane StartError Unit := s.prog.run { w with done := 0 }

/-- What a start has done by the time it is stopped, or ends. -/
def during (s : BringUp) (w : Dataplane) : Dataplane :=
  match s.stop with
  | some n => s.prog.stopped n { w with done := 0 }
  | none => (s.outcome w).final

/-- The start comes to its end. -/
def Completes (s : BringUp) (w : Dataplane) : Prop := s.stop = none ∧ (s.outcome w).result = .ok ()

end BringUp

/-- What happens on a node: something to its devices, or a start. -/
inductive AttachEvent where
  | device (e : DeviceEvent)
  | start (s : BringUp)

namespace Dataplane

/-- One event. -/
def step (w : Dataplane) : AttachEvent → Dataplane
  | .device e => w.occur e
  | .start s => (s.during w).exit

/-- A run. -/
def run (w : Dataplane) (events : List AttachEvent) : Dataplane := events.foldl step w

end Dataplane

end Beep
