import Beep.Loader.IdleSweep
import Beep.Loader.PinMigrate.Pins

/-!
# `Loader.Attach.Dataplane` — devices, links and their pins

What the part of a start works on that comes after the maps are loaded: the node's network devices, the pinned links that
attach a classifier to a device, and `CONFIG` and `UPLINK_CONFIG`. A pin is named after an *interface name*, a link sits
on a *device*: when the device is deleted the link is severed for good, and when it is renamed the link stays where it
is.

Devices come and go while a start is running. So every operation of a start comes after whatever happened to the devices
before it (`kernelOp`), and the kernel may refuse any operation.
-/

namespace Beep

open Crash

/-! ## Devices and links -/

/-- The name of an interface. -/
abbrev Iface := List Char

/-- A device, as sysfs shows it. -/
structure Device where
  ifindex : UInt32
  arphrd : UInt16
  deriving DecidableEq

/-- The classifiers of the eBPF object. -/
inductive HookName where
  | uplinkIngress
  | geneveIngress
  | uplinkEgressReturn
  deriving DecidableEq

/-- The name the object has for a classifier. -/
def HookName.text : HookName → List Char
  | .uplinkIngress => "uplink_ingress".toList
  | .geneveIngress => "geneve_ingress".toList
  | .uplinkEgressReturn => "uplink_egress_return".toList

/-- `TcAttachType`. -/
inductive TcAttachType where
  | ingress
  | egress
  deriving DecidableEq

/-- A classifier that a start loaded. -/
structure Classifier where
  name : HookName
  load : Nat
  deriving DecidableEq

/-- A link: the classifier it runs, and the device it runs on until that is deleted. -/
structure TcxLink where
  classifier : Classifier
  attachType : TcAttachType
  device : Option UInt32
  deriving DecidableEq

/-- The file name `{name}-{iface}-link`. -/
def linkPinPath (name : HookName) (iface : Iface) : List Char := name.text ++ '-' :: (iface ++ "-link".toList)

/-- The file name `{name}-prog`. -/
def progPinPath (name : HookName) : List Char := name.text ++ "-prog".toList

/-- What a start finds and changes. -/
structure Dataplane where
  devices : Table Iface Device
  linkPins : List Char → Option TcxLink
  progPins : List Char → Option Classifier
  /-- the link that the start created and has not pinned, and the name it was attached by -/
  held : Option (Iface × TcxLink)
  config : Config
  uplinkConfig : Table UInt32 UplinkConfig
  /-- the operations of the running start so far -/
  done : Nat

/-- A new device is named, an old one is deleted, or a name is changed. -/
inductive DeviceEvent where
  | add (iface : Iface) (device : Device)
  | delete (iface : Iface)
  | rename (old new : Iface)

/-- A deleted device severs its links. -/
def TcxLink.without (ifindex : UInt32) (link : TcxLink) : TcxLink :=
  if link.device = some ifindex then { link with device := none } else link

namespace Dataplane

/-- A device event. A name or an index that is taken is not given again. -/
def occur (w : Dataplane) : DeviceEvent → Dataplane
  | .add iface device =>
      if w.devices.lookup iface = none ∧ device.ifindex ∉ w.devices.values.map (·.ifindex) then
        { w with devices := w.devices.insert iface device }
      else w
  | .delete iface =>
      match w.devices.lookup iface with
      | none => w
      | some device =>
          { w with
            devices := w.devices.erase iface
            linkPins := fun path => (w.linkPins path).map (TcxLink.without device.ifindex)
            held := w.held.map fun (name, link) => (name, link.without device.ifindex) }
  | .rename old new =>
      match w.devices.lookup old, w.devices.lookup new with
      | some device, none => { w with devices := (w.devices.erase old).insert new device }
      | _, _ => w

/-- The process is gone, and with it a link that only it knew. -/
def exit (w : Dataplane) : Dataplane := { w with held := none }

end Dataplane

/-! ## Operations -/

/-- `ENOENT`. -/
def enoent : Int := 2

/-- `is_severed_link`: `ENOLINK`. -/
def isSeveredLink (e : IoError) : Bool := e.rawOsError = some 67

/-- `io_error.kind() == NotFound`. -/
def isNotFound (e : IoError) : Bool := e.rawOsError = some enoent

/-- Whatever else the kernel refuses an operation for. It says `ENOLINK` only of a severed link, and `ENOENT` only of
    what is not there. -/
abbrev Unexpected := { e : IoError // isSeveredLink e = false ∧ isNotFound e = false }

/-- What a start cannot choose: what happens to the devices before each of its operations, and which operations the
    kernel refuses. -/
structure AttachCourse where
  before : Nat → List DeviceEvent
  refuses : Nat → Option Unexpected

/-- Why a start ends. -/
inductive StartError where
  | text (message : String)
  | io (context : String) (e : IoError)

/-- A start, after the maps are loaded. -/
abbrev Starting := Prog Dataplane StartError

/-- The devices go on to the next operation. -/
def Dataplane.next (c : AttachCourse) (w : Dataplane) : Dataplane :=
  { (c.before w.done).foldl Dataplane.occur w with done := w.done + 1 }

/-- One operation, unless the kernel refuses it. -/
def kernelOp {α : Type} (c : AttachCourse) (op : Dataplane → Except IoError α × Dataplane) :
    Starting (Except IoError α) :=
  Prog.call fun w =>
    match c.refuses w.done with
    | some e => (.error e.1, w.next c)
    | none => op (w.next c)

/-- `?`, with its context. -/
def orFail {α : Type} (context : String) : Except IoError α → Starting α
  | .ok a => pure a
  | .error e => Prog.fail (.io context e)

namespace AttachCourse

variable (c : AttachCourse)

/-- A device that sysfs does not show is an error. -/
def sysfs (iface : Iface) : Starting (Except IoError Device) :=
  kernelOp c fun w => (match w.devices.lookup iface with
    | some device => .ok device
    | none => .error ⟨some enoent⟩, w)

/-- `iface_index`. -/
def ifaceIndex (iface : Iface) : Starting UInt32 := do
  let device ← orFail ("resolving ifindex for " ++ String.ofList iface) (← c.sysfs iface)
  return device.ifindex

/-- `iface_arphrd_type`. -/
def ifaceArphrdType (iface : Iface) : Starting UInt16 := do
  let device ← orFail ("resolving ARPHRD type for " ++ String.ofList iface) (← c.sysfs iface)
  return device.arphrd

/-- `PinnedLink::from_pin`. -/
def fromPin (path : List Char) : Starting (Except IoError TcxLink) :=
  kernelOp c fun w => (match w.linkPins path with
    | some link => .ok link
    | none => .error ⟨some enoent⟩, w)

/-- `attach_to_link`, on the link pinned at a path: its classifier is swapped at once. -/
def attachToLink (path : List Char) (classifier : Classifier) : Starting (Except IoError Unit) :=
  kernelOp c fun w =>
    match w.linkPins path with
    | none => (.ok (), w)
    | some link =>
        if link.device.isNone then (.error ⟨some 67⟩, w)
        else (.ok (), { w with linkPins := Function.update w.linkPins path (some { link with classifier }) })

/-- `remove_file` on the pin of a link. -/
def removeLinkPin (path : List Char) : Starting (Except IoError Unit) :=
  kernelOp c fun w =>
    match w.linkPins path with
    | none => (.error ⟨some enoent⟩, w)
    | some _ => (.ok (), { w with linkPins := Function.update w.linkPins path none })

/-- `SchedClassifier::attach` and `take_link`: the new link lives as long as the process. -/
def attach (classifier : Classifier) (iface : Iface) (attachType : TcAttachType) : Starting (Except IoError Unit) :=
  kernelOp c fun w =>
    match w.devices.lookup iface with
    | none => (.error ⟨some 19⟩, w)
    | some device => (.ok (), { w with held := some (iface, ⟨classifier, attachType, some device.ifindex⟩) })

/-- `FdLink::pin`. -/
def pinLink (path : List Char) : Starting (Except IoError Unit) :=
  kernelOp c fun w =>
    match w.linkPins path with
    | some _ => (.error ⟨some eexist⟩, { w with held := none })
    | none => (.ok (), { w with linkPins := Function.update w.linkPins path (w.held.map Prod.snd), held := none })

/-- The pin of the classifier itself is replaced. -/
def pinProgram (classifier : Classifier) : Starting Unit := do
  let path := progPinPath classifier.name
  let _ ← kernelOp c fun w => (.ok (), { w with progPins := Function.update w.progPins path none })
  orFail "" (← kernelOp c fun w =>
    match w.progPins path with
    | some _ => (.error ⟨some eexist⟩, w)
    | none => (.ok (), { w with progPins := Function.update w.progPins path (some classifier) }))

end AttachCourse

end Beep
