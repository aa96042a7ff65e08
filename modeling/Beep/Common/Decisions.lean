import Beep.Common.Values

/-!
# `Common.Decisions` — the gates of the dataplane

The small decision functions of `common/src/lib.rs` that the hooks consult, with their verdicts as the
source names them. Each hook reads its maps, asks one of these, and acts on the answer.
-/

namespace Beep

/-- `ForwardAdmission`. -/
inductive ForwardAdmission where
  | established
  | mintPending
  deriving DecidableEq

/-- `forward_admission`: a flow with no established row may only be minted into the pending tier. -/
def forwardAdmission (inMain : Bool) : ForwardAdmission :=
  if inMain then .established else .mintPending

/-- `FwdPendingPin`. -/
inductive FwdPendingPin where
  | insert (candidate : ForwardFlowValue)
  | keep
  deriving DecidableEq

/-- `fwd_pending_affinity_pin`: the first packet pins, later ones leave the pin alone. -/
def fwdPendingAffinityPin (existing : Option ForwardFlowValue) (candidate : ForwardFlowValue) :
    FwdPendingPin :=
  match existing with
  | some _ => .keep
  | none => .insert candidate

/-- `ReturnAuthorization`. -/
inductive ReturnAuthorization where
  | established
  | promote
  | drop
  deriving DecidableEq

/-- `return_authorization`. -/
def returnAuthorization (inMain inPending : Bool) : ReturnAuthorization :=
  if inMain then .established else if inPending then .promote else .drop

/-- `EgressReturnAdmission`. -/
inductive EgressReturnAdmission where
  | notBackendTraffic
  | backendTraffic
  deriving DecidableEq

/-- `egress_return_admission`. -/
def egressReturnAdmission (isBackendPod : Bool) : EgressReturnAdmission :=
  if isBackendPod then .backendTraffic else .notBackendTraffic

/-- `EgressReturnOutcome`. -/
inductive EgressReturnOutcome where
  | passThrough
  | forward
  deriving DecidableEq

/-- `egress_return_outcome`. -/
def egressReturnOutcome (hasRevFlowEntry : Bool) : EgressReturnOutcome :=
  if hasRevFlowEntry then .forward else .passThrough

/-- `REDIRECTED_RETURN_MARK`. -/
def redirectedReturnMark : UInt32 := 0xbeeb0001

/-- `is_redirected_return_mark`. -/
def isRedirectedReturnMark (mark : UInt32) : Bool := mark = redirectedReturnMark

/-- `DecapForwardPodAdmission`. -/
inductive DecapForwardPodAdmission where
  | drop
  | deliver
  deriving DecidableEq

/-- `decap_forward_pod_admission`. -/
def decapForwardPodAdmission (isLocalPod : Bool) : DecapForwardPodAdmission :=
  if isLocalPod then .deliver else .drop

/-- `PeerNodeAdmission`. -/
inductive PeerNodeAdmission where
  | drop
  | continue
  deriving DecidableEq

/-- `peer_node_admission`. -/
def peerNodeAdmission (isKnownPeer : Bool) : PeerNodeAdmission :=
  if isKnownPeer then .continue else .drop

/-- `AddressRewriteChecksums`. -/
inductive AddressRewriteChecksums where
  | ipv4HeaderAndL4Pseudo
  | l4PseudoOnly
  deriving DecidableEq

/-- `address_rewrite_checksums`. -/
def addressRewriteChecksums (isIpv6 : Bool) : AddressRewriteChecksums :=
  if isIpv6 then .l4PseudoOnly else .ipv4HeaderAndL4Pseudo

/-- `BackendPortResolution`. -/
inductive BackendPortResolution where
  | memoized (port : UInt16)
  | probe
  deriving DecidableEq

/-- `backend_port_resolution`: a port committed earlier is reused, otherwise the probe runs. -/
def backendPortResolution (memoizedPort : Option UInt16) : BackendPortResolution :=
  match memoizedPort with
  | some port => .memoized port
  | none => .probe

end Beep
