import Beep.Controller.Correctness.SizedMaps
import Beep.Ebpf.Correctness.Admission
import Beep.Ebpf.Correctness.ReverseRows
import Beep.Ebpf.Messages

/-!
# `Controller.Correctness.ListedEndpoints` — a pod is handed only what a controller listed it for

Whatever steers a packet comes from `FRONT_ENDPOINTS`: a new flow is pinned to a row there, a pending pin becomes a
forward row, and both outlive the row they came from, over every later generation. And whatever is in
`FRONT_ENDPOINTS` was put there by a front pass, from the desired state the pass was given.

So this file follows one invariant (`Node.Lists`: rows, pins and forward rows name listed endpoints only) through the
programs of one node, through the writes of its passes (`FrontedNode`), and then, with what the tunnel carries, to the
node at the other end (`FrontedNetwork.delivered_was_listed`).
-/

namespace Beep

open Run

section
variable [Host]

/-! ## The maps of one node -/

/-- What steers packets names listed endpoints only. -/
structure Node.Lists (L : LbFrontKey → LbFrontBackend × UInt16 → Prop) (n : Node) : Prop where
  endpoints : ∀ key v, n.frontEndpoints.lookup key = some v → L key.front (v.backend, v.targetPort)
  pending : ∀ f : IngressFlow, f.front.pad = 0 → ∀ v, n.fwdPending.lookup f.flowKey = some v →
    L f.front (v.backend, v.targetPort)
  forward : ∀ f : IngressFlow, f.front.pad = 0 → ∀ v, n.flowTableGetForward f.fwdKey = some v →
    L f.front (v.backend, v.targetPort)

variable {L : LbFrontKey → LbFrontBackend × UInt16 → Prop} {n : Node}

omit [Host] in
/-- A packet without a pin goes to a row of its front. -/
theorem ingressSteer_row {m : FrontMeta} {hash : UInt32} {front : LbFrontKey}
    {endpointAt : FrontEndpointKey → Option FrontEndpoint} {backend : LbFrontBackend} {targetPort : UInt16}
    (h : ingressSteer m none none hash front endpointAt = .forward backend targetPort) :
    ∃ key v, key.front = front ∧ endpointAt key = some v ∧ v.backend = backend ∧ v.targetPort = targetPort := by
  unfold ingressSteer at h
  simp only [Option.or_none] at h
  split at h
  · cases h
  · split at h
    · cases h
    · split at h
      · rename_i v hv
        split at h
        · cases h
          exact ⟨_, v, rfl, hv, rfl, rfl⟩
        · cases h
      · cases h

/-- **An answer** is a listed endpoint of the packet's front. -/
theorem Node.Lists.answer (hn : n.Lists L) {h : Helpers} {f : IngressFlow} {ifindex : UInt32}
    {answer : LbFrontBackend × UInt16} (hpad : f.front.pad = 0) (hok : (n.steer h f ifindex).2 = .ok answer) :
    L f.front answer := by
  unfold Node.steer Node.ingressBackend at hok
  cases hmeta : n.frontMeta.lookup f.front with
  | none => simp [hmeta] at hok
  | some m =>
    cases hconfig : n.config.map (·.flowHashSeed) with
    | none => simp [hmeta, hconfig] at hok
    | some seed =>
      cases hrow : n.flowTableGetForward f.fwdKey with
      | some v =>
        simp only [hmeta, hconfig, hrow, Option.isSome_some, if_true, forwardAdmission,
          ingressSteer_pinned (show Option.or (some v) none = some v from rfl)] at hok
        cases hok
        exact hn.forward f hpad v hrow
      | none =>
        cases hpin : n.fwdPending.lookup f.flowKey with
        | some v =>
          simp only [hmeta, hconfig, hrow, hpin, Option.isSome_none, Bool.false_eq_true, if_false, forwardAdmission,
            fwdPendingAffinityPin, ingressSteer_pinned (show Option.or none (some v) = some v from rfl)] at hok
          cases hok
          exact hn.pending f hpad v hpin
        | none =>
          simp only [hmeta, hconfig, hrow, hpin, Option.isSome_none, Bool.false_eq_true, if_false] at hok
          split at hok
          · cases hok
          · rename_i backend targetPort hsteer
            obtain ⟨key, v, hfront, hv, rfl, rfl⟩ := ingressSteer_row hsteer
            have hlisted := hn.endpoints key v hv
            rw [hfront] at hlisted
            simp only [forwardAdmission, Bool.false_eq_true, if_false, fwdPendingAffinityPin] at hok
            split at hok
            · cases hok
              exact hlisted
            · cases hok

/-- The front of a flow is what its key was made from. -/
theorem front_of_flowKey {f g : IngressFlow} (hf : f.front.pad = 0) (hg : g.front.pad = 0)
    (h : f.flowKey = g.flowKey) : f.front = g.front := by
  obtain ⟨-, -, hip, hport, hproto⟩ := encodeTcpFlowKey_inj.mp h
  rcases f with ⟨⟨_, _, _, _⟩, _, _, _, _⟩
  rcases g with ⟨⟨_, _, _, _⟩, _, _, _, _⟩
  simp only at hip hport hproto hf hg
  rw [hip, hport, hproto, hf, hg]

theorem pad_of_ingressAdmit {skb : Skb} {f : IngressFlow} {l2Hlen : Nat} (h : ingressAdmit n skb = some (f, l2Hlen)) :
    f.front.pad = 0 := by
  obtain ⟨_, _, _, _, hparse⟩ := ingressAdmit_eq_some.mp h
  obtain ⟨_, _, hpacket⟩ := tryUplinkIngressHeaders_eq_some.mp hparse
  exact hpacket.pad

/-- **One event** of a node keeps to what is listed, if the rows a write of the front maps leaves are. -/
theorem Node.Lists.step (hn : n.Lists L) {e : NodeEvent}
    (hfronts : ∀ metas endpoints, e = .setFronts metas endpoints → ∀ key v, endpoints.lookup key = some v →
      L key.front (v.backend, v.targetPort)) : (n.step e).Lists L where
  endpoints := by
    intro key v hv
    cases e with
    | setFronts metas endpoints => exact hfronts metas endpoints rfl key v hv
    | setConfig _ | setPodTargets _ | setNodeAllow _ | setUplinks _ => exact hn.endpoints key v hv
    | uplinkIngress _ _ | geneveIngress _ _ | uplinkEgress _ _ | dropFlow _ | dropPending _ =>
      rw [(step_settings (by simp [NodeEvent.IsControl])).frontEndpoints] at hv
      exact hn.endpoints key v hv
  pending := by
    intro f hpad v hv
    rcases step_pending hv with hbefore | hmints
    · exact hn.pending f hpad v hbefore
    · cases e with
      | uplinkIngress skb h =>
        obtain ⟨g, l2Hlen, hadm, hkey, -, hok, -⟩ := hmints
        have hgpad := pad_of_ingressAdmit hadm
        rw [← front_of_flowKey hgpad hpad hkey]
        exact hn.answer hgpad hok
      | _ => exact hmints.elim
  forward := by
    intro f hpad v hv
    rw [IngressFlow.fwdKey_eq] at hv
    rcases step_forward hv with ⟨w, hw, hcore⟩ | ⟨w, hpromotes, hcore⟩
    · obtain ⟨hbackend, hport, -⟩ := fields_of_core hcore
      rw [hbackend, hport]
      exact hn.forward f hpad w hw
    · obtain ⟨hbackend, hport, -⟩ := fields_of_core hcore
      rw [hbackend, hport]
      cases e with
      | geneveIngress skb h =>
        obtain ⟨_, _, _, _, _, _, _, hpin, _⟩ := hpromotes
        exact hn.pending f hpad w hpin
      | _ => exact hpromotes.elim

/-! ## A node and the front passes of its controller -/

/-- A node, and what the pass in flight has yet to write. -/
structure FrontedNode where
  node : Node
  rest : FrontLog

/-- What happens at such a node. -/
inductive FrontedEvent where
  /-- anything but a write of the front maps -/
  | maps (e : { e : NodeEvent // ∀ metas endpoints, e ≠ .setFronts metas endpoints })
  /-- the controller, which has nothing in flight, plans a pass -/
  | pass (input : FrontPassInput)
  /-- the pass in flight issues its next write -/
  | write
  /-- the controller ends, and with it the pass in flight -/
  | stop

/-- One write to the front maps of a node. -/
def Node.writeFront (n : Node) (w : FrontWrite) : Node :=
  let s := FrontStore.apply ⟨n.frontMeta, n.frontEndpoints⟩ w
  n.step (.setFronts s.metas s.endpoints)

/-- The step. -/
def FrontedNode.step (w : FrontedNode) : FrontedEvent → FrontedNode
  | .maps e => { w with node := w.node.step e.val }
  | .pass input =>
      if w.rest = [] then { w with rest := input.log ⟨w.node.frontMeta, w.node.frontEndpoints⟩ } else w
  | .write =>
      match w.rest with
      | [] => w
      | (write, ok) :: rest => { node := if ok then w.node.writeFront write else w.node, rest }
  | .stop => { w with rest := [] }

/-- The desired state lists the endpoint for the front. -/
def ListsEndpoint (desired : Table LbFrontKey DesiredFront) (front : LbFrontKey)
    (endpoint : LbFrontBackend × UInt16) : Prop :=
  ∃ want, desired.lookup front = some want ∧ ∃ v ∈ want.endpoints, (v.backend, v.targetPort) = endpoint

/-- What is in the maps or about to be written is listed. -/
structure FrontedNode.Lists (L : LbFrontKey → LbFrontBackend × UInt16 → Prop) (w : FrontedNode) : Prop where
  node : w.node.Lists L
  rest : ∀ key v ok, (FrontWrite.putEndpoint key v, ok) ∈ w.rest → L key.front (v.backend, v.targetPort)

theorem Node.Lists.writeFront (hn : n.Lists L) {w : FrontWrite}
    (hw : ∀ key v, w = .putEndpoint key v → L key.front (v.backend, v.targetPort)) : (n.writeFront w).Lists L := by
  show (n.step (.setFronts _ _)).Lists L
  refine hn.step ?_
  rintro metas endpoints heq key v hv
  cases heq
  cases w with
  | putMeta _ _ | deleteMeta _ => exact hn.endpoints key v hv
  | deleteEndpoint gone =>
    rw [show FrontStore.endpoints _ = n.frontEndpoints.erase gone from rfl, Table.lookup_erase_ite] at hv
    split at hv
    · cases hv
    · exact hn.endpoints key v hv
  | putEndpoint key' v' =>
    rw [show FrontStore.endpoints _ = n.frontEndpoints.insert key' v' from rfl, Table.lookup_insert_ite] at hv
    split at hv
    · rename_i hkey
      cases hv
      rw [hkey]
      exact hw key' v rfl
    · exact hn.endpoints key v hv

/-- A step keeps to what is listed, if what a pass is given is listed. -/
theorem FrontedNode.Lists.step {w : FrontedNode} (hw : w.Lists L) {e : FrontedEvent}
    (hpass : ∀ input, e = .pass input → ∀ front endpoint, ListsEndpoint input.desired front endpoint →
      L front endpoint) : (w.step e).Lists L := by
  cases e with
  | maps e => exact ⟨hw.node.step fun metas endpoints he => absurd he (e.property metas endpoints), hw.rest⟩
  | pass input =>
    unfold FrontedNode.step
    dsimp only
    split
    · refine ⟨hw.node, fun key v ok hmem => ?_⟩
      obtain ⟨want, slot, hd, hslot, -⟩ := putEndpoint_of_frontPass hmem
      exact hpass input rfl key.front _ ⟨want, hd, v, List.mem_of_getElem? hslot, rfl⟩
    · exact hw
  | write =>
    cases hrest : w.rest with
    | nil =>
      simp only [FrontedNode.step, hrest]
      exact hw
    | cons head rest =>
      obtain ⟨write, ok⟩ := head
      have hmem : ∀ key v ok', (FrontWrite.putEndpoint key v, ok') ∈ (write, ok) :: rest →
          L key.front (v.backend, v.targetPort) := fun key v ok' h => hw.rest key v ok' (hrest ▸ h)
      simp only [FrontedNode.step, hrest]
      refine ⟨?_, fun key v ok' h => hmem key v ok' (List.mem_cons_of_mem _ h)⟩
      cases ok with
      | false => exact hw.node
      | true =>
        refine hw.node.writeFront ?_
        rintro key v rfl
        exact hmem key v true List.mem_cons_self
  | stop => exact ⟨hw.node, fun key v ok hmem => nomatch hmem⟩

theorem Node.Lists.mono {L' : LbFrontKey → LbFrontBackend × UInt16 → Prop} (hn : n.Lists L)
    (h : ∀ front endpoint, L front endpoint → L' front endpoint) : n.Lists L' where
  endpoints key v hv := h _ _ (hn.endpoints key v hv)
  pending f hpad v hv := h _ _ (hn.pending f hpad v hv)
  forward f hpad v hv := h _ _ (hn.forward f hpad v hv)

/-! ## The nodes and the tunnel -/

/-- The nodes, and the packets put into the tunnel so far. -/
structure FrontedNetwork (ι : Type*) where
  node : ι → FrontedNode
  sent : List TunnelPacket

/-- The packet an event puts into the tunnel. -/
def FrontedNode.sends (w : FrontedNode) (src : Bytes 16) : FrontedEvent → Option TunnelPacket
  | .maps e => w.node.sends src e.val
  | _ => none

namespace FrontedNetwork

variable {ι : Type*} [DecidableEq ι] {addr : ι → Bytes 16}

/-- The step, at the node with this tunnel address. -/
def step (addr : ι → Bytes 16) (net : FrontedNetwork ι) (e : ι × FrontedEvent) : FrontedNetwork ι where
  node := Function.update net.node e.1 ((net.node e.1).step e.2)
  sent := net.sent ++ ((net.node e.1).sends (addr e.1) e.2).toList

/-- A pass of the node's controller has listed the endpoint for the front. -/
def Listed (es : List (ι × FrontedEvent)) (i : ι) (front : LbFrontKey) (endpoint : LbFrontBackend × UInt16) : Prop :=
  ∃ input, (i, FrontedEvent.pass input) ∈ es ∧ ListsEndpoint input.desired front endpoint

/-- A forward packet goes to a listed endpoint of the front it is addressed to. -/
def ForListed (L : ι → LbFrontKey → LbFrontBackend × UInt16 → Prop) (m : TunnelPacket) : Prop :=
  m.vni = vniFwd → ∃ i fam q tcpFlags endpoint, L i ⟨q.dstIp, q.dstPort, q.proto, 0⟩ endpoint ∧
    Says m.data fam q tcpFlags ∧ m.dst = endpoint.1.backendNodeIp ∧
    m.options = (encodePodIdOption endpoint.1.podIp endpoint.2).toList

/-- Where a run starts: no endpoint row, no pin, no forward row, nothing in flight. -/
structure Initial (net : FrontedNetwork ι) : Prop where
  endpoints : ∀ i key, (net.node i).node.frontEndpoints.lookup key = none
  pending : ∀ i key, (net.node i).node.fwdPending.lookup key = none
  forward : ∀ i key, (net.node i).node.flowTable.lookup (forwardKey key) = none
  rest : ∀ i, (net.node i).rest = []
  sent : net.sent = []

omit [DecidableEq ι] in
/-- **What a node sends**: a forward packet goes to a listed endpoint of its front. -/
theorem forListed_sends {L : ι → LbFrontKey → LbFrontBackend × UInt16 → Prop} {i : ι} (hn : n.Lists (L i))
    {src : Bytes 16} {e : NodeEvent} {m : TunnelPacket} (hm : n.sends src e = some m) : ForListed L m := by
  intro hvni
  cases e with
  | uplinkIngress skb h =>
    simp only [Node.sends] at hm
    cases hverdict : (uplinkIngress n h skb).2.2 with
    | ok | shot => simp [hverdict, tunnelled] at hm
    | redirect ifindex neigh =>
      rw [hverdict] at hm
      obtain ⟨f, l2Hlen, answer, geneveIfindex, hadm, hok, hredirect⟩ := uplinkIngress_redirect hverdict
      obtain ⟨uplink, _, _, hlen, hparse⟩ := ingressAdmit_eq_some.mp hadm
      obtain ⟨fam, hfam, hpacket⟩ := tryUplinkIngressHeaders_eq_some.mp hparse
      rw [hpacket.ethertype] at hredirect
      obtain ⟨hstamped, hframe⟩ := framedFrom_redirect hlen hfam hredirect
      simp only [tunnelled, hstamped, Option.map_some, Option.some.injEq] at hm
      subst hm
      have hlisted := hn.answer hpacket.pad hok
      have hfront : f.front = ⟨f.packet.dstIp, f.packet.dstPort, f.packet.proto, 0⟩ := by
        rw [← hpacket.pad]
        rfl
      rw [hfront] at hlisted
      refine ⟨i, fam, f.packet, f.tcpFlags, answer, hlisted, ?_, tunnelRemote_setTunnelRemote _, rfl⟩
      exact says_data (hframe.innerPacket hpacket.frame) (hframe.tcpFlags hpacket.tcpFlagsDirect)
  | uplinkEgress skb h =>
    simp only [Node.sends] at hm
    cases hverdict : (uplinkEgressReturn n h skb).2.2 with
    | ok | shot => simp [hverdict, tunnelled] at hm
    | redirect ifindex neigh =>
      -- a reply is no forward packet
      rw [hverdict] at hm
      obtain ⟨p, rev, tcpFlags, skb₁, geneveIfindex, -, -, -, -, hredirect⟩ := uplinkEgress_redirect hverdict
      simp only [tunnelled, (redirectToGeneve_redirect hredirect).1, Option.map_some, Option.some.injEq] at hm
      subst hm
      exact absurd (show vniRet = vniFwd from hvni) (by decide)
  | _ => cases hm

omit [DecidableEq ι] in
theorem ForListed.mono {L L' : ι → LbFrontKey → LbFrontBackend × UInt16 → Prop} {m : TunnelPacket}
    (hm : ForListed L m) (h : ∀ i front endpoint, L i front endpoint → L' i front endpoint) : ForListed L' m := by
  intro hvni
  obtain ⟨i, fam, q, tcpFlags, endpoint, hlisted, hrest⟩ := hm hvni
  exact ⟨i, fam, q, tcpFlags, endpoint, h i _ _ hlisted, hrest⟩

/-- **Along a run**: every node's maps and every forward packet in the tunnel name what was listed before. -/
theorem listed_run {net : FrontedNetwork ι} (hinit : net.Initial) (es : List (ι × FrontedEvent)) :
    (∀ i, ((es.foldl (step addr) net).node i).Lists (Listed es i)) ∧
      ∀ m ∈ (es.foldl (step addr) net).sent, ForListed (Listed es) m := by
  -- on the last event
  induction es using List.reverseRecOn with
  | nil =>
    refine ⟨fun i => ⟨⟨fun key v hv => ?_, fun f _ v hv => ?_, fun f _ v hv => ?_⟩, fun key v ok hmem => ?_⟩,
      fun m hm => ?_⟩
    · exact absurd ((hinit.endpoints i key).symm.trans hv) nofun
    · exact absurd ((hinit.pending i _).symm.trans hv) nofun
    · rw [IngressFlow.fwdKey_eq] at hv
      change (((net.node i).node.flowTable.lookup (forwardKey f.flowKey)).map FlowValue.forward) = some v at hv
      rw [hinit.forward] at hv
      cases hv
    · change (FrontWrite.putEndpoint key v, ok) ∈ (net.node i).rest at hmem
      rw [hinit.rest] at hmem
      cases hmem
    · change m ∈ net.sent at hm
      rw [hinit.sent] at hm
      cases hm
  | append_singleton es e ih =>
    obtain ⟨hnodes, hsent⟩ := ih
    rw [List.foldl_append, List.foldl_cons, List.foldl_nil]
    generalize es.foldl (step addr) net = now at hnodes hsent ⊢
    have hmore : ∀ i front endpoint, Listed es i front endpoint → Listed (es ++ [e]) i front endpoint := by
      rintro i front endpoint ⟨input, hmem, hlists⟩
      exact ⟨input, List.mem_append_left _ hmem, hlists⟩
    have hmono : ∀ i, (now.node i).Lists (Listed (es ++ [e]) i) := fun i =>
      ⟨(hnodes i).node.mono (hmore i), fun key v ok hmem => hmore i _ _ ((hnodes i).rest key v ok hmem)⟩
    constructor
    · intro i
      by_cases hi : i = e.1
      · subst hi
        rw [show (now.step addr e).node e.1 = (now.node e.1).step e.2 from Function.update_self ..]
        refine (hmono e.1).step ?_
        intro input hinput front endpoint hlists
        exact ⟨input, List.mem_append_right _ (by rw [← hinput]; exact List.mem_cons_self), hlists⟩
      · rw [show (now.step addr e).node i = now.node i from Function.update_of_ne hi ..]
        exact hmono i
    · intro m hm
      rcases List.mem_append.mp hm with hm | hm
      · exact (hsent m hm).mono hmore
      · obtain ⟨i, event⟩ := e
        cases event with
        | maps e => exact forListed_sends (hmono i).node (Option.mem_toList.mp hm)
        | pass _ | write | stop => cases hm

/-- **A pod is handed only what a controller listed it for.** On any number of nodes that start with empty maps, over
    packets of any kind, passes with any desired states that may stop at any write, and a tunnel that loses, repeats and
    reorders: a packet that came through the tunnel and that a node takes for a pod is addressed to a front for which a
    controller had, in a pass before, been asked to install just this endpoint: this node, this pod, this port. -/
theorem taken_was_listed {net : FrontedNetwork ι} (hinit : net.Initial) {es : List (ι × FrontedEvent)} {i : ι}
    {m : TunnelPacket} {skb : Skb} {p : ForwardPacket} (hm : m ∈ (es.foldl (step addr) net).sent)
    (hdst : m.dst = addr i) (harrives : m.ArrivesAs skb)
    (hp : decapForwardAdmit ((es.foldl (step addr) net).node i).node skb = some p) :
    ∃ j, Listed es j ⟨p.flow.frontIp, p.flow.frontPort, p.flow.proto, 0⟩
      ({ backendNodeIp := addr i, podIp := p.flow.podIp }, p.flow.targetPort) := by
  obtain ⟨hdata, info, hinfo, -, hvni, hoptions⟩ := harrives
  obtain ⟨info', podIp, targetPort, fam, inner, hinfo', hvni', hgate, hinner, rfl⟩ := decapForwardAdmit_eq_some.mp hp
  obtain rfl : info' = info := Option.some_inj.mp (hinfo'.symm.trans hinfo)
  obtain ⟨j, fam', q, tcpFlags, ⟨⟨backendNodeIp, podIp'⟩, port⟩, hlisted, htold, hdst', hopt'⟩ :=
    (listed_run hinit es).2 m hm (hvni.symm.trans hvni')
  obtain ⟨hinner', -⟩ := htold skb hdata
  obtain ⟨rfl, rfl⟩ : fam' = fam ∧ q = inner := Prod.mk.inj (Option.some_inj.mp (hinner'.symm.trans hinner))
  obtain ⟨-, opt, hget, hdecode⟩ := decapForwardGate_some hgate
  rw [getTunnelOpt_of_options hinfo (hoptions.trans hopt')] at hget
  obtain ⟨-, rfl⟩ := Prod.mk.inj (Option.some_inj.mp hget)
  rw [decodePodIdOption_encode] at hdecode
  obtain ⟨rfl, rfl⟩ := Prod.mk.inj (Option.some_inj.mp hdecode)
  refine ⟨j, ?_⟩
  rw [show addr i = backendNodeIp from hdst.symm.trans hdst']
  exact hlisted

end FrontedNetwork

end

section
local instance listedHost : Host := littleHost

/-- The ingress node `10.0.0.1`, before its controller has installed anything, and the backend node `10.0.0.2`. -/
def frontedPair : FrontedNetwork Bool where
  node
    | false => ⟨{ oneIngress with frontMeta := ∅, frontEndpoints := ∅ }, []⟩
    | true => ⟨oneBackend, []⟩
  sent := []

/-- Their addresses. -/
def twoAddrs : Bool → Bytes 16
  | false => mappedAddr 10 0 0 1
  | true => mappedAddr 10 0 0 2

/-- A pass that is asked for one front with one endpoint. -/
def listingPass : FrontPassInput where
  fails _ _ := none
  order := .asStored
  desired := (∅ : Table LbFrontKey DesiredFront).insert oneFront ⟨0, false, [oneEndpoint]⟩
  pruneAbsent := true
  keepPrevious := ∅
  used := ⟨0, 0⟩
  cap := ⟨8, 8⟩

/-- The front is installed, and a client's packet comes in. -/
def installAndSend : List (Bool × FrontedEvent) :=
  [(false, .pass listingPass), (false, .write), (false, .write),
    (false, .maps ⟨.uplinkIngress clientSkb fun _ => true, fun _ _ h => nomatch h⟩)]

/-- That packet, in the tunnel. -/
def sentPacket : TunnelPacket where
  src := mappedAddr 10 0 0 1
  dst := mappedAddr 10 0 0 2
  vni := vniFwd
  options := (encodePodIdOption oneEndpoint.backend.podIp oneEndpoint.targetPort).toList
  data := clientSkb.data

/-- The backend node takes the packet, for the one endpoint that was listed. -/
theorem taken_was_listed_one_packet :
    decapForwardAdmit oneBackend (skbThrough 1) = some (forwardThrough 1) ∧
      ∃ j, FrontedNetwork.Listed installAndSend j
        ⟨(flowThrough 1).frontIp, (flowThrough 1).frontPort, (flowThrough 1).proto, 0⟩
        (⟨mappedAddr 10 0 0 2, (flowThrough 1).podIp⟩, (flowThrough 1).targetPort) := by
  have hinit : frontedPair.Initial := by
    refine ⟨fun i key => ?_, fun i key => ?_, fun i key => ?_, fun i => ?_, rfl⟩ <;> cases i <;> rfl
  have hsent : sentPacket ∈ (installAndSend.foldl (FrontedNetwork.step twoAddrs) frontedPair).sent := by
    rw [show (installAndSend.foldl (FrontedNetwork.step twoAddrs) frontedPair).sent = [sentPacket] by rfl]
    exact List.mem_singleton_self _
  have harrives : sentPacket.ArrivesAs (skbThrough 1) := ⟨rfl, _, rfl, by decide, rfl, rfl⟩
  have htaken : decapForwardAdmit oneBackend (skbThrough 1) = some (forwardThrough 1) := by decide
  exact ⟨htaken, @FrontedNetwork.taken_was_listed _ Bool _ twoAddrs _ hinit _ true _ _ _ hsent rfl harrives htaken⟩

end

end Beep
