import Beep.Controller.Requests
import Beep.Ebpf.Skb

/-!
# `Controller.Correctness.OwnedFronts` — which fronts stay owned

A Service port on a front address keeps its front, without slots while no endpoint can be used, only as long as some
request for the front is met (`front_owned_iff`): the target port is read off the slices, and a Service whose slices
list no port, as they do once all its pods are gone, has none.
-/

namespace Beep

namespace WatchState

section
variable [Host] {s : WatchState} {node : NodeContext}

/-- The front of a request is desired, and has no slots while no endpoint of the request can be used. -/
def FrontOwned (s : WatchState) (node : NodeContext) (r : FrontRequest) : Prop :=
  ∃ front, (s.desired node).fronts.lookup r.key = some front ∧ (¬ s.HasUsable node r → front.endpoints = [])

/-- The last request for a key, in the order they are met, whose target port is known. -/
def Decides (s : WatchState) (key : LbFrontKey) (r : FrontRequest) : Prop :=
  ∃ before after, s.requests = before ++ r :: after ∧ r.key = key ∧ PortKnown r.port r.slices ∧
    ∀ r' ∈ after, r'.key = key → ¬ PortKnown r'.port r'.slices

theorem getLast?_owners {key : LbFrontKey} {r : FrontRequest} :
    (s.owners key).getLast? = some r ↔ s.Decides key r := by
  have hmet : ∀ r' : FrontRequest, decide (r'.key = key ∧ r'.targetPort.isSome = true) = true ↔
      r'.key = key ∧ PortKnown r'.port r'.slices := by
    intro r'
    rw [decide_eq_true_iff, FrontRequest.targetPort, resolveTargetPort_isSome]
  unfold owners Decides
  constructor
  · intro h
    obtain ⟨owners, howners⟩ := List.getLast?_eq_some_iff.mp h
    obtain ⟨before, after, hsplit, -, hafter⟩ := List.filter_eq_append_iff.mp howners
    obtain ⟨skipped, after, rfl, -, hkeep, hnil⟩ := List.filter_eq_cons_iff.mp hafter
    obtain ⟨hkey, hport⟩ := (hmet r).mp hkeep
    refine ⟨before ++ skipped, after, by rw [hsplit, List.append_assoc], hkey, hport, fun r' hr' hkey' hport' => ?_⟩
    exact List.filter_eq_nil_iff.mp hnil r' hr' ((hmet r').mpr ⟨hkey', hport'⟩)
  · rintro ⟨before, after, hsplit, hkey, hport, hlast⟩
    have hnil : after.filter (fun r' => decide (r'.key = key ∧ r'.targetPort.isSome = true)) = [] :=
      List.filter_eq_nil_iff.mpr fun r' hr' hkeep =>
        hlast r' hr' ((hmet r').mp hkeep).1 ((hmet r').mp hkeep).2
    have hr : (r :: after).filter (fun r' => decide (r'.key = key ∧ r'.targetPort.isSome = true)) = [r] := by
      rw [List.filter_cons, if_pos ((hmet r).mpr ⟨hkey, hport⟩), hnil]
    rw [hsplit, List.filter_append, hr]
    exact List.getLast?_concat

/-- **When a front stays owned**: a request for it has a known target port, and where the last of these has a usable
    endpoint, so has the Service itself. -/
theorem front_owned_iff (hlisted : s.fullyListed = true) (r : FrontRequest) :
    s.FrontOwned node r ↔ ∃ r', s.Decides r.key r' ∧ (s.HasUsable node r' → s.HasUsable node r) := by
  have hlookup := lookup_fronts_owners hlisted node r.key
  constructor
  · rintro ⟨front, hfront, hempty⟩
    rw [hlookup] at hfront
    obtain ⟨r', hr', hmap⟩ := Option.bind_eq_some_iff.mp hfront
    obtain ⟨t, ht, rfl⟩ := Option.map_eq_some_iff.mp hmap
    refine ⟨r', getLast?_owners.mp hr', fun huse => ?_⟩
    by_contra hnone
    exact (requested_endpoints_eq_nil ht).mp (hempty hnone) huse
  · rintro ⟨r', hr', huse⟩
    replace hr' := getLast?_owners.mpr hr'
    have hmem := (mem_owners.mp (List.mem_of_getLast? hr')).2.2
    obtain ⟨t, ht⟩ := Option.isSome_iff_exists.mp hmem
    refine ⟨s.requested node r' t, ?_, fun hnone => (requested_endpoints_eq_nil ht).mpr fun h => hnone (huse h)⟩
    rw [hlookup, hr', Option.bind_some, ht]
    rfl

end

end WatchState

/-! ## A Service whose pods are gone -/

/-- `10.0.0.1`, the one node. -/
def soleNode : NodeContext := ⟨.v4 0x0a000001, ⟨none, none⟩⟩

/-- The three LISTs of a cluster with one node and a Service that has the given slice ports and endpoints. -/
def soleLists (ports endpoints : List Json.Value) : List WatchInput :=
  [.services [serviceObject "web" [portObject 80]], .endpointSlices [sliceObject "web" "web-1" ports endpoints],
    .nodes [nodeObject "n1" "10.0.0.1"]]

/-- The state after them. -/
def soleState (ports endpoints : List Json.Value) : WatchState :=
  (soleLists ports endpoints).foldl (WatchState.apply soleNode.nodeIp) {}

section
local instance soleHost : Host := littleHost

/-- One pod that serves port 8080. -/
def oneWebPod : WatchState := soleState [portObject 8080] [endpointObject "10.1.0.9" "n1" "a"]

theorem oneWebPod_listed : oneWebPod.fullyListed = true := by decide

theorem oneWebPod_known : (oneWebPod.requests.all fun r => r.targetPort.isSome) = true := by decide

theorem oneWebPod_one : oneWebPod.requests.length = 1 := by decide

theorem oneWebPod_decides {r : FrontRequest} (hr : r ∈ oneWebPod.requests) : oneWebPod.Decides r.key r := by
  obtain ⟨r', hr'⟩ := List.length_eq_one_iff.mp oneWebPod_one
  have hmem := hr
  rw [hr'] at hmem
  obtain rfl := List.mem_singleton.mp hmem
  refine ⟨[], [], hr', rfl, WatchState.resolveTargetPort_isSome.mp ?_, fun q hq => absurd hq List.not_mem_nil⟩
  exact List.all_eq_true.mp oneWebPod_known r hr

/-- With one pod every front of the Service is owned. -/
theorem front_owned_iff_one_pod : oneWebPod.requests.length = 1 ∧
    ∀ r ∈ oneWebPod.requests, oneWebPod.FrontOwned soleNode r :=
  ⟨oneWebPod_one, fun r hr => (WatchState.front_owned_iff oneWebPod_listed r).mpr ⟨r, oneWebPod_decides hr, id⟩⟩

/-- No pod: the slice is still there, and lists no port. -/
def noWebPod : WatchState := soleState [] []

theorem noWebPod_listed : noWebPod.fullyListed = true := by decide

theorem noWebPod_unknown : (noWebPod.requests.all fun r => r.targetPort.isNone) = true := by decide

theorem noWebPod_requests : noWebPod.requests ≠ [] := by
  have hone : noWebPod.requests.length = 1 := by decide
  exact fun hnil => by simp [hnil] at hone

theorem noWebPod_not_owned {r : FrontRequest} : ¬ noWebPod.FrontOwned soleNode r := by
  rw [WatchState.front_owned_iff noWebPod_listed]
  rintro ⟨r', ⟨before, after, hsplit, -, hport, -⟩, -⟩
  have hnone := List.all_eq_true.mp noWebPod_unknown r' (by rw [hsplit]; simp)
  have hsome := WatchState.resolveTargetPort_isSome.mpr hport
  rw [FrontRequest.targetPort, Option.isNone_iff_eq_none] at hnone
  rw [hnone] at hsome
  cases hsome

end

/-- Without its pods the Service loses its front. -/
theorem not_front_owned : ¬ ∀ (host : Host) (node : NodeContext) (inputs : List WatchInput) (r : FrontRequest),
    let s : WatchState := inputs.foldl (WatchState.apply node.nodeIp) {}
    s.fullyListed = true → r ∈ s.requests → @WatchState.FrontOwned host s node r := by
  intro howned
  obtain ⟨r, hr⟩ := List.exists_mem_of_ne_nil _ noWebPod_requests
  exact noWebPod_not_owned (howned littleHost soleNode (soleLists [] []) r noWebPod_listed hr)

end Beep
