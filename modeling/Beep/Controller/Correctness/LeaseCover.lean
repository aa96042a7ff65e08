import Beep.Controller.Publish

/-!
# `Controller.Correctness.LeaseCover` — what a node publishes its Lease carries

A node prunes the address of another one that no live Lease carries, and compares the two as texts: the entry of the
ingress list (`merged_ingress`) and the annotation of the Lease (`lease_body`, `parse_lease_list`). Both sides are written
from the node's own addresses, with the same fallback while its Node is not there, and what is joined with commas is read
back as it was.
-/

namespace Beep

open Json (Value)

/-! ## The annotation -/

/-- What is joined with commas is what is found between them. -/
theorem splitOn_comma_join {texts : List String} (hcomma : ∀ text ∈ texts, ',' ∉ text.toList)
    (hempty : ∀ text ∈ texts, text ≠ "") :
    (((",".intercalate texts).toList.splitOn ',').map String.ofList).filter (· ≠ "") = texts := by
  by_cases hnil : texts = []
  · rw [hnil]
    decide
  · have hlists : ∀ l ∈ texts.map String.toList, ',' ∉ l := by
      intro l hl
      obtain ⟨text, htext, rfl⟩ := List.mem_map.mp hl
      exact hcomma text htext
    have hsplit : (",".intercalate texts).toList.splitOn ',' = texts.map String.toList := by
      rw [String.toList_intercalate, show ",".toList = [','] from rfl]
      exact List.splitOn_intercalate ',' hlists (by simpa using hnil)
    rw [hsplit, List.map_map, Function.comp_def]
    simp only [String.ofList_toList, List.map_id']
    exact List.filter_eq_self.mpr fun text htext => by simpa using hempty text htext

/-- **A Lease is read as it was written.** -/
theorem parseLease_leaseBody (ns node : String) (ips : List IpAddr) (renewTime : String) :
    parseLease (leaseBody ns node ips renewTime) =
      some { name := leaseName node, renewTime, ips := ips.map IpAddr.display } := by
  have hcomma : ∀ text ∈ ips.map IpAddr.display, ',' ∉ text.toList := by
    intro text htext
    obtain ⟨ip, -, rfl⟩ := List.mem_map.mp htext
    exact IpAddr.display_no_sep (by decide) (by decide) (by decide) ip
  have hempty : ∀ text ∈ ips.map IpAddr.display, text ≠ "" := by
    intro text htext
    obtain ⟨ip, -, rfl⟩ := List.mem_map.mp htext
    exact IpAddr.display_ne_empty ip
  have hname : (((leaseBody ns node ips renewTime).get "metadata").get "name").asStr = some (leaseName node) := rfl
  have htime : (((leaseBody ns node ips renewTime).get "spec").get "renewTime").asStr = some renewTime := rfl
  have hannotation : ((((leaseBody ns node ips renewTime).get "metadata").get "annotations").get ipsAnnotation).asStr =
      some (",".intercalate (ips.map IpAddr.display)) := rfl
  unfold parseLease
  rw [hname, htime, hannotation]
  show some (ListedLease.mk _ _ _) = _
  rw [Option.getD_some, splitOn_comma_join hcomma hempty]

/-! ## What is published is covered -/

/-- What a corrected list has and the list before it had not is written of a desired address. -/
theorem entryIp_of_added {existing : List Value} {ownIps desiredIps : List IpAddr} {entry : Value}
    (hentry : entry ∈ (mergedIngress existing ownIps desiredIps).getD existing) (hnew : entry ∉ existing) :
    ∃ ip ∈ desiredIps, entryIp entry = some ip.display := by
  obtain ⟨added, -, hadded, hlist, -⟩ := mergedIngress_spec existing ownIps desiredIps
  rw [hlist] at hentry
  rcases List.mem_append.mp hentry with hkept | hentry
  · exact absurd (List.mem_filter.mp hkept).1 hnew
  · obtain ⟨ip, hip, rfl⟩ := List.mem_map.mp hentry
    exact ⟨ip, ((hadded ip).mp hip).1, rfl⟩

/-- A live Lease that is listed under its name makes its addresses live. -/
theorem isLiveIp_of_listed {t : LeaseTracker} {listed : List ListedLease} {observedAt now : Instant} {lease : ListedLease}
    (hlisted : listedAs listed lease.name = some lease) (hlive : (t.observe listed observedAt).isLive lease.name now = true)
    {text : String} (htext : text ∈ lease.ips) : isLiveIp (t.observe listed observedAt).leases now text = true := by
  have hobserved := t.lookup_observe listed observedAt lease.name
  rw [hlisted] at hobserved
  obtain ⟨o, ho, hobserves⟩ := hobserved
  unfold LeaseTracker.isLive at hlive
  rw [ho, Option.any_some] at hlive
  refine List.any_eq_true.mpr ⟨o, Table.mem_values.mpr ⟨_, ho⟩, ?_⟩
  rw [hlive, Bool.true_and, List.contains_iff_mem, hobserves.ips]
  exact htext

/-- **What a node publishes its Lease carries.** Once the LISTs have completed, whatever Nodes, Services and slices there
    are: every address that is to be published of a Service is one of the Lease's. Whatever addresses a Lease is written
    with and whatever other Leases it is listed among, it is read back with exactly their texts, and these are the texts of
    the entries that are added for them. So every entry of an address that the node publishes is live for everybody who
    finds the node's Lease listed and live. -/
theorem published_leased {s : WatchState} (hlisted : s.fullyListed = true) (key : ServiceKey) (localNodeIp : IpAddr) :
    ∃ leased, s.leaseIps localNodeIp = some leased ∧ (∀ ip ∈ s.ipsToPublish key localNodeIp, ip ∈ leased) ∧
      (∀ ns node ips renewTime before after,
        parseLeaseList (some (.obj [("items", .arr (before ++ leaseBody ns node ips renewTime :: after))])) =
          .ok (before.filterMap parseLease ++
            { name := leaseName node, renewTime, ips := ips.map IpAddr.display } :: after.filterMap parseLease)) ∧
      (∀ existing ownIps desiredIps, ∀ entry ∈ (mergedIngress existing ownIps desiredIps).getD existing,
        entry ∉ existing → ∃ ip ∈ desiredIps, entryIp entry = some ip.display) ∧
      ∀ ns node renewTime (t : LeaseTracker) listed observedAt now,
        listedAs listed (leaseName node) = parseLease (leaseBody ns node leased renewTime) →
        (t.observe listed observedAt).isLive (leaseName node) now = true →
          ∀ ip ∈ s.ipsToPublish key localNodeIp, isLiveIp (t.observe listed observedAt).leases now ip.display = true := by
  have hnodes : s.nodesListed = true := by
    unfold WatchState.fullyListed at hlisted
    simp only [Bool.and_eq_true] at hlisted
    tauto
  have hleased : s.leaseIps localNodeIp = some (s.ownNodeIps localNodeIp) := if_pos hnodes
  refine ⟨_, hleased, fun ip hip => WatchState.ipsToPublish_own hip, ?_, ?_, ?_⟩
  · intro ns node ips renewTime before after
    have hitems : ((Value.obj [("items", .arr (before ++ leaseBody ns node ips renewTime :: after))]).get
        "items").asArray = some (before ++ leaseBody ns node ips renewTime :: after) := rfl
    unfold parseLeaseList
    dsimp only
    rw [hitems, Option.getD_some, List.filterMap_append, List.filterMap_cons, parseLease_leaseBody]
  · exact fun existing ownIps desiredIps entry hentry hnew => entryIp_of_added hentry hnew
  · intro ns node renewTime t listed observedAt now hlease hlive ip hip
    rw [parseLease_leaseBody] at hlease
    let lease : ListedLease := ⟨leaseName node, renewTime, (s.ownNodeIps localNodeIp).map IpAddr.display⟩
    have htext : ip.display ∈ lease.ips := List.mem_map_of_mem (WatchState.ipsToPublish_own hip)
    have hlisted : listedAs listed lease.name = some lease := hlease
    exact isLiveIp_of_listed hlisted hlive htext

/-- The Node `n1` with `10.0.0.1` inside and `203.0.113.7` outside, and an IPv4 Service of no pods. -/
def leasedState : WatchState where
  services := AList.insert { ns := "default", name := "web" }
    { ports := [], ipFamilies := [.v4], policy := .onlyLocal, clientIpAffinity := false } ∅
  nodeIps := AList.insert "n1" { underlay := [.v4 0x0a000001], fronts := [.v4 0xcb007107] } ∅
  nodeNames := {"n1"}
  nodesListed := true
  servicesListed := true
  slicesListed := true

theorem published_leased_outside :
    ∃ leased, leasedState.leaseIps (.v4 0x0a000001) = some leased ∧ IpAddr.v4 0xcb007107 ∈ leased := by
  obtain ⟨leased, hleased, hcovered, -⟩ :=
    published_leased (show leasedState.fullyListed = true by decide) { ns := "default", name := "web" } (.v4 0x0a000001)
  exact ⟨leased, hleased, hcovered _ (by decide)⟩

end Beep
