import Beep.Common.SlotFairness
import Beep.Controller.Reconcile
import Beep.Loader.Fixture
import Beep.Loader.FrontSwap.Converge

/-!
# `Loader.FixtureMaps` — from fixture arguments to what packets find

`fixture_fronts` and `populate_fixtures` of `src/main.rs`, which run against whatever maps an earlier start left pinned.
The fixtures of one front become its endpoints in the order of the arguments; the pods of the fixtures this node backs, and
its own address, become the two sets the gates ask.

**What the arguments say is what the maps say** (`populateFixtures_exact`), if the loader gets through: a new flow of a
front goes to the fixture that its hash picks from the front's arguments, a front without an argument has no row left, and
the gates admit the pods and the node that the arguments name.
-/

namespace Beep

section
variable [Host]

/-! ## The fronts of the arguments -/

/-- `Proto::as_ip_proto`. -/
def Proto.asIpProto : Proto → UInt8
  | .tcp => ipprotoTcp
  | .udp => ipprotoUdp

/-- `fixture_key`. -/
def fixtureKey (fixture : Fixture) : LbFrontKey where
  frontIp := wireIpV6 fixture.frontIp
  frontPort := wirePort fixture.frontPort
  proto := fixture.proto.asIpProto
  pad := 0

/-- The endpoint of a fixture. -/
def fixtureEndpoint (fixture : Fixture) : FrontEndpoint where
  backend := { backendNodeIp := tunnelRemoteV6 fixture.backendNodeIp, podIp := wireIpV6 fixture.podIp }
  targetPort := wirePort fixture.targetPort
  flags := 0
  pad := Vector.replicate 4 0

/-- The front a fixture alone stands for. -/
def fixtureFront (fixture : Fixture) : DesiredFront where
  flags := if fixture.clientIpAffinity then frontFlagClientIpAffinity else 0
  preferLocal := true
  endpoints := [fixtureEndpoint fixture]

/-- One step of the fold: `entry`, `or_insert_with`, `|=` and `extend`. -/
def addFixture (fronts : Table LbFrontKey DesiredFront) (fixture : Fixture) : Table LbFrontKey DesiredFront :=
  let next := fixtureFront fixture
  let front := (fronts.lookup (fixtureKey fixture)).getD { next with endpoints := [] }
  fronts.insert (fixtureKey fixture)
    { front with flags := front.flags ||| next.flags, endpoints := front.endpoints ++ next.endpoints }

/-- `fixture_fronts`. -/
def fixtureFronts (fixtures : List Fixture) : Table LbFrontKey DesiredFront := fixtures.foldl addFixture ∅

/-- `local_pod_ips`. -/
def localPodIps (fixtures : List Fixture) (nodeIp : IpAddr) : List (Bytes 16) :=
  (fixtures.filter fun fixture => fixture.backendNodeIp = nodeIp).map fun fixture => wireIpV6 fixture.podIp

/-- The arguments of one front, in order. -/
def fixturesOf (fixtures : List Fixture) (front : LbFrontKey) : List Fixture :=
  fixtures.filter fun fixture => fixtureKey fixture = front

/-- The flags of a front: it has client affinity if one of its arguments says so. -/
def affinityFlags (fixtures : List Fixture) : UInt16 :=
  if fixtures.any Fixture.clientIpAffinity then frontFlagClientIpAffinity else 0

theorem affinityFlags_append (fixtures : List Fixture) (fixture : Fixture) :
    affinityFlags fixtures ||| (fixtureFront fixture).flags = affinityFlags (fixtures ++ [fixture]) := by
  have hor : ∀ a b : Bool, ((if a then frontFlagClientIpAffinity else 0) ||| if b then frontFlagClientIpAffinity else 0) =
      if a || b then frontFlagClientIpAffinity else 0 := by decide
  unfold affinityFlags fixtureFront
  rw [List.any_append, List.any_cons, List.any_nil, Bool.or_false]
  exact hor _ _

theorem fixturesOf_append (fixtures : List Fixture) (fixture : Fixture) (front : LbFrontKey) :
    fixturesOf (fixtures ++ [fixture]) front =
      fixturesOf fixtures front ++ if fixtureKey fixture = front then [fixture] else [] := by
  unfold fixturesOf
  rw [List.filter_append, List.filter_singleton]
  by_cases h : fixtureKey fixture = front <;> simp [h]

/-- **The fronts**: one for every front that is named, with its arguments' endpoints in order. -/
theorem lookup_fixtureFronts (fixtures : List Fixture) (front : LbFrontKey) :
    (fixtureFronts fixtures).lookup front =
      if fixturesOf fixtures front = [] then none
      else some ⟨affinityFlags (fixturesOf fixtures front), true, (fixturesOf fixtures front).map fixtureEndpoint⟩ := by
  -- on the arguments, the last one first
  induction fixtures using List.reverseRecOn with
  | nil => rfl
  | append_singleton fixtures fixture ih =>
    have hstep : fixtureFronts (fixtures ++ [fixture]) = addFixture (fixtureFronts fixtures) fixture := by
      unfold fixtureFronts
      rw [List.foldl_append]
      rfl
    rw [hstep, fixturesOf_append]
    unfold addFixture
    simp only []
    rw [Table.lookup_insert_ite]
    by_cases hkey : fixtureKey fixture = front
    · subst hkey
      have hne : fixturesOf fixtures (fixtureKey fixture) ++ [fixture] ≠ [] := by simp
      rw [if_pos rfl, if_pos rfl, if_neg hne, ih]
      by_cases hnil : fixturesOf fixtures (fixtureKey fixture) = []
      · rw [if_pos hnil, hnil]
        simp [affinityFlags, fixtureFront]
      · rw [if_neg hnil, Option.getD_some, affinityFlags_append, List.map_append]
        rfl
    · rw [if_neg (Ne.symm hkey), if_neg hkey, List.append_nil, ih]

/-! ## Writing the maps -/

/-- `capacity_hint`. -/
def capacityHint (mapName : String) : String :=
  let hint := fun flags : String => "if `" ++ mapName ++ "` is full (E2BIG), raise " ++ flags ++
    "; a changed cap recreates the pinned `" ++ mapName ++ "` on the next loader start"
  match mapName with
  | "NODE_ALLOW" => hint "`--node-allow-max-entries`"
  | "POD_TARGETS" => hint "`--pod-targets-max-entries`"
  | "FRONT_META" => hint "`--max-fronts`"
  | "FRONT_ENDPOINTS" => hint "`--max-fronts` or `--endpoints-per-front`"
  | _ => ""

/-- The maps that `populate_fixtures` finds and writes. -/
structure FixtureMaps where
  front : FrontStore
  podTargets : Table (Bytes 16) UInt8
  nodeAllow : Table (Bytes 16) UInt8

/-- How a run goes: the order a hash set hands out the fronts in, and which writes fail. -/
structure FixtureCourse where
  order : IterationOrder LbFrontKey
  frontFails : FrontLog → FrontWrite → Option MapError
  podFails : Bytes 16 → Option MapError
  nodeFails : Bytes 16 → Option MapError

/-- `plan_fixture_fronts`. -/
def planFixtureFronts (s : FrontStore) (fixtures : List Fixture) (order : IterationOrder LbFrontKey) : List FrontPlan :=
  planFrontWrites s.metas s.endpoints (fixtureFronts fixtures) true ∅ order

/-- The loop over the plans: the log of the writes, and the texts of the failures. -/
def runFixturePlans (fails : FrontLog → FrontWrite → Option MapError) (plans : List FrontPlan) :
    FrontLog × List String :=
  plans.foldl (fun (log, detail) plan =>
    let (log, failures) := runFrontPlan (issueWrite fails) plan log
    (log, detail ++ failures.map FrontFailure.message)) ([], [])

/-- Keys are removed one by one, until a removal fails. -/
def removeKeys (fails : Bytes 16 → Option MapError) : List (Bytes 16) → Table (Bytes 16) UInt8 →
    Table (Bytes 16) UInt8 × Except String Unit
  | [], t => (t, .ok ())
  | ip :: rest, t =>
      match fails ip with
      | some e => (t, .error (describe e))
      | none => removeKeys fails rest (t.erase ip)

/-- Keys are inserted one by one, until an insert fails. -/
def insertKeys (fails : Bytes 16 → Option MapError) (hint : String) : List (Bytes 16) → Table (Bytes 16) UInt8 →
    Table (Bytes 16) UInt8 × Except String Unit
  | [], t => (t, .ok ())
  | ip :: rest, t =>
      match fails ip with
      | some _ => (t, .error hint)
      | none => insertKeys fails hint rest (t.insert ip 1)

/-- The rows of a set that are not wanted go, then the wanted ones are written. -/
def rewriteSet (fails : Bytes 16 → Option MapError) (hint : String) (stale wanted : List (Bytes 16))
    (t : Table (Bytes 16) UInt8) : Table (Bytes 16) UInt8 × Except String Unit :=
  match removeKeys fails stale t with
  | (t, .error e) => (t, .error e)
  | (t, .ok ()) => insertKeys fails hint wanted t

/-- `populate_fixtures`. -/
def populateFixtures (c : FixtureCourse) (fixtures : List Fixture) (nodeIp : IpAddr) (maps : FixtureMaps) :
    FixtureMaps × Except String Unit :=
  let (log, detail) := runFixturePlans c.frontFails (planFixtureFronts maps.front fixtures c.order)
  let maps := { maps with front := storeAfter maps.front log }
  if detail ≠ [] then
    (maps, .error (toString detail.length ++ " front write(s) failed: " ++ "; ".intercalate detail ++ "; " ++
      capacityHint "FRONT_META" ++ " / " ++ capacityHint "FRONT_ENDPOINTS"))
  else
    let localIps := localPodIps fixtures nodeIp
    match rewriteSet c.podFails (capacityHint "POD_TARGETS") (maps.podTargets.keys.filter (· ∉ localIps)) localIps
        maps.podTargets with
    | (podTargets, .error e) => ({ maps with podTargets }, .error e)
    | (podTargets, .ok ()) =>
        let nodeIpKey := tunnelRemoteV6 nodeIp
        let (nodeAllow, result) := rewriteSet c.nodeFails (capacityHint "NODE_ALLOW")
          (maps.nodeAllow.keys.filter (· ≠ nodeIpKey)) [nodeIpKey] maps.nodeAllow
        ({ maps with podTargets, nodeAllow }, result)

/-! ## A run without failures -/

section
variable {fails : Bytes 16 → Option MapError} {hint : String} {t : Table (Bytes 16) UInt8}

omit [Host] in
theorem removeKeys_ok {stale : List (Bytes 16)} (h : (removeKeys fails stale t).2 = .ok ()) (ip : Bytes 16) :
    ((removeKeys fails stale t).1.lookup ip).isSome ↔ (t.lookup ip).isSome ∧ ip ∉ stale := by
  induction stale generalizing t with
  | nil => simp [removeKeys]
  | cons first rest ih =>
    unfold removeKeys at h ⊢
    cases hfails : fails first with
    | some e =>
      rw [hfails] at h
      cases h
    | none =>
      rw [hfails] at h
      rw [ih h, Table.lookup_erase_ite, List.mem_cons, not_or]
      by_cases hip : ip = first <;> simp [hip]

omit [Host] in
theorem insertKeys_ok {wanted : List (Bytes 16)} (h : (insertKeys fails hint wanted t).2 = .ok ()) (ip : Bytes 16) :
    ((insertKeys fails hint wanted t).1.lookup ip).isSome ↔ (t.lookup ip).isSome ∨ ip ∈ wanted := by
  induction wanted generalizing t with
  | nil => simp [insertKeys]
  | cons first rest ih =>
    unfold insertKeys at h ⊢
    cases hfails : fails first with
    | some e =>
      rw [hfails] at h
      cases h
    | none =>
      rw [hfails] at h
      rw [ih h, Table.lookup_insert_ite, List.mem_cons]
      by_cases hip : ip = first <;> simp [hip]

omit [Host] in
/-- A set that was rewritten holds what was wanted, and nothing else. -/
theorem rewriteSet_ok {wanted : List (Bytes 16)}
    (h : (rewriteSet fails hint (t.keys.filter (· ∉ wanted)) wanted t).2 = .ok ()) (ip : Bytes 16) :
    ((rewriteSet fails hint (t.keys.filter (· ∉ wanted)) wanted t).1.lookup ip).isSome ↔ ip ∈ wanted := by
  unfold rewriteSet at h ⊢
  rcases hremoved : removeKeys fails (t.keys.filter (· ∉ wanted)) t with ⟨t', e | ⟨⟩⟩
  · rw [hremoved] at h
    cases h
  · rw [hremoved] at h
    have hkept := removeKeys_ok (by rw [hremoved]) ip
    rw [hremoved] at hkept
    simp only [insertKeys_ok h ip, hkept, List.mem_filter, decide_eq_true_eq]
    constructor
    · rintro (⟨hold, hstale⟩ | hip)
      · by_contra hip
        exact hstale ⟨Table.mem_keys_of_isSome hold, hip⟩
      · exact hip
    · exact Or.inr

end

section
variable {fails : FrontLog → FrontWrite → Option MapError} {s : FrontStore} {f : LbFrontKey}

omit [Host] in
/-- A plan whose writes all succeed is written whole. -/
theorem log_of_runSteps_clean {steps : List FrontWrite} {log : FrontLog}
    (h : (runSteps (issueWrite fails) false log steps).2 = []) :
    (runSteps (issueWrite fails) false log steps).1 = log ++ steps.map fun w => (w, true) := by
  induction steps generalizing log with
  | nil => exact (List.append_nil log).symm
  | cons step rest ih =>
    unfold runSteps at h ⊢
    simp only [Bool.false_and, Bool.false_eq_true, if_false] at h ⊢
    unfold issueWrite at h ⊢
    cases hfails : fails log step with
    | some e =>
      simp only [hfails] at h
      split_ifs at h
    | none =>
      simp only [hfails] at h ⊢
      rw [show log ++ (step :: rest).map (fun w => (w, true)) =
        (log ++ [(step, true)]) ++ rest.map fun w => (w, true) by simp]
      exact ih h

omit [Host] in
theorem runFixturePlans_clean {plans : List FrontPlan} (h : (runFixturePlans fails plans).2 = []) :
    (runFixturePlans fails plans).1 = (plans.map fun p => p.steps.map fun w => (w, true)).flatten := by
  unfold runFixturePlans at h ⊢
  -- on the plans, the last one first
  induction plans using List.reverseRecOn with
  | nil => rfl
  | append_singleton plans plan ih =>
    simp only [List.foldl_append, List.foldl_cons, List.foldl_nil, List.append_eq_nil_iff, List.map_eq_nil_iff] at h ⊢
    obtain ⟨hbefore, hplan⟩ := h
    rw [runFrontPlan] at hplan ⊢
    rw [log_of_runSteps_clean hplan, ih hbefore]
    simp

omit [Host] in
/-- A pass of plans without failures leaves each front as its own plan, run whole, leaves it. -/
theorem sameFront_clean {desired : Table LbFrontKey DesiredFront} {order : IterationOrder LbFrontKey}
    (h : (runFixturePlans fails (planFrontWrites s.metas s.endpoints desired true ∅ order)).2 = []) :
    SameFront f (storeAfter s (runFixturePlans fails (planFrontWrites s.metas s.endpoints desired true ∅ order)).1)
      (runWhole s (planFrontSteps s.metas s.endpoints desired true ∅ f)) := by
  let plans := planFrontWrites s.metas s.endpoints desired true ∅ order
  let logs := plans.map fun p : FrontPlan => p.steps.map fun w => (w, true)
  have hplans : List.Forall₂ (fun (p : FrontPlan) log => log = p.steps.map fun w => (w, true)) plans logs :=
    List.forall₂_map_right_iff.mpr (List.forall₂_same.mpr fun _ _ => rfl)
  have hown : ∀ p ∈ plans, ∀ log, log = p.steps.map (fun w => (w, true)) → ∀ w ∈ log, w.1.front = p.front := by
    rintro p hp _ rfl w hw
    obtain ⟨step, hstep, rfl⟩ := List.mem_map.mp hw
    exact front_of_mem_steps hp hstep
  have hof := storeAfter_of f s logs.flatten
  rw [runFixturePlans_clean h]
  rcases flatten_of hplans hown (nodup_planFrontWrites order) f with ⟨hnone, hnil⟩ | ⟨plan, hplan, rfl, hlog⟩
  · rw [hnil] at hof
    have hsteps : planFrontSteps s.metas s.endpoints desired true ∅ f = [] := by
      by_cases hf : f ∈ plannedFronts s.metas s.endpoints desired true
      · by_contra hne
        exact hnone ⟨f, _⟩ (mem_planFrontWrites.mpr ⟨hf, rfl, hne⟩) rfl
      · exact planFrontSteps_of_not_planned hf
    rw [hsteps]
    exact hof
  · rw [hlog, (mem_planFrontWrites.mp hplan).2.1] at hof
    exact hof

omit [Host] in
/-- A front as desired, without local endpoints: a hash picks its endpoint by its share of the 32-bit range. -/
theorem AsDesired.steers {want : DesiredFront} {m : FrontMeta} (h : AsDesired s f want m)
    (hlen : want.endpoints.length ≤ 65535) (hlocal : want.localCount = 0) (hne : want.endpoints ≠ []) (hash : UInt32) :
    ∃ e, want.endpoints[hash.toNat * want.endpoints.length / hashCount]? = some e ∧
      ingressSteer m none none hash f s.endpoints.lookup = .forward e.backend e.targetPort := by
  obtain ⟨-, hcount, -, hlocalCount, hslots⟩ := h
  rw [hlocal] at hlocalCount
  have hnat : m.count.toNat = want.endpoints.length := by
    rw [hcount, DesiredFront.count, UInt16.toNat_ofNat_of_lt' (show _ < 65536 by omega)]
  have hpos : 0 < want.endpoints.length := List.length_pos_of_ne_nil hne
  have hready : m.count ≠ 0 := by
    intro hzero
    rw [hzero] at hnat
    exact absurd hnat (by simp; omega)
  have hslot := MultiplyShift.slot_lt hpos (toNat_lt_hashCount hash)
  have hselect : selectEndpointSlot hash m.count m.localCount =
      some (UInt16.ofNat (hash.toNat * want.endpoints.length / hashCount)) := by
    have hrange : slotRange m.count 0 = m.count := by simp [slotRange]
    rw [hlocalCount, selectEndpointSlot_eq (by simp) hready, hrange, hnat]
  refine ⟨_, List.getElem?_eq_getElem hslot, ?_⟩
  unfold ingressSteer
  simp only [Option.or_none, if_neg hready, hselect]
  have hrow := hslots _ hslot
  unfold endpointKey at hrow
  simp only [hrow, hlocalCount, true_or, if_true]

end

/-! ## What the arguments say -/

/-- The maps of a node tell what its arguments say: a packet of a flow without a pin is steered to a fixture. -/
structure FixtureMaps.Tell (maps : FixtureMaps) (fixtures : List Fixture) (nodeIp : IpAddr) : Prop where
  steers : ∀ front, fixturesOf fixtures front ≠ [] → ∃ m, maps.front.metas.lookup front = some m ∧
    m.flags = affinityFlags (fixturesOf fixtures front) ∧ ∀ hash : UInt32, ∃ fixture,
      (fixturesOf fixtures front)[hash.toNat * (fixturesOf fixtures front).length / hashCount]? = some fixture ∧
      ingressSteer m none none hash front maps.front.endpoints.lookup =
        .forward ⟨tunnelRemoteV6 fixture.backendNodeIp, wireIpV6 fixture.podIp⟩ (wirePort fixture.targetPort)
  absent : ∀ front, fixturesOf fixtures front = [] → Absent maps.front front
  pods : ∀ ip, (maps.podTargets.lookup ip).isSome ↔
    ∃ fixture ∈ fixtures, fixture.backendNodeIp = nodeIp ∧ wireIpV6 fixture.podIp = ip
  node : ∀ ip, (maps.nodeAllow.lookup ip).isSome ↔ ip = tunnelRemoteV6 nodeIp

/-- No endpoint of a fixture is flagged as local. -/
theorem localCount_fixtures (flags : UInt16) (fixtures : List Fixture) :
    DesiredFront.localCount ⟨flags, true, fixtures.map fixtureEndpoint⟩ = 0 := by
  cases fixtures with
  | nil => rfl
  | cons fixture rest => simp [DesiredFront.localCount, fixtureEndpoint]

/-- A run that gets through: no front write failed, and both sets were rewritten. -/
theorem populateFixtures_ok {c : FixtureCourse} {fixtures : List Fixture} {nodeIp : IpAddr} {maps : FixtureMaps}
    (hok : (populateFixtures c fixtures nodeIp maps).2 = .ok ()) :
    (runFixturePlans c.frontFails (planFixtureFronts maps.front fixtures c.order)).2 = [] ∧
    (populateFixtures c fixtures nodeIp maps).1.front =
      storeAfter maps.front (runFixturePlans c.frontFails (planFixtureFronts maps.front fixtures c.order)).1 ∧
    (∀ ip, ((populateFixtures c fixtures nodeIp maps).1.podTargets.lookup ip).isSome ↔
      ip ∈ localPodIps fixtures nodeIp) ∧
    ∀ ip, ((populateFixtures c fixtures nodeIp maps).1.nodeAllow.lookup ip).isSome ↔ ip = tunnelRemoteV6 nodeIp := by
  unfold populateFixtures at hok ⊢
  rcases hfronts : runFixturePlans c.frontFails (planFixtureFronts maps.front fixtures c.order) with ⟨log, detail⟩
  simp only [hfronts] at hok ⊢
  by_cases hdetail : detail = []
  · subst hdetail
    simp only [ne_eq, not_true_eq_false, if_false] at hok ⊢
    have hpods := @rewriteSet_ok c.podFails (capacityHint "POD_TARGETS") maps.podTargets (localPodIps fixtures nodeIp)
    rcases hrewrite : rewriteSet c.podFails (capacityHint "POD_TARGETS")
      (maps.podTargets.keys.filter (· ∉ localPodIps fixtures nodeIp)) (localPodIps fixtures nodeIp)
      maps.podTargets with ⟨podTargets, e | ⟨⟩⟩
    · simp only [hrewrite] at hok
      cases hok
    · simp only [hrewrite] at hok hpods ⊢
      refine ⟨trivial, trivial, hpods trivial, fun ip => ?_⟩
      have hstale : maps.nodeAllow.keys.filter (· ≠ tunnelRemoteV6 nodeIp) =
          maps.nodeAllow.keys.filter (· ∉ [tunnelRemoteV6 nodeIp]) := by simp
      rw [hstale] at hok ⊢
      rw [rewriteSet_ok hok ip, List.mem_singleton]
  · simp only [ne_eq, hdetail, not_false_eq_true, if_true] at hok
    cases hok

/-- **What the arguments say is what the maps say**, whatever an earlier start left in them, if no front has more
    fixtures than slot numbers tell apart. -/
theorem populateFixtures_exact {c : FixtureCourse} {fixtures : List Fixture} {nodeIp : IpAddr} {maps : FixtureMaps}
    (hok : (populateFixtures c fixtures nodeIp maps).2 = .ok ())
    (hlen : ∀ front, (fixturesOf fixtures front).length ≤ 65535) :
    (populateFixtures c fixtures nodeIp maps).1.Tell fixtures nodeIp := by
  obtain ⟨hclean, hfront, hpods, hnode⟩ := populateFixtures_ok hok
  have hsame : ∀ front, SameFront front (populateFixtures c fixtures nodeIp maps).1.front
      (runWhole maps.front (planFrontSteps maps.front.metas maps.front.endpoints (fixtureFronts fixtures) true ∅ front)) :=
    fun front => hfront ▸ sameFront_clean hclean
  refine ⟨fun front hne => ?_, fun front hnil => ?_, fun ip => ?_, hnode⟩
  · let want : DesiredFront :=
      ⟨affinityFlags (fixturesOf fixtures front), true, (fixturesOf fixtures front).map fixtureEndpoint⟩
    have hwant : (fixtureFronts fixtures).lookup front = some want := by
      rw [lookup_fixtureFronts, if_neg hne]
    have hcount : want.endpoints.length = (fixturesOf fixtures front).length := List.length_map ..
    have hfits : want.endpoints.length ≤ 65535 := hcount.le.trans (hlen front)
    have hdesired : ∃ m, AsDesired (populateFixtures c fixtures nodeIp maps).1.front front want m := by
      have hsteps := hsame front
      simp only [planFrontSteps, hwant] at hsteps
      cases hunchanged : unchangedMeta maps.front.endpoints front want (maps.front.metas.lookup front) with
      | some m =>
        rw [hunchanged] at hsteps
        exact ⟨_, AsDesired.congr hsteps (runWhole_refreshSteps _ hunchanged).1⟩
      | none =>
        rw [hunchanged] at hsteps
        exact ⟨_, AsDesired.congr hsteps (runWhole_swapSteps maps.front front hfits).1⟩
    obtain ⟨m, hm⟩ := hdesired
    refine ⟨m, hm.1, hm.2.2.1, fun hash => ?_⟩
    have hnonempty : want.endpoints ≠ [] := fun hnil => hne (List.map_eq_nil_iff.mp hnil)
    obtain ⟨e, he, hsteer⟩ := hm.steers hfits (localCount_fixtures _ _) hnonempty hash
    rw [hcount, List.getElem?_map] at he
    obtain ⟨fixture, hfixture, rfl⟩ := Option.map_eq_some_iff.mp he
    exact ⟨fixture, hfixture, hsteer⟩
  · have hwant : (fixtureFronts fixtures).lookup front = none := by
      rw [lookup_fixtureFronts, if_pos hnil]
    have hsteps := hsame front
    simp only [planFrontSteps, hwant, if_true] at hsteps
    exact Absent.congr hsteps (runWhole_pruneSteps maps.front front)
  · rw [hpods ip]
    simp only [localPodIps, List.mem_map, List.mem_filter, decide_eq_true_eq]
    constructor
    · rintro ⟨fixture, ⟨hmem, hbacks⟩, hip⟩
      exact ⟨fixture, hmem, hbacks, hip⟩
    · rintro ⟨fixture, hmem, hbacks, hip⟩
      exact ⟨fixture, ⟨hmem, hbacks⟩, hip⟩

end

/-- A fixture of one web front. -/
def webFixture (node pod : UInt32) : Fixture := ⟨.v4 10, 80, .tcp, .v4 node, .v4 pod, 8080, false⟩

local instance fixtureHost : Host := ⟨.little⟩

/-- The maps of an earlier start, which had another front, another pod and another address. -/
def leftMaps : FixtureMaps where
  front := ⟨(∅ : Table LbFrontKey FrontMeta).insert ⟨wireIpV6 (.v4 11), 20480, ipprotoTcp, 0⟩ ⟨1, 0, 0, 0, 0⟩, ∅⟩
  podTargets := (∅ : Table (Bytes 16) UInt8).insert (wireIpV6 (.v4 99)) 1
  nodeAllow := (∅ : Table (Bytes 16) UInt8).insert (tunnelRemoteV6 (.v4 98)) 1

theorem populateFixtures_exact_left :
    (populateFixtures ⟨.asStored, fun _ _ => none, fun _ => none, fun _ => none⟩ [webFixture 1 21, webFixture 2 22]
      (.v4 1) leftMaps).1.Tell [webFixture 1 21, webFixture 2 22] (.v4 1) := by
  refine populateFixtures_exact (by rfl) fun front => (List.length_filter_le _ _).trans ?_
  decide

end Beep
