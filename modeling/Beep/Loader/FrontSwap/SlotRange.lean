import Beep.Loader.FrontSwap.HashOrder
import Beep.Loader.FrontSwap.Written

/-!
# `Loader.FrontSwap.SlotRange` — the range of counts and slots

Counts and slots are 16 bits wide, and the planner narrows the number of endpoints, the length of the local run and every
slot to them. Nothing checks the number of endpoints but the capacity of `FRONT_ENDPOINTS`, which may be above that range:
the counts are right, and the slots apart, exactly for fronts of up to 65535 endpoints. One more, and the front is
committed with no endpoints at all.
-/

namespace Beep

open Peak

/-- The length of the leading run of local endpoints. -/
def DesiredFront.leadingLocal (d : DesiredFront) : Nat :=
  (d.endpoints.takeWhile fun e => e.flags &&& endpointFlagIsLocal != 0).length

/-- The run of them that new flows are to be kept to: none, unless the front prefers local endpoints. -/
def DesiredFront.localRun (d : DesiredFront) : Nat := if d.preferLocal then d.leadingLocal else 0

/-- The maps hold a front with all of its endpoints, and `run` of them as local. -/
structure Untruncated (s : FrontStore) (f : LbFrontKey) (want : DesiredFront) (run : Nat) (m : FrontMeta) : Prop where
  live : s.metas.lookup f = some m
  count : m.count.toNat = want.endpoints.length
  localCount : m.localCount.toNat = run
  slots : ∀ i j, i < want.endpoints.length → j < want.endpoints.length →
    endpointKey f m.generation i = endpointKey f m.generation j → i = j
  rows : HoldsSlots s.endpoints f m.generation want

section
variable {s : FrontStore} {f : LbFrontKey} {want : DesiredFront} {m : FrontMeta}

theorem DesiredFront.leadingLocal_le (want : DesiredFront) : want.leadingLocal ≤ want.endpoints.length :=
  (List.takeWhile_prefix _).length_le

/-- The local run fits where the endpoints do. -/
theorem DesiredFront.localCount_toNat (hlen : want.endpoints.length ≤ 65535) : want.localCount.toNat = want.localRun := by
  have hle := want.leadingLocal_le
  unfold DesiredFront.localCount DesiredFront.localRun
  cases want.preferLocal with
  | false => rfl
  | true =>
    simp only [Bool.not_true, Bool.false_eq_true, if_false, if_true]
    show (UInt16.ofNat want.leadingLocal).toNat = want.leadingLocal
    rw [UInt16.toNat_ofNat']
    omega

/-- A front that is served as wanted is so untruncated if it has at most 65535 endpoints. -/
theorem Serves.untruncated (h : Serves s f want m) (hlen : want.endpoints.length ≤ 65535) :
    Untruncated s f want want.localRun m where
  live := h.live
  count := by
    rw [h.count]
    exact count_toNat hlen
  localCount := by
    rw [h.localCount]
    exact DesiredFront.localCount_toNat hlen
  slots := fun i j hi hj hkey => endpointKey_slot_inj (by omega) (by omega) hkey
  rows := h.rows.holdsSlots hlen

/-- No count tells of more. -/
theorem Untruncated.length_le {run : Nat} (h : Untruncated s f want run m) : want.endpoints.length ≤ 65535 := by
  have hcount := h.count
  have hrange := m.count.toNat_lt
  omega

end

/-- **Exactly up to 65535 endpoints.** Of a front that a pass reports no failure of, the maps hold all endpoints, and as
    many local ones as the front prefers, if and only if it has at most 65535. Without that preference the local count
    is zero, so it is that of the leading run only if there is none. -/
theorem counts_untruncated_iff (fails : FrontLog → FrontWrite → Option MapError) (order : IterationOrder LbFrontKey)
    (s : FrontStore) (desired : Table LbFrontKey DesiredFront) (pruneAbsent : Bool) (keepPrevious : Finset LbFrontKey)
    (used : FrontUsage) (cap : FrontCapacity) (f : LbFrontKey) (want : DesiredFront) (hd : desired.lookup f = some want)
    (hreport : ∀ e ∈ (frontPass fails order s desired pruneAbsent keepPrevious used cap).2.failures, e.1 ≠ f) :
    ((∃ m, Untruncated (storeAfter s (frontPass fails order s desired pruneAbsent keepPrevious used cap).1) f want
        want.localRun m) ↔ want.endpoints.length ≤ 65535) ∧
      ((∃ m, Untruncated (storeAfter s (frontPass fails order s desired pruneAbsent keepPrevious used cap).1) f want
        want.leadingLocal m) ↔
          want.endpoints.length ≤ 65535 ∧ (want.preferLocal = true ∨ want.leadingLocal = 0)) := by
  obtain ⟨m, hserves⟩ := serves_of_reported hd hreport
  have hrun : want.localRun = want.leadingLocal ↔ want.preferLocal = true ∨ want.leadingLocal = 0 := by
    unfold DesiredFront.localRun
    cases want.preferLocal with
    | true => simp
    | false => simp [eq_comm]
  refine ⟨⟨?_, fun hlen => ⟨m, hserves.untruncated hlen⟩⟩, ?_, ?_⟩
  · rintro ⟨m', h⟩
    exact h.length_le
  · rintro ⟨m', h⟩
    have hlen := h.length_le
    have hlocal := (hserves.untruncated hlen).localCount
    obtain rfl := Option.some_inj.mp (hserves.live.symm.trans h.live)
    exact ⟨hlen, hrun.mp (hlocal.symm.trans h.localCount)⟩
  · rintro ⟨hlen, hlocal⟩
    rw [← hrun.mpr hlocal]
    exact ⟨m, hserves.untruncated hlen⟩

theorem counts_untruncated_two_endpoints :
    ∃ m, Untruncated (storeAfter sampleFrontStore
      (frontPass neverFails .asStored sampleFrontStore sampleDesired true ∅ sampleFrontStore.usage ⟨1, 3⟩).1) sampleFront
        ⟨0, true, [sampleEndpoint 8081, sampleEndpoint 8082]⟩ 0 m :=
  (counts_untruncated_iff neverFails .asStored sampleFrontStore sampleDesired true ∅ sampleFrontStore.usage ⟨1, 3⟩
    sampleFront ⟨0, true, [sampleEndpoint 8081, sampleEndpoint 8082]⟩ rfl (by decide)).1.mpr (by decide)

/-! ## One endpoint more -/

/-- One of many Pods on one node. -/
def crowdedEndpoint (i : Nat) : FrontEndpoint :=
  let podIp : Bytes 16 := (Vector.replicate 12 2 : Bytes 12) ++ Endian.big.u32Bytes (UInt32.ofNat i)
  { backend := { backendNodeIp := Vector.replicate 16 1, podIp }
    targetPort := 8080, flags := 0, pad := Vector.replicate 4 0 }

/-- A front of 65536 endpoints, none of them local. -/
def overfullFront : DesiredFront where
  flags := 0
  preferLocal := true
  endpoints := (List.range 65536).map crowdedEndpoint

def overfullDesired : Table LbFrontKey DesiredFront := AList.insert sampleFront overfullFront ∅

/-- Two empty maps. -/
def emptyFrontStore : FrontStore where
  metas := ∅
  endpoints := ∅

/-- The planner has one plan for them. -/
theorem planFrontWrites_overfull :
    planFrontWrites emptyFrontStore.metas emptyFrontStore.endpoints overfullDesired false ∅ .asStored =
      [⟨sampleFront, swapSteps [] sampleFront overfullFront none⟩] := by
  have hplan : planFrontSteps emptyFrontStore.metas emptyFrontStore.endpoints overfullDesired false ∅ sampleFront =
      swapSteps [] sampleFront overfullFront none := by
    unfold planFrontSteps overfullDesired
    rw [AList.lookup_insert]
    rfl
  unfold planFrontWrites
  have hfronts : plannedFronts emptyFrontStore.metas emptyFrontStore.endpoints overfullDesired false = [sampleFront] := rfl
  rw [hfronts]
  show List.insertionSort _ (List.filter _ [FrontPlan.mk sampleFront _]) = _
  rw [hplan, List.filter_cons_of_pos (by simp [swapSteps])]
  rfl

/-- A new front needs a row for each endpoint and one for itself. -/
theorem capacityShortfall_new {f : LbFrontKey} {want : DesiredFront} {used : FrontUsage} {cap : FrontCapacity}
    (hrows : used.endpoints + want.endpoints.length ≤ cap.endpoints.toNat) (hmetas : used.metas + 1 ≤ cap.metas.toNat) :
    capacityShortfall ⟨f, swapSteps [] f want none⟩ false used cap = none := by
  let puts : List FrontWrite := want.endpoints.zipIdx.map fun e => .putEndpoint (endpointKey f 1 e.2) e.1
  have hsteps : swapSteps [] f want none = puts ++ [.putMeta f (want.committed 1)] := rfl
  have hput : ∀ w ∈ puts, w.endpointDelta = 1 ∧ w.metaDelta false = 0 := by
    intro w hw
    obtain ⟨e, -, rfl⟩ := List.mem_map.mp hw
    exact ⟨rfl, rfl⟩
  have hnetE : net FrontWrite.endpointDelta puts = want.endpoints.length := by
    rw [net_eq_length fun w hw => (hput w hw).1, List.length_map, List.length_zipIdx]
  have hpeakE : peak FrontWrite.endpointDelta puts = want.endpoints.length := by
    rw [← hnetE]
    exact peak_of_nonneg fun w hw => by rw [(hput w hw).1]; decide
  have hpeakM : peak (FrontWrite.metaDelta false) puts = 0 :=
    peak_of_nonpos fun w hw => Int.le_of_eq (hput w hw).2
  have hnetM : net (FrontWrite.metaDelta false) puts = 0 := net_eq_zero fun w hw => (hput w hw).2
  refine capacityShortfall_eq_none_iff.mpr ⟨?_, ?_⟩
  · rw [hsteps, peak_append, hpeakE, hnetE]
    have hlast : peak FrontWrite.endpointDelta [.putMeta f (want.committed 1)] = 0 := rfl
    rw [hlast]
    omega
  · rw [hsteps, peak_append, hpeakM, hnetM]
    have hlast : peak (FrontWrite.metaDelta false) [.putMeta f (want.committed 1)] = 1 := rfl
    rw [hlast]
    omega

/-- A pass with one plan that fits reports nothing, if no write fails. -/
theorem failures_of_one_plan {s : FrontStore} {desired : Table LbFrontKey DesiredFront} {pruneAbsent : Bool}
    {keepPrevious : Finset LbFrontKey} {order : IterationOrder LbFrontKey} {used : FrontUsage} {cap : FrontCapacity}
    {p : FrontPlan} (hplans : planFrontWrites s.metas s.endpoints desired pruneAbsent keepPrevious order = [p])
    (hfits : capacityShortfall p (s.metas.lookup p.front).isSome used cap = none) :
    (frontPass neverFails order s desired pruneAbsent keepPrevious used cap).2.failures = [] := by
  unfold frontPass runFrontPlans
  rw [hplans, List.foldl_cons, List.foldl_nil, runOnePlan_ran hfits]

/-- It is accepted by a map with a row for each endpoint, and no write fails; the count that is committed is not theirs. -/
theorem counts_truncated_overfull :
    (∀ e ∈ (frontPass neverFails .asStored emptyFrontStore overfullDesired false ∅ {} ⟨1, 65536⟩).2.failures,
        e.1 ≠ sampleFront) ∧
      ¬ ∃ m, Untruncated (storeAfter emptyFrontStore
        (frontPass neverFails .asStored emptyFrontStore overfullDesired false ∅ {} ⟨1, 65536⟩).1) sampleFront overfullFront
          overfullFront.leadingLocal m := by
  have hlength : overfullFront.endpoints.length = 65536 := by
    simp only [overfullFront, List.length_map, List.length_range]
  constructor
  · have hfits : capacityShortfall ⟨sampleFront, swapSteps [] sampleFront overfullFront none⟩ false {} ⟨1, 65536⟩ =
        none := by
      refine capacityShortfall_new ?_ (Nat.le_refl 1)
      rw [hlength]
      exact Nat.le_refl 65536
    rw [failures_of_one_plan planFrontWrites_overfull hfits]
    exact fun e he => absurd he List.not_mem_nil
  · rintro ⟨m, h⟩
    have hle := h.length_le
    rw [hlength] at hle
    omega

end Beep
