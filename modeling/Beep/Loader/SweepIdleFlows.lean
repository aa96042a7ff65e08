import Beep.Lib.Table
import Beep.Loader.IdleSweep

/-!
# `Loader.SweepIdleFlows` — one idle sweep of the whole flow table

`sweep_idle_flows` of `src/lib.rs`: the keys to delete are chosen on a snapshot (`idleFlowKeys`), and each is looked at
again right before it is deleted (`stillIdle`). A `PortMemo` row goes with its `Reverse` row, which the same sweep may
have deleted by then.

With no packets in between the two choices are one: a snapshot key is chosen exactly if it is still idle on the snapshot
itself (`mem_idleFlowKeys`), and a deletion does not change what is still idle, because only swept rows are deleted
before a memo that depends on them (`Spared.stillIdle`).
-/

namespace Beep

variable [Host]

/-! ## The sweep -/

/-- The rows of the table, as an iteration hands them out. -/
def flowRows (t : Table FlowKey FlowValue) : List (FlowKey × FlowValue) := t.entries.map fun e => (e.1, e.2)

/-- A key of a `Forward` or `Reverse` row. -/
def FlowKey.isFlow (key : FlowKey) : Bool :=
  flowKeyDirection key = some .forward || flowKeyDirection key = some .reverse

/-- `memo_reverse_key`: the client port of the memo, and the key of the `Reverse` row it points at. -/
def memoReverseKey (key : FlowKey) (value : FlowValue) (proto : UInt8) : UInt16 × FlowKey :=
  let (clientIp, clientPort, podIp, targetPort, _) := decodeTcpFlowKey (Bytes.slice key 0 37 (by omega))
  (clientPort, encodeFlowKey clientIp value.portMemo.backendSrcPort podIp targetPort proto .reverse)

/-- The `original_client_port` of every `Reverse` row that is not swept. -/
def survivingReverse (rows : List (FlowKey × FlowValue)) (cls : UInt8) (parity : GcParity) : Table FlowKey UInt16 :=
  (rows.filter fun e => flowKeyDirection e.1 = some .reverse && !rowSwept e.1 e.2 cls parity).foldl
    (fun surviving e => surviving.insert e.1 e.2.reverse.originalClientPort) ∅

/-- `idle_flow_keys`: the swept rows, then the memos without a surviving `Reverse` row. -/
def idleFlowKeys (rows : List (FlowKey × FlowValue)) (cls : UInt8) (parity : GcParity) : List FlowKey :=
  let surviving := survivingReverse rows cls parity
  let swept := rows.filter fun e => e.1.isFlow && rowSwept e.1 e.2 cls parity
  let memos := rows.filter fun e =>
    let (clientPort, reverseKey) := memoReverseKey e.1 e.2 e.1.proto
    flowKeyDirection e.1 = some .portMemo && !portMemoWanted clientPort (surviving.lookup reverseKey)
  (swept ++ memos).map Prod.fst

/-- `still_idle`: `fresh` reads the current row. -/
def stillIdle (key : FlowKey) (cls : UInt8) (parity : GcParity) (fresh : FlowKey → Option FlowValue) : Bool :=
  match fresh key with
  | none => false
  | some value =>
      match flowKeyDirection key with
      | some .forward | some .reverse => rowSwept key value cls parity
      | some .portMemo =>
          let (clientPort, reverseKey) := memoReverseKey key value key.proto
          let surviving := (fresh reverseKey).filter fun row => !rowSwept reverseKey row cls parity
          !portMemoWanted clientPort (surviving.map (·.reverse.originalClientPort))
      | none => false

/-- The locals of the loop of `sweep_idle_flows`, and the table it deletes from. -/
structure IdleSweep where
  flowTable : Table FlowKey FlowValue
  failed : Nat := 0
  deleted : Nat := 0

/-- One turn of the loop; `fails` says which deletes fail. -/
def IdleSweep.turn (cls : UInt8) (parity : GcParity) (fails : FlowKey → Bool) (s : IdleSweep) (key : FlowKey) :
    IdleSweep :=
  if stillIdle key cls parity s.flowTable.lookup then
    if fails key then { s with failed := s.failed + 1 }
    else { s with flowTable := s.flowTable.erase key, deleted := s.deleted + 1 }
  else s

/-- `sweep_idle_flows`: the table afterwards, and how many rows there were and were deleted, or how many deletes
    failed. -/
def sweepIdleFlows (cls : UInt8) (parity : GcParity) (fails : FlowKey → Bool) (flowTable : Table FlowKey FlowValue) :
    Table FlowKey FlowValue × Except Nat (Nat × Nat) :=
  let rows := flowRows flowTable
  let s := (idleFlowKeys rows cls parity).foldl (IdleSweep.turn cls parity fails) { flowTable }
  (s.flowTable, if 0 < s.failed then .error s.failed else .ok (rows.length, s.deleted))

/-! ## What is chosen -/

section
variable {t : Table FlowKey FlowValue} {cls : UInt8} {parity : GcParity} {key : FlowKey} {value : FlowValue}

omit [Host] in
theorem mem_flowRows : (key, value) ∈ flowRows t ↔ t.lookup key = some value := by
  simp only [flowRows, List.mem_map, Prod.mk.injEq, Sigma.exists]
  constructor
  · rintro ⟨k, v, hmem, rfl, rfl⟩
    exact AList.mem_lookup_iff.mpr hmem
  · intro h
    exact ⟨key, value, AList.mem_lookup_iff.mp h, rfl, rfl⟩

omit [Host] in
theorem nodup_flowRows (t : Table FlowKey FlowValue) : ((flowRows t).map Prod.fst).Nodup := by
  have hkeys : (flowRows t).map Prod.fst = t.keys := by
    simp [flowRows, AList.keys, List.keys]
  rw [hkeys]
  exact t.keys_nodup

theorem direction_memoReverseKey (key : FlowKey) (value : FlowValue) (proto : UInt8) :
    flowKeyDirection (memoReverseKey key value proto).2 = some .reverse :=
  flowKeyDirection_encodeFlowKey ..

omit [Host] in
/-- A `Reverse` row survives if it is there and is not swept. -/
theorem lookup_survivingReverse (hkey : flowKeyDirection key = some .reverse) :
    (survivingReverse (flowRows t) cls parity).lookup key =
      ((t.lookup key).filter fun row => !rowSwept key row cls parity).map (·.reverse.originalClientPort) := by
  have hwrites : survivingReverse (flowRows t) cls parity =
      ((((flowRows t).filter fun e => flowKeyDirection e.1 = some .reverse && !rowSwept e.1 e.2 cls parity).map
        fun e => (e.1, e.2.reverse.originalClientPort)).foldl (fun surviving e => surviving.insert e.1 e.2) ∅) := by
    simp [survivingReverse, List.foldl_map]
  rw [hwrites, Table.lookup_foldl_insert,
    Table.lastValue_map (g := fun value : FlowValue => value.reverse.originalClientPort)]
  cases hrow : (t.lookup key).filter fun row => !rowSwept key row cls parity with
  | none =>
    rw [Table.lastValue_eq_none.mpr]
    · rfl
    · rintro ⟨k, v⟩ hmem rfl
      simp only [List.mem_filter, mem_flowRows, Bool.and_eq_true] at hmem
      obtain ⟨hlookup, -, hkept⟩ := hmem
      simp only [hlookup, Option.filter_some, hkept, if_true] at hrow
      cases hrow
  | some row =>
    obtain ⟨hlookup, hkept⟩ := Option.filter_eq_some_iff.mp hrow
    rw [Table.lastValue_eq_some (v := row)]
    · rfl
    · simp [mem_flowRows, hlookup, hkey, hkept]
    · intro v hmem
      simp only [List.mem_filter, mem_flowRows, hlookup, Option.some.injEq] at hmem
      exact hmem.1.symm

/-- **The choice**: a key is chosen on the snapshot exactly if it is still idle there. -/
theorem mem_idleFlowKeys :
    key ∈ idleFlowKeys (flowRows t) cls parity ↔ stillIdle key cls parity t.lookup = true := by
  simp only [idleFlowKeys, List.mem_map, List.mem_append, List.mem_filter, Prod.exists, mem_flowRows, exists_and_right,
    exists_eq_right, stillIdle, Bool.and_eq_true, decide_eq_true_eq]
  cases hvalue : t.lookup key with
  | none => simp
  | some value =>
    have hsurviving := @lookup_survivingReverse t cls parity _ (direction_memoReverseKey key value key.proto)
    cases hdirection : flowKeyDirection key with
    | none => simp [FlowKey.isFlow, hdirection]
    | some direction =>
      cases direction with
      | forward => simp [FlowKey.isFlow, hdirection]
      | reverse => simp [FlowKey.isFlow, hdirection]
      | portMemo => simp [FlowKey.isFlow, hdirection, hsurviving]

/-- What is chosen is chosen once. -/
theorem nodup_idleFlowKeys (t : Table FlowKey FlowValue) (cls : UInt8) (parity : GcParity) :
    (idleFlowKeys (flowRows t) cls parity).Nodup := by
  have hpart : ∀ p : FlowKey × FlowValue → Bool, (((flowRows t).filter p).map Prod.fst).Nodup := fun p =>
    (nodup_flowRows t).sublist (List.filter_sublist.map _)
  unfold idleFlowKeys
  rw [List.map_append]
  refine (hpart _).append (hpart _) ?_
  -- a flow's key is no memo's
  intro key hswept hmemo
  simp only [List.mem_map, List.mem_filter, Bool.and_eq_true, Prod.exists, exists_and_right, exists_eq_right]
    at hswept hmemo
  obtain ⟨value, -, hflow, -⟩ := hswept
  obtain ⟨value', -, hdirection, -⟩ := hmemo
  simp only [FlowKey.isFlow, Bool.or_eq_true, decide_eq_true_eq] at hflow hdirection
  rw [hdirection] at hflow
  simp at hflow

/-! ## What the deletions leave as it is -/

/-- A table in which only rows that are still idle are missing. -/
structure Spared (cls : UInt8) (parity : GcParity) (t t' : Table FlowKey FlowValue) : Prop where
  kept : ∀ key value, t'.lookup key = some value → t.lookup key = some value
  missing : ∀ key, t'.lookup key = none → t.lookup key = none ∨ stillIdle key cls parity t.lookup = true

/-- The `Reverse` rows that are not swept are all there. -/
theorem Spared.surviving {t' : Table FlowKey FlowValue} (h : Spared cls parity t t')
    (hkey : flowKeyDirection key = some .reverse) :
    ((t'.lookup key).filter fun row => !rowSwept key row cls parity) =
      (t.lookup key).filter fun row => !rowSwept key row cls parity := by
  cases hrow : t'.lookup key with
  | some value => rw [h.kept key value hrow]
  | none =>
    rcases h.missing key hrow with hnone | hidle
    · rw [hnone]
    · cases hvalue : t.lookup key with
      | none => rfl
      | some value =>
        simp only [stillIdle, hvalue, hkey] at hidle
        rw [Option.filter_some, hidle]
        rfl

/-- **The second look** at a row that is there tells what the first one did. -/
theorem Spared.stillIdle {t' : Table FlowKey FlowValue} (h : Spared cls parity t t')
    (hrow : t'.lookup key = some value) :
    stillIdle key cls parity t'.lookup = stillIdle key cls parity t.lookup := by
  unfold Beep.stillIdle
  dsimp only
  rw [hrow, h.kept key value hrow]
  dsimp only
  rw [h.surviving (direction_memoReverseKey key value key.proto)]

/-! ## The run -/

theorem Spared.of_lookup {t' : Table FlowKey FlowValue} {chosen : List FlowKey}
    (h : ∀ key, t'.lookup key = if key ∈ chosen then none else t.lookup key)
    (hchosen : ∀ key ∈ chosen, Beep.stillIdle key cls parity t.lookup = true) : Spared cls parity t t' := by
  refine ⟨?_, ?_⟩
  · intro key value hrow
    rw [h] at hrow
    split at hrow
    · cases hrow
    · exact hrow
  · intro key hnone
    rw [h] at hnone
    split at hnone
    · rename_i hmem
      exact Or.inr (hchosen key hmem)
    · exact Or.inl hnone

/-- After some of the chosen keys, exactly those whose delete did not fail are gone. -/
theorem turns_failing (fails : FlowKey → Bool) (chosen : List FlowKey) (hnodup : chosen.Nodup)
    (hchosen : ∀ key ∈ chosen, Beep.stillIdle key cls parity t.lookup = true) :
    let s := chosen.foldl (IdleSweep.turn cls parity fails) { flowTable := t }
    (∀ key, s.flowTable.lookup key = if key ∈ chosen.filter (!fails ·) then none else t.lookup key) ∧
      s.deleted = (chosen.filter (!fails ·)).length ∧ s.failed = (chosen.filter fails).length := by
  -- on the last key
  induction chosen using List.reverseRecOn with
  | nil => simp
  | append_singleton before key ih =>
    obtain ⟨hbefore, hlast, hnew⟩ := List.nodup_append.mp hnodup
    obtain ⟨hlookup, hdeleted, hfailed⟩ := ih hbefore fun k hk => hchosen k (List.mem_append_left _ hk)
    have hidle := hchosen key (by simp)
    have hnotmem : key ∉ before := fun hmem => hnew key hmem key (by simp) rfl
    rw [List.foldl_append, List.foldl_cons, List.foldl_nil]
    generalize before.foldl (IdleSweep.turn cls parity fails) { flowTable := t } = s at hlookup hdeleted hfailed ⊢
    have hspared := Spared.of_lookup hlookup fun k hk =>
      hchosen k (List.mem_append_left _ (List.mem_filter.mp hk).1)
    obtain ⟨value, hvalue⟩ : ∃ value, t.lookup key = some value := by
      cases hvalue : t.lookup key with
      | none => simp [Beep.stillIdle, hvalue] at hidle
      | some value => exact ⟨value, rfl⟩
    have hrow : s.flowTable.lookup key = some value := by
      rw [hlookup, if_neg fun hmem => hnotmem (List.mem_filter.mp hmem).1, hvalue]
    have hagain : Beep.stillIdle key cls parity s.flowTable.lookup = true := by
      rw [hspared.stillIdle hrow, hidle]
    simp only [IdleSweep.turn, hagain, if_true, List.filter_append, List.filter_singleton]
    cases hfails : fails key with
    | true => exact ⟨fun k => by simp [hlookup], by simp [hdeleted], by simp [hfailed]⟩
    | false =>
      refine ⟨fun k => ?_, by simp [hdeleted], by simp [hfailed]⟩
      simp only [Bool.false_eq_true, if_false, Bool.not_false, cond_true, List.mem_append, List.mem_singleton]
      rw [Table.lookup_erase_ite, hlookup]
      by_cases hk : k = key
      · simp [hk]
      · simp [hk]

/-- With no failing delete, all of them are gone. -/
theorem turns (chosen : List FlowKey) (hnodup : chosen.Nodup)
    (hchosen : ∀ key ∈ chosen, Beep.stillIdle key cls parity t.lookup = true) :
    let s := chosen.foldl (IdleSweep.turn cls parity fun _ => false) { flowTable := t }
    (∀ key, s.flowTable.lookup key = if key ∈ chosen then none else t.lookup key) ∧ s.deleted = chosen.length ∧
      s.failed = 0 := by
  have h := turns_failing (fun _ => false) chosen hnodup hchosen
  simpa using h

/-- The chosen keys are still idle on the snapshot. -/
theorem stillIdle_of_chosen (hkey : key ∈ idleFlowKeys (flowRows t) cls parity) :
    Beep.stillIdle key cls parity t.lookup = true := mem_idleFlowKeys.mp hkey

/-- The table after the sweep. -/
theorem lookup_sweepIdleFlows (key : FlowKey) : (sweepIdleFlows cls parity (fun _ => false) t).1.lookup key =
    if key ∈ idleFlowKeys (flowRows t) cls parity then none else t.lookup key :=
  (turns _ (nodup_idleFlowKeys t cls parity) fun _ => stillIdle_of_chosen).1 key

/-- A `Forward` or `Reverse` row goes if it is swept and its delete does not fail. -/
theorem lookup_sweepIdleFlows_failing (fails : FlowKey → Bool) (hflow : key.isFlow = true) :
    (sweepIdleFlows cls parity fails t).1.lookup key =
      (t.lookup key).filter fun row => !(rowSwept key row cls parity && !fails key) := by
  have hrun := (turns_failing fails _ (nodup_idleFlowKeys t cls parity) fun _ => stillIdle_of_chosen).1 key
  refine hrun.trans ?_
  simp only [FlowKey.isFlow, Bool.or_eq_true, decide_eq_true_eq] at hflow
  simp only [List.mem_filter, mem_idleFlowKeys]
  cases hvalue : t.lookup key with
  | none => simp
  | some value =>
    have hidle : Beep.stillIdle key cls parity t.lookup = rowSwept key value cls parity := by
      rcases hflow with hdirection | hdirection <;> simp [Beep.stillIdle, hvalue, hdirection]
    rw [hidle, Option.filter_some]
    cases rowSwept key value cls parity <;> cases fails key <;> simp

end

/-- **The idle sweep deletes what it chose**: at any point of it, a row that is there is still idle exactly if it was
    chosen on the snapshot, and the chosen keys are all that is deleted. Every memo that is left has its `Reverse` row,
    every memo whose `Reverse` row is not swept is left, and so is every row of another class. -/
theorem idle_sweep_exact (t : Table FlowKey FlowValue) (cls : UInt8) (parity : GcParity) :
    let chosen := idleFlowKeys (flowRows t) cls parity
    let swept := sweepIdleFlows cls parity (fun _ => false) t
    (∀ before after key value, chosen = before ++ after →
      let now := (before.foldl (IdleSweep.turn cls parity fun _ => false) { flowTable := t }).flowTable
      now.lookup key = some value → (stillIdle key cls parity now.lookup = true ↔ key ∈ chosen)) ∧
    (∀ key, swept.1.lookup key = if key ∈ chosen then none else t.lookup key) ∧
    swept.2 = .ok ((flowRows t).length, chosen.length) ∧
    (∀ memo value, flowKeyDirection memo = some .portMemo → swept.1.lookup memo = some value →
      let (clientPort, reverseKey) := memoReverseKey memo value memo.proto
      ∃ row, swept.1.lookup reverseKey = some row ∧ row.reverse.originalClientPort = clientPort) ∧
    (∀ memo value row, flowKeyDirection memo = some .portMemo → t.lookup memo = some value →
      let (clientPort, reverseKey) := memoReverseKey memo value memo.proto
      t.lookup reverseKey = some row → rowSwept reverseKey row cls parity = false →
        row.reverse.originalClientPort = clientPort → swept.1.lookup memo = some value) ∧
    ∀ key value, key.isFlow = true → t.lookup key = some value → sweepClass value.flags key.proto ≠ cls →
      swept.1.lookup key = some value := by
  have hrun := turns (idleFlowKeys (flowRows t) cls parity) (nodup_idleFlowKeys t cls parity) fun _ =>
    stillIdle_of_chosen
  have hspared : Spared cls parity t (sweepIdleFlows cls parity (fun _ => false) t).1 :=
    Spared.of_lookup lookup_sweepIdleFlows fun _ => stillIdle_of_chosen
  refine ⟨?_, lookup_sweepIdleFlows, ?_, ?_, ?_, ?_⟩
  · intro before after key value hsplit now hrow
    have hmem : ∀ k ∈ before, k ∈ idleFlowKeys (flowRows t) cls parity := fun k hk => by
      rw [hsplit]
      exact List.mem_append_left _ hk
    have hnodup : before.Nodup := (List.nodup_append.mp (hsplit ▸ nodup_idleFlowKeys t cls parity)).1
    have hbefore := turns before hnodup fun k hk => stillIdle_of_chosen (hmem k hk)
    have hnow : Spared cls parity t now := Spared.of_lookup hbefore.1 fun k hk => stillIdle_of_chosen (hmem k hk)
    rw [hnow.stillIdle hrow, mem_idleFlowKeys]
  · simp only [sweepIdleFlows, hrun.2.1, hrun.2.2]
    rfl
  · intro memo value hmemo hleft
    have hnotchosen : memo ∉ idleFlowKeys (flowRows t) cls parity := by
      intro hmem
      rw [lookup_sweepIdleFlows, if_pos hmem] at hleft
      cases hleft
    have hvalue := hspared.kept memo value hleft
    rw [mem_idleFlowKeys] at hnotchosen
    simp only [stillIdle, hvalue, hmemo, Bool.not_eq_true, Bool.not_eq_false', portMemoWanted, decide_eq_true_eq,
      Option.map_eq_some_iff] at hnotchosen
    obtain ⟨row, hrow, hport⟩ := hnotchosen
    -- the row is among those that are all left
    rw [← hspared.surviving (direction_memoReverseKey memo value memo.proto)] at hrow
    exact ⟨row, (Option.filter_eq_some_iff.mp hrow).1, hport⟩
  · intro memo value row hmemo hvalue hrow hkept hport
    change t.lookup (memoReverseKey memo value memo.proto).2 = some row at hrow
    change row.reverse.originalClientPort = (memoReverseKey memo value memo.proto).1 at hport
    change rowSwept (memoReverseKey memo value memo.proto).2 row cls parity = false at hkept
    rw [lookup_sweepIdleFlows, if_neg, hvalue]
    rw [mem_idleFlowKeys]
    simp only [stillIdle, hvalue, hmemo, hrow, Option.filter_some, hkept, Bool.not_false, if_true, Option.map_some,
      portMemoWanted, hport]
    simp
  · intro key value hflow hvalue hclass
    rw [lookup_sweepIdleFlows, if_neg, hvalue]
    rw [mem_idleFlowKeys]
    simp only [FlowKey.isFlow, Bool.or_eq_true, decide_eq_true_eq] at hflow
    rcases hflow with hdirection | hdirection <;> simp [stillIdle, hvalue, hdirection, rowSwept, hclass]

end Beep
