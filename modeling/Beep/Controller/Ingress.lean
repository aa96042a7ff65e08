import Beep.Controller.Client
import Beep.Lib.NetText

/-!
# `Controller.Ingress` — the addresses of a Service, written by many

`controller/src/status.rs`: `status.loadBalancer.ingress` of a Service is one atomic list, which every node corrects for
itself (`mergedIngress`) in a loop of a GET and a PATCH that carries the version it read (`updateIngress`). What the loop
does with any list of corrections is said once (`safe_updateIngress`): a PATCH that is accepted carries what was computed
from the list it replaces.
-/

namespace Beep

open Json (Value)

/-! ## The list -/

/-- The address of an entry; an entry may have none. -/
def entryIp (entry : Value) : Option String := (entry.get "ip").asStr

/-- The entry of an address. -/
def ipEntry (ip : String) : Value := .obj [("ip", .str ip)]

@[simp] theorem entryIp_ipEntry (ip : String) : entryIp (ipEntry ip) = some ip := rfl

/-- One of the addresses is written so. -/
def showsAs (ips : List IpAddr) (ip : String) : Bool := ips.any fun o => o.display == ip

/-- The entries that `merged_ingress` keeps: the ones of others, the ones without an address, and the desired ones. -/
def keepsEntry (ownIps desiredIps : List IpAddr) (entry : Value) : Bool :=
  match entryIp entry with
  | some ip => !showsAs ownIps ip || showsAs desiredIps ip
  | none => true

/-- One more address, if it is not there. -/
def addMissing (merged : List Value × Bool) (ip : IpAddr) : List Value × Bool :=
  if merged.1.any fun entry => entryIp entry == some ip.display then merged
  else (merged.1 ++ [ipEntry ip.display], true)

/-- `merged_ingress`. -/
def mergedIngress (existing : List Value) (ownIps desiredIps : List IpAddr) : Option (List Value) :=
  let kept := existing.filter (keepsEntry ownIps desiredIps)
  let (merged, changed) := desiredIps.foldl addMissing (kept, kept.length != existing.length)
  if changed then some merged else none

/-! ## What is merged -/

/-- The list has an entry of the address. -/
def Advertised (ingress : List Value) (ip : IpAddr) : Prop := ∃ entry ∈ ingress, entryIp entry = some ip.display

theorem showsAs_iff {ips : List IpAddr} {ip : IpAddr} : showsAs ips ip.display = true ↔ ip ∈ ips := by
  simp only [showsAs, List.any_eq_true, beq_iff_eq]
  constructor
  · rintro ⟨o, ho, hsame⟩
    exact IpAddr.display_injective hsame ▸ ho
  · exact fun h => ⟨ip, h, rfl⟩

/-- A list with entries of more addresses. -/
theorem advertised_append {kept : List Value} {added : List IpAddr} {ip : IpAddr} :
    Advertised (kept ++ added.map fun ip => ipEntry ip.display) ip ↔ Advertised kept ip ∨ ip ∈ added := by
  constructor
  · rintro ⟨entry, hentry, hip⟩
    rcases List.mem_append.mp hentry with hkept | hadded
    · exact Or.inl ⟨entry, hkept, hip⟩
    · obtain ⟨a, ha, rfl⟩ := List.mem_map.mp hadded
      rw [← IpAddr.display_injective (Option.some_inj.mp hip)]
      exact Or.inr ha
  · rintro (⟨entry, hentry, hip⟩ | hip)
    · exact ⟨entry, List.mem_append_left _ hentry, hip⟩
    · exact ⟨ipEntry ip.display, List.mem_append_right _ (List.mem_map.mpr ⟨ip, hip, rfl⟩), rfl⟩

theorem any_entryIp_iff {ingress : List Value} {ip : IpAddr} :
    (ingress.any fun entry => entryIp entry == some ip.display) = true ↔ Advertised ingress ip := by
  simp only [List.any_eq_true, beq_iff_eq]
  rfl

/-- What is added is what is desired and not there, each address once. -/
theorem foldl_addMissing (desiredIps : List IpAddr) (kept : List Value) (changed : Bool) :
    ∃ added : List IpAddr, added.Nodup ∧ (∀ ip, ip ∈ added ↔ ip ∈ desiredIps ∧ ¬ Advertised kept ip) ∧
      (desiredIps.foldl addMissing (kept, changed)).1 = kept ++ added.map (fun ip => ipEntry ip.display) ∧
      ((desiredIps.foldl addMissing (kept, changed)).2 = false ↔ added = [] ∧ changed = false) := by
  -- on the desired addresses, the last one first
  induction desiredIps using List.reverseRecOn with
  | nil => exact ⟨[], by simp, by simp, by simp, by simp⟩
  | append_singleton desiredIps ip ih =>
    obtain ⟨added, hnodup, hadded, hlist, hchanged⟩ := ih
    rw [List.foldl_append, List.foldl_cons, List.foldl_nil]
    generalize desiredIps.foldl addMissing (kept, changed) = merged at hlist hchanged ⊢
    have hthere : Advertised merged.1 ip ↔ Advertised kept ip ∨ ip ∈ added := by
      rw [hlist]
      exact advertised_append
    unfold addMissing
    by_cases hany : (merged.1.any fun entry => entryIp entry == some ip.display) = true
    · rw [if_pos hany]
      refine ⟨added, hnodup, fun a => ?_, hlist, hchanged⟩
      rw [hadded, List.mem_append, List.mem_singleton]
      refine ⟨fun h => ⟨Or.inl h.1, h.2⟩, ?_⟩
      rintro ⟨hdesired | rfl, hnew⟩
      · exact ⟨hdesired, hnew⟩
      · exact (hadded a).mp ((hthere.mp (any_entryIp_iff.mp hany)).resolve_left hnew)
    · rw [if_neg hany]
      have hnot := fun h => hany (any_entryIp_iff.mpr (hthere.mpr h))
      have hnew : ¬ Advertised kept ip := fun h => hnot (Or.inl h)
      have hfresh : ip ∉ added := fun h => hnot (Or.inr h)
      refine ⟨added ++ [ip], ?_, fun a => ?_, ?_, ?_⟩
      · exact (List.nodup_cons.mpr ⟨hfresh, hnodup⟩).perm (List.perm_append_singleton ip added).symm
      · rw [List.mem_append, List.mem_singleton, hadded, List.mem_append, List.mem_singleton]
        constructor
        · rintro (h | rfl)
          · exact ⟨Or.inl h.1, h.2⟩
          · exact ⟨Or.inr rfl, hnew⟩
        · rintro ⟨h | h, hnot⟩
          · exact Or.inl ⟨h, hnot⟩
          · exact Or.inr h
      · dsimp only
        rw [hlist, List.map_append, List.append_assoc]
        rfl
      · simp

/-- An entry of a desired address is kept. -/
theorem advertised_kept {existing : List Value} {ownIps desiredIps : List IpAddr} {ip : IpAddr}
    (hdesired : ip ∈ desiredIps) :
    Advertised (existing.filter (keepsEntry ownIps desiredIps)) ip ↔ Advertised existing ip := by
  refine exists_congr fun entry => ?_
  rw [List.mem_filter]
  refine ⟨fun h => ⟨h.1.1, h.2⟩, fun h => ⟨⟨h.1, ?_⟩, h.2⟩⟩
  unfold keepsEntry
  rw [h.2]
  show (_ || showsAs desiredIps ip.display) = true
  rw [showsAs_iff.mpr hdesired, Bool.or_true]

/-- **`merged_ingress`**: the list it leaves, or finds right, has the entries to keep and after them the desired ones
    that were missing, each address once. It finds the list right if that is the list. -/
theorem mergedIngress_spec (existing : List Value) (ownIps desiredIps : List IpAddr) :
    ∃ added : List IpAddr, added.Nodup ∧ (∀ ip, ip ∈ added ↔ ip ∈ desiredIps ∧ ¬ Advertised existing ip) ∧
      (mergedIngress existing ownIps desiredIps).getD existing =
        existing.filter (keepsEntry ownIps desiredIps) ++ added.map (fun ip => ipEntry ip.display) ∧
      (mergedIngress existing ownIps desiredIps = none ↔
        existing.filter (keepsEntry ownIps desiredIps) = existing ∧ added = []) := by
  obtain ⟨added, hnodup, hadded, hlist, hchanged⟩ := foldl_addMissing desiredIps
    (existing.filter (keepsEntry ownIps desiredIps))
    ((existing.filter (keepsEntry ownIps desiredIps)).length != existing.length)
  have hmem : ∀ ip, ip ∈ added ↔ ip ∈ desiredIps ∧ ¬ Advertised existing ip := by
    intro ip
    rw [hadded]
    exact and_congr_right fun hdesired => not_congr (advertised_kept hdesired)
  -- nothing was dropped if the list is as long as it was
  have hkept : ((existing.filter (keepsEntry ownIps desiredIps)).length != existing.length) = false ↔
      existing.filter (keepsEntry ownIps desiredIps) = existing := by
    rw [bne_eq_false_iff_eq]
    exact ⟨List.filter_sublist.eq_of_length, congrArg List.length⟩
  rw [hkept, and_comm] at hchanged
  refine ⟨added, hnodup, hmem, ?_⟩
  unfold mergedIngress
  dsimp only
  cases hflag : (desiredIps.foldl addMissing (existing.filter (keepsEntry ownIps desiredIps),
      (existing.filter (keepsEntry ownIps desiredIps)).length != existing.length)).2 with
  | true =>
    rw [hflag] at hchanged
    simp only [if_true, Option.getD_some, reduceCtorEq, false_iff]
    exact ⟨hlist, fun h => nomatch hchanged.mpr h⟩
  | false =>
    obtain ⟨hsame, hnone⟩ := hchanged.mp hflag
    simp only [Bool.false_eq_true, if_false, Option.getD_none, true_iff]
    refine ⟨?_, hsame, hnone⟩
    rw [hsame, hnone, List.map_nil, List.append_nil]

/-- All that is desired is there then. -/
theorem advertised_of_desired (existing : List Value) (ownIps : List IpAddr) {desiredIps : List IpAddr} {ip : IpAddr}
    (hdesired : ip ∈ desiredIps) : Advertised ((mergedIngress existing ownIps desiredIps).getD existing) ip := by
  obtain ⟨added, -, hadded, hlist, -⟩ := mergedIngress_spec existing ownIps desiredIps
  rw [hlist, advertised_append, advertised_kept hdesired, hadded]
  exact (Classical.em (Advertised existing ip)).imp_right fun hnew => ⟨hdesired, hnew⟩

/-- Of a node's own addresses, the corrected list has the desired ones. -/
theorem advertised_merged (existing : List Value) {ownIps : List IpAddr}
    (desiredIps : List IpAddr) {ip : IpAddr} (hown : ip ∈ ownIps) :
    Advertised ((mergedIngress existing ownIps desiredIps).getD existing) ip ↔ ip ∈ desiredIps := by
  obtain ⟨added, -, hadded, hlist, -⟩ := mergedIngress_spec existing ownIps desiredIps
  refine ⟨?_, advertised_of_desired existing ownIps⟩
  rintro ⟨entry, hentry, hip⟩
  rw [hlist, List.mem_append, List.mem_filter, List.mem_map] at hentry
  rcases hentry with ⟨-, hkept⟩ | ⟨a, ha, rfl⟩
  · unfold keepsEntry at hkept
    rw [hip] at hkept
    simp only [showsAs_iff.mpr hown, Bool.not_true, Bool.false_or] at hkept
    exact showsAs_iff.mp hkept
  · rw [← IpAddr.display_injective (Option.some_inj.mp hip)]
    exact ((hadded a).mp ha).1

/-- Entries that are of none of a node's addresses stay as they are. -/
theorem filter_merged (existing : List Value) {ownIps desiredIps : List IpAddr} (hdesired : ∀ ip ∈ desiredIps, ip ∈ ownIps)
    {p : Value → Bool} (hp : ∀ entry, p entry = true → ∀ ip ∈ ownIps, entryIp entry ≠ some ip.display) :
    ((mergedIngress existing ownIps desiredIps).getD existing).filter p = existing.filter p := by
  obtain ⟨added, -, hadded, hlist, -⟩ := mergedIngress_spec existing ownIps desiredIps
  rw [hlist, List.filter_append, List.filter_filter]
  have hnone : (added.map fun ip => ipEntry ip.display).filter p = [] := by
    refine List.filter_eq_nil_iff.mpr fun entry hentry hpe => ?_
    obtain ⟨ip, hip, rfl⟩ := List.mem_map.mp hentry
    exact hp _ hpe ip (hdesired ip ((hadded ip).mp hip).1) rfl
  rw [hnone, List.append_nil]
  refine List.filter_congr fun entry _ => ?_
  cases hpe : p entry with
  | false => rfl
  | true =>
    rw [Bool.true_and]
    unfold keepsEntry
    split
    · rename_i ip hip
      have hforeign : showsAs ownIps ip = false := by
        refine Bool.eq_false_iff.mpr fun h => ?_
        obtain ⟨o, ho, hshow⟩ := List.any_eq_true.mp h
        exact hp entry hpe o ho (by rw [hip, beq_iff_eq.mp hshow])
      rw [hforeign]
      rfl
    · rfl

/-- What is dropped is of one of the node's addresses, and not a desired one. -/
theorem owned_of_dropped {existing : List Value} {ownIps desiredIps : List IpAddr} {entry : Value}
    (hentry : entry ∈ existing) (hgone : entry ∉ (mergedIngress existing ownIps desiredIps).getD existing) :
    ∃ ip ∈ ownIps, ip ∉ desiredIps ∧ entryIp entry = some ip.display := by
  obtain ⟨added, -, -, hlist, -⟩ := mergedIngress_spec existing ownIps desiredIps
  rw [hlist, List.mem_append, not_or, List.mem_filter, not_and] at hgone
  have hdropped := hgone.1 hentry
  unfold keepsEntry at hdropped
  split at hdropped
  · rename_i text htext
    simp only [Bool.or_eq_true, Bool.not_eq_true', not_or, Bool.not_eq_false] at hdropped
    obtain ⟨ip, hip, hshow⟩ := List.any_eq_true.mp hdropped.1
    obtain rfl : ip.display = text := beq_iff_eq.mp hshow
    exact ⟨ip, hip, fun h => hdropped.2 (showsAs_iff.mpr h), htext⟩
  · exact absurd rfl hdropped

/-! ## The loop -/

/-- Why an update ended without success. -/
inductive UpdateError where
  | serviceGone (path : String)
  | failed (message : String)

/-- `MAX_CONFLICT_RETRIES`. -/
def maxConflictRetries : Nat := 5

/-- What runs against the API server. -/
abbrev ApiTask := Async ApiRequest (Option ApiResponse)

/-- The path of a Service. -/
def servicePath (ns name : String) : String := s!"/api/v1/namespaces/{ns}/services/{name}"

/-- The list in a Service object. -/
def ingressOf (obj : Value) : List Value :=
  ((((obj.get "status").get "loadBalancer").get "ingress").asArray).getD []

/-- `metadata.resourceVersion`. -/
def resourceVersion (obj : Value) : Option String := ((obj.get "metadata").get "resourceVersion").asStr

/-- The patch that sets the list, if the version is still this one. -/
def ingressPatch (version : String) (ingress : List Value) : Value :=
  .obj [("metadata", .obj [("resourceVersion", .str version)]),
    ("status", .obj [("loadBalancer", .obj [("ingress", .arr ingress)])])]

/-- The GET of the loop. -/
def getService (path : String) : ApiRequest := { method := .get, path, body := none }

/-- The PATCH of the loop. -/
def patchStatus (path version : String) (ingress : List Value) : ApiRequest :=
  { method := .patch, path := path ++ "/status", body := some (ingressPatch version ingress) }

/-- What the answer to the GET says: the version of the object and the list in it. -/
def readService (path : String) : Option ApiResponse → Except UpdateError (String × List Value)
  | none => .error (.failed s!"GET {path}")
  | some response =>
      if response.status = HttpStatus.notFound then .error (.serviceGone path)
      else if !HttpStatus.isSuccess response.status then
        .error (.failed s!"GET {path} returned HTTP {response.status}")
      else
        match response.body with
        | none => .error (.failed "parse Service GET response")
        | some obj =>
            match resourceVersion obj with
            | none => .error (.failed "Service GET response missing metadata.resourceVersion")
            | some version => .ok (version, ingressOf obj)

/-- What the answer to the PATCH says: how the update ends, or nothing yet after a conflict. -/
def patchOutcome (path : String) : Option ApiResponse → Option (Except UpdateError Unit)
  | none => some (.error (.failed s!"PATCH {path}/status"))
  | some response =>
      if HttpStatus.isSuccess response.status then some (.ok ())
      else if response.status = HttpStatus.conflict then none
      else some (.error (.failed s!"PATCH {path}/status returned HTTP {response.status}"))

/-- The attempts that are left of `update_ingress`. What `compute` keeps in mind goes from one attempt to the next. -/
def updateAttempts {S : Type} (path : String) (compute : List Value → S → Option (List Value) × S) :
    Nat → S → ApiTask (Except UpdateError Unit × S)
  | 0, s => return (.error (.failed s!"PATCH {path}/status exceeded {maxConflictRetries} conflict retries"), s)
  | attempts + 1, s => do
      match readService path (← Async.request (getService path)) with
      | .error e => return (.error e, s)
      | .ok (version, existing) =>
          match compute existing s with
          | (none, s) => return (.ok (), s)
          | (some ingress, s) =>
              match patchOutcome path (← Async.request (patchStatus path version ingress)) with
              | some result => return (result, s)
              | none => updateAttempts path compute attempts s

/-- `update_ingress`. -/
def updateIngress {S : Type} (ns name : String) (compute : List Value → S → Option (List Value) × S) (s : S) :
    ApiTask (Except UpdateError Unit × S) :=
  updateAttempts (servicePath ns name) compute maxConflictRetries s

/-- `ensure_node_ingress`. -/
def ensureNodeIngress (ns name : String) (ownIps desiredIps : List IpAddr) : ApiTask (Except UpdateError Unit) :=
  Prod.fst <$> updateIngress ns name (fun existing (_ : Unit) => (mergedIngress existing ownIps desiredIps, ())) ()

/-- **The rule of the loop.** What is kept in mind is kept by every attempt; the request to read is in order, and so is the
    patch of what was computed from what was read; and every way in which an attempt ends the loop leads to the result. -/
theorem safe_updateAttempts_rule {S σ ε : Type} {serve : σ → ApiRequest → ε → σ × Option ApiResponse}
    {R : σ → σ → Prop} {G : σ → ApiRequest → Prop} {P : σ → Except UpdateError Unit × S → Prop} {path : String}
    {compute : List Value → S → Option (List Value) × S} (Inv : S → Prop)
    (hInv : ∀ existing s, Inv s → Inv (compute existing s).2) (hget : ∀ x, G x (getService path))
    (herror : ∀ x s e, Inv s → P x (.error e, s))
    (hright : ∀ x how version existing s s', Inv s → Inv s' →
      readService path (serve x (getService path) how).2 = .ok (version, existing) →
      compute existing s = (none, s') → P (serve x (getService path) how).1 (.ok (), s'))
    (hpatch : ∀ x how version existing s ingress s' x', Inv s → Inv s' →
      readService path (serve x (getService path) how).2 = .ok (version, existing) →
      compute existing s = (some ingress, s') → R (serve x (getService path) how).1 x' →
      G x' (patchStatus path version ingress) ∧ ∀ how' result,
        patchOutcome path (serve x' (patchStatus path version ingress) how').2 = some result →
        P (serve x' (patchStatus path version ingress) how').1 (result, s'))
    (attempts : Nat) {s : S} (hs : Inv s) (x : σ) : (updateAttempts path compute attempts s).Safe serve R G P x := by
  -- on the attempts that are left
  induction attempts generalizing s x with
  | zero => exact herror x s _ hs
  | succ attempts ih =>
    refine Async.Safe.request fun x _ => ⟨hget x, fun how => ?_⟩
    cases hread : readService path (serve x (getService path) how).2 with
    | error e => exact herror _ s e hs
    | ok read =>
      obtain ⟨version, existing⟩ := read
      have hstep := hInv existing s hs
      dsimp only
      rcases hcompute : compute existing s with ⟨_ | ingress, s'⟩ <;> rw [hcompute] at hstep
      · exact hright x how version existing s s' hs hstep hread hcompute
      · refine Async.Safe.request fun x' hmoved => ?_
        obtain ⟨hmeets, hends⟩ := hpatch x how version existing s ingress s' x' hs hstep hread hcompute hmoved
        refine ⟨hmeets, fun how' => ?_⟩
        cases houtcome : patchOutcome path (serve x' (patchStatus path version ingress) how').2 with
        | none => exact ih hstep _
        | some result => exact hends how' result houtcome

/-! ## The Service object -/

/-- The list of a Service and the version of the object it is part of. -/
structure IngressRegister where
  version : Nat
  ingress : List Value

namespace IngressRegister

/-- The object as it is served; an empty list is left out. -/
def object (r : IngressRegister) : Value :=
  .obj [("metadata", .obj [("resourceVersion", .str (toString r.version))]),
    ("status", .obj [("loadBalancer", .obj (if r.ingress.isEmpty then [] else [("ingress", .arr r.ingress)]))])]

/-- A request that reaches the object: a patch with another version than the object's is a conflict. -/
def respond (r : IngressRegister) (request : ApiRequest) : IngressRegister × ApiResponse :=
  match request.method, request.body with
  | .get, _ => (r, ⟨200, some r.object⟩)
  | .patch, some patch =>
      if resourceVersion patch = some (toString r.version) then
        let r' : IngressRegister := { version := r.version + 1, ingress := ingressOf patch }
        (r', ⟨200, some r'.object⟩)
      else (r, ⟨HttpStatus.conflict, none⟩)
  | _, _ => (r, ⟨405, none⟩)

/-- A request, and how it goes. -/
def serve (r : IngressRegister) (request : ApiRequest) : Serving → IngressRegister × Option ApiResponse
  | .served => ((r.respond request).1, some (r.respond request).2)
  | .refused status => (r, some ⟨status.val, none⟩)
  | .lost applied => (if applied then (r.respond request).1 else r, none)

@[simp] theorem resourceVersion_object (r : IngressRegister) : resourceVersion r.object = some (toString r.version) := rfl

@[simp] theorem ingressOf_object (r : IngressRegister) : ingressOf r.object = r.ingress := by
  obtain ⟨version, ingress⟩ := r
  cases ingress <;> rfl

/-- The version only grows, and while it is the same so is the list. -/
def Moves (r r' : IngressRegister) : Prop := r.version ≤ r'.version ∧ (r'.version = r.version → r'.ingress = r.ingress)

theorem Moves.refl (r : IngressRegister) : r.Moves r := ⟨Nat.le_refl _, fun _ => rfl⟩

theorem Moves.trans {r r' r'' : IngressRegister} (h : r.Moves r') (h' : r'.Moves r'') : r.Moves r'' := by
  obtain ⟨hle, hsame⟩ := h
  obtain ⟨hle', hsame'⟩ := h'
  exact ⟨Nat.le_trans hle hle', fun heq => (hsame' (by omega)).trans (hsame (by omega))⟩

/-- An object of the same version is the same. -/
theorem ext_of_moves {r r' : IngressRegister} (h : r.Moves r') (hversion : r'.version = r.version) : r' = r := by
  obtain ⟨version, ingress⟩ := r
  obtain ⟨version', ingress'⟩ := r'
  obtain rfl : version' = version := hversion
  exact congrArg (IngressRegister.mk version') (h.2 rfl)

theorem moves_respond (r : IngressRegister) (request : ApiRequest) : r.Moves (r.respond request).1 := by
  unfold respond
  split
  · exact .refl r
  · split
    · refine ⟨Nat.le_succ _, fun h => ?_⟩
      exact absurd h (Nat.succ_ne_self r.version)
    · exact .refl r
  · exact .refl r

theorem moves_serve (r : IngressRegister) (request : ApiRequest) (how : Serving) : r.Moves (r.serve request how).1 := by
  cases how with
  | served => exact moves_respond r request
  | refused status => exact .refl r
  | lost applied =>
    cases applied with
    | true => exact moves_respond r request
    | false => exact .refl r

/-- What a request does to the object: nothing, or it is a patch with the object's version and sets the list. -/
theorem serve_cases (r : IngressRegister) (request : ApiRequest) (how : Serving) :
    (r.serve request how).1 = r ∨ ∃ patch, request.method = .patch ∧ request.body = some patch ∧
      resourceVersion patch = some (toString r.version) ∧ (r.serve request how).1.ingress = ingressOf patch := by
  have hrespond : (r.respond request).1 = r ∨ ∃ patch, request.method = .patch ∧ request.body = some patch ∧
      resourceVersion patch = some (toString r.version) ∧ (r.respond request).1.ingress = ingressOf patch := by
    unfold respond
    split
    · exact Or.inl rfl
    · rename_i patch hmethod hbody
      split
      · rename_i hversion
        exact Or.inr ⟨patch, hmethod, hbody, hversion, rfl⟩
      · exact Or.inl rfl
    · exact Or.inl rfl
  cases how with
  | served => exact hrespond
  | refused status => exact Or.inl rfl
  | lost applied =>
    cases applied with
    | true => exact hrespond
    | false => exact Or.inl rfl

/-- The request, if it is a patch that would be accepted now, replaces the list by what is computed from it. -/
def Replaces {S : Type} (compute : List Value → S → Option (List Value) × S) (Inv : S → Prop) (r : IngressRegister)
    (request : ApiRequest) : Prop :=
  ∀ patch, request.method = .patch → request.body = some patch → resourceVersion patch = some (toString r.version) →
    ∃ s, Inv s ∧ (compute r.ingress s).1 = some (ingressOf patch)

/-- The list is one that needed no correction, or the correction of another, with what is kept in mind of it. -/
def Corrected {S : Type} (compute : List Value → S → Option (List Value) × S) (Inv : S → Prop) (r : IngressRegister)
    (result : S) : Prop :=
  (∃ s, Inv s ∧ compute r.ingress s = (none, result)) ∨ ∃ old s, Inv s ∧ compute old s = (some r.ingress, result)

theorem replaces_getService {S : Type} {compute : List Value → S → Option (List Value) × S} {Inv : S → Prop}
    (r : IngressRegister) (path : String) : Replaces compute Inv r (getService path) := fun _ h => nomatch h

/-- A GET answers with what the object is, or with an error. -/
theorem readService_serve (r : IngressRegister) (path : String) (how : Serving) :
    (r.serve (getService path) how).1 = r ∧
      ((∃ e, readService path (r.serve (getService path) how).2 = .error e) ∨
        readService path (r.serve (getService path) how).2 = .ok (toString r.version, r.ingress)) := by
  cases how with
  | lost applied => cases applied <;> exact ⟨rfl, Or.inl ⟨_, rfl⟩⟩
  | refused status =>
    have hfailed : HttpStatus.isSuccess status.val = false := status.property
    refine ⟨rfl, Or.inl ?_⟩
    unfold serve readService
    simp only [hfailed]
    split <;> exact ⟨_, rfl⟩
  | served =>
    refine ⟨rfl, Or.inr ?_⟩
    show Except.ok (_, ingressOf r.object) = _
    rw [ingressOf_object]

/-- A GET that is answered with a list is answered with the one that is there. -/
theorem of_readService_serve {r : IngressRegister} {path version : String} {existing : List Value} {how : Serving}
    (h : readService path (r.serve (getService path) how).2 = .ok (version, existing)) :
    version = toString r.version ∧ existing = r.ingress ∧ (r.serve (getService path) how).1 = r := by
  obtain ⟨hkept, ⟨e, he⟩ | hok⟩ := readService_serve r path how
  · rw [he] at h
    cases h
  · obtain ⟨hversion, hexisting⟩ := Prod.mk.inj (Except.ok.inj (h.symm.trans hok))
    exact ⟨hversion, hexisting, hkept⟩

/-- A PATCH that ends an update well has set the list. -/
theorem patchOutcome_serve {r : IngressRegister} {path version : String} {ingress : List Value} {how : Serving}
    (h : patchOutcome path (r.serve (patchStatus path version ingress) how).2 = some (.ok ())) :
    (r.serve (patchStatus path version ingress) how).1.ingress = ingress := by
  cases how with
  | lost applied => cases h
  | refused status =>
    have hfailed : HttpStatus.isSuccess status.val = false := status.property
    unfold serve patchOutcome at h
    simp only [hfailed, Bool.false_eq_true, if_false] at h
    split at h <;> cases h
  | served =>
    have hrespond : r.respond (patchStatus path version ingress) =
        if some version = some (toString r.version) then
          (⟨r.version + 1, ingress⟩, ⟨200, some (object ⟨r.version + 1, ingress⟩)⟩)
        else (r, ⟨HttpStatus.conflict, none⟩) := rfl
    show (r.respond (patchStatus path version ingress)).1.ingress = ingress
    unfold serve at h
    rw [hrespond] at h ⊢
    split
    · rfl
    · rename_i hstale
      rw [if_neg hstale] at h
      cases h

/-- **The loop.** A patch that it has accepted replaces a list by what is computed from it, and it succeeds only with a
    list that is corrected. -/
theorem safe_updateAttempts {S : Type} (path : String) {compute : List Value → S → Option (List Value) × S}
    (Inv : S → Prop) (hInv : ∀ existing s, Inv s → Inv (compute existing s).2) (attempts : Nat) {s : S} (hs : Inv s)
    (r : IngressRegister) :
    (updateAttempts path compute attempts s).Safe serve Moves (Replaces compute Inv)
      (fun r result => Inv result.2 ∧ (result.1 = .ok () → Corrected compute Inv r result.2)) r := by
  refine safe_updateAttempts_rule Inv hInv (fun r₁ => replaces_getService r₁ path) (fun _ _ _ hs => ⟨hs, fun h => nomatch h⟩)
    ?_ ?_ attempts hs r
  · intro r₁ how version existing s s' hs hs' hread hcompute
    obtain ⟨-, rfl, hkept⟩ := of_readService_serve hread
    rw [hkept]
    exact ⟨hs', fun _ => Or.inl ⟨s, hs, hcompute⟩⟩
  · intro r₁ how version existing s ingress s' r₂ hs hs' hread hcompute hmoves
    obtain ⟨rfl, rfl, hkept⟩ := of_readService_serve hread
    rw [hkept] at hmoves
    refine ⟨?_, fun how' result houtcome => ⟨hs', ?_⟩⟩
    · rintro _ - ⟨⟩ hversion
      -- the version is still the one that was read, so the list is
      have hsame : r₂.version = r₁.version := (IpAddr.toString_nat_inj (Option.some_inj.mp hversion)).symm
      refine ⟨s, hs, ?_⟩
      rw [hmoves.2 hsame, hcompute]
      rfl
    · rintro rfl
      refine Or.inr ⟨r₁.ingress, s, hs, ?_⟩
      rw [patchOutcome_serve houtcome, hcompute]

end IngressRegister

end Beep
