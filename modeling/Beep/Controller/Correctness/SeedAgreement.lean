import Beep.Controller.Seed
import Beep.Lib.Run

/-!
# `Controller.Correctness.SeedAgreement` — all controllers converge on one seed

Any number of controllers start, pass after pass read the Secret again, and fail in all the ways a request can fail,
while an operator may edit or delete the Secret.

* `CONFIG` holds what the loop carries, because a pass ends with its one write (`SeedCarries`).
* A Secret that is there stays as it is, whatever the controllers ask for (`SeedWorld.Keeps`), so all that is read from
  it agrees: no controller writes anything else (`safe_startSeed`, `safe_seedTick`).
-/

namespace Beep

open Json (Value)

variable {ι : Type} [DecidableEq ι] {ns : String}

/-! ## What is carried -/

/-- A task of a controller that carries `carried`: it writes `CONFIG` once at most, and ends with that. -/
def SeedCarries (carried : Option UInt64) : SeedTask (Option UInt64) → Prop
  | .done seed => seed = carried
  | .ask (.api _) resume => ∀ response, SeedCarries carried (resume (.api response))
  | .ask (.writeConfigSeed seed) resume =>
      resume (.writeConfigSeed true) = .done (some seed) ∧ resume (.writeConfigSeed false) = .done carried

/-- A request to the API server. -/
def SeedRequest.IsApi : SeedRequest → Prop
  | .api _ => True
  | .writeConfigSeed _ => False

/-- What only asks the API server carries what its continuation does. -/
theorem carries_bind {α : Type} {carried : Option UInt64} {t : SeedTask α} {f : α → SeedTask (Option UInt64)}
    (ht : t.Asks SeedRequest.IsApi) (hf : ∀ a, SeedCarries carried (f a)) : SeedCarries carried (t >>= f) := by
  induction t with
  | done a => exact hf a
  | ask q resume ih =>
    cases q with
    | api r => exact fun response => ih _ (ht.2 _)
    | writeConfigSeed seed => exact ht.1.elim

/-- It asks the API server once. -/
theorem asks_apiRequest (r : ApiRequest) : (apiRequest r).Asks SeedRequest.IsApi := by
  refine ⟨trivial, fun a => ?_⟩
  cases a <;> trivial

/-- One GET. -/
theorem asks_readSeed : (readSeed ns).Asks SeedRequest.IsApi := by
  refine (asks_apiRequest _).bind fun response => ?_
  cases response <;> trivial

/-- One POST, and after a conflict one GET. -/
theorem asks_createOrRead (candidate : UInt64) : (createOrRead ns candidate).Asks SeedRequest.IsApi := by
  refine (asks_apiRequest _).bind fun response => ?_
  cases response with
  | none => trivial
  | some response =>
    dsimp only
    cases createOutcome response.status with
    | created => trivial
    | failed => trivial
    | readExisting =>
      refine asks_readSeed.bind fun observed => ?_
      match observed with
      | .error _ => trivial
      | .ok (.stored _) => trivial
      | .ok .absent => trivial

/-- The start carries nothing, and `CONFIG` is written last. -/
theorem carries_startSeed (candidate : UInt64) : SeedCarries none (startSeed ns candidate) := by
  refine carries_bind (asks_createOrRead candidate) fun r => ?_
  cases r with
  | error e => rfl
  | ok seed => exact ⟨rfl, rfl⟩

/-- To follow is to write `CONFIG` at most once, and to end with what it then holds. -/
theorem carries_followSeed (current : UInt64) (action : SeedAction) :
    SeedCarries (some current) (some <$> followSeed current action) := by
  cases action with
  | keep => rfl
  | adopt seed => exact ⟨rfl, rfl⟩
  | recreate => rfl

/-- A pass reads, creates where there was nothing, and follows. -/
theorem carries_seedTick (current : UInt64) : SeedCarries (some current) (some <$> seedTick ns current) := by
  unfold seedTick
  -- absent: created with the seed that is carried
  rw [map_bind]
  refine carries_bind asks_readSeed fun observed => ?_
  cases observed with
  | error e => rfl
  | ok observed =>
    dsimp only
    split
    · rw [map_bind]
      refine carries_bind (asks_createOrRead current) fun r => ?_
      cases r with
      | error e => rfl
      | ok stored => exact carries_followSeed current _
    · exact carries_followSeed current _

/-! ## What is read agrees -/

namespace SeedWorld

/-- A Secret that is there stays as it is. -/
def Keeps (w w' : SeedWorld ι) : Prop := ∀ secret, w.secret = some secret → w'.secret = some secret

omit [DecidableEq ι] in
/-- Nothing happened. -/
theorem Keeps.refl (w : SeedWorld ι) : w.Keeps w := fun _ h => h

omit [DecidableEq ι] in
/-- One thing after another. -/
theorem Keeps.trans {w w' w'' : SeedWorld ι} (h : w.Keeps w') (h' : w'.Keeps w'') : w.Keeps w'' :=
  fun secret hsecret => h' secret (h secret hsecret)

omit [DecidableEq ι] in
/-- A Secret that stays holds what it held. -/
theorem Keeps.stored {w w' : SeedWorld ι} (h : w.Keeps w') {seed : UInt64} (hseed : w.stored = some seed) :
    w'.stored = some seed := by
  obtain ⟨secret, hsecret, hparse⟩ := Option.bind_eq_some_iff.mp hseed
  exact Option.bind_eq_some_iff.mpr ⟨secret, h secret hsecret, hparse⟩

omit [DecidableEq ι] in
/-- The API server never overwrites: a POST on a Secret that is there is a conflict. -/
theorem keeps_respond (w : SeedWorld ι) (r : ApiRequest) : w.Keeps (w.respond r).1 := by
  intro secret hsecret
  unfold respond
  split <;> simp_all

/-- Neither served, refused nor lost does a request change a Secret that is there. -/
theorem keeps_serve (i : ι) (w : SeedWorld ι) (request : SeedRequest) (how : Serving) :
    w.Keeps (serve i w request how).1 := by
  cases request with
  | writeConfigSeed seed => cases how <;> exact Keeps.refl w
  | api r =>
    cases how with
    | served => exact keeps_respond w r
    | refused status => exact Keeps.refl w
    | lost applied =>
      cases applied with
      | true => exact keeps_respond w r
      | false => exact Keeps.refl w

omit [DecidableEq ι] in
/-- The API server knows nothing of who is clean. -/
@[simp] theorem clean_respond (w : SeedWorld ι) (r : ApiRequest) : (w.respond r).1.clean = w.clean := by
  unfold respond
  split <;> rfl

/-- A failure is the asking controller's own. -/
theorem clean_serve_of_ne {i j : ι} (h : j ≠ i) (w : SeedWorld ι) (request : SeedRequest) (how : Serving) :
    (serve i w request how).1.clean j = w.clean j := by
  cases request with
  | writeConfigSeed seed => cases how <;> simp [serve, h]
  | api r =>
    cases how with
    | served => simp [serve]
    | refused status => simp [serve, h]
    | lost applied => cases applied <;> simp [serve, h]

/-- What the others do to the world while controller `i` waits. -/
def Rely (i : ι) (w w' : SeedWorld ι) : Prop := w.Keeps w' ∧ w'.clean i = w.clean i

/-- A controller writes only what the Secret holds. -/
def WritesStored (w : SeedWorld ι) (request : SeedRequest) : Prop :=
  ∀ seed, request = .writeConfigSeed seed → w.stored = some seed

end SeedWorld

open SeedWorld

/-- A task of controller `i` that writes only what the Secret holds. -/
def SafeTask {α : Type} (i : ι) (P : SeedWorld ι → α → Prop) (w : SeedWorld ι) (t : SeedTask α) : Prop :=
  t.Safe (serve i) (Rely i) WritesStored P w

/-- How a request of controller `i` to the API server went: it was served in a world that the waiting led to, or it
    failed, and the controller is not clean. -/
inductive Answered (i : ι) (w : SeedWorld ι) (r : ApiRequest) : SeedWorld ι → Option ApiResponse → Prop
  | served {v : SeedWorld ι} (hv : Rely i w v) : Answered i w r (v.respond r).1 (some (v.respond r).2)
  | refused {w' : SeedWorld ι} {status : Nat} (hkeeps : w.Keeps w') (hclean : w'.clean i = false)
      (hstatus : HttpStatus.isSuccess status = false) : Answered i w r w' (some ⟨status, none⟩)
  | lost {w' : SeedWorld ι} (hkeeps : w.Keeps w') (hclean : w'.clean i = false) : Answered i w r w' none

/-- Each of the ways a request can go. -/
theorem safe_apiRequest (i : ι) (w : SeedWorld ι) (r : ApiRequest) :
    SafeTask i (Answered i w r) w (apiRequest r) := by
  intro v hv
  refine ⟨(fun seed hseed => nomatch hseed), fun how => ?_⟩
  have hkeeps := hv.1.trans (keeps_serve i v (.api r) how)
  cases how with
  | served => exact .served hv
  | refused status => exact .refused hkeeps (Function.update_self _ _ _) status.property
  | lost applied => exact .lost hkeeps (Function.update_self _ _ _)

omit [DecidableEq ι] in
/-- In each of them the Secret stays. -/
theorem Answered.keeps {i : ι} {w w' : SeedWorld ι} {r : ApiRequest} {response : Option ApiResponse}
    (h : Answered i w r w' response) : w.Keeps w' := by
  cases h with
  | served hv => exact hv.1.trans (keeps_respond _ r)
  | refused hkeeps => exact hkeeps
  | lost hkeeps => exact hkeeps

/-- What a read of the Secret says: what it holds afterwards, and with everything served what it held before. -/
structure ReadFrom (i : ι) (w w' : SeedWorld ι) (result : Except String Observed) : Prop where
  keeps : w.Keeps w'
  stored : ∀ seed, result = .ok (.stored seed) → w'.stored = some seed
  clean : w'.clean i = true → ∀ seed, w.stored = some seed → result = .ok (.stored seed)

/-- A Secret that is read says the seed it holds. -/
theorem observe_secret {secret : Value} {seed : UInt64} :
    observe ⟨200, some secret⟩ = .ok (.stored seed) ↔ (parseSeedSecret (some secret)).toOption = some seed := by
  show (parseSeedSecret (some secret)).map Observed.stored = _ ↔ _
  cases parseSeedSecret (some secret) with
  | error e => exact iff_of_false (fun h => nomatch h) fun h => nomatch h
  | ok s =>
    constructor
    · rintro ⟨⟩
      rfl
    · rintro ⟨⟩
      rfl

omit [DecidableEq ι] in
/-- A read that is served: the world answered with what it held. -/
theorem readFrom_of_served {i : ι} {w v : SeedWorld ι} (path : String) (hv : Rely i w v) :
    ReadFrom i w (v.respond ⟨.get, path, none⟩).1 (observe (v.respond ⟨.get, path, none⟩).2) := by
  unfold respond
  cases hsecret : v.secret with
  | none =>
    refine ⟨hv.1, (fun seed h => nomatch h), fun _ seed hseed => ?_⟩
    -- it held nothing at the read, so it held nothing when the controller set out
    have hnone : v.stored = none := by rw [SeedWorld.stored, hsecret]; rfl
    rw [hv.1.stored hseed] at hnone
    cases hnone
  | some secret =>
    have hstored : v.stored = (parseSeedSecret (some secret)).toOption := by rw [SeedWorld.stored, hsecret]; rfl
    refine ⟨hv.1, fun seed h => ?_, fun _ seed hseed => ?_⟩
    · rw [hstored]
      exact observe_secret.mp h
    · refine observe_secret.mpr ?_
      rw [← hstored]
      exact hv.1.stored hseed

/-- A read, however it goes. -/
theorem safe_readSeed (i : ι) (w : SeedWorld ι) : SafeTask i (ReadFrom i w) w (readSeed ns) := by
  refine Async.Safe.bind ((safe_apiRequest i w _).weaken (fun _ _ h => h) fun w' response h => ?_)
  cases h with
  | served hv => exact readFrom_of_served _ hv
  | refused hkeeps hclean hstatus =>
    refine ⟨hkeeps, fun seed h => ?_, fun h => ?_⟩
    · -- an error says nothing about the seed
      unfold observe at h
      simp only [hstatus] at h
      split at h <;> cases h
    · rw [hclean] at h
      cases h
  -- no answer, and the controller is no longer clean
  | lost hkeeps hclean =>
    refine ⟨hkeeps, (fun seed h => nomatch h), fun h => ?_⟩
    rw [hclean] at h
    cases h

/-- What a creation says: a seed that the Secret holds afterwards. -/
structure CreatedFrom (w w' : SeedWorld ι) (result : Except String UInt64) : Prop where
  keeps : w.Keeps w'
  stored : ∀ seed, result = .ok seed → w'.stored = some seed

omit [DecidableEq ι] in
/-- A creation is stored where nothing is, and is a conflict elsewhere. -/
theorem respond_post {v : SeedWorld ι} (path : String) (body : Value) :
    v.respond ⟨.post, path, some body⟩ =
      if v.secret = none then ({ v with secret := some (admitSecret body) }, ⟨201, some (admitSecret body)⟩)
      else (v, ⟨HttpStatus.conflict, none⟩) := by
  unfold respond
  cases v.secret <;> rfl

omit [DecidableEq ι] in
/-- A creation that is answered with success stored the candidate. -/
theorem stored_of_created {v : SeedWorld ι} {path : String} {candidate : UInt64}
    (h : createOutcome (v.respond ⟨.post, path, some (secretBody ns candidate)⟩).2.status = .created) :
    (v.respond ⟨.post, path, some (secretBody ns candidate)⟩).1.stored = some candidate := by
  rw [respond_post] at h ⊢
  split
  · simp only [SeedWorld.stored, Option.bind_some, parseSeedSecret_admitted]
    rfl
  · rename_i hsome
    rw [if_neg hsome] at h
    cases h

/-- A refused creation is not taken for one. -/
theorem createOutcome_of_error {status : Nat} (h : HttpStatus.isSuccess status = false) :
    createOutcome status ≠ .created := by
  unfold createOutcome
  rw [h]
  simp only [Bool.false_eq_true, if_false]
  split <;> exact fun h => nomatch h

/-- A creation, with the read that follows a conflict. -/
theorem safe_createOrRead (i : ι) (w : SeedWorld ι) (candidate : UInt64) :
    SafeTask i (CreatedFrom w) w (createOrRead ns candidate) := by
  refine Async.Safe.bind ((safe_apiRequest i w _).weaken (fun _ _ h => h) fun w' response h => ?_)
  have hkeeps := h.keeps
  cases response with
  | none => exact ⟨hkeeps, fun seed h => nomatch h⟩
  | some response =>
    dsimp only
    -- by the answer: created, already there, or failed
    cases houtcome : createOutcome response.status with
    | failed => exact ⟨hkeeps, fun seed h => nomatch h⟩
    | created =>
      refine ⟨hkeeps, ?_⟩
      rintro seed ⟨⟩
      cases h with
      | served hv => exact stored_of_created houtcome
      | refused _ _ hstatus => exact absurd houtcome (createOutcome_of_error hstatus)
    | readExisting =>
      refine Async.Safe.bind ((safe_readSeed i w').weaken (fun _ _ h => h) fun w'' observed hread => ?_)
      have hkeeps' := hkeeps.trans hread.keeps
      match observed with
      | .error e => exact ⟨hkeeps', fun seed h => nomatch h⟩
      | .ok .absent => exact ⟨hkeeps', fun seed h => nomatch h⟩
      | .ok (.stored seed) =>
        refine ⟨hkeeps', ?_⟩
        rintro seed' ⟨⟩
        exact hread.stored seed rfl

/-! ## What is written agrees -/

/-- A controller is clean after a request only if it was before. -/
theorem clean_serve_self {i : ι} {w : SeedWorld ι} {request : SeedRequest} {how : Serving}
    (h : (serve i w request how).1.clean i = true) : w.clean i = true := by
  cases request with
  | writeConfigSeed seed => cases how <;> simp_all [serve]
  | api r =>
    cases how with
    | served => simpa [serve] using h
    | refused status => simp [serve] at h
    | lost applied => simp [serve] at h

/-- The Secret stays, and a controller that failed once stays so until it sets out again. -/
theorem SafeTask.moved {α : Type} {i : ι} {P : SeedWorld ι → α → Prop} {w : SeedWorld ι} {t : SeedTask α}
    (h : SafeTask i P w t) :
    SafeTask i (fun w' a => P w' a ∧ w.Keeps w' ∧ (w'.clean i = true → w.clean i = true)) w t := by
  induction t generalizing w with
  | done a => exact ⟨h, Keeps.refl w, fun hclean => hclean⟩
  | ask q resume ih =>
    intro v hv
    refine ⟨(h v hv).1, fun how => ?_⟩
    refine (ih _ ((h v hv).2 how)).weaken (fun _ _ h => h) fun w' a ⟨ha, hkeeps, hclean⟩ =>
      ⟨ha, (hv.1.trans (keeps_serve i v q how)).trans hkeeps, fun hclean' => ?_⟩
    rw [← hv.2]
    exact clean_serve_self (hclean hclean')

/-- The write of a seed the Secret holds, and whether it went through. -/
theorem safe_writeConfigSeed {i : ι} {w : SeedWorld ι} {seed : UInt64} (h : w.stored = some seed) :
    SafeTask i (fun w' ok => w'.stored = some seed ∧ (w'.clean i = true → ok = true)) w (writeConfigSeed seed) := by
  intro v hv
  have hstored := hv.1.stored h
  refine ⟨?_, fun how => ?_⟩
  · rintro seed' ⟨⟩
    exact hstored
  · cases how with
    | served => exact ⟨hstored, fun _ => rfl⟩
    | refused status => exact ⟨hstored, fun hclean => by simp [serve] at hclean⟩
    | lost applied => exact ⟨hstored, fun hclean => by simp [serve] at hclean⟩

/-- A controller starts with what the Secret holds. -/
theorem safe_startSeed (i : ι) (w : SeedWorld ι) (candidate : UInt64) :
    SafeTask i (fun w' r => ∀ seed, r = some seed → w'.stored = some seed) w (startSeed ns candidate) := by
  refine Async.Safe.bind ((safe_createOrRead i w candidate).weaken (fun _ _ h => h) fun w' r hcreated => ?_)
  cases r with
  | error e => exact fun seed h => nomatch h
  | ok seed =>
    refine Async.Safe.bind ((safe_writeConfigSeed (hcreated.stored seed rfl)).weaken (fun _ _ h => h)
      fun w'' ok hwritten => ?_)
    cases ok with
    | true =>
      rintro seed' ⟨⟩
      exact hwritten.1
    | false => exact fun seed h => nomatch h

/-- To follow the Secret is to end with its seed, or with the old one where the write failed. -/
theorem safe_followSeed {i : ι} {w : SeedWorld ι} {current seed : UInt64} (h : w.stored = some seed) :
    SafeTask i (fun w' r => r = some seed ∨ r = some current ∧ w'.clean i = false) w
      (some <$> followSeed current (seedAction current (.stored seed))) := by
  unfold seedAction
  by_cases hsame : seed = current
  · simp only [hsame, if_true]
    exact Or.inl rfl
  · simp only [hsame, if_false]
    show SafeTask i _ w (some <$> (writeConfigSeed seed >>= fun ok => pure (if ok then seed else current)))
    rw [map_bind]
    refine Async.Safe.bind ((safe_writeConfigSeed h).weaken (fun _ _ h => h) fun w' ok hwritten => ?_)
    cases ok with
    | true => exact Or.inl rfl
    | false => exact Or.inr ⟨rfl, Bool.eq_false_iff.mpr fun hclean => nomatch hwritten.2 hclean⟩

/-- **A pass.** If the Secret held a seed when it set out, it ends with that seed, provided that the controller had it
    already or that all its requests were served. -/
theorem safe_seedTick (i : ι) (w : SeedWorld ι) (current : UInt64) :
    SafeTask i (fun w' r => ∀ seed, w.stored = some seed → current = seed ∨ w'.clean i = true → r = some seed) w
      (some <$> seedTick ns current) := by
  unfold seedTick
  rw [map_bind]
  refine Async.Safe.bind ((safe_readSeed i w).weaken (fun _ _ h => h) fun w' observed hread => ?_)
  match observed with
  | .error e =>
    rintro seed hseed (rfl | hclean)
    · rfl
    · exact nomatch hread.clean hclean seed hseed
  | .ok (.stored stored) =>
    have hstored := hread.stored stored rfl
    have hne : seedAction current (.stored stored) ≠ .recreate := by
      simp only [seedAction]
      split <;> exact fun h => nomatch h
    dsimp only
    rw [if_neg hne]
    refine (safe_followSeed hstored).weaken (fun _ _ h => h) fun w'' r hr => ?_
    intro seed hseed hwhen
    obtain rfl : stored = seed := Option.some_inj.mp (hstored.symm.trans (hread.keeps.stored hseed))
    rcases hr with rfl | ⟨rfl, hfailed⟩
    · rfl
    · rcases hwhen with rfl | hclean
      · rfl
      · rw [hfailed] at hclean
        cases hclean
  | .ok .absent =>
    show SafeTask i _ w' (some <$> (createOrRead ns current >>= _))
    rw [map_bind]
    refine Async.Safe.bind ((safe_createOrRead i w' current).moved.weaken (fun _ _ h => h)
      fun w'' r ⟨hcreated, _, hcleaned⟩ => ?_)
    -- a clean read would have found the seed
    have hdirty : ∀ seed, w.stored = some seed → w'.clean i = true → False :=
      fun seed hseed hclean => by cases hread.clean hclean seed hseed
    cases r with
    | error e =>
      rintro seed hseed (rfl | hclean)
      · rfl
      · exact (hdirty seed hseed (hcleaned hclean)).elim
    | ok stored =>
      have hstored := hcreated.stored stored rfl
      refine (safe_followSeed hstored).moved.weaken (fun _ _ h => h) fun v r ⟨hr, _, hcleaned'⟩ => ?_
      rintro seed hseed (rfl | hclean)
      · obtain rfl : stored = current := Option.some_inj.mp
          (hstored.symm.trans ((hread.keeps.trans hcreated.keeps).stored hseed))
        rcases hr with rfl | ⟨rfl, -⟩ <;> rfl
      · exact (hdirty seed hseed (hcleaned (hcleaned' hclean))).elim

/-! ## The cluster, step by step -/

/-- The controller an event is about. -/
def SeedEvent.controller : SeedEvent ι → Option ι
  | .start i _ | .tick i | .serve i _ => some i
  | .operator _ => none

/-- An event with which a pass of controller `i` goes well. -/
def SeedEvent.GoesWell (i : ι) : SeedEvent ι → Prop
  | .start j _ => j ≠ i
  | .tick _ => True
  | .serve j how => j = i → how = .served
  | .operator _ => False

namespace SeedCluster

variable {c : SeedCluster ι} {i : ι}

/-- A step of another controller, seen from controller `i`. -/
structure Untouched (i : ι) (c c' : SeedCluster ι) : Prop where
  tasks : c'.pool.tasks i = c.pool.tasks i
  setOut : c'.setOut i = c.setOut i
  config : c'.pool.state.config i = c.pool.state.config i
  rely : Rely i c.pool.state c'.pool.state

/-- A controller writes its own `CONFIG` only. -/
theorem config_serve_of_ne {i j : ι} (h : j ≠ i) (w : SeedWorld ι) (request : SeedRequest) (how : Serving) :
    (serve i w request how).1.config j = w.config j := by
  cases request with
  | writeConfigSeed seed => cases how <;> simp [serve, h]
  | api r =>
    cases how with
    | served =>
      simp only [serve, SeedWorld.respond]
      split <;> rfl
    | refused status => rfl
    | lost applied =>
      simp only [serve, SeedWorld.respond]
      cases applied
      · rfl
      · simp only [if_true]
        split <;> rfl

omit [DecidableEq ι] in
/-- Nothing happened. -/
theorem untouched_refl (i : ι) (c : SeedCluster ι) : Untouched i c c := ⟨rfl, rfl, rfl, Keeps.refl _, rfl⟩

/-- Another controller sets out. -/
theorem untouched_launch {j : ι} (hij : i ≠ j) (carried : Option UInt64) (task : SeedTask (Option UInt64)) :
    Untouched i c (c.launch j carried task) :=
  ⟨Function.update_of_ne hij _ _, Function.update_of_ne hij _ _, rfl, Keeps.refl _, Function.update_of_ne hij _ _⟩

/-- An event about another controller. -/
theorem untouched_step {e : SeedEvent ι} {j : ι} (he : e.controller = some j) (hij : i ≠ j) :
    Untouched i c (c.step ns e) := by
  cases e with
  | operator secret => cases he
  | start j' candidate =>
    obtain rfl := Option.some_inj.mp he
    exact untouched_launch hij _ _
  | tick j' =>
    obtain rfl := Option.some_inj.mp he
    unfold step
    dsimp only
    split
    · exact untouched_launch hij _ _
    · exact untouched_refl i c
  | serve j' how =>
    obtain rfl := Option.some_inj.mp he
    show Untouched i c { c with pool := c.pool.serve serve j' how }
    refine ⟨Function.update_of_ne hij _ _, rfl, ?_, ?_⟩
    · show ((c.pool.tasks j').step (serve j') c.pool.state how).1.config i = _
      cases c.pool.tasks j' with
      | done r => rfl
      | ask q resume => exact config_serve_of_ne hij _ _ _
    · show Rely i c.pool.state ((c.pool.tasks j').step (serve j') c.pool.state how).1
      cases c.pool.tasks j' with
      | done r => exact ⟨Keeps.refl _, rfl⟩
      | ask q resume => exact ⟨keeps_serve _ _ _ _, clean_serve_of_ne hij _ _ _⟩

omit [DecidableEq ι] in
/-- What it carries is where it was. -/
theorem Untouched.current {c' : SeedCluster ι} (h : Untouched i c c') : c'.current i = c.current i := by
  unfold SeedCluster.current
  rw [h.tasks, h.setOut]

/-- An event, seen from controller `i`. -/
inductive Seen (ns : String) (i : ι) (c : SeedCluster ι) : SeedEvent ι → SeedCluster ι → Prop
  | operator (secret : Option Value) : Seen ns i c (.operator secret) (c.step ns (.operator secret))
  | other {e : SeedEvent ι} {c' : SeedCluster ι} (h : Untouched i c c') : Seen ns i c e c'
  | start (candidate : UInt64) : Seen ns i c (.start i candidate) (c.launch i none (startSeed ns candidate))
  | tick {current : UInt64} (hdone : c.pool.tasks i = .done (some current)) :
      Seen ns i c (.tick i) (c.launch i (some current) (some <$> seedTick ns current))
  | serve {q : SeedRequest} {resume : SeedAnswer → SeedTask (Option UInt64)} {how : Serving} {c' : SeedCluster ι}
      (hwait : c.pool.tasks i = .ask q resume) (hstate : c'.pool.state = (SeedWorld.serve i c.pool.state q how).1)
      (htask : c'.pool.tasks i = resume (SeedWorld.serve i c.pool.state q how).2) (hsetOut : c'.setOut = c.setOut) :
      Seen ns i c (.serve i how) c'

/-- **What an event is to a controller.** -/
theorem seen_step (ns : String) (i : ι) (c : SeedCluster ι) (e : SeedEvent ι) : Seen ns i c e (c.step ns e) := by
  by_cases hother : ∃ j, e.controller = some j ∧ i ≠ j
  · obtain ⟨j, he, hij⟩ := hother
    exact .other (untouched_step he hij)
  have hself : ∀ j, e.controller = some j → j = i := fun j he => by
    by_contra hne
    exact hother ⟨j, he, fun heq => hne heq.symm⟩
  cases e with
  | operator secret => exact .operator secret
  | start j candidate =>
    obtain rfl := hself j rfl
    exact .start candidate
  | tick j =>
    obtain rfl := hself j rfl
    unfold step
    dsimp only
    split
    · rename_i current hdone
      exact .tick hdone
    · exact .other (untouched_refl j c)
  | serve j how =>
    obtain rfl := hself j rfl
    show Seen ns j c _ { c with pool := { state := _, tasks := Function.update c.pool.tasks j _ } }
    cases hwait : c.pool.tasks j with
    | done r =>
      refine .other ?_
      show Untouched j c { c with
        pool := { state := c.pool.state, tasks := Function.update c.pool.tasks j (.done r) } }
      rw [← hwait, Function.update_eq_self]
      exact untouched_refl j c
    | ask q resume => exact .serve hwait rfl (Function.update_self _ _ _) rfl

omit [DecidableEq ι] in
/-- Between passes it carries what the last one ended with. -/
theorem current_of_done {r : Option UInt64} (h : c.pool.tasks i = .done r) : c.current i = r := by
  unfold SeedCluster.current
  rw [h]

omit [DecidableEq ι] in
/-- On a pass it carries what it set out with. -/
theorem current_of_waiting (h : (c.pool.tasks i).Waiting) : c.current i = c.setOut i := by
  unfold SeedCluster.current
  cases ht : c.pool.tasks i with
  | done r => exact (ht ▸ h : (Async.done r : SeedTask _).Waiting).elim
  | ask q resume => rfl

/-! ## What the loop carries is what `CONFIG` holds -/

/-- Controller `i` carries what its `CONFIG` holds. -/
structure Carrying (c : SeedCluster ι) (i : ι) : Prop where
  carries : (c.pool.tasks i).Waiting → SeedCarries (c.setOut i) (c.pool.tasks i)
  config : ∀ seed, c.current i = some seed → c.pool.state.config i = seed

/-- A task that sets out, with what is carried in `CONFIG`. -/
theorem Carrying.of_launch {carried : Option UInt64} {task : SeedTask (Option UInt64)} (htask : SeedCarries carried task)
    (hconfig : ∀ seed, carried = some seed → c.pool.state.config i = seed) : (c.launch i carried task).Carrying i := by
  have htasks : (c.launch i carried task).pool.tasks i = task := Function.update_self _ _ _
  have hsetOut : (c.launch i carried task).setOut i = carried := Function.update_self _ _ _
  refine ⟨fun _ => ?_, fun seed hseed => hconfig seed ?_⟩
  · rw [htasks, hsetOut]
    exact htask
  · cases task with
    | done r =>
      rw [current_of_done htasks] at hseed
      exact htask ▸ hseed
    | ask q resume =>
      rw [current_of_waiting (by rw [htasks]; trivial), hsetOut] at hseed
      exact hseed

/-- The API server writes no `CONFIG`. -/
theorem config_serve_api (w : SeedWorld ι) (r : ApiRequest) (how : Serving) :
    (serve i w (.api r) how).1.config = w.config := by
  have hrespond : (w.respond r).1.config = w.config := by
    unfold SeedWorld.respond
    split <;> rfl
  cases how with
  | served => exact hrespond
  | refused status => rfl
  | lost applied =>
    cases applied with
    | true => exact hrespond
    | false => rfl

/-- Each event keeps it: the only write of a task is its last request, and its result is what was written. -/
theorem Carrying.step (h : c.Carrying i) (e : SeedEvent ι) : (c.step ns e).Carrying i := by
  have hseen := seen_step ns i c e
  generalize c.step ns e = c' at hseen ⊢
  cases hseen with
  | operator secret => exact ⟨h.carries, h.config⟩
  | other hun =>
    refine ⟨fun hwait => ?_, fun seed hseed => ?_⟩
    · rw [hun.tasks] at hwait ⊢
      rw [hun.setOut]
      exact h.carries hwait
    · rw [hun.config]
      exact h.config seed (hun.current ▸ hseed)
  | start candidate => exact .of_launch (carries_startSeed candidate) fun seed hseed => nomatch hseed
  | tick hdone => exact .of_launch (carries_seedTick _) fun seed hseed => h.config seed (current_of_done hdone ▸ hseed)
  | @serve q resume how _ hwait hstate htask hsetOut =>
    have hcarries := h.carries (by rw [hwait]; trivial)
    have hconfig := h.config
    rw [current_of_waiting (by rw [hwait]; trivial), ← hsetOut] at hconfig
    rw [hwait, ← hsetOut] at hcarries
    -- where the task still carries what it did and `CONFIG` is as it was
    have hkept : SeedCarries (c'.setOut i) (c'.pool.tasks i) → c'.pool.state.config i = c.pool.state.config i →
        c'.Carrying i := by
      intro hcarries' hconfig'
      refine ⟨fun _ => hcarries', fun seed hseed => ?_⟩
      rw [hconfig']
      refine hconfig seed ?_
      cases ht : c'.pool.tasks i with
      | done r =>
        rw [ht] at hcarries'
        rw [current_of_done ht] at hseed
        exact hcarries' ▸ hseed
      | ask q' resume' =>
        rw [current_of_waiting (by rw [ht]; trivial)] at hseed
        exact hseed
    cases q with
    | api r =>
      refine hkept ?_ (by rw [hstate, config_serve_api])
      rw [htask]
      cases how <;> exact hcarries _
    | writeConfigSeed seed =>
      cases how with
      | served =>
        have hdone : c'.pool.tasks i = .done (some seed) := htask.trans hcarries.1
        refine ⟨fun hwait' => ?_, fun seed' hseed' => ?_⟩
        · rw [hdone] at hwait'
          exact hwait'.elim
        · rw [current_of_done hdone] at hseed'
          obtain rfl := Option.some_inj.mp hseed'
          rw [hstate]
          exact Function.update_self _ _ _
      | refused status =>
        refine hkept ?_ (by rw [hstate]; rfl)
        rw [htask.trans hcarries.2]
        rfl
      | lost applied =>
        refine hkept ?_ (by rw [hstate]; rfl)
        rw [htask.trans hcarries.2]
        rfl

/-! ## What a controller carries is what the Secret holds -/

/-- Controller `i` carries what the Secret holds, and asks only for what keeps it so. -/
structure Agreeing (c : SeedCluster ι) (i : ι) : Prop where
  safe : (c.pool.tasks i).Waiting →
    SafeTask i (fun w r => ∀ seed, r = some seed → w.stored = some seed) c.pool.state (c.pool.tasks i)
  current : ∀ seed, c.current i = some seed → c.stored = some seed

/-- What is safe from a world is safe after anything the others do. -/
theorem safeTask_waits {α : Type} {P : SeedWorld ι → α → Prop} {w w' : SeedWorld ι} {t : SeedTask α}
    (h : SafeTask i P w t) (ht : t.Waiting) (hrely : Rely i w w') : SafeTask i P w' t :=
  Async.Safe.waits (fun _ _ _ hab hbc => ⟨hab.1.trans hbc.1, hbc.2.trans hab.2⟩) ht h hrely

/-- A task that is safe and whose request is served: it is safe again, and its result is what it should be. -/
theorem safeTask_served {α : Type} {P : SeedWorld ι → α → Prop} {w : SeedWorld ι} {q : SeedRequest}
    {resume : SeedAnswer → SeedTask α} (h : SafeTask i P w (.ask q resume)) (how : Serving) :
    WritesStored w q ∧ SafeTask i P (serve i w q how).1 (resume (serve i w q how).2) :=
  have hnow := h w ⟨Keeps.refl w, rfl⟩
  ⟨hnow.1, hnow.2 how⟩

/-- A task that is safe from here, with what is carried in the Secret. -/
theorem Agreeing.of_launch {carried : Option UInt64} {task : SeedTask (Option UInt64)}
    (htask : SafeTask i (fun w r => ∀ seed, r = some seed → w.stored = some seed)
      (c.launch i carried task).pool.state task)
    (hcarried : ∀ seed, carried = some seed → c.stored = some seed) : (c.launch i carried task).Agreeing i := by
  have htasks : (c.launch i carried task).pool.tasks i = task := Function.update_self _ _ _
  have hsetOut : (c.launch i carried task).setOut i = carried := Function.update_self _ _ _
  refine ⟨fun _ => ?_, fun seed hseed => ?_⟩
  · rw [htasks]
    exact htask
  cases task with
  | done r =>
    rw [current_of_done htasks] at hseed
    exact htask seed hseed
  | ask q resume =>
    rw [current_of_waiting (by rw [htasks]; trivial), hsetOut] at hseed
    exact hcarried seed hseed

/-- Each event but an operator's keeps it. -/
theorem Agreeing.step (h : c.Agreeing i) {e : SeedEvent ι} (he : e.controller ≠ none) :
    (c.step ns e).Agreeing i := by
  have hseen := seen_step ns i c e
  generalize c.step ns e = c' at hseen ⊢
  cases hseen with
  | operator secret => exact absurd rfl he
  -- the others keep the Secret, and what is safe stays safe while it waits
  | other hun =>
    refine ⟨fun hwait => ?_, fun seed hseed => hun.rely.1.stored (h.current seed (hun.current ▸ hseed))⟩
    rw [hun.tasks] at hwait ⊢
    exact safeTask_waits (h.safe hwait) hwait hun.rely
  -- a fresh start carries nothing yet
  | start candidate => exact .of_launch (safe_startSeed i _ candidate) fun seed hseed => nomatch hseed
  | @tick current hdone =>
    have hstored := h.current current (current_of_done hdone)
    refine .of_launch ((safe_seedTick i _ current).moved.weaken (fun _ _ h => h) ?_) ?_
    · rintro w r ⟨hr, hkeeps, -⟩ seed rfl
      have hsame := hr current hstored (Or.inl rfl)
      rw [hsame]
      exact hkeeps.stored hstored
    · rintro seed ⟨⟩
      exact hstored
  | @serve q resume how _ hwait hstate htask hsetOut =>
    have hsafe := h.safe (by rw [hwait]; trivial)
    rw [hwait] at hsafe
    have hnow := (safeTask_served hsafe how).2
    rw [← hstate, ← htask] at hnow
    refine ⟨fun _ => hnow, fun seed hseed => ?_⟩
    cases ht : c'.pool.tasks i with
    | done r =>
      rw [current_of_done ht] at hseed
      rw [ht] at hnow
      exact hnow seed hseed
    | ask q' resume' =>
      rw [current_of_waiting (by rw [ht]; trivial), hsetOut] at hseed
      have hstored := h.current seed (by rw [current_of_waiting (by rw [hwait]; trivial)]; exact hseed)
      show c'.pool.state.stored = some seed
      rw [hstate]
      exact (keeps_serve i _ q how).stored hstored

/-- Controller `i` has settled on a seed: the Secret holds it, `CONFIG` holds it, and nothing else will be written. -/
structure Settled (seed : UInt64) (c : SeedCluster ι) (i : ι) : Prop where
  stored : c.stored = some seed
  agreeing : c.Agreeing i
  config : c.pool.state.config i = seed

/-- Only an operator takes a seed out of the Secret. -/
theorem stored_step {e : SeedEvent ι} (he : e.controller ≠ none) {seed : UInt64} (h : c.stored = some seed) :
    (c.step ns e).stored = some seed := by
  cases e with
  | operator secret => exact absurd rfl he
  | start j candidate => exact h
  | tick j =>
    unfold step
    dsimp only
    split <;> exact h
  | serve j how =>
    show ((c.pool.tasks j).step (serve j) c.pool.state how).1.stored = some seed
    cases c.pool.tasks j with
    | done r => exact h
    | ask q resume => exact (keeps_serve j _ q how).stored h

/-- Each event but an operator's keeps it: what is written is what the Secret holds, so it is the seed. -/
theorem Settled.step {seed : UInt64} (h : Settled seed c i) {e : SeedEvent ι} (he : e.controller ≠ none) :
    Settled seed (c.step ns e) i := by
  refine ⟨stored_step he h.stored, h.agreeing.step he, ?_⟩
  have hseen := seen_step ns i c e
  generalize c.step ns e = c' at hseen ⊢
  cases hseen with
  | operator secret => exact absurd rfl he
  | other hun => exact hun.config.trans h.config
  | start candidate => exact h.config
  | tick hdone => exact h.config
  | @serve q resume how _ hwait hstate htask hsetOut =>
    have hsafe := h.agreeing.safe (by rw [hwait]; trivial)
    rw [hwait] at hsafe
    rw [hstate]
    cases q with
    | api r => rw [config_serve_api]; exact h.config
    | writeConfigSeed seed' =>
      have hwrites := (safeTask_served hsafe how).1 seed' rfl
      obtain rfl : seed = seed' := Option.some_inj.mp (h.stored.symm.trans hwrites)
      cases how with
      | served => exact Function.update_self _ _ _
      | refused status => exact h.config
      | lost applied => exact h.config

/-! ## A pass that goes well -/

/-- Controller `i` is on a pass on which all its requests were served, and the Secret holds a seed. -/
structure Passing (seed : UInt64) (c : SeedCluster ι) (i : ι) : Prop where
  stored : c.stored = some seed
  clean : c.pool.state.clean i = true
  safe : SafeTask i (fun w r => w.clean i = true → r = some seed) c.pool.state (c.pool.tasks i)

/-- A pass that sets out while the Secret holds a seed. -/
theorem Passing.of_tick {seed current : UInt64} (hstored : c.stored = some seed) :
    Passing seed (c.launch i (some current) (some <$> seedTick ns current)) i := by
  refine ⟨hstored, Function.update_self _ _ _, ?_⟩
  have htask : (c.launch i (some current) (some <$> seedTick ns current)).pool.tasks i = some <$> seedTick ns current :=
    Function.update_self _ _ _
  rw [htask]
  exact (safe_seedTick i _ current).weaken (fun _ _ h => h) fun w r hr hclean => hr seed hstored (Or.inr hclean)

/-- A pass that went well has settled the controller. -/
theorem Passing.settled {seed : UInt64} (h : Passing seed c i) (hcarrying : c.Carrying i)
    (hdone : ¬ (c.pool.tasks i).Waiting) : Settled seed c i := by
  cases ht : c.pool.tasks i with
  | ask q resume => exact absurd (by rw [ht]; trivial) hdone
  | done r =>
    have hsafe := h.safe
    rw [ht] at hsafe
    obtain rfl : r = some seed := hsafe h.clean
    refine ⟨h.stored, ⟨fun hwait => absurd hwait hdone, fun seed' hseed' => ?_⟩, ?_⟩
    · rw [current_of_done ht] at hseed'
      exact hseed' ▸ h.stored
    · exact hcarrying.config seed (current_of_done ht)

/-- A pass goes well as long as each of its requests is served. -/
theorem Passing.step {seed : UInt64} (h : Passing seed c i) {e : SeedEvent ι} (he : e.GoesWell i)
    (hwait : (c.pool.tasks i).Waiting) : Passing seed (c.step ns e) i := by
  have hop : e.controller ≠ none := by
    cases e with
    | operator secret => exact he.elim
    | _ => exact fun h => nomatch h
  have hstored : (c.step ns e).stored = some seed := stored_step hop h.stored
  have hseen := seen_step ns i c e
  generalize c.step ns e = c' at hseen hstored ⊢
  cases hseen with
  | operator secret => exact he.elim
  | other hun =>
    refine ⟨hstored, hun.rely.2.trans h.clean, ?_⟩
    rw [hun.tasks]
    exact safeTask_waits h.safe hwait hun.rely
  | start candidate => exact absurd rfl he
  -- no pass sets out while one is on
  | tick hdone =>
    rw [hdone] at hwait
    exact hwait.elim
  | @serve q resume how _ hask hstate htask hsetOut =>
    obtain rfl : how = .served := he rfl
    have hsafe := h.safe
    rw [hask] at hsafe
    have hnow := (safeTask_served hsafe .served).2
    rw [← hstate, ← htask] at hnow
    refine ⟨hstored, ?_, hnow⟩
    rw [hstate]
    cases q with
    | api r => simpa [serve] using h.clean
    | writeConfigSeed seed' => exact h.clean

/-- A controller that set out on a pass that goes well is on it or has settled. -/
theorem passing_or_settled {seed : UInt64} {es : List (SeedEvent ι)} (hes : ∀ e ∈ es, e.GoesWell i)
    (hcarrying : c.Carrying i) (h : Passing seed c i ∨ Settled seed c i) :
    Passing seed (es.foldl (step ns) c) i ∨ Settled seed (es.foldl (step ns) c) i := by
  induction es generalizing c with
  | nil => exact h
  | cons e es ih =>
    have he := hes e List.mem_cons_self
    have hop : e.controller ≠ none := by
      cases e with
      | operator secret => exact he.elim
      | _ => exact fun h => nomatch h
    refine ih (fun e' he' => hes e' (List.mem_cons_of_mem e he')) (hcarrying.step e) ?_
    rcases h with hpassing | hsettled
    · by_cases hwait : (c.pool.tasks i).Waiting
      · exact Or.inl (hpassing.step he hwait)
      · exact Or.inr ((hpassing.settled hcarrying hwait).step hop)
    · exact Or.inr (hsettled.step hop)

/-! ## Runs -/

/-- By induction on the events, whatever they are. -/
theorem Carrying.run (h : c.Carrying i) (es : List (SeedEvent ι)) : (es.foldl (SeedCluster.step ns) c).Carrying i :=
  List.foldlRecOn es (SeedCluster.step ns) (motive := fun c => c.Carrying i) h fun _ h e _ => h.step e

/-- By induction on the events, none of them an operator's. -/
theorem Agreeing.run (h : c.Agreeing i) {es : List (SeedEvent ι)} (hes : ∀ e ∈ es, e.controller ≠ none) :
    (es.foldl (SeedCluster.step ns) c).Agreeing i :=
  List.foldlRecOn es (SeedCluster.step ns) (motive := fun c => c.Agreeing i) h fun _ h e he => h.step (hes e he)

/-- By induction on the events, none of them an operator's. -/
theorem Settled.run {seed : UInt64} (h : Settled seed c i) {es : List (SeedEvent ι)}
    (hes : ∀ e ∈ es, e.controller ≠ none) : Settled seed (es.foldl (SeedCluster.step ns) c) i :=
  List.foldlRecOn es (SeedCluster.step ns) (motive := fun c => Settled seed c i) h fun _ h e he => h.step (hes e he)

omit [DecidableEq ι] in
/-- No controller has set out. -/
theorem carrying_initial (secret : Option Value) (config : ι → UInt64) (i : ι) : (initial secret config).Carrying i :=
  ⟨fun h => h.elim, fun _ h => nomatch h⟩

/-- No controller has set out. -/
theorem agreeing_initial (secret : Option Value) (config : ι → UInt64) (i : ι) : (initial secret config).Agreeing i :=
  ⟨fun h => h.elim, fun _ h => nomatch h⟩

/-- In the course of a run, controller `i` sets out on a pass while the Secret holds a seed, all its requests on it are
    served, it ends, and from then on no operator touches the Secret. -/
def CompletesPass (ns : String) (c : SeedCluster ι) (es : List (SeedEvent ι)) (i : ι) : Prop :=
  ∃ before during after, es = before ++ .tick i :: (during ++ after) ∧
    (before.foldl (step ns) c).stored ≠ none ∧
    (∃ current, (before.foldl (step ns) c).pool.tasks i = .done (some current)) ∧
    (∀ e ∈ during, e.GoesWell i) ∧
    ¬ (((before ++ .tick i :: during).foldl (step ns) c).pool.tasks i).Waiting ∧
    ∀ e ∈ after, e.controller ≠ none

/-- **All controllers converge on one seed.** `CONFIG` always holds what the loop carries; without an operator every
    controller that runs carries what the Secret holds; and once a controller has completed a pass that set out when the
    Secret was there to stay, its `CONFIG` holds what the Secret holds. -/
theorem seeds_converge (ns : String) (secret : Option Value) (config : ι → UInt64) (es : List (SeedEvent ι)) :
    let c := es.foldl (step ns) (initial secret config)
    (∀ i seed, c.current i = some seed → c.pool.state.config i = seed) ∧
    ((∀ e ∈ es, e.controller ≠ none) → ∀ i seed, c.current i = some seed → c.stored = some seed) ∧
    ∀ i, CompletesPass ns (initial secret config) es i → c.stored = some (c.pool.state.config i) := by
  refine ⟨fun i => ((carrying_initial secret config i).run es).config,
    fun hop i => ((agreeing_initial secret config i).run hop).current, fun i hpass => ?_⟩
  obtain ⟨before, during, after, rfl, hstored, ⟨current, hdone⟩, hwell, hended, hop⟩ := hpass
  obtain ⟨seed, hseed⟩ := Option.ne_none_iff_exists'.mp hstored
  have hcarrying : ((before.foldl (step ns) (initial secret config)).step ns (.tick i)).Carrying i :=
    ((carrying_initial secret config i).run before).step (.tick i)
  rw [List.foldl_append, List.foldl_cons] at hended
  rw [List.foldl_append, List.foldl_cons, List.foldl_append]
  generalize before.foldl (step ns) (initial secret config) = c at hseed hdone hcarrying hended ⊢
  have hpassing : Passing seed (c.step ns (.tick i)) i := by
    unfold SeedCluster.step
    dsimp only
    rw [hdone]
    exact .of_tick hseed
  -- the pass has ended, so the controller has settled; and it stays so
  have hsettled : Settled seed (during.foldl (step ns) (c.step ns (.tick i))) i := by
    rcases passing_or_settled hwell hcarrying (Or.inl hpassing) with h | h
    · exact h.settled (hcarrying.run during) hended
    · exact h
  have hfinal : Settled seed (after.foldl (step ns) (during.foldl (step ns) (c.step ns (.tick i)))) i :=
    hsettled.run hop
  rw [hfinal.config]
  exact hfinal.stored

/-! ## An edited Secret -/

/-- The Secret as an operator leaves it. -/
def editedSecret : Value := admitSecret (secretBody "beep" 9)

/-- Two controllers start with seeds of their own and run with one of them; then the Secret is edited. -/
def untilEdited : List (SeedEvent Bool) :=
  [.start true 7, .start false 8, .serve true .served, .serve false .served, .serve true .served,
    .serve false .served, .serve false .served, .operator (some editedSecret)]

/-- A pass of the first controller, while the second one sets out on one too and loses its request. -/
def editedPass : List (SeedEvent Bool) :=
  [.tick false, .serve true .served, .serve false (.lost true), .serve true .served]

/-- All that happens. -/
def editedRun : List (SeedEvent Bool) := untilEdited ++ .tick true :: (editedPass ++ [])

/-- The first controller's pass in that run: the second one is on its way the whole time, and never gets its answer. -/
theorem completesPass_edited : CompletesPass "beep" (initial none fun _ => 0) editedRun true := by
  refine ⟨untilEdited, editedPass, [], rfl, ?_, ⟨7, rfl⟩, ?_, ?_, ?_⟩
  · decide +kernel
  · simp [editedPass, SeedEvent.GoesWell]
  · show ¬ Async.Waiting (.done (some 9) : SeedTask (Option UInt64))
    exact id
  · intro e he
    cases he

/-- The theorem at that run: the first controller has adopted the seed of the edited Secret. -/
theorem seeds_converge_edited :
    (editedRun.foldl (step "beep") (initial none fun _ => 0)).stored =
      some ((editedRun.foldl (step "beep") (initial none fun _ => 0)).pool.state.config true) :=
  (seeds_converge "beep" none (fun _ => 0) editedRun).2.2 true completesPass_edited

end SeedCluster

end Beep
