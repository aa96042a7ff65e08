import Beep.Controller.Lease
import Beep.Lib.Run
import Mathlib.Data.Set.BooleanAlgebra
import Mathlib.Data.Set.Disjoint
import Mathlib.Order.CompletePartialOrder

/-!
# `Controller.Correctness.IngressWriters` — many writers of one ingress list

Any number of nodes publish to the list of one Service, at most one update of a node at a time, and any number of passes
prune it. A patch is accepted only while the version it carries is the object's, so the list it replaces is the one it
was computed from (`safe_update`): every change of the list is one update applied to the list as it is
(`step_ingress`). What an update keeps, the list keeps.
-/

namespace Beep

open Json (Value)

/-- An update of a list: a node publishes some of its addresses, or a pass prunes it. -/
inductive IngressUpdate where
  | publish (ownIps desiredIps : List IpAddr)
  | prune (leases : Table String ObservedLease) (now : Instant) (suspects : PruneSuspects)

namespace IngressUpdate

/-- The task of the update. -/
def task (ns name : String) : IngressUpdate → ApiTask (Except UpdateError Unit)
  | publish ownIps desiredIps => ensureNodeIngress ns name ownIps desiredIps
  | prune leases now suspects =>
      Prod.fst <$> updateIngress ns name (fun existing s => confirmedPrunedIngress existing leases now s) suspects

/-- The update makes a list of another one, or finds nothing to correct. Of the suspects only the ones of the pass before
    count. -/
def Computes (old : List Value) (new : Option (List Value)) : IngressUpdate → Prop
  | publish ownIps desiredIps => mergedIngress old ownIps desiredIps = new
  | prune leases now suspects => ∃ s : PruneSuspects, s.previous = suspects.previous ∧
      (confirmedPrunedIngress old leases now s).1 = new

/-- The request, if it is a patch that would be accepted now, applies the update to the list. -/
def Applies (u : IngressUpdate) (r : IngressRegister) (request : ApiRequest) : Prop :=
  ∀ patch, request.method = .patch → request.body = some patch → resourceVersion patch = some (toString r.version) →
    u.Computes r.ingress (some (ingressOf patch))

/-- An update that succeeded found nothing to correct or made the list. -/
def Succeeded (u : IngressUpdate) (r : IngressRegister) (result : Except UpdateError Unit) : Prop :=
  result = .ok () → u.Computes r.ingress none ∨ ∃ old, u.Computes old (some r.ingress)

/-- What a task of the update is relied on for. -/
def Safe (u : IngressUpdate) (r : IngressRegister) (t : ApiTask (Except UpdateError Unit)) : Prop :=
  t.Safe IngressRegister.serve IngressRegister.Moves u.Applies u.Succeeded r

theorem safe_task (ns name : String) (u : IngressUpdate) (r : IngressRegister) : u.Safe r (u.task ns name) := by
  cases u with
  | publish ownIps desiredIps =>
    refine Async.Safe.map ((IngressRegister.safe_updateAttempts _ (fun _ => True) (fun _ _ _ => trivial) _
      trivial r).weaken ?_ ?_)
    · intro r request happlies patch hmethod hbody hversion
      obtain ⟨_, -, hcompute⟩ := happlies patch hmethod hbody hversion
      exact hcompute
    · rintro r result ⟨-, hresult⟩ hok
      rcases hresult hok with ⟨_, -, hcompute⟩ | ⟨old, _, -, hcompute⟩
      · exact Or.inl (Prod.mk.inj hcompute).1
      · exact Or.inr ⟨old, (Prod.mk.inj hcompute).1⟩
  | prune leases now suspects =>
    refine Async.Safe.map ((IngressRegister.safe_updateAttempts _
      (fun s : PruneSuspects => s.previous = suspects.previous) (fun _ _ h => h) _ rfl r).weaken ?_ ?_)
    · intro r request happlies patch hmethod hbody hversion
      exact happlies patch hmethod hbody hversion
    · rintro r result ⟨-, hresult⟩ hok
      rcases hresult hok with ⟨s, hs, hcompute⟩ | ⟨old, s, hs, hcompute⟩
      · exact Or.inl ⟨s, hs, (Prod.mk.inj hcompute).1⟩
      · exact Or.inr ⟨old, s, hs, (Prod.mk.inj hcompute).1⟩

/-- A request that applies an update leaves the list alone or applies the update to it. -/
theorem Applies.serve {u : IngressUpdate} {r : IngressRegister} {request : ApiRequest} (h : u.Applies r request)
    (how : Serving) : (r.serve request how).1 = r ∨ u.Computes r.ingress (some (r.serve request how).1.ingress) := by
  rcases r.serve_cases request how with hsame | ⟨patch, hmethod, hbody, hversion, hset⟩
  · exact Or.inl hsame
  · rw [hset]
    exact Or.inr (h patch hmethod hbody hversion)

end IngressUpdate

/-! ## The writers -/

/-- Who is at work on the list: one update of a node at a time, and any number of passes. -/
inductive IngressSlot (N K : Type) where
  | publish (node : N)
  | prune (pass : K)
  deriving DecidableEq

/-- What happens: a node begins an update or a pass does, a request is served, or the object changes elsewhere. -/
inductive IngressEvent (N K : Type) where
  | publish (node : N) (ownIps desiredIps : List IpAddr)
  | prune (pass : K) (leases : Table String ObservedLease) (now : Instant) (suspects : PruneSuspects)
  | serve (slot : IngressSlot N K) (how : Serving)
  | touch

/-- The object, the tasks on it, and the update that each of them is the task of. -/
structure IngressBoard (N K : Type) where
  pool : Pool (IngressSlot N K) IngressRegister ApiRequest (Option ApiResponse) (Except UpdateError Unit)
  updates : IngressSlot N K → IngressUpdate

namespace IngressBoard

variable {N K : Type} [DecidableEq N] [DecidableEq K] {ns name : String} {b : IngressBoard N K}

/-- The list. -/
def ingress (b : IngressBoard N K) : List Value := b.pool.state.ingress

/-- An update begins, unless one is under way in its place. -/
def launch (ns name : String) (b : IngressBoard N K) (slot : IngressSlot N K) (u : IngressUpdate) : IngressBoard N K :=
  if (b.pool.tasks slot).Waiting then b
  else { pool := b.pool.start slot (u.task ns name), updates := Function.update b.updates slot u }

/-- The step. -/
def step (ns name : String) (b : IngressBoard N K) : IngressEvent N K → IngressBoard N K
  | .publish node ownIps desiredIps => b.launch ns name (.publish node) (.publish ownIps desiredIps)
  | .prune pass leases now suspects => b.launch ns name (.prune pass) (.prune leases now suspects)
  | .serve slot how => { b with pool := b.pool.serve (fun _ => IngressRegister.serve) slot how }
  | .touch =>
      { b with pool := { b.pool with state := { b.pool.state with version := b.pool.state.version + 1 } } }

/-- Nothing is under way. -/
def initial (r : IngressRegister) : IngressBoard N K where
  pool := { state := r, tasks := fun _ => .done (.ok ()) }
  updates _ := .publish [] []

/-- Every update under way is safe. -/
def AllSafe (b : IngressBoard N K) : Prop :=
  b.pool.AllSafe (fun _ => IngressRegister.serve) (fun _ => IngressRegister.Moves) (fun slot => (b.updates slot).Applies)
    fun slot => (b.updates slot).Succeeded

theorem AllSafe.launch (h : b.AllSafe) (slot : IngressSlot N K) (u : IngressUpdate) :
    (b.launch ns name slot u).AllSafe := by
  unfold IngressBoard.launch
  split
  · exact h
  · rename_i hidle
    refine Pool.allSafe_start hidle ?_ fun other hother hwait => ?_
    · simp only [Function.update_self]
      exact u.safe_task ns name _
    · simp only [Function.update_of_ne hother]
      exact h other hwait

theorem AllSafe.step (h : b.AllSafe) (e : IngressEvent N K) : (b.step ns name e).AllSafe := by
  cases e with
  | publish node ownIps desiredIps => exact h.launch _ _
  | prune pass leases now suspects => exact h.launch _ _
  | serve slot how =>
    exact Pool.AllSafe.serve h (fun _ => IngressRegister.Moves.refl) (fun _ _ _ _ => IngressRegister.Moves.trans)
      (fun _ _ _ _ _ _ _ => IngressRegister.moves_serve _ _ _) slot how
  | touch =>
    refine Pool.AllSafe.moves h (fun _ _ _ _ => IngressRegister.Moves.trans) fun _ => ⟨Nat.le_succ _, fun heq => ?_⟩
    exact absurd heq (Nat.succ_ne_self _)

omit [DecidableEq N] [DecidableEq K] in
theorem allSafe_initial (r : IngressRegister) : (initial r : IngressBoard N K).AllSafe := fun _ h => h.elim

/-- A served slot with an update under way. -/
theorem step_serve {slot : IngressSlot N K} {q : ApiRequest}
    {resume : Option ApiResponse → ApiTask (Except UpdateError Unit)} (h : b.pool.tasks slot = .ask q resume)
    (how : Serving) : (b.step ns name (.serve slot how)).pool.state = (b.pool.state.serve q how).1 := by
  show ((b.pool.tasks slot).step _ b.pool.state how).1 = _
  rw [h]
  rfl

/-- Only a served update ends. -/
theorem eq_serve_of_ends {slot : IngressSlot N K} {e : IngressEvent N K} (hwait : (b.pool.tasks slot).Waiting)
    (hend : ¬ ((b.step ns name e).pool.tasks slot).Waiting) : ∃ how, e = .serve slot how := by
  have hlaunch : ∀ other u, ((b.launch ns name other u).pool.tasks slot).Waiting := by
    intro other u
    unfold launch
    split
    · exact hwait
    · rename_i hidle
      have hne : slot ≠ other := fun h => hidle (h ▸ hwait)
      simp only [Pool.start, hidle, if_false, Function.update_of_ne hne]
      exact hwait
  cases e with
  | publish node ownIps desiredIps => exact absurd (hlaunch _ _) hend
  | prune pass leases now suspects => exact absurd (hlaunch _ _) hend
  | touch => exact absurd hwait hend
  | serve other how =>
    by_cases h : slot = other
    · exact ⟨how, by rw [h]⟩
    · refine absurd ?_ hend
      show ((b.pool.serve (fun _ => IngressRegister.serve) other how).tasks slot).Waiting
      rw [Pool.tasks_serve_of_ne how h]
      exact hwait

/-- An update that is not under way is so until it is begun again. -/
theorem idle_step {node : N} {e : IngressEvent N K} (hidle : ¬ (b.pool.tasks (.publish node)).Waiting)
    (he : ∀ ownIps desiredIps, e ≠ .publish node ownIps desiredIps) :
    ¬ ((b.step ns name e).pool.tasks (.publish node)).Waiting := by
  have hlaunch : ∀ other u, IngressSlot.publish node ≠ other →
      ¬ ((b.launch ns name other u).pool.tasks (.publish node)).Waiting := by
    intro other u hne
    unfold launch
    split
    · exact hidle
    · rename_i hother
      simp only [Pool.start, hother, if_false, Function.update_of_ne hne]
      exact hidle
  cases e with
  | publish other ownIps desiredIps =>
    exact hlaunch _ _ fun h => he ownIps desiredIps (by rw [IngressSlot.publish.inj h])
  | prune pass leases now suspects => exact hlaunch _ _ (fun h => nomatch h)
  | touch => exact hidle
  | serve other how =>
    show ¬ ((b.pool.serve (fun _ => IngressRegister.serve) other how).tasks (.publish node)).Waiting
    by_cases h : IngressSlot.publish node = other
    · subst h
      rw [Pool.tasks_serve_self]
      cases ht : b.pool.tasks (.publish node) with
      | done result => exact id
      | ask q resume => exact absurd (by rw [ht]; trivial) hidle
    · rw [Pool.tasks_serve_of_ne how h]
      exact hidle

/-- **Every change of the list** is one update under way, applied to the list as it is. -/
theorem step_ingress (h : b.AllSafe) (e : IngressEvent N K) :
    (b.step ns name e).ingress = b.ingress ∨
      ∃ slot how, e = .serve slot how ∧ (b.pool.tasks slot).Waiting ∧
        (b.updates slot).Computes b.ingress (some (b.step ns name e).ingress) := by
  have hlaunch : ∀ slot u, (b.launch ns name slot u).ingress = b.ingress := by
    intro slot u
    unfold launch
    split
    · rfl
    · unfold ingress Pool.start
      split <;> rfl
  cases e with
  | publish node ownIps desiredIps => exact Or.inl (hlaunch _ _)
  | prune pass leases now suspects => exact Or.inl (hlaunch _ _)
  | touch => exact Or.inl rfl
  | serve slot how =>
    cases ht : b.pool.tasks slot with
    | done result =>
      refine Or.inl ?_
      show ((b.pool.tasks slot).step _ b.pool.state how).1.ingress = _
      rw [ht]
      rfl
    | ask q resume =>
      have hsafe := h slot (by rw [ht]; trivial)
      rw [ht] at hsafe
      have happlies : (b.updates slot).Applies b.pool.state q := hsafe.request_meets IngressRegister.Moves.refl
      unfold ingress
      rw [step_serve ht]
      rcases happlies.serve how with hsame | hcomputes
      · exact Or.inl (by rw [hsame])
      · exact Or.inr ⟨slot, how, rfl, by rw [ht]; trivial, hcomputes⟩

/-! ## Nodes with addresses of their own -/

variable {addresses : N → Set IpAddr}

/-- An update of a node is about addresses of the node. -/
def IsFor (addresses : N → Set IpAddr) : IngressSlot N K → IngressUpdate → Prop
  | .publish node, .publish ownIps desiredIps => (∀ ip ∈ ownIps, ip ∈ addresses node) ∧ ∀ ip ∈ desiredIps, ip ∈ ownIps
  | .prune _, .prune _ _ _ => True
  | _, _ => False

/-- The event begins no update of a node that is about addresses of another one. -/
def Minds (addresses : N → Set IpAddr) : IngressEvent N K → Prop
  | .publish node ownIps desiredIps => (∀ ip ∈ ownIps, ip ∈ addresses node) ∧ ∀ ip ∈ desiredIps, ip ∈ ownIps
  | _ => True

/-- Every update under way is safe, and about addresses of its own. -/
structure Orderly (addresses : N → Set IpAddr) (b : IngressBoard N K) : Prop where
  safe : b.AllSafe
  isFor : ∀ slot, (b.pool.tasks slot).Waiting → IsFor addresses slot (b.updates slot)

omit [DecidableEq N] [DecidableEq K] in
theorem orderly_initial (r : IngressRegister) : (initial r : IngressBoard N K).Orderly addresses :=
  ⟨allSafe_initial r, fun _ h => h.elim⟩

theorem Orderly.launch (h : b.Orderly addresses) {slot : IngressSlot N K} {u : IngressUpdate}
    (hu : IsFor addresses slot u) : (b.launch ns name slot u).Orderly addresses := by
  refine ⟨h.safe.launch slot u, fun other hother => ?_⟩
  unfold IngressBoard.launch at hother ⊢
  split at hother
  · rename_i hbusy
    rw [if_pos hbusy]
    exact h.isFor other hother
  · rename_i hidle
    rw [if_neg hidle]
    by_cases hsame : other = slot
    · subst hsame
      simp only [Function.update_self]
      exact hu
    · simp only [Pool.start, hidle, if_false, Function.update_of_ne hsame] at hother ⊢
      exact h.isFor other hother

theorem Orderly.step (h : b.Orderly addresses) {e : IngressEvent N K} (he : Minds addresses e) :
    (b.step ns name e).Orderly addresses := by
  cases e with
  | publish node ownIps desiredIps => exact h.launch he
  | prune pass leases now suspects => exact h.launch trivial
  | touch => exact ⟨h.safe.step .touch, h.isFor⟩
  | serve slot how =>
    refine ⟨h.safe.step (.serve slot how), fun other hother => h.isFor other ?_⟩
    change ((b.pool.serve (fun _ => IngressRegister.serve) slot how).tasks other).Waiting at hother
    by_cases hsame : other = slot
    · subst hsame
      rw [Pool.tasks_serve_self] at hother
      cases ht : b.pool.tasks other with
      | done result => rw [ht] at hother; exact hother
      | ask q resume => trivial
    · rwa [Pool.tasks_serve_of_ne how hsame] at hother

theorem Orderly.run (h : b.Orderly addresses) {es : List (IngressEvent N K)} (hes : ∀ e ∈ es, Minds addresses e) :
    (es.foldl (IngressBoard.step ns name) b).Orderly addresses :=
  List.foldlRecOn es (IngressBoard.step ns name) (motive := fun b => b.Orderly addresses) h
    fun _ h e he => h.step (hes e he)

/-- A node took one of its addresses off the list. -/
def Withdrawn (addresses : N → Set IpAddr) (b : IngressBoard N K) (slot : IngressSlot N K) (entry : Value) : Prop :=
  ∃ node ownIps desiredIps, slot = .publish node ∧ b.updates slot = .publish ownIps desiredIps ∧
    ∃ ip ∈ addresses node, ip ∈ ownIps ∧ ip ∉ desiredIps ∧ entryIp entry = some ip.display

/-- A pass that sees no live Lease with the address took it off the list. -/
def Pruned (b : IngressBoard N K) (slot : IngressSlot N K) (entry : Value) : Prop :=
  ∃ pass leases now suspects, slot = .prune pass ∧ b.updates slot = .prune leases now suspects ∧
    ∃ ip, entryIp entry = some ip ∧ isLiveIp leases now ip = false

/-- What is gone after a step was withdrawn or pruned. -/
theorem removed_step (h : b.Orderly addresses) {e : IngressEvent N K} {entry : Value} (hentry : entry ∈ b.ingress)
    (hgone : entry ∉ (b.step ns name e).ingress) :
    ∃ slot how, e = .serve slot how ∧ (b.Withdrawn addresses slot entry ∨ b.Pruned slot entry) := by
  rcases step_ingress h.safe e with hsame | ⟨slot, how, rfl, hwait, hcomputes⟩
  · exact absurd (hsame ▸ hentry) hgone
  refine ⟨slot, how, rfl, ?_⟩
  have hfor := h.isFor slot hwait
  cases slot with
  | publish node =>
    cases hu : b.updates (.publish node) with
    | prune leases now suspects => rw [hu] at hfor; exact hfor.elim
    | publish ownIps desiredIps =>
      rw [hu] at hcomputes hfor
      have hmade : mergedIngress b.ingress ownIps desiredIps =
        some (b.step ns name (.serve (.publish node) how)).ingress := hcomputes
      have hdropped : entry ∉ (mergedIngress b.ingress ownIps desiredIps).getD b.ingress := by
        rw [hmade]
        exact hgone
      obtain ⟨ip, hown, hunwanted, hshow⟩ := owned_of_dropped hentry hdropped
      exact Or.inl ⟨node, ownIps, desiredIps, rfl, hu, ip, hfor.1 ip hown, hown, hunwanted, hshow⟩
  | prune pass =>
    cases hu : b.updates (.prune pass) with
    | publish ownIps desiredIps => rw [hu] at hfor; exact hfor.elim
    | prune leases now suspects =>
      rw [hu] at hcomputes
      obtain ⟨s, -, hcompute⟩ := hcomputes
      refine Or.inr ⟨pass, leases, now, suspects, rfl, hu, ?_⟩
      have hgetD : (confirmedPrunedIngress b.ingress leases now s).1.getD b.ingress =
          (b.step ns name (.serve (.prune pass) how)).ingress := by rw [hcompute]; rfl
      obtain ⟨ip, hip, hlive, -⟩ := unmatched_of_dropped hentry (hgetD ▸ hgone)
      exact ⟨ip, hip, hlive⟩

/-- Entries of no address of a node are left alone by its updates. -/
theorem filter_step (h : b.Orderly addresses) {e : IngressEvent N K} {p : Value → Bool}
    (hp : ∀ entry, p entry = true → ∀ node how, e = .serve (.publish node) how → ∀ ip ∈ addresses node,
      entryIp entry ≠ some ip.display)
    (he : ∀ pass how, e = .serve (.prune pass) how → (b.step ns name e).ingress = b.ingress) :
    (b.step ns name e).ingress.filter p = b.ingress.filter p := by
  rcases step_ingress h.safe e with hsame | ⟨slot, how, rfl, hwait, hcomputes⟩
  · rw [hsame]
  have hfor := h.isFor slot hwait
  cases slot with
  | prune pass => rw [he pass how rfl]
  | publish node =>
    cases hu : b.updates (.publish node) with
    | prune leases now suspects => rw [hu] at hfor; exact hfor.elim
    | publish ownIps desiredIps =>
      rw [hu] at hcomputes hfor
      have hmerged := filter_merged b.ingress (p := p) hfor.2 fun entry hentry ip hip =>
        hp entry hentry node how rfl ip (hfor.1 ip hip)
      rwa [show mergedIngress b.ingress ownIps desiredIps = _ from hcomputes] at hmerged

/-- Where an update of a node ends well, the list has what it wanted of its addresses. -/
theorem advertised_of_ok (h : b.Orderly addresses) {e : IngressEvent N K} {node : N} {ownIps desiredIps : List IpAddr}
    (hwait : (b.pool.tasks (.publish node)).Waiting)
    (hok : (b.step ns name e).pool.tasks (.publish node) = .done (.ok ()))
    (hupdate : b.updates (.publish node) = .publish ownIps desiredIps) {ip : IpAddr} (hip : ip ∈ ownIps) :
    Advertised (b.step ns name e).ingress ip ↔ ip ∈ desiredIps := by
  obtain ⟨how, rfl⟩ := eq_serve_of_ends hwait (by rw [hok]; exact id)
  have hsafe := (h.safe (.publish node) hwait).step IngressRegister.Moves.refl how
  change (b.pool.serve (fun _ => IngressRegister.serve) (.publish node) how).tasks (.publish node) = _ at hok
  rw [Pool.tasks_serve_self] at hok
  rw [hok] at hsafe
  have hsucceeded : (b.updates (.publish node)).Succeeded (b.step ns name (.serve (.publish node) how)).pool.state
    (.ok ()) := hsafe
  rw [hupdate] at hsucceeded
  unfold ingress
  -- the list was found right, or it is the one that was made
  rcases hsucceeded rfl with hright | ⟨old, hmade⟩
  · have hmerged := advertised_merged (b.step ns name (.serve (.publish node) how)).pool.state.ingress desiredIps hip
    rwa [show mergedIngress _ ownIps desiredIps = _ from hright] at hmerged
  · have hmerged := advertised_merged old desiredIps hip
    rwa [show mergedIngress _ ownIps desiredIps = _ from hmade] at hmerged

/-- The step begins no update of the node, and prunes nothing. -/
def Undisturbed (ns name : String) (node : N) (b : IngressBoard N K) (e : IngressEvent N K) : Prop :=
  (∀ ownIps desiredIps, e ≠ .publish node ownIps desiredIps) ∧
    ∀ pass how, e = .serve (.prune pass) how → (b.step ns name e).ingress = b.ingress

/-- Addresses of a node with no update under way stay listed, or not, as they are. -/
theorem advertised_undisturbed (h : b.Orderly addresses)
    (hdisjoint : Pairwise fun m n => Disjoint (addresses m) (addresses n))
    {node : N} (hidle : ¬ (b.pool.tasks (.publish node)).Waiting) {e : IngressEvent N K} (he : b.Undisturbed ns name node e)
    {ip : IpAddr} (hip : ip ∈ addresses node) :
    Advertised (b.step ns name e).ingress ip ↔ Advertised b.ingress ip := by
  rcases step_ingress h.safe e with hsame | ⟨slot, how, rfl, hwait, -⟩
  · rw [hsame]
  have hfilter : (b.step ns name (.serve slot how)).ingress.filter (fun entry => entryIp entry == some ip.display) =
      b.ingress.filter fun entry => entryIp entry == some ip.display := filter_step h ?_ he.2
  · have hadvertised : ∀ ingress : List Value,
        Advertised ingress ip ↔ ∃ entry, entry ∈ ingress.filter fun entry => entryIp entry == some ip.display := by
      intro ingress
      simp only [Advertised, List.mem_filter, beq_iff_eq]
    rw [hadvertised, hadvertised, hfilter]
  · -- another node's addresses are other ones
    intro entry hentry other how' heq a ha hshow
    obtain rfl : slot = .publish other := (IngressEvent.serve.inj heq).1
    have hne : other ≠ node := fun hsame => hidle (hsame ▸ hwait)
    have hsame : a = ip := IpAddr.display_injective (Option.some_inj.mp (hshow.symm.trans (beq_iff_eq.mp hentry)))
    exact Set.disjoint_left.mp (hdisjoint hne) ha (hsame ▸ hip)

/-- **No update is lost.** Whatever the order of the requests, an entry is gone only after its node's own update or after
    a pass that saw no live Lease with it; entries of nobody stay as they are; and after a node's last update ended
    well, with nothing pruned since, the list has what the update wanted of the node's addresses. -/
theorem ingress_updates_kept (ns name : String)
    (hdisjoint : Pairwise fun m n => Disjoint (addresses m) (addresses n)) (r : IngressRegister)
    {es : List (IngressEvent N K)} (hes : ∀ e ∈ es, Minds addresses e) :
    (∀ before e after, es = before ++ e :: after → ∀ entry,
      entry ∈ (before.foldl (step ns name) (initial r)).ingress →
      entry ∉ ((before ++ [e]).foldl (step ns name) (initial r)).ingress →
      ∃ slot how, e = .serve slot how ∧ ((before.foldl (step ns name) (initial r)).Withdrawn addresses slot entry ∨
        (before.foldl (step ns name) (initial r)).Pruned slot entry)) ∧
    (∀ before node how after, es = before ++ .serve (.publish node) how :: after → ∀ p : Value → Bool,
      (∀ entry, p entry = true → ∀ owner, ∀ ip ∈ addresses owner, entryIp entry ≠ some ip.display) →
      ((before ++ [.serve (.publish node) how]).foldl (step ns name) (initial r)).ingress.filter p =
        (before.foldl (step ns name) (initial r)).ingress.filter p) ∧
    (∀ before e after node ownIps desiredIps, es = before ++ e :: after →
      ((before.foldl (step ns name) (initial r)).pool.tasks (.publish node)).Waiting →
      (before.foldl (step ns name) (initial r)).updates (.publish node) = .publish ownIps desiredIps →
      ((before ++ [e]).foldl (step ns name) (initial r)).pool.tasks (.publish node) = .done (.ok ()) →
      Run.Along (step ns name) (Undisturbed ns name node) ((before ++ [e]).foldl (step ns name) (initial r)) after →
      ∀ ip ∈ ownIps, Advertised (es.foldl (step ns name) (initial r)).ingress ip ↔ ip ∈ desiredIps) := by
  have horderly : ∀ before e after, es = before ++ e :: after →
      (before.foldl (step ns name) (initial r)).Orderly addresses := fun before e after h =>
    (orderly_initial r).run fun e' he' => hes e' (h ▸ List.mem_append_left _ he')
  simp only [List.foldl_append, List.foldl_cons, List.foldl_nil]
  refine ⟨fun before e after h entry => removed_step (horderly before e after h), ?_, ?_⟩
  · intro before node how after h p hp
    exact filter_step (horderly before _ after h) (fun entry hentry owner _ _ => hp entry hentry owner)
      (fun pass how' heq => nomatch heq)
  · intro before e after node ownIps desiredIps h hwait hupdate hok hafter ip hip
    have hbefore := horderly before e after h
    have haddress : ip ∈ addresses node := by
      have hfor := hbefore.isFor (.publish node) hwait
      rw [hupdate] at hfor
      exact hfor.1 ip hip
    -- the invariant since the update ended: it is not begun again, and the address stays as the update left it
    have hkeep : ∀ (b : IngressBoard N K) e,
        (b.Orderly addresses ∧ ¬ (b.pool.tasks (.publish node)).Waiting ∧ (Advertised b.ingress ip ↔ ip ∈ desiredIps)) →
        (b.Undisturbed ns name node e ∧ Minds addresses e) →
        (b.step ns name e).Orderly addresses ∧ ¬ ((b.step ns name e).pool.tasks (.publish node)).Waiting ∧
          (Advertised (b.step ns name e).ingress ip ↔ ip ∈ desiredIps) := by
      rintro b e ⟨hb, hidle, hlisted⟩ ⟨hundisturbed, hminds⟩
      exact ⟨hb.step hminds, idle_step hidle hundisturbed.1,
        (advertised_undisturbed hb hdisjoint hidle hundisturbed haddress).trans hlisted⟩
    have hmindful : Run.Along (step ns name) (fun (_ : IngressBoard N K) e => Minds addresses e)
        ((before.foldl (step ns name) (initial r)).step ns name e) after :=
      Run.along_iff.mpr fun _ e' _ heq => hes e' (by rw [h, heq]; simp)
    have hsince := Run.Along.inv hkeep (hafter.and hmindful)
      ⟨hbefore.step (hes e (by rw [h]; simp)), by rw [hok]; exact id, advertised_of_ok hbefore hwait hok hupdate hip⟩
    subst h
    rw [List.foldl_append, List.foldl_cons]
    exact hsince.2.2

/-- Two nodes publish an address each; the first one's patch comes late and is tried again. -/
theorem ingress_updates_kept_two_nodes :
    Advertised (ingress (List.foldl (step "default" "web") (initial (N := Bool) (K := Unit) ⟨7, []⟩)
      [.publish true [.v4 0x0a000001] [.v4 0x0a000001], .publish false [.v4 0x0a000002] [.v4 0x0a000002],
       .serve (.publish true) .served, .serve (.publish false) .served, .serve (.publish false) .served,
       .serve (.publish true) .served, .serve (.publish true) .served, .serve (.publish true) .served]))
      (.v4 0x0a000001) := by
  have hminds : ∀ e ∈ ([.publish true [.v4 0x0a000001] [.v4 0x0a000001],
      .publish false [.v4 0x0a000002] [.v4 0x0a000002],
      .serve (.publish true) .served, .serve (.publish false) .served, .serve (.publish false) .served,
      .serve (.publish true) .served, .serve (.publish true) .served, .serve (.publish true) .served] :
        List (IngressEvent Bool Unit)),
      Minds (fun node => if node then {.v4 0x0a000001} else {.v4 0x0a000002}) e := by
    simp [Minds]
  have hdisjoint : Pairwise fun m n : Bool =>
      Disjoint (if m then {IpAddr.v4 0x0a000001} else {IpAddr.v4 0x0a000002} : Set IpAddr)
        (if n then {IpAddr.v4 0x0a000001} else {IpAddr.v4 0x0a000002}) := by
    intro m n hne
    cases m <;> cases n <;> simp_all
  refine ((ingress_updates_kept "default" "web" hdisjoint ⟨7, []⟩ hminds).2.2
    [.publish true [.v4 0x0a000001] [.v4 0x0a000001], .publish false [.v4 0x0a000002] [.v4 0x0a000002],
      .serve (.publish true) .served, .serve (.publish false) .served, .serve (.publish false) .served,
      .serve (.publish true) .served, .serve (.publish true) .served] (.serve (.publish true) .served) []
    true [.v4 0x0a000001] [.v4 0x0a000001] rfl ?_ ?_ ?_ trivial _ (List.mem_singleton_self _)).mpr
      (List.mem_singleton_self _)
  · exact True.intro
  · rfl
  · rfl

end IngressBoard

end Beep
