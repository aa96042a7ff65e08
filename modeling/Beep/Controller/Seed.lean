import Beep.Controller.Client
import Beep.Lib.Encoding

/-!
# `Controller.Seed` — the flow-hash seed of the cluster

`controller/src/seed.rs`: the seed lives in one Secret, which the first controller to start creates and every other one
reads (`loadOrCreateSeed`); a running controller reads it again and again and follows it (`seedTick`). What is read
back from a Secret that a controller created is its seed (`parseSeedSecret_admitted`).

Beside it stands what the controllers share: the Secret, as the API server keeps it, and each node's `CONFIG` row
(`SeedWorld`), with any number of controllers on them (`SeedCluster`).
-/

namespace Beep

open Json (Value)
open Encoding

def seedSecretName : String := "servicelb-flow-hash-seed"

def seedKey : String := "seed"

/-! ## The Secret -/

/-- `CreateOutcome`. -/
inductive CreateOutcome where
  | created
  | readExisting
  | failed
  deriving DecidableEq

/-- `create_outcome`. -/
def createOutcome (status : Nat) : CreateOutcome :=
  if HttpStatus.isSuccess status then .created
  else if status = HttpStatus.conflict then .readExisting
  else .failed

/-- `secret_body`. -/
def secretBody (ns : String) (seed : UInt64) : Value :=
  .obj [("apiVersion", .str "v1"), ("kind", .str "Secret"),
    ("metadata", .obj [("name", .str seedSecretName), ("namespace", .str ns)]), ("type", .str "Opaque"),
    ("stringData", .obj [(seedKey, .str (String.ofList (hexPadded 16 seed.toNat)))])]

/-- `char::is_whitespace`. -/
def isWhitespace (c : Char) : Bool :=
  let n := c.toNat
  decide (9 ≤ n ∧ n ≤ 13 ∨ n = 32 ∨ n = 0x85 ∨ n = 0xa0 ∨ n = 0x1680 ∨ 0x2000 ≤ n ∧ n ≤ 0x200a ∨ n = 0x2028 ∨
    n = 0x2029 ∨ n = 0x202f ∨ n = 0x205f ∨ n = 0x3000)

/-- `str::trim`. -/
def trim (cs : List Char) : List Char :=
  ((cs.dropWhile isWhitespace).reverse.dropWhile isWhitespace).reverse

/-- `parse_seed_secret`. -/
def parseSeedSecret (body : Option Value) : Except String UInt64 :=
  match body with
  | none => .error "parse seed Secret response"
  | some obj =>
      match ((obj.get "data").get seedKey).asStr with
      | none => .error s!"seed Secret has no data.{seedKey}"
      | some encoded =>
          match base64Decode encoded.toList with
          | none => .error s!"seed Secret data.{seedKey} is not valid base64"
          | some raw =>
              match String.fromUTF8? ⟨raw.toArray⟩ with
              | none => .error s!"seed Secret data.{seedKey} is not valid UTF-8"
              | some hex =>
                  match fromStrRadix 16 64 (trim hex.toList) with
                  | none => .error s!"seed Secret data.{seedKey} is not a 64-bit hex value"
                  | some seed => .ok (UInt64.ofNat seed)

/-- How the API server stores a Secret it is sent: each text of `stringData` in base64 under `data`. -/
def admitSecret (body : Value) : Value :=
  let texts := match body.get "stringData" with
    | .obj fields => fields.filterMap fun field => field.2.asStr.map fun text =>
        (field.1, Value.str (String.ofList (base64Encode text.toUTF8.data.toList)))
    | _ => []
  .obj [("metadata", body.get "metadata"), ("type", body.get "type"), ("data", .obj texts)]

theorem fromUTF8?_toUTF8 (s : String) : String.fromUTF8? ⟨s.toUTF8.data.toList.toArray⟩ = some s := by
  have hbytes : (⟨s.toUTF8.data.toList.toArray⟩ : ByteArray) = s.toUTF8 := by
    rw [Array.toArray_toList]
  rw [hbytes]
  exact dif_pos s.isValidUTF8

theorem isWhitespace_digitChar {d : Nat} (h : d < 16) : isWhitespace (Nat.digitChar d) = false := by
  have hall : ∀ d : Fin 16, isWhitespace (Nat.digitChar d.val) = false := by decide
  exact hall ⟨d, h⟩

theorem isWhitespace_toDigits (n : Nat) : ∀ c ∈ Nat.toDigits 16 n, isWhitespace c = false := by
  induction n using Nat.strongRecOn with
  | ind n ih =>
    intro c hc
    rcases Nat.lt_or_ge n 16 with hsmall | hlarge
    · rw [Nat.toDigits_of_lt_base hsmall, List.mem_singleton] at hc
      rw [hc]
      exact isWhitespace_digitChar hsmall
    · rw [Nat.toDigits_of_base_le (by omega) hlarge, List.mem_append, List.mem_singleton] at hc
      rcases hc with hc | rfl
      · exact ih (n / 16) (by omega) c hc
      · exact isWhitespace_digitChar (Nat.mod_lt n (by omega))

theorem dropWhile_of_all {p : Char → Bool} {cs : List Char} (h : ∀ c ∈ cs, p c = false) : cs.dropWhile p = cs := by
  cases cs with
  | nil => rfl
  | cons c cs => exact List.dropWhile_cons_of_neg (by simp [h c List.mem_cons_self])

theorem trim_hexPadded (width n : Nat) : trim (hexPadded width n) = hexPadded width n := by
  have hall : ∀ c ∈ hexPadded width n, isWhitespace c = false := by
    intro c hc
    rcases List.mem_append.mp hc with hzero | hdigit
    · rw [List.eq_of_mem_replicate hzero]
      rfl
    · exact isWhitespace_toDigits n c hdigit
  rw [trim, dropWhile_of_all hall, dropWhile_of_all (fun c hc => hall c (List.mem_reverse.mp hc)), List.reverse_reverse]

/-- **The round trip.** -/
theorem parseSeedSecret_admitted (ns : String) (seed : UInt64) :
    parseSeedSecret (some (admitSecret (secretBody ns seed))) = .ok seed := by
  have htext : ((((admitSecret (secretBody ns seed)).get "data").get seedKey).asStr) =
      some (String.ofList (base64Encode (String.ofList (hexPadded 16 seed.toNat)).toUTF8.data.toList)) := rfl
  simp only [parseSeedSecret, htext, String.toList_ofList, base64Decode_base64Encode, fromUTF8?_toUTF8,
    trim_hexPadded, fromStrRadix_hexPadded seed.toNat_lt]
  rw [UInt64.ofNat_toNat]

/-! ## What a controller does -/

/-- `Observed`. -/
inductive Observed where
  | stored (seed : UInt64)
  | absent
  deriving DecidableEq

/-- `SeedAction`. -/
inductive SeedAction where
  | keep
  | adopt (seed : UInt64)
  | recreate
  deriving DecidableEq

/-- `seed_action`. -/
def seedAction (current : UInt64) : Observed → SeedAction
  | .stored stored => if stored = current then .keep else .adopt stored
  | .absent => .recreate

/-- `observe`. -/
def observe (response : ApiResponse) : Except String Observed :=
  if response.status = HttpStatus.notFound then .ok .absent
  else if HttpStatus.isSuccess response.status then (parseSeedSecret response.body).map .stored
  else .error s!"GET seed Secret returned HTTP {response.status}"

/-- What a controller asks for: a request to the API server, or a write of its node's `CONFIG.flow_hash_seed`. -/
inductive SeedRequest where
  | api (request : ApiRequest)
  | writeConfigSeed (seed : UInt64)

/-- The answers: no response stands for a request that failed. -/
inductive SeedAnswer where
  | api (response : Option ApiResponse)
  | writeConfigSeed (ok : Bool)

/-- What runs in a controller. -/
abbrev SeedTask := Async SeedRequest SeedAnswer

/-- `HyperApiClient::request`. -/
def apiRequest (r : ApiRequest) : SeedTask (Option ApiResponse) :=
  .ask (.api r) fun
    | .api response => .done response
    | .writeConfigSeed _ => .done none

/-- `write_config_seed`, and what `populate_config` does to the seed. -/
def writeConfigSeed (seed : UInt64) : SeedTask Bool :=
  .ask (.writeConfigSeed seed) fun
    | .api _ => .done false
    | .writeConfigSeed ok => .done ok

/-- The path the Secret is created under. -/
def secretsPath (ns : String) : String := s!"/api/v1/namespaces/{ns}/secrets"

/-- The path of the Secret. -/
def seedSecretPath (ns : String) : String := s!"{secretsPath ns}/{seedSecretName}"

/-- `read_seed`. -/
def readSeed (ns : String) : SeedTask (Except String Observed) := do
  let item := seedSecretPath ns
  match ← apiRequest { method := .get, path := item, body := none } with
  | none => return .error s!"GET {item}"
  | some response => return observe response

/-- `create_or_read`. -/
def createOrRead (ns : String) (candidate : UInt64) : SeedTask (Except String UInt64) := do
  let collection := secretsPath ns
  match ← apiRequest { method := .post, path := collection, body := some (secretBody ns candidate) } with
  | none => return .error s!"POST {collection}"
  | some response =>
      match createOutcome response.status with
      | .created => return .ok candidate
      | .failed => return .error s!"POST {collection} returned HTTP {response.status}"
      | .readExisting =>
          match ← readSeed ns with
          | .error e => return .error e
          | .ok (.stored seed) => return .ok seed
          | .ok .absent => return .error "seed Secret vanished between create conflict and read"

/-- `load_or_create_seed`; the candidate is the process's random number. -/
def loadOrCreateSeed (ns : String) (candidate : UInt64) : SeedTask (Except String UInt64) := createOrRead ns candidate

/-- A controller's start, up to the seed: without one, or without a `CONFIG` row, it does not run. -/
def startSeed (ns : String) (candidate : UInt64) : SeedTask (Option UInt64) := do
  match ← loadOrCreateSeed ns candidate with
  | .error _ => return none
  | .ok seed => return if ← writeConfigSeed seed then some seed else none

/-- What `seed_tick` does about an action; after a recreate there is none left to do. -/
def followSeed (current : UInt64) : SeedAction → SeedTask UInt64
  | .adopt seed => do return if ← writeConfigSeed seed then seed else current
  | .keep | .recreate => return current

/-- `seed_tick`, as `converge_seed` runs it. -/
def seedTick (ns : String) (current : UInt64) : SeedTask UInt64 := do
  match ← readSeed ns with
  | .error _ => return current
  | .ok observed =>
      let action := seedAction current observed
      if action = .recreate then
        match ← createOrRead ns current with
        | .error _ => return current
        | .ok stored => followSeed current (seedAction current (.stored stored))
      else followSeed current action

/-! ## The cluster -/

/-- What the controllers act on: the Secret, if there is one, and the seed in each node's `CONFIG`. For each
    controller it is kept whether all it asked for since it last set out was served. -/
structure SeedWorld (ι : Type) where
  secret : Option Value
  config : ι → UInt64
  clean : ι → Bool

namespace SeedWorld

variable {ι : Type} [DecidableEq ι]

/-- The seed the Secret holds. -/
def stored (w : SeedWorld ι) : Option UInt64 := w.secret.bind fun secret => (parseSeedSecret (some secret)).toOption

/-- A request that reaches the API server: a GET reads the Secret, a POST creates it if there is none. -/
def respond (w : SeedWorld ι) (r : ApiRequest) : SeedWorld ι × ApiResponse :=
  match r.method, w.secret with
  | .get, some secret => (w, ⟨200, some secret⟩)
  | .get, none => (w, ⟨HttpStatus.notFound, none⟩)
  | .post, some _ => (w, ⟨HttpStatus.conflict, none⟩)
  | .post, none =>
      let secret := r.body.map admitSecret
      ({ w with secret }, ⟨201, secret⟩)
  | _, _ => (w, ⟨405, none⟩)

/-- A request of controller `i`, and how it goes. -/
def serve (i : ι) (w : SeedWorld ι) (request : SeedRequest) (how : Serving) : SeedWorld ι × SeedAnswer :=
  match request, how with
  | .api r, .served => ((w.respond r).1, .api (some (w.respond r).2))
  | .api _, .refused status => ({ w with clean := Function.update w.clean i false }, .api (some ⟨status.val, none⟩))
  | .api r, .lost applied =>
      let w' := if applied then (w.respond r).1 else w
      ({ w' with clean := Function.update w'.clean i false }, .api none)
  | .writeConfigSeed seed, .served =>
      ({ w with config := Function.update w.config i seed }, .writeConfigSeed true)
  | .writeConfigSeed _, _ => ({ w with clean := Function.update w.clean i false }, .writeConfigSeed false)

end SeedWorld

/-- What happens: a controller's process starts, its loop sets out on a pass, one of its requests goes one way or
    another, or an operator edits or deletes the Secret. -/
inductive SeedEvent (ι : Type) where
  | start (i : ι) (candidate : UInt64)
  | tick (i : ι)
  | serve (i : ι) (how : Serving)
  | operator (secret : Option Value)

/-- The controllers at work: what each of them is waiting for, or the seed it ended its last pass with (none if it
    does not run), and the seed its loop set out with. -/
structure SeedCluster (ι : Type) where
  pool : Pool ι (SeedWorld ι) SeedRequest SeedAnswer (Option UInt64)
  setOut : ι → Option UInt64

namespace SeedCluster

variable {ι : Type} [DecidableEq ι]

/-- The value the loop of a controller carries: none before it runs. -/
def current (c : SeedCluster ι) (i : ι) : Option UInt64 :=
  match c.pool.tasks i with
  | .done seed => seed
  | .ask _ _ => c.setOut i

/-- A controller sets out on something. -/
def launch (c : SeedCluster ι) (i : ι) (carried : Option UInt64) (task : SeedTask (Option UInt64)) :
    SeedCluster ι where
  pool :=
    { state := { c.pool.state with clean := Function.update c.pool.state.clean i true }
      tasks := Function.update c.pool.tasks i task }
  setOut := Function.update c.setOut i carried

/-- The step. A process may start at any time, also in the place of one that runs. -/
def step (ns : String) (c : SeedCluster ι) : SeedEvent ι → SeedCluster ι
  | .start i candidate => c.launch i none (startSeed ns candidate)
  | .tick i =>
      match c.pool.tasks i with
      | .done (some current) => c.launch i (some current) (some <$> seedTick ns current)
      | _ => c
  | .serve i how => { c with pool := c.pool.serve SeedWorld.serve i how }
  | .operator secret => { c with pool := { c.pool with state := { c.pool.state with secret } } }

/-- Before any controller runs: the Secret and the `CONFIG` rows are as they were left. -/
def initial (secret : Option Value) (config : ι → UInt64) : SeedCluster ι where
  pool := { state := { secret, config, clean := fun _ => true }, tasks := fun _ => .done none }
  setOut _ := none

/-- The seed the Secret holds. -/
def stored (c : SeedCluster ι) : Option UInt64 := c.pool.state.stored

end SeedCluster

end Beep
