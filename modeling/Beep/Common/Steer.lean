import Beep.Common.Decisions

/-!
# `Common.Steer` — which endpoint a packet of a front goes to

`ingress_steer` and the seeded hash under it. A pin always wins; only a flow without one is hashed onto a
slot of the live generation.
-/

namespace Beep

/-- `mix32`. -/
def mix32 (h w : UInt32) : UInt32 :=
  let h := (h ^^^ w) * 0x9E3779B1
  h ^^^ (h >>> 15)

/-- One word of `le_words`. -/
def leWord (b : Bytes 16) (off : Nat) (h : off + 4 ≤ 16) : UInt32 :=
  Endian.little.u32OfBytes (Bytes.slice b off 4 h)

/-- `flow_hash`: the address words are mixed in alternation, then ports and protocol, then finalised. -/
def flowHash (seed : UInt64) (clientIp : Bytes 16) (clientPort : UInt16) (front : LbFrontKey) : UInt32 :=
  let words := [seed.toUInt32, (seed >>> 32).toUInt32,
    leWord clientIp 0 Bytes.word0, leWord front.frontIp 0 Bytes.word0,
    leWord clientIp 4 Bytes.word1, leWord front.frontIp 4 Bytes.word1,
    leWord clientIp 8 Bytes.word2, leWord front.frontIp 8 Bytes.word2,
    leWord clientIp 12 Bytes.word3, leWord front.frontIp 12 Bytes.word3,
    clientPort.toUInt32 ||| (front.frontPort.toUInt32 <<< 16), front.proto.toUInt32]
  let h := words.foldl mix32 0x811C9DC5
  let h := (h ^^^ (h >>> 16)) * 0x85EBCA6B
  let h := (h ^^^ (h >>> 13)) * 0xC2B2AE35
  h ^^^ (h >>> 16)

/-- `front_flow_hash`: without the client port for a front with client-address affinity. -/
def frontFlowHash (seed : UInt64) (clientIp : Bytes 16) (clientPort : UInt16) (front : LbFrontKey)
    (m : FrontMeta) : UInt32 :=
  flowHash seed clientIp (if m.flags &&& frontFlagClientIpAffinity ≠ 0 then 0 else clientPort) front

/-- `slot_in_range`. -/
def slotInRange (hash n : UInt32) : Option UInt32 :=
  if n = 0 then none else some ((hash.toUInt64 * n.toUInt64) >>> 32).toUInt32

/-- `select_endpoint_slot`. -/
def selectEndpointSlot (hash : UInt32) (readyCount localCount : UInt16) : Option UInt16 :=
  if localCount > readyCount then none
  else
    let range := if localCount > 0 then localCount else readyCount
    (slotInRange hash range.toUInt32).map (·.toUInt16)

/-- `IngressSteer`. -/
inductive IngressSteer where
  | drop
  | forward (backend : LbFrontBackend) (targetPort : UInt16)
  deriving DecidableEq

/-- `ingress_steer`. -/
def ingressSteer (m : FrontMeta) (established pending : Option ForwardFlowValue) (hash : UInt32)
    (front : LbFrontKey) (endpointAt : FrontEndpointKey → Option FrontEndpoint) : IngressSteer :=
  match established.or pending with
  | some pin => .forward pin.backend pin.targetPort
  | none =>
      if m.count = 0 then .drop
      else
        match selectEndpointSlot hash m.count m.localCount with
        | none => .drop
        | some slot =>
            match endpointAt { front, generation := m.generation, slot, pad := 0 } with
            | some endpoint =>
                if m.localCount = 0 ∨ endpoint.flags &&& endpointFlagIsLocal ≠ 0 then
                  .forward endpoint.backend endpoint.targetPort
                else .drop
            | none => .drop

/-- **A pin wins** over the hash, the count and whatever the endpoint rows hold. -/
theorem ingressSteer_pinned {m : FrontMeta} {established pending : Option ForwardFlowValue} {hash : UInt32}
    {front : LbFrontKey} {endpointAt : FrontEndpointKey → Option FrontEndpoint} {pin : ForwardFlowValue}
    (h : established.or pending = some pin) :
    ingressSteer m established pending hash front endpointAt = .forward pin.backend pin.targetPort := by
  unfold ingressSteer
  rw [h]

end Beep
