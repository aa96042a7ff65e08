import Beep.Lib.Bytes

/-!
# `Common.Keys` — addresses and flow keys

The byte shapes every map of the dataplane is keyed on (`common/src/lib.rs`). An address is always 16
bytes: a genuine IPv6 address as it is, an IPv4 address in the `::ffff:0:0/96` embedding (`ipv4MappedV6`).
A flow key is the flat 37-byte string of `encodeTcpFlowKey`, and `FLOW_TABLE` adds one tag byte that says
which role a row plays (`FlowDirection`).

The kernel compares keys byte by byte, so the one fact the rest of the development needs is that the
encodings are injective: `encodeTcpFlowKey_inj`, `encodeFlowKey_inj`.
-/

namespace Beep

variable [Host]

/-! ## Addresses -/

/-- `ipv4_mapped_v6`: the 16-byte shape of an IPv4 address held as a raw wire token. -/
def ipv4MappedV6 (wireIp : UInt32) : Bytes 16 :=
  (Vector.replicate 10 0 : Bytes 10) ++ (#v[0xff, 0xff] : Bytes 2) ++ Host.endian.u32Bytes wireIp

/-- `unmap_ipv4`: the wire token of an IPv4-mapped address, `none` for a genuine IPv6 one. -/
def unmapIpv4 (v6 : Bytes 16) : Option UInt32 :=
  if Bytes.slice v6 0 10 (by omega) = Vector.replicate 10 0 ∧
      Bytes.slice v6 10 2 (by omega) = #v[0xff, 0xff] then
    some (Host.endian.u32OfBytes (Bytes.slice v6 12 4 (by omega)))
  else none

@[simp] theorem unmapIpv4_ipv4MappedV6 (ip : UInt32) : unmapIpv4 (ipv4MappedV6 ip) = some ip := by
  have h0 : Bytes.slice (ipv4MappedV6 ip) 0 10 (by omega) = Vector.replicate 10 0 := by
    rw [ipv4MappedV6, Bytes.slice_append_left, Bytes.slice_append_left, Bytes.slice_all] <;> omega
  have h1 : Bytes.slice (ipv4MappedV6 ip) 10 2 (by omega) = #v[0xff, 0xff] := by
    rw [ipv4MappedV6, Bytes.slice_append_left, Bytes.slice_append_right]
    · exact Bytes.slice_all _ _
    all_goals omega
  have h2 : Bytes.slice (ipv4MappedV6 ip) 12 4 (by omega) = Host.endian.u32Bytes ip := by
    rw [ipv4MappedV6, Bytes.slice_append_right]
    · exact Bytes.slice_all _ _
    omega
  rw [unmapIpv4, if_pos ⟨h0, h1⟩, h2, Endian.u32OfBytes_u32Bytes]

theorem ipv4MappedV6_inj {a b : UInt32} : ipv4MappedV6 a = ipv4MappedV6 b ↔ a = b :=
  ⟨fun h => Option.some.inj (by rw [← unmapIpv4_ipv4MappedV6 a, h, unmapIpv4_ipv4MappedV6]),
    fun h => h ▸ rfl⟩

/-- An address that unmaps is the embedding of what it unmaps to. -/
theorem ipv4MappedV6_of_unmapIpv4 {v6 : Bytes 16} {ip : UInt32} (h : unmapIpv4 v6 = some ip) :
    ipv4MappedV6 ip = v6 := by
  unfold unmapIpv4 at h
  split at h
  · rename_i hpre
    obtain ⟨h0, h1⟩ := hpre
    cases h
    apply Vector.ext
    intro i hi
    have hz : ∀ j (hj : j < 10), v6[j] = 0 := by
      intro j hj
      have := congrArg (fun v : Bytes 10 => v[j]) h0
      simpa [Bytes.slice] using this
    have hf : ∀ j (hj : j < 2), v6[10 + j] = 0xff := by
      intro j hj
      have := congrArg (fun v : Bytes 2 => v[j]) h1
      have hj' : j = 0 ∨ j = 1 := by omega
      rcases hj' with rfl | rfl <;> simpa [Bytes.slice] using this
    simp only [ipv4MappedV6, Endian.u32Bytes_u32OfBytes]
    rcases Nat.lt_or_ge i 10 with hi10 | hi10
    · rw [Vector.getElem_append_left (by omega), Vector.getElem_append_left (by omega), hz i hi10]
      simp
    · rcases Nat.lt_or_ge i 12 with hi12 | hi12
      · rw [Vector.getElem_append_left (by omega), Vector.getElem_append_right (by omega) (by omega)]
        have hi' : i = 10 ∨ i = 11 := by omega
        rcases hi' with rfl | rfl
        · exact (hf 0 (by omega)).symm
        · exact (hf 1 (by omega)).symm
      · rw [Vector.getElem_append_right (by omega) (by omega)]
        simp only [Bytes.slice, Vector.getElem_ofFn]
        congr 1
        omega
  · cases h

/-- `tunnel_remote_addr`: the outer tunnel source in the 16-byte shape, from the union arm the kernel
    filled. -/
def tunnelRemoteAddr (usedIpv6 : Bool) (remoteIpv4 : UInt32) (remoteIpv6 : Vector UInt32 4) : Bytes 16 :=
  if usedIpv6 then Bytes.ofWords Host.endian remoteIpv6 else ipv4MappedV6 remoteIpv4

/-! ## Flow keys -/

/-- `TcpFlowKey`: client address, other address, client port, other port, protocol. -/
abbrev TcpFlowKey := Bytes 37

/-- `FlowKey`: a `TcpFlowKey` and a `FlowDirection` tag byte. -/
abbrev FlowKey := Bytes 38

/-- `encode_tcp_flow_key`. -/
def encodeTcpFlowKey (clientIp : Bytes 16) (clientPort : UInt16) (otherIp : Bytes 16)
    (otherPort : UInt16) (proto : UInt8) : TcpFlowKey :=
  clientIp ++ otherIp ++ Host.endian.u16Bytes clientPort ++ Host.endian.u16Bytes otherPort ++ #v[proto]

theorem encodeTcpFlowKey_inj {c c' : Bytes 16} {cp cp' : UInt16} {o o' : Bytes 16} {op op' : UInt16}
    {p p' : UInt8} : encodeTcpFlowKey c cp o op p = encodeTcpFlowKey c' cp' o' op' p' ↔
      c = c' ∧ cp = cp' ∧ o = o' ∧ op = op' ∧ p = p' := by
  constructor
  · intro h
    obtain ⟨h, hp⟩ := Vector.append_inj h
    obtain ⟨h, hop⟩ := Vector.append_inj h
    obtain ⟨h, hcp⟩ := Vector.append_inj h
    obtain ⟨hc, ho⟩ := Vector.append_inj h
    refine ⟨hc, (Endian.u16Bytes_inj _).mp hcp, ho, (Endian.u16Bytes_inj _).mp hop, ?_⟩
    simpa using hp
  · rintro ⟨rfl, rfl, rfl, rfl, rfl⟩
    rfl

/-- `decode_tcp_flow_key`: client address and port, other address and port, protocol. -/
def decodeTcpFlowKey (key : TcpFlowKey) : Bytes 16 × UInt16 × Bytes 16 × UInt16 × UInt8 :=
  (Bytes.slice key 0 16 (by omega), Host.endian.u16OfBytes (Bytes.slice key 32 2 (by omega)),
    Bytes.slice key 16 16 (by omega), Host.endian.u16OfBytes (Bytes.slice key 34 2 (by omega)), key[36])

/-- The two addresses of a key. -/
def tcpFlowKeyAddrs (key : TcpFlowKey) : List (Bytes 16) :=
  [Bytes.slice key 0 16 (by omega), Bytes.slice key 16 16 (by omega)]

omit [Host] in
/-- A row's key begins with the key of its flow. -/
theorem tcpFlowKey_fits : 0 + 37 ≤ 38 := by decide

/-- The other address of a key as it was encoded. -/
@[simp] theorem decodeTcpFlowKey_other (c : Bytes 16) (cp : UInt16) (o : Bytes 16) (op : UInt16) (p : UInt8) :
    (decodeTcpFlowKey (encodeTcpFlowKey c cp o op p)).2.2.1 = o := by
  show Bytes.slice (encodeTcpFlowKey c cp o op p) 16 16 (by omega) = o
  unfold encodeTcpFlowKey
  rw [Bytes.slice_append_left, Bytes.slice_append_left, Bytes.slice_append_left, Bytes.slice_append_right]
  · exact Bytes.slice_all _ _
  all_goals omega

/-- `FlowDirection`: the role of a `FLOW_TABLE` row. -/
inductive FlowDirection where
  | forward
  | reverse
  | portMemo
  deriving DecidableEq, Repr

/-- `direction as u8`. -/
def FlowDirection.toByte : FlowDirection → UInt8
  | .forward => 0
  | .reverse => 1
  | .portMemo => 2

omit [Host] in
theorem FlowDirection.toByte_inj {d d' : FlowDirection} : d.toByte = d'.toByte ↔ d = d' := by
  cases d <;> cases d' <;> simp [toByte]

/-- `encode_flow_key`. -/
def encodeFlowKey (clientIp : Bytes 16) (clientPort : UInt16) (otherIp : Bytes 16)
    (otherPort : UInt16) (proto : UInt8) (direction : FlowDirection) : FlowKey :=
  encodeTcpFlowKey clientIp clientPort otherIp otherPort proto ++ #v[direction.toByte]

theorem encodeFlowKey_inj {c c' : Bytes 16} {cp cp' : UInt16} {o o' : Bytes 16} {op op' : UInt16}
    {p p' : UInt8} {d d' : FlowDirection} :
    encodeFlowKey c cp o op p d = encodeFlowKey c' cp' o' op' p' d' ↔
      c = c' ∧ cp = cp' ∧ o = o' ∧ op = op' ∧ p = p' ∧ d = d' := by
  constructor
  · intro h
    obtain ⟨h, hd⟩ := Vector.append_inj h
    obtain ⟨hc, hcp, ho, hop, hp⟩ := encodeTcpFlowKey_inj.mp h
    exact ⟨hc, hcp, ho, hop, hp, FlowDirection.toByte_inj.mp (by simpa using hd)⟩
  · rintro ⟨rfl, rfl, rfl, rfl, rfl, rfl⟩
    rfl

/-- The protocol byte of a key (`key[TCP_FLOW_KEY_LEN - 1]`). -/
def FlowKey.proto (key : FlowKey) : UInt8 := key[36]

/-- `flow_key_direction`: the role the tag byte names, `none` for a tag the dataplane never writes. -/
def flowKeyDirection (key : FlowKey) : Option FlowDirection :=
  if key[37] = FlowDirection.forward.toByte then some .forward
  else if key[37] = FlowDirection.reverse.toByte then some .reverse
  else if key[37] = FlowDirection.portMemo.toByte then some .portMemo
  else none

@[simp] theorem proto_encodeFlowKey (c : Bytes 16) (cp : UInt16) (o : Bytes 16) (op : UInt16) (p : UInt8)
    (d : FlowDirection) : FlowKey.proto (encodeFlowKey c cp o op p d) = p := by
  simp only [FlowKey.proto, encodeFlowKey, encodeTcpFlowKey]
  rw [Vector.getElem_append_left (by omega), Vector.getElem_append_right (by omega) (by omega)]
  rfl

@[simp] theorem flowKeyDirection_encodeFlowKey (c : Bytes 16) (cp : UInt16) (o : Bytes 16) (op : UInt16)
    (p : UInt8) (d : FlowDirection) : flowKeyDirection (encodeFlowKey c cp o op p d) = some d := by
  have htag : (encodeFlowKey c cp o op p d)[37] = d.toByte := by
    simp only [encodeFlowKey]
    rw [Vector.getElem_append_right (by omega) (by omega)]
    rfl
  simp only [flowKeyDirection, htag, FlowDirection.toByte_inj]
  cases d <;> rfl

end Beep
