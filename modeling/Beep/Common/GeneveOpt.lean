import Beep.Common.Values

/-!
# `Common.GeneveOpt` — the two tunnel options

The forward leg carries the chosen pod and its target port, the return leg echoes the front. Both are one
24-byte Geneve option: class, type, length word, a 16-byte address, a port and two bytes of padding. What one
end of the tunnel encodes the other end decodes (`decodePodIdOption_encode`, `decodeFrontEcho_encode`).
-/

namespace Beep

variable [Host]

/-- `GENEVE_OPT_CLASS.to_ne_bytes()`: the big-endian bytes of `0xffff`. -/
def geneveOptClass : Bytes 2 := Vector.replicate 2 0xff
/-- `GENEVE_OPT_TYPE_POD_ID`. -/
def geneveOptTypePodId : UInt8 := 0x01
/-- `GENEVE_OPT_TYPE_FRONT_ECHO`. -/
def geneveOptTypeFrontEcho : UInt8 := 0x02
/-- The option data length in 4-byte words. -/
def geneveOptWords : UInt8 := 5

/-- A 24-byte option of some type around an address and a port. -/
def geneveOption (type : UInt8) (ip : Bytes 16) (port : UInt16) : Bytes 24 :=
  geneveOptClass ++ (#v[type, geneveOptWords] : Bytes 2) ++ ip ++ Host.endian.u16Bytes port ++
    (#v[0, 0] : Bytes 2)

/-- The address and the port of an option. -/
def geneveOptionBody (opt : Bytes 24) : Bytes 16 × UInt16 :=
  (Bytes.slice opt 4 16 (by omega), Host.endian.u16OfBytes (Bytes.slice opt 20 2 (by omega)))

/-- `encode_pod_id_option`. -/
def encodePodIdOption (podIp : Bytes 16) (targetPort : UInt16) : Bytes 24 :=
  geneveOption geneveOptTypePodId podIp targetPort

/-- `decode_pod_id_option`: `none` unless class, type and length word all match. -/
def decodePodIdOption (opt : Bytes 24) : Option (Bytes 16 × UInt16) :=
  if Bytes.slice opt 0 2 (by omega) ≠ geneveOptClass ∨ opt[2] ≠ geneveOptTypePodId ∨
      opt[3] ≠ geneveOptWords then none
  else some (geneveOptionBody opt)

/-- The option `try_uplink_egress_return_headers` builds: the front a reply belongs to. -/
def encodeFrontEcho (frontIp : Bytes 16) (frontPort : UInt16) : Bytes 24 :=
  geneveOption geneveOptTypeFrontEcho frontIp frontPort

/-- The check and the reads of `try_geneve_decap_return`; unlike the forward option's, the length word is
    not compared. -/
def decodeFrontEcho (opt : Bytes 24) : Option (Bytes 16 × UInt16) :=
  if Bytes.slice opt 0 2 (by omega) ≠ geneveOptClass ∨ opt[2] ≠ geneveOptTypeFrontEcho then none
  else some (geneveOptionBody opt)

/-- The type byte of an option. -/
def optType (opt : Bytes 24) : UInt8 := opt[2]

/-- The length word of an option. -/
def optWords (opt : Bytes 24) : UInt8 := opt[3]

theorem slice_class_geneveOption (type : UInt8) (ip : Bytes 16) (port : UInt16) :
    Bytes.slice (geneveOption type ip port) 0 2 (by omega) = geneveOptClass := by
  rw [geneveOption, Bytes.slice_append_left, Bytes.slice_append_left, Bytes.slice_append_left,
    Bytes.slice_append_left, Bytes.slice_all] <;> omega

theorem getElem_type_geneveOption (type : UInt8) (ip : Bytes 16) (port : UInt16) :
    (geneveOption type ip port)[2] = type ∧ (geneveOption type ip port)[3] = geneveOptWords := by
  constructor <;>
  · simp only [geneveOption]
    rw [Vector.getElem_append_left (by omega), Vector.getElem_append_left (by omega),
      Vector.getElem_append_left (by omega), Vector.getElem_append_right (by omega) (by omega)]
    rfl

theorem geneveOptionBody_geneveOption (type : UInt8) (ip : Bytes 16) (port : UInt16) :
    geneveOptionBody (geneveOption type ip port) = (ip, port) := by
  have hip : Bytes.slice (geneveOption type ip port) 4 16 (by omega) = ip := by
    rw [geneveOption, Bytes.slice_append_left, Bytes.slice_append_left, Bytes.slice_append_right]
    · exact Bytes.slice_all _ _
    all_goals omega
  have hport : Bytes.slice (geneveOption type ip port) 20 2 (by omega) = Host.endian.u16Bytes port := by
    rw [geneveOption, Bytes.slice_append_left, Bytes.slice_append_right]
    · exact Bytes.slice_all _ _
    all_goals omega
  rw [geneveOptionBody, hip, hport, Endian.u16OfBytes_u16Bytes]

@[simp] theorem decodePodIdOption_encode (podIp : Bytes 16) (targetPort : UInt16) :
    decodePodIdOption (encodePodIdOption podIp targetPort) = some (podIp, targetPort) := by
  obtain ⟨htype, hwords⟩ := getElem_type_geneveOption geneveOptTypePodId podIp targetPort
  have hclass := slice_class_geneveOption geneveOptTypePodId podIp targetPort
  unfold decodePodIdOption encodePodIdOption
  rw [hclass, htype, hwords, if_neg (by simp), geneveOptionBody_geneveOption]

@[simp] theorem decodeFrontEcho_encode (frontIp : Bytes 16) (frontPort : UInt16) :
    decodeFrontEcho (encodeFrontEcho frontIp frontPort) = some (frontIp, frontPort) := by
  obtain ⟨htype, _⟩ := getElem_type_geneveOption geneveOptTypeFrontEcho frontIp frontPort
  have hclass := slice_class_geneveOption geneveOptTypeFrontEcho frontIp frontPort
  unfold decodeFrontEcho encodeFrontEcho
  rw [hclass, htype, if_neg (by simp), geneveOptionBody_geneveOption]

end Beep
