import Beep.Common.Decisions
import Beep.Common.FlowStep

/-!
# `Ebpf.Skb` — packets and the kernel helpers that read and rewrite them

A packet is its bytes, the length of its linear head, and the metadata the programs read and write: the
tunnel it was decapsulated from, the tunnel it is to be sent through, the mark and the interfaces. Values
read off a packet are raw wire tokens, bytes copied into an integer of the host.

A helper that the kernel may refuse (`HelperCall`, one constructor per call site, each reached at most once
in one run of a program) is answered by an arbitrary function; a refused call changes nothing. Rewriting a
packet is a sequence of such calls that stops at the first refusal with the packet as it is then (`Edit`).
-/

namespace Beep

/-- The call sites of fallible helpers. -/
inductive HelperCall where
  | flowInsert
  | memoInsert
  | pendingInsert
  | pendingRemove
  | setTunnelKey
  | setTunnelOpt
  | changeHead
  | storeEthertype
  | redirect
  | changeType
  | remapCsum
  | remapStore
  | ipCsum
  | addrCsum (word : Nat)
  | portCsum
  | addrStore
  | portStore
  deriving DecidableEq

/-- What the kernel answers to each fallible call of one program run. -/
abbrev Helpers := HelperCall → Bool

/-- The remote of a tunnel key, in the union arm of its family. -/
inductive TunnelRemote where
  | v4 (addr : UInt32)
  | v6 (words : Vector UInt32 4)
  deriving DecidableEq

/-- Tunnel metadata: remote, VNI and option bytes. -/
structure TunnelInfo where
  remote : TunnelRemote
  tunnelId : UInt32
  options : List UInt8
  deriving DecidableEq

/-- A packet as a tc program sees it. -/
structure Skb where
  data : List UInt8
  linear : Nat
  mark : UInt32
  ingressIfindex : UInt32
  ifindex : UInt32
  /-- the tunnel the packet came out of -/
  received : Option TunnelInfo
  /-- the tunnel metadata stamped on it -/
  stamped : Option TunnelInfo
  /-- whether its type is `PACKET_HOST` -/
  host : Bool
  deriving DecidableEq

/-- The verdict of a program; a redirect names its device, and whether the neighbour is resolved. -/
inductive TcAction where
  | ok
  | shot
  | redirect (ifindex : UInt32) (neigh : Bool)
  deriving DecidableEq

/-! ## Reads -/

/-- How a program reads bytes: an offset and a length. -/
abbrev Loader := Nat → (n : Nat) → Option (Bytes n)

namespace Skb

/-- `TcContext::load`. -/
def load (skb : Skb) : Loader := fun off n => Buffer.loadBytes n skb.data off

/-- `load_direct`: the linear head only. -/
def loadDirect (skb : Skb) : Loader := fun off n =>
  if off + n ≤ skb.linear then Buffer.loadBytes n skb.data off else none

/-- `bpf_skb_get_tunnel_opt` into a buffer of 24 bytes: the length of the options and the zero-padded
    buffer, `none` when there are none or they do not fit. -/
def getTunnelOpt (skb : Skb) : Option (Nat × Bytes 24) :=
  match skb.received with
  | none => none
  | some info =>
      if info.options = [] ∨ info.options.length > 24 then none
      else some (info.options.length, Vector.ofFn fun i => info.options.getD i 0)

end Skb

section
variable [Host]

/-- `load::<u8>`. -/
def Loader.u8 (load : Loader) (off : Nat) : Option UInt8 := (load off 1).map fun b => b[0]

/-- `load::<u16>`. -/
def Loader.u16 (load : Loader) (off : Nat) : Option UInt16 := (load off 2).map Host.endian.u16OfBytes

/-! ## Header layouts -/

/-- The two address families of the inner packet. -/
inductive Family where
  | v4
  | v6
  deriving DecidableEq

/-- `ETH_HLEN`. -/
def ethHlen : Nat := 14

namespace Family

/-- `ETH_P_IPV4` and `ETH_P_IPV6`, as wire tokens. -/
def ethertype : Family → UInt16
  | .v4 => Host.endian.u16OfBytes #v[0x08, 0x00]
  | .v6 => Host.endian.u16OfBytes #v[0x86, 0xdd]

/-- The IP version. -/
def version : Family → UInt8
  | .v4 => 4
  | .v6 => 6

/-- Offset of the protocol (or next header) in the IP header. -/
def protoOff : Family → Nat
  | .v4 => 9
  | .v6 => 6

/-- Offset of the source address. -/
def srcOff : Family → Nat
  | .v4 => 12
  | .v6 => 8

/-- Offset of the destination address. -/
def dstOff : Family → Nat
  | .v4 => 16
  | .v6 => 24

/-- Length of an address. -/
def addrLen : Family → Nat
  | .v4 => 4
  | .v6 => 16

/-- `IP_HLEN` and `IP6_HLEN`. -/
def ipHlen : Family → Nat
  | .v4 => 20
  | .v6 => 40

/-- An address in the 16-byte shape: an IPv4 wire token is embedded, an IPv6 address is taken as it is. -/
def loadAddr (load : Loader) (off : Nat) : Family → Option (Bytes 16)
  | .v4 => (load off 4).map fun b => ipv4MappedV6 (Host.endian.u32OfBytes b)
  | .v6 => load off 16

/-- The family an EtherType names. -/
def ofEthertype (ethertype : UInt16) : Option Family :=
  if ethertype = Family.v4.ethertype then some .v4
  else if ethertype = Family.v6.ethertype then some .v6
  else none

/-- The family an IP version names. -/
def ofVersion (version : UInt8) : Option Family :=
  if version = 4 then some .v4 else if version = 6 then some .v6 else none

end Family

/-- `tcp_flags_direct`: the TCP flags byte, `0` for any other protocol. -/
def tcpFlagsDirect (skb : Skb) (proto : UInt8) (l4Off : Nat) : Option UInt8 :=
  if proto = ipprotoTcp then skb.load.u8 (l4Off + 13) else some 0

end

/-! ## Checksums -/

/-- One's-complement addition of 32-bit words (`csum_add`). -/
def csumAdd (a b : UInt32) : UInt32 :=
  let s := a + b
  if s < a then s + 1 else s

/-- `csum_fold`. -/
def csumFold (sum : UInt32) : UInt16 :=
  let s : UInt32 := (sum &&& (0xffff : UInt32)) + (sum >>> 16)
  let s : UInt32 := (s &&& (0xffff : UInt32)) + (s >>> 16)
  ~~~ s.toUInt16

/-- The incremental update of a 16-bit checksum field when a word changes. -/
def csumReplace (sum : UInt16) (old new : UInt32) : UInt16 :=
  csumFold (csumAdd (csumAdd (~~~ sum.toUInt32) (~~~ old)) new)

/-! ## Rewriting -/

/-- A step of a rewrite: the packet after it, and whether to go on. -/
abbrev Edit := Skb → Skb × Bool

namespace Edit

/-- One edit, and the next unless it was refused. -/
def andThen (a b : Edit) : Edit := fun skb =>
  match a skb with
  | (skb', true) => b skb'
  | (skb', false) => (skb', false)

/-- Nothing to do. -/
def done : Edit := fun skb => (skb, true)

/-- `TcContext::store`. -/
def store {n : Nat} (ok : Bool) (off : Nat) (v : Bytes n) : Edit := fun skb =>
  match if ok then Buffer.storeBytes skb.data off v else none with
  | some data => ({ skb with data }, true)
  | none => (skb, false)

section
variable [Host]

/-- `l3_csum_replace` and `l4_csum_replace`: the checksum field at `off`, updated for a changed word. -/
def csum (ok : Bool) (off : Nat) (old new : UInt32) : Edit := fun skb =>
  match skb.load.u16 off with
  | some sum => store ok off (Host.endian.u16Bytes (csumReplace sum old new)) skb
  | none => (skb, false)

/-- The 32-bit word of an address at `off`. -/
def addrWord (addr : Bytes 16) (off : Nat) (h : off + 4 ≤ 16) : UInt32 :=
  Host.endian.u32OfBytes (Bytes.slice addr off 4 h)

/-- The offset of the L4 checksum field. -/
def l4CsumOff (l4Off : Nat) (proto : UInt8) : Nat :=
  if proto = ipprotoTcp then l4Off + 16 else l4Off + 6

/-- `rewrite_ip_port`: one IPv4 address and one port, with the IP and L4 checksums. All offsets are those of
    `geneve0`'s Ethernet frames. -/
def rewriteIpPort (h : Helpers) (ipOff : Nat) (oldIp newIp : UInt32) (portOff : Nat)
    (oldPort newPort : UInt16) (proto : UInt8) : Edit :=
  let l4Off := ethHlen + Family.v4.ipHlen
  let csumOff := l4CsumOff l4Off proto
  -- whether UDP's checksum is disabled is read before anything is written
  fun skb =>
    match if proto = ipprotoUdp then (skb.load.u16 (l4Off + 6)).map (· == 0) else some false with
    | none => (skb, false)
    | some disabled =>
        let ipFix : Edit := match addressRewriteChecksums false with
          | .ipv4HeaderAndL4Pseudo => csum (h .ipCsum) (ethHlen + 10) oldIp newIp
          | .l4PseudoOnly => done
        let l4Fix : Edit := if disabled then done else
          andThen (csum (h (.addrCsum 0)) csumOff oldIp newIp)
            (csum (h .portCsum) csumOff oldPort.toUInt32 newPort.toUInt32)
        andThen ipFix (andThen l4Fix
          (andThen (store (h .addrStore) ipOff (Host.endian.u32Bytes newIp))
            (store (h .portStore) portOff (Host.endian.u16Bytes newPort)))) skb

/-- `rewrite_ipv6_port`: one IPv6 address and one port; there is no IP checksum, and the L4 one is updated a
    word at a time. -/
def rewriteIpv6Port (h : Helpers) (ipOff : Nat) (oldIp newIp : Bytes 16) (portOff : Nat)
    (oldPort newPort : UInt16) (proto : UInt8) (l4CsumOff udpCsumOff : Nat) : Edit := fun skb =>
  match if proto = ipprotoUdp then (skb.load.u16 udpCsumOff).map (· == 0) else some false with
  | none => (skb, false)
  | some disabled =>
      let word := fun i (hi : i * 4 + 4 ≤ 16) =>
        csum (h (.addrCsum i)) l4CsumOff (addrWord oldIp (i * 4) hi) (addrWord newIp (i * 4) hi)
      let l4Fix : Edit := if disabled then done else
        andThen (word 0 (by omega)) (andThen (word 1 (by omega)) (andThen (word 2 (by omega))
          (andThen (word 3 (by omega))
            (csum (h .portCsum) l4CsumOff oldPort.toUInt32 newPort.toUInt32))))
      andThen l4Fix (andThen (store (h .addrStore) ipOff newIp)
        (store (h .portStore) portOff (Host.endian.u16Bytes newPort))) skb

/-- `rewrite_l4_port`: one port, no address; nothing to do when it does not change. -/
def rewriteL4Port (h : Helpers) (l4Off portOff : Nat) (oldPort newPort : UInt16) (proto : UInt8) : Edit :=
  if oldPort = newPort then done
  else fun skb =>
    let udpCsumOff := l4Off + 6
    let setPort := store (h .remapStore) portOff (Host.endian.u16Bytes newPort)
    let fixAndSet := andThen
      (csum (h .remapCsum) (l4CsumOff l4Off proto) oldPort.toUInt32 newPort.toUInt32) setPort
    if proto = ipprotoUdp then
      match skb.load.u16 udpCsumOff with
      | none => (skb, false)
      | some sum => if sum = 0 then setPort skb else fixAndSet skb
    else fixAndSet skb

/-- The address rewrite of a family on `geneve0`. The IPv4 path works on wire tokens, so it takes both
    addresses out of the 16-byte shape first; a new address that is not an IPv4 one stops the run before
    anything is written. -/
def rewriteAddrPort (h : Helpers) (ipOff : Nat) (oldIp newIp : Bytes 16) (portOff : Nat)
    (oldPort newPort : UInt16) (proto : UInt8) : Family → Edit
  | .v4 => fun skb =>
      match unmapIpv4 oldIp, unmapIpv4 newIp with
      | some old, some new => rewriteIpPort h ipOff old new portOff oldPort newPort proto skb
      | _, _ => (skb, false)
  | .v6 =>
      let l4Off := ethHlen + Family.v6.ipHlen
      rewriteIpv6Port h ipOff oldIp newIp portOff oldPort newPort proto (l4CsumOff l4Off proto) (l4Off + 6)

end

end Edit

/-! ## Packets to evaluate on -/

/-- A little-endian host. -/
abbrev littleHost : Host := ⟨.little⟩

/-- A UDP packet over IPv4 in an Ethernet frame, with no payload and no checksum. -/
def udpFrame (src dst : Bytes 4) (srcPort dstPort : Bytes 2) : List UInt8 :=
  List.replicate 12 0 ++ [0x08, 0x00] ++ [0x45, 0, 0, 28, 0, 0, 0, 0, 64, 17, 0, 0] ++
    src.toList ++ dst.toList ++ srcPort.toList ++ dstPort.toList ++ [0, 8, 0, 0]

theorem size_pair (a b : UInt8) : #[a, b].size = 2 := rfl

/-- The bytes of a port. -/
def pair (a b : UInt8) : Bytes 2 := ⟨#[a, b], size_pair a b⟩

/-- The bytes of an IPv4 address. -/
def quad (a b c d : UInt8) : Bytes 4 := #v[a, b, c, d]

/-- An IPv4 address in the 16-byte shape. -/
def mappedAddr [Host] (a b c d : UInt8) : Bytes 16 := ipv4MappedV6 (Host.endian.u32OfBytes (quad a b c d))

end Beep
