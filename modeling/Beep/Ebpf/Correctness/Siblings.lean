import Beep.Ebpf.Tunnel
import Beep.Ebpf.Correctness.ReverseRows

/-!
# `Ebpf.Correctness.Siblings` — the IPv4 and the IPv6 programs do the same

Every path exists twice, once per family of the inner packet. Two packets are twins if they say the same, one
over IPv4 and one over IPv6 with the mapped addresses, and have the same bytes behind the IP header. On twins
the two siblings read the same flow, so they write the same rows; their edits behind the IP header stay in
step; and the address rewrites, which fix different checksums, go through on one exactly when they do on the
other. What follows is that they write the same maps, return the same verdict, stamp the same metadata and
leave packets that say the same.
-/

namespace Beep

section
variable [Host]

/-! ## Twins -/

/-- An IPv4 packet without options and the IPv6 packet that says the same. -/
structure Twins (l2Hlen : Nat) (skb skb6 : Skb) : Prop where
  rest : skb6 = { skb with data := skb6.data, linear := skb.linear + 20 }
  length : skb6.data.length = skb.data.length + 20
  whole : l2Hlen + 20 ≤ skb.data.length
  ethertype : l2Hlen = ethHlen →
    skb.load.u16 12 = some Family.v4.ethertype ∧ skb6.load.u16 12 = some Family.v6.ethertype
  version : ∃ ver, skb.load.u8 l2Hlen = some ver ∧ Family.v4.uplinkHeaderOk ver = true
  version6 : ∃ ver, skb6.load.u8 l2Hlen = some ver ∧ Family.v6.uplinkHeaderOk ver = true
  proto : skb6.load.u8 (l2Hlen + Family.v6.protoOff) = skb.load.u8 (l2Hlen + Family.v4.protoOff)
  srcIp : Family.v6.loadAddr skb6.load (l2Hlen + Family.v6.srcOff) =
    Family.v4.loadAddr skb.load (l2Hlen + Family.v4.srcOff)
  dstIp : Family.v6.loadAddr skb6.load (l2Hlen + Family.v6.dstOff) =
    Family.v4.loadAddr skb.load (l2Hlen + Family.v4.dstOff)
  l4 : ∀ i, skb6.data.getD (l2Hlen + 40 + i) 0 = skb.data.getD (l2Hlen + 20 + i) 0

section
variable {l2Hlen : Nat} {skb skb6 : Skb}

/-- A read behind the IP header. -/
theorem Twins.load (h : Twins l2Hlen skb skb6) (i n : Nat) :
    skb6.load (l2Hlen + Family.v6.ipHlen + i) n = skb.load (l2Hlen + Family.v4.ipHlen + i) n := by
  show Buffer.loadBytes n skb6.data (l2Hlen + 40 + i) = Buffer.loadBytes n skb.data (l2Hlen + 20 + i)
  unfold Buffer.loadBytes
  have hfit : l2Hlen + 40 + i + n ≤ skb6.data.length ↔ l2Hlen + 20 + i + n ≤ skb.data.length := by
    rw [h.length]
    omega
  have hbytes : (Vector.ofFn fun j : Fin n => skb6.data.getD (l2Hlen + 40 + i + j) 0) =
      Vector.ofFn fun j : Fin n => skb.data.getD (l2Hlen + 20 + i + j) 0 := by
    refine congrArg _ (funext fun j => ?_)
    rw [Nat.add_assoc _ i, h.l4, Nat.add_assoc _ i]
  simp only [hfit, hbytes]

/-- The ports and the checksum among them. -/
theorem Twins.u16 (h : Twins l2Hlen skb skb6) (i : Nat) :
    skb6.load.u16 (l2Hlen + Family.v6.ipHlen + i) = skb.load.u16 (l2Hlen + Family.v4.ipHlen + i) := by
  rw [Loader.u16, h.load, Loader.u16]

/-- The flags byte is behind the IP header. -/
theorem Twins.tcpFlags (h : Twins l2Hlen skb skb6) (proto : UInt8) :
    tcpFlagsDirect skb6 proto (l2Hlen + Family.v6.ipHlen) =
      tcpFlagsDirect skb proto (l2Hlen + Family.v4.ipHlen) := by
  unfold tcpFlagsDirect
  rw [Loader.u8, h.load, Loader.u8]

/-- Twins say the same. -/
theorem Twins.carries (h : Twins l2Hlen skb skb6) {q : InnerPacket} :
    Carries skb.load .v4 l2Hlen q ↔ Carries skb6.load .v6 l2Hlen q := by
  have hsrc := h.u16 0
  have hdst := h.u16 2
  simp only [Nat.add_zero] at hsrc
  constructor
  · intro hq
    exact ⟨h.proto.trans hq.proto, h.srcIp.trans hq.srcIp, hsrc.trans hq.srcPort, h.dstIp.trans hq.dstIp,
      hdst.trans hq.dstPort⟩
  · intro hq
    exact ⟨h.proto.symm.trans hq.proto, h.srcIp.symm.trans hq.srcIp, hsrc.symm.trans hq.srcPort,
      h.dstIp.symm.trans hq.dstIp, hdst.symm.trans hq.dstPort⟩

/-- On `geneve0` twins are read the same. -/
theorem Twins.parseInner (h : Twins ethHlen skb skb6) : parseInner .v6 skb6 = parseInner .v4 skb := by
  obtain ⟨ver, hver, hok⟩ := h.version
  have hihl : ver &&& 0x0f = 5 := by
    simp only [Family.uplinkHeaderOk, Bool.and_eq_true, decide_eq_true_eq] at hok
    exact hok.2
  have hsrc := h.u16 0
  have hdst := h.u16 2
  simp only [Nat.add_zero] at hsrc
  simp only [Beep.parseInner, Family.innerHeaderOk, hver, Option.map_some, hihl, decide_true, h.proto, h.srcIp,
    h.dstIp, hsrc, hdst]

/-! ## Edits in step -/

/-- A store behind the IP header keeps twins twins. -/
theorem Twins.store {n : Nat} (h : Twins l2Hlen skb skb6) (ok : Bool) (i : Nat) (v : Bytes n) :
    (Edit.store ok (l2Hlen + Family.v6.ipHlen + i) v skb6).2 =
        (Edit.store ok (l2Hlen + Family.v4.ipHlen + i) v skb).2 ∧
      Twins l2Hlen (Edit.store ok (l2Hlen + Family.v4.ipHlen + i) v skb).1
        (Edit.store ok (l2Hlen + Family.v6.ipHlen + i) v skb6).1 := by
  have hfit : l2Hlen + 40 + i + n ≤ skb6.data.length ↔ l2Hlen + 20 + i + n ≤ skb.data.length := by
    rw [h.length]
    omega
  show (Edit.store ok (l2Hlen + 40 + i) v skb6).2 = (Edit.store ok (l2Hlen + 20 + i) v skb).2 ∧
    Twins l2Hlen (Edit.store ok (l2Hlen + 20 + i) v skb).1 (Edit.store ok (l2Hlen + 40 + i) v skb6).1
  by_cases hgo : ok = true ∧ l2Hlen + 20 + i + n ≤ skb.data.length
  · obtain ⟨rfl, hlen⟩ := hgo
    have hdata : Buffer.storeBytes skb.data (l2Hlen + 20 + i) v = some _ := if_pos hlen
    have hdata6 : Buffer.storeBytes skb6.data (l2Hlen + 40 + i) v = some _ := if_pos (hfit.mpr hlen)
    generalize skb.data.take (l2Hlen + 20 + i) ++ v.toList ++ skb.data.drop (l2Hlen + 20 + i + n) = data at hdata
    generalize skb6.data.take (l2Hlen + 40 + i) ++ v.toList ++ skb6.data.drop (l2Hlen + 40 + i + n) = data6
      at hdata6
    have hres : Edit.store true (l2Hlen + 20 + i) v skb = ({ skb with data }, true) := by
      simp only [Edit.store, if_true, hdata]
    have hres6 : Edit.store true (l2Hlen + 40 + i) v skb6 = ({ skb6 with data := data6 }, true) := by
      simp only [Edit.store, if_true, hdata6]
    obtain ⟨hsame, _⟩ := Edit.store_eq_true hres
    obtain ⟨hsame6, _⟩ := Edit.store_eq_true hres6
    rw [hres, hres6]
    refine ⟨rfl, ?_⟩
    -- the IP headers are where they were
    have hhead : ∀ j m, j + m ≤ l2Hlen + 20 → ({ skb with data } : Skb).load j m = skb.load j m :=
      fun j m hjm => hsame.load fun k hk hw => by unfold Within at hk hw; omega
    have hhead6 : ∀ j m, j + m ≤ l2Hlen + 40 → ({ skb6 with data := data6 } : Skb).load j m = skb6.load j m :=
      fun j m hjm => hsame6.load fun k hk hw => by unfold Within at hk hw; omega
    -- field by field: every field but the last is read in front of the store
    constructor
    · rw [h.rest]
    · rw [hsame.length, hsame6.length]
      exact h.length
    · rw [hsame.length]
      exact h.whole
    · rintro rfl
      obtain ⟨hether, hether6⟩ := h.ethertype rfl
      unfold Loader.u16 at hether hether6 ⊢
      rw [hhead _ _ (by unfold ethHlen; omega), hhead6 _ _ (by unfold ethHlen; omega)]
      exact ⟨hether, hether6⟩
    · rw [Loader.u8, hhead _ _ (by omega)]
      exact h.version
    · rw [Loader.u8, hhead6 _ _ (by omega)]
      exact h.version6
    · show (Skb.load _ (l2Hlen + 6) 1).map _ = (Skb.load _ (l2Hlen + 9) 1).map _
      rw [hhead _ _ (by omega), hhead6 _ _ (by omega)]
      exact h.proto
    · show Skb.load _ (l2Hlen + 8) 16 = (Skb.load _ (l2Hlen + 12) 4).map _
      rw [hhead _ _ (by omega), hhead6 _ _ (by omega)]
      exact h.srcIp
    · show Skb.load _ (l2Hlen + 24) 16 = (Skb.load _ (l2Hlen + 16) 4).map _
      rw [hhead _ _ (by omega), hhead6 _ _ (by omega)]
      exact h.dstIp
    · intro j
      show data6.getD _ 0 = data.getD _ 0
      rw [Buffer.getD_storeBytes hdata, Buffer.getD_storeBytes hdata6]
      -- behind it both have the bytes of the value at the same places
      by_cases hj : i ≤ j ∧ j < i + n
      · rw [dif_pos (by omega), dif_pos (by omega)]
        congr 1
        omega
      · rw [dif_neg (by omega), dif_neg (by omega)]
        exact h.l4 j
  · -- the call was refused, or the store does not fit: neither changes
    have hno : (if ok then Buffer.storeBytes skb.data (l2Hlen + 20 + i) v else none) = none := by
      cases ok with
      | false => rfl
      | true => exact if_neg fun hlen => hgo ⟨rfl, hlen⟩
    have hno6 : (if ok then Buffer.storeBytes skb6.data (l2Hlen + 40 + i) v else none) = none := by
      cases ok with
      | false => rfl
      | true => exact if_neg fun hlen => hgo ⟨rfl, hfit.mp hlen⟩
    simp only [Edit.store, hno, hno6]
    exact ⟨trivial, h⟩

/-- Both edits go through or neither does, and they leave twins. -/
def InStep (l2Hlen : Nat) (r r6 : Skb × Bool) : Prop := r6.2 = r.2 ∧ Twins l2Hlen r.1 r6.1

/-- One edit after another: the second starts from twins. -/
theorem InStep.andThen {a b a6 b6 : Edit} (ha : InStep l2Hlen (a skb) (a6 skb6))
    (hb : ∀ s s6, Twins l2Hlen s s6 → InStep l2Hlen (b s) (b6 s6)) :
    InStep l2Hlen (Edit.andThen a b skb) (Edit.andThen a6 b6 skb6) := by
  obtain ⟨hgo, htwins⟩ := ha
  unfold Edit.andThen
  rcases hres : a skb with ⟨s, _ | _⟩ <;> rcases hres6 : a6 skb6 with ⟨s6, _ | _⟩ <;>
    rw [hres, hres6] at hgo htwins
  · exact ⟨rfl, htwins⟩
  · cases hgo
  · cases hgo
  · exact hb s s6 htwins

/-- The last edit of a chain need only go through on both or neither. -/
theorem InStep.andThen_outcome {a b a6 b6 : Edit} (ha : InStep l2Hlen (a skb) (a6 skb6))
    (hb : ∀ s s6, Twins l2Hlen s s6 → (b6 s6).2 = (b s).2) :
    (Edit.andThen a6 b6 skb6).2 = (Edit.andThen a b skb).2 := by
  obtain ⟨hgo, htwins⟩ := ha
  unfold Edit.andThen
  rcases hres : a skb with ⟨s, ok⟩
  rcases hres6 : a6 skb6 with ⟨s6, ok6⟩
  rw [hres, hres6] at hgo htwins
  cases ok with
  | false =>
    cases hgo
    rfl
  | true =>
    cases hgo
    exact hb s s6 htwins

/-- A checksum behind the IP header is fixed on both by the same difference. -/
theorem Twins.csum (h : Twins l2Hlen skb skb6) (ok : Bool) (i : Nat) (old new : UInt32) :
    InStep l2Hlen (Edit.csum ok (l2Hlen + Family.v4.ipHlen + i) old new skb)
      (Edit.csum ok (l2Hlen + Family.v6.ipHlen + i) old new skb6) := by
  unfold Edit.csum
  rw [h.u16]
  cases skb.load.u16 (l2Hlen + Family.v4.ipHlen + i) with
  | none => exact ⟨rfl, h⟩
  | some sum => exact h.store ok i _

omit [Host] in
/-- The offset of the L4 checksum behind the IP header. -/
theorem l4CsumOff_eq (l4Off : Nat) (proto : UInt8) :
    Edit.l4CsumOff l4Off proto = l4Off + if proto = ipprotoTcp then 16 else 6 := by
  unfold Edit.l4CsumOff
  split <;> rfl

/-- **The port rewrite** of the two siblings is in step. -/
theorem Twins.rewriteL4Port (h : Twins l2Hlen skb skb6) (helpers : Helpers) (i : Nat) (oldPort newPort : UInt16)
    (proto : UInt8) :
    InStep l2Hlen
      (Edit.rewriteL4Port helpers (l2Hlen + Family.v4.ipHlen) (l2Hlen + Family.v4.ipHlen + i) oldPort newPort
        proto skb)
      (Edit.rewriteL4Port helpers (l2Hlen + Family.v6.ipHlen) (l2Hlen + Family.v6.ipHlen + i) oldPort newPort
        proto skb6) := by
  unfold Edit.rewriteL4Port
  by_cases hsame : oldPort = newPort
  · rw [if_pos hsame, if_pos hsame]
    exact ⟨rfl, h⟩
  · rw [if_neg hsame, if_neg hsame]
    simp only [l4CsumOff_eq, h.u16]
    have hset : ∀ s s6, Twins l2Hlen s s6 → InStep l2Hlen
        (Edit.store (helpers .remapStore) (l2Hlen + Family.v4.ipHlen + i) (Host.endian.u16Bytes newPort) s)
        (Edit.store (helpers .remapStore) (l2Hlen + Family.v6.ipHlen + i) (Host.endian.u16Bytes newPort) s6) :=
      fun s s6 htwins => htwins.store _ i _
    have hfix := InStep.andThen (h.csum (helpers .remapCsum) (if proto = ipprotoTcp then 16 else 6)
      oldPort.toUInt32 newPort.toUInt32) hset
    split
    · cases skb.load.u16 (l2Hlen + Family.v4.ipHlen + 6) with
      | none => exact ⟨rfl, h⟩
      | some sum =>
        simp only
        split
        · exact hset skb skb6 h
        · exact hfix
    · exact hfix

/-! ## Whether an edit goes through -/

/-- Whether the edit goes through depends on the length of the packet only, which it keeps. -/
def Edit.Outcome (P : Nat → Bool) (a : Edit) : Prop :=
  ∀ skb : Skb, (a skb).2 = P skb.data.length ∧ (a skb).1.data.length = skb.data.length

namespace Edit

omit [Host] in
/-- Nothing to do. -/
theorem Outcome.done : Edit.done.Outcome fun _ => true := fun _ => ⟨rfl, rfl⟩

omit [Host] in
/-- Both have to go through, and the first keeps the length for the second. -/
theorem Outcome.andThen {P Q : Nat → Bool} {a b : Edit} (ha : a.Outcome P) (hb : b.Outcome Q) :
    (Edit.andThen a b).Outcome fun len => P len && Q len := by
  intro skb
  obtain ⟨hgo, hlen⟩ := ha skb
  obtain ⟨hgo', hlen'⟩ := hb (a skb).1
  unfold Edit.andThen
  rcases hres : a skb with ⟨s, _ | _⟩
  · rw [hres] at hgo hlen
    refine ⟨?_, hlen⟩
    show false = (P skb.data.length && Q skb.data.length)
    rw [← hgo, Bool.false_and]
  · rw [hres] at hgo hlen hgo' hlen'
    refine ⟨?_, hlen'.trans hlen⟩
    show (b s).2 = (P skb.data.length && Q skb.data.length)
    rw [← hgo, ← hlen, hgo', Bool.true_and]

omit [Host] in
/-- A store goes through where its call does and the bytes are there. -/
theorem Outcome.store {n : Nat} (ok : Bool) (off : Nat) (v : Bytes n) :
    (Edit.store ok off v).Outcome fun len => ok && decide (off + n ≤ len) := by
  intro skb
  unfold Edit.store
  cases ok with
  | false => exact ⟨rfl, rfl⟩
  | true =>
    simp only [if_true, Bool.true_and]
    cases hdata : Buffer.storeBytes skb.data off v with
    | some data =>
      refine ⟨?_, Buffer.storeBytes_length hdata⟩
      unfold Buffer.storeBytes at hdata
      split at hdata
      · rename_i hfit
        exact (decide_eq_true hfit).symm
      · cases hdata
    | none =>
      refine ⟨?_, rfl⟩
      unfold Buffer.storeBytes at hdata
      split at hdata
      · cases hdata
      · rename_i hfit
        exact (decide_eq_false hfit).symm

/-- A checksum is read where it is stored, so nothing more is asked of the length. -/
theorem Outcome.csum (ok : Bool) (off : Nat) (old new : UInt32) :
    (Edit.csum ok off old new).Outcome fun len => ok && decide (off + 2 ≤ len) := by
  intro skb
  unfold Edit.csum
  cases hsum : skb.load.u16 off with
  | some sum => exact Outcome.store ok off _ skb
  | none =>
    refine ⟨?_, rfl⟩
    have hfit : ¬ off + 2 ≤ skb.data.length := by
      intro hfit
      obtain ⟨sum, hsum'⟩ := load_u16_isSome skb off hfit
      rw [hsum] at hsum'
      cases hsum'
    simp [hfit]

end Edit

/-- The calls only one of the two siblings makes, for the words of an address and the IPv4 header checksum, go
    through. -/
structure Helpers.ExtraCallsOk (h : Helpers) : Prop where
  ipCsum : h .ipCsum = true
  addrCsum : ∀ word, word ≠ 0 → h (.addrCsum word) = true

/-- **The address rewrite** goes through for one sibling exactly when it does for the other. -/
theorem Twins.rewriteAddrPort (ht : Twins ethHlen skb skb6) {h : Helpers} (hcalls : h.ExtraCallsOk)
    {oldIp newIp : Bytes 16} (hold : (unmapIpv4 oldIp).isSome) (hnew : (unmapIpv4 newIp).isSome)
    {ipOff ipOff6 : Nat} (hip : ipOff + 4 ≤ ethHlen + 20) (hip6 : ipOff6 + 16 ≤ ethHlen + 40) (i : Nat)
    (oldPort newPort : UInt16) (proto : UInt8) :
    (Edit.rewriteAddrPort h ipOff6 oldIp newIp (ethHlen + Family.v6.ipHlen + i) oldPort newPort proto .v6
        skb6).2 =
      (Edit.rewriteAddrPort h ipOff oldIp newIp (ethHlen + Family.v4.ipHlen + i) oldPort newPort proto .v4
        skb).2 := by
  obtain ⟨old, hold⟩ := Option.isSome_iff_exists.mp hold
  obtain ⟨new, hnew⟩ := Option.isSome_iff_exists.mp hnew
  have hread := ht.u16 6
  simp only [Edit.rewriteAddrPort, hold, hnew, Edit.rewriteIpPort, Edit.rewriteIpv6Port, l4CsumOff_eq, hread]
  cases (if proto = ipprotoUdp then (skb.load.u16 (ethHlen + Family.v4.ipHlen + 6)).map (· == 0)
    else some false) with
  | none => rfl
  | some disabled =>
    simp only [addressRewriteChecksums, Bool.false_eq_true, if_false]
    have hlen : skb6.data.length = skb.data.length + 20 := ht.length
    have hwhole : ethHlen + 20 ≤ skb.data.length := ht.whole
    have hv4 : Family.v4.ipHlen = 20 := rfl
    have hv6 : Family.v6.ipHlen = 40 := rfl
    cases disabled with
    -- no checksum in the packet: the stores are left, and the IPv4 header checksum
    | true =>
      simp only [if_true]
      rw [((Edit.Outcome.done.andThen ((Edit.Outcome.store _ _ _).andThen (.store _ _ _))) skb6).1,
        (((Edit.Outcome.csum _ _ _ _).andThen (Edit.Outcome.done.andThen
          ((Edit.Outcome.store _ _ _).andThen (.store _ _ _)))) skb).1]
      have h1 : decide (ethHlen + 10 + 2 ≤ skb.data.length) = true := decide_eq_true (by omega)
      have h2 : decide (ipOff + 4 ≤ skb.data.length) = true := decide_eq_true (by omega)
      have h3 : decide (ipOff6 + 16 ≤ skb6.data.length) = true := decide_eq_true (by omega)
      have h4 : (ethHlen + 40 + i + 2 ≤ skb6.data.length) = (ethHlen + 20 + i + 2 ≤ skb.data.length) :=
        propext (by omega)
      simp only [hcalls.ipCsum, h1, h2, h3, hv4, hv6, h4, Bool.true_and, Bool.and_true]
    -- five checksum calls on one side, three on the other; the extra ones go through
    | false =>
      simp only [Bool.false_eq_true, if_false]
      rw [((((Edit.Outcome.csum _ _ _ _).andThen ((Edit.Outcome.csum _ _ _ _).andThen
          ((Edit.Outcome.csum _ _ _ _).andThen ((Edit.Outcome.csum _ _ _ _).andThen
            (.csum _ _ _ _))))).andThen ((Edit.Outcome.store _ _ _).andThen (.store _ _ _))) skb6).1,
        (((Edit.Outcome.csum _ _ _ _).andThen (((Edit.Outcome.csum _ _ _ _).andThen (.csum _ _ _ _)).andThen
          ((Edit.Outcome.store _ _ _).andThen (.store _ _ _)))) skb).1]
      have h1 : decide (ethHlen + 10 + 2 ≤ skb.data.length) = true := decide_eq_true (by omega)
      have h2 : decide (ipOff + 4 ≤ skb.data.length) = true := decide_eq_true (by omega)
      have h3 : decide (ipOff6 + 16 ≤ skb6.data.length) = true := decide_eq_true (by omega)
      have h4 : ∀ j, (ethHlen + 40 + j + 2 ≤ skb6.data.length) = (ethHlen + 20 + j + 2 ≤ skb.data.length) :=
        fun j => propext (by omega)
      simp only [hcalls.ipCsum, hcalls.addrCsum 1 (by decide), hcalls.addrCsum 2 (by decide),
        hcalls.addrCsum 3 (by decide), h1, h2, h3, hv4, hv6, h4, Bool.true_and, Bool.and_self_left]
      grind

end

/-! ## The three pairs -/

/-- The length of the header in front of the packet a verdict leaves: what goes to `geneve0` has one. -/
def outHlen (l2Hlen : Nat) : TcAction → Nat
  | .redirect _ _ => ethHlen
  | _ => l2Hlen

/-- Two runs come to the same, where the program answers a failed `?` with `onFail`: the same maps, the same
    verdict, and unless the packet is dropped the same metadata and the same addresses and ports. -/
structure SameRun (l2Hlen : Nat) (onFail : TcAction) (r r6 : HookResult) : Prop where
  maps : r6.1 = r.1
  verdict : r6.2.2.getD onFail = r.2.2.getD onFail
  stamped : r.2.2.getD onFail ≠ .shot → r6.2.1.stamped = r.2.1.stamped
  packet : r.2.2.getD onFail ≠ .shot → ∀ q,
    Carries r.2.1.load .v4 (outHlen l2Hlen (r.2.2.getD onFail)) q ↔
      Carries r6.2.1.load .v6 (outHlen l2Hlen (r.2.2.getD onFail)) q

section
variable {l2Hlen : Nat} {skb skb6 : Skb} {h : Helpers}

/-- Twins have the same metadata. -/
theorem Twins.stamped (ht : Twins l2Hlen skb skb6) : skb6.stamped = skb.stamped := by rw [ht.rest]

/-- Packets left as they are. -/
theorem Twins.sameRun (ht : Twins l2Hlen skb skb6) (n : Node) {onFail : TcAction} {v v6 : Option TcAction}
    (hv : v6.getD onFail = v.getD onFail) (hout : outHlen l2Hlen (v.getD onFail) = l2Hlen) :
    SameRun l2Hlen onFail (n, skb, v) (n, skb6, v6) where
  maps := rfl
  verdict := hv
  stamped _ := ht.stamped
  packet _ q := by
    show Carries skb.load .v4 (outHlen l2Hlen (v.getD onFail)) q ↔
      Carries skb6.load .v6 (outHlen l2Hlen (v.getD onFail)) q
    rw [hout]
    exact ht.carries

omit [Host] in
/-- On `geneve0` every verdict leaves the Ethernet header in front. -/
theorem outHlen_eth (v : TcAction) : outHlen ethHlen v = ethHlen := by
  cases v <;> rfl

/-- A dropped packet. -/
theorem sameRun_dropped (n : Node) (s s6 : Skb) : SameRun ethHlen .shot (n, s, none) (n, s6, none) :=
  ⟨rfl, rfl, fun hshot => absurd rfl hshot, fun hshot => absurd rfl hshot⟩

/-- Frames that say the same on `geneve0`. -/
theorem carries_iff_of_innerPacket {out out6 : Skb} {q₀ : InnerPacket} (hout : innerPacket out = some (.v4, q₀))
    (hout6 : innerPacket out6 = some (.v6, q₀)) (q : InnerPacket) :
    Carries out.load .v4 ethHlen q ↔ Carries out6.load .v6 ethHlen q := by
  have hq := (innerPacket_iff.mp hout).2.2.2
  have hq6 := (innerPacket_iff.mp hout6).2.2.2
  constructor
  · intro hc
    rw [hc.unique hq]
    exact hq6
  · intro hc
    rw [hc.unique hq6]
    exact hq

/-- What twins on `geneve0` are read as. -/
theorem Twins.innerPacket (ht : Twins ethHlen skb skb6) {q : InnerPacket}
    (hq : Beep.parseInner .v4 skb = some (some q)) :
    Beep.innerPacket skb = some (.v4, q) ∧ Beep.innerPacket skb6 = some (.v6, q) := by
  obtain ⟨hether, hether6⟩ := ht.ethertype rfl
  refine ⟨innerPacket_eq_some.mpr ⟨_, hether, ofEthertype_ethertype .v4, hq⟩,
    innerPacket_eq_some.mpr ⟨_, hether6, ofEthertype_ethertype .v6, ?_⟩⟩
  rw [ht.parseInner, hq]

/-- An address an IPv4 packet carries is a mapped one. -/
theorem mapped_of_parseInner {q : InnerPacket} (hq : Beep.parseInner .v4 skb = some (some q)) :
    (unmapIpv4 q.srcIp).isSome ∧ (unmapIpv4 q.dstIp).isSome := by
  obtain ⟨_, _, hc⟩ := parseInner_eq_some.mp hq
  obtain ⟨src, _, hsrc⟩ := Option.map_eq_some_iff.mp hc.srcIp
  obtain ⟨dst, _, hdst⟩ := Option.map_eq_some_iff.mp hc.dstIp
  rw [← hsrc, ← hdst, unmapIpv4_ipv4MappedV6, unmapIpv4_ipv4MappedV6]
  exact ⟨rfl, rfl⟩

/-- **Forward decapsulation.** -/
theorem Twins.decapForward (ht : Twins ethHlen skb skb6) (hcalls : h.ExtraCallsOk) (n : Node) (info : TunnelInfo)
    {podIp : Bytes 16} (hpod : (unmapIpv4 podIp).isSome) (targetPort : UInt16) :
    SameRun ethHlen .shot (tryGeneveDecapForwardV4 n h skb info podIp targetPort)
      (tryGeneveDecapForwardV6 n h skb6 info podIp targetPort) := by
  unfold tryGeneveDecapForwardV4 tryGeneveDecapForwardV6 geneveDecapForward withInner
  rw [ht.parseInner]
  cases hparse : Beep.parseInner .v4 skb with
  | none => exact sameRun_dropped ..
  | some parsed =>
    cases parsed with
    | none => exact ht.sameRun n rfl rfl
    | some inner =>
      let p := inner.toForward .v4 info podIp targetPort
      let p6 := inner.toForward .v6 info podIp targetPort
      show SameRun ethHlen .shot (deliverForward n h skb p) (deliverForward n h skb6 p6)
      have hcommit : decapForwardCommit n h skb6 p6 = decapForwardCommit n h skb p := by
        unfold decapForwardCommit
        simp only [p, p6, InnerPacket.toForward, ForwardPacket.revValue, ht.tcpFlags]
      unfold deliverForward
      rw [hcommit]
      -- the rows are committed alike, and a refusal leaves both packets as they are
      rcases decapForwardCommit n h skb p with ⟨n', verdict | port⟩
      · exact ht.sameRun n' rfl (outHlen_eth _)
      · simp only
        have hports := ht.rewriteL4Port h 0 inner.srcPort port inner.proto
        simp only [Nat.add_zero] at hports
        obtain ⟨hq, hq6⟩ := ht.innerPacket hparse
        -- the ports are rewritten in step, and the addresses go through on both or neither
        have houtcome : (decapForwardRewrite h p6 port skb6).2 = (decapForwardRewrite h p port skb).2 := by
          refine InStep.andThen_outcome (a := Edit.rewriteL4Port h (ethHlen + Family.v4.ipHlen)
            (ethHlen + Family.v4.ipHlen) inner.srcPort port inner.proto) hports fun s s6 htwins => ?_
          exact htwins.rewriteAddrPort hcalls (mapped_of_parseInner hparse).2 hpod
            (show ethHlen + Family.v4.dstOff + 4 ≤ ethHlen + 20 by decide)
            (show ethHlen + Family.v6.dstOff + 16 ≤ ethHlen + 40 by decide) 2 inner.dstPort targetPort inner.proto
        rcases hres : decapForwardRewrite h p port skb with ⟨s, _ | _⟩ <;>
        rcases hres6 : decapForwardRewrite h p6 port skb6 with ⟨s6, _ | _⟩ <;> rw [hres, hres6] at houtcome
        · exact sameRun_dropped ..
        · cases houtcome
        · cases houtcome
        · have hout := decapForwardRewrite_spec hq hres
          have hout6 := decapForwardRewrite_spec hq6 hres6
          simp only
          split
          · refine ⟨rfl, rfl, fun _ => ?_, fun _ q => carries_iff_of_innerPacket hout hout6 q⟩
            show s6.stamped = s.stamped
            obtain ⟨mid, hfst, hsnd⟩ := Edit.andThen_eq_true.mp hres
            obtain ⟨mid6, hfst6, hsnd6⟩ := Edit.andThen_eq_true.mp hres6
            obtain ⟨hsame, _⟩ := Edit.rewriteAddrPort_spec
              (show ethHlen + Family.v4.dstOff + Family.v4.addrLen ≤ ethHlen + Family.v4.ipHlen + 2 by decide) hsnd
            obtain ⟨hsame6, _⟩ := Edit.rewriteAddrPort_spec
              (show ethHlen + Family.v6.dstOff + Family.v6.addrLen ≤ ethHlen + Family.v6.ipHlen + 2 by decide) hsnd6
            rw [hsame.rest, hsame6.rest]
            show mid6.stamped = mid.stamped
            replace hfst : Edit.rewriteL4Port h (ethHlen + Family.v4.ipHlen) (ethHlen + Family.v4.ipHlen)
              inner.srcPort port inner.proto skb = (mid, true) := hfst
            replace hfst6 : Edit.rewriteL4Port h (ethHlen + Family.v6.ipHlen) (ethHlen + Family.v6.ipHlen)
              inner.srcPort port inner.proto skb6 = (mid6, true) := hfst6
            rw [hfst, hfst6] at hports
            exact hports.2.stamped
          · exact ⟨rfl, rfl, fun hshot => absurd rfl hshot, fun hshot => absurd rfl hshot⟩

/-- **Return decapsulation.** -/
theorem Twins.decapReturn (ht : Twins ethHlen skb skb6) (hcalls : h.ExtraCallsOk) (n : Node) {frontIp : Bytes 16}
    (hfront : (unmapIpv4 frontIp).isSome) (frontPort : UInt16) :
    SameRun ethHlen .shot (tryGeneveDecapReturnV4 n h skb frontIp frontPort)
      (tryGeneveDecapReturnV6 n h skb6 frontIp frontPort) := by
  unfold tryGeneveDecapReturnV4 tryGeneveDecapReturnV6 geneveDecapReturn withInner
  rw [ht.parseInner]
  cases hparse : Beep.parseInner .v4 skb with
  | none => exact sameRun_dropped ..
  | some parsed =>
    cases parsed with
    | none => exact ht.sameRun n rfl rfl
    | some inner =>
      simp only [deliverReturn, ht.tcpFlags]
      cases tcpFlagsDirect skb inner.proto (ethHlen + Family.v4.ipHlen) with
      | none => exact sameRun_dropped ..
      | some tcpFlags =>
        -- the family is no part of the pin that authorizes
        have hauth : n.authorizeReturn h ⟨.v6, inner, frontIp, frontPort⟩ tcpFlags =
            n.authorizeReturn h ⟨.v4, inner, frontIp, frontPort⟩ tcpFlags := rfl
        simp only [hauth]
        rcases n.authorizeReturn h ⟨.v4, inner, frontIp, frontPort⟩ tcpFlags with ⟨n', _ | value⟩
        · exact sameRun_dropped ..
        · simp only
          obtain ⟨hq, hq6⟩ := ht.innerPacket hparse
          have houtcome := ht.rewriteAddrPort hcalls (mapped_of_parseInner hparse).1 hfront
            (show ethHlen + Family.v4.srcOff + 4 ≤ ethHlen + 20 by decide)
            (show ethHlen + Family.v6.srcOff + 16 ≤ ethHlen + 40 by decide) 0 inner.srcPort frontPort inner.proto
          simp only [Nat.add_zero] at houtcome
          rcases hres : Edit.rewriteAddrPort h (ethHlen + Family.v4.srcOff) inner.srcIp frontIp
              (ethHlen + Family.v4.ipHlen) inner.srcPort frontPort inner.proto .v4 skb with ⟨s, _ | _⟩ <;>
          rcases hres6 : Edit.rewriteAddrPort h (ethHlen + Family.v6.srcOff) inner.srcIp frontIp
              (ethHlen + Family.v6.ipHlen) inner.srcPort frontPort inner.proto .v6 skb6 with ⟨s6, _ | _⟩ <;>
          rw [hres, hres6] at houtcome
          · exact sameRun_dropped ..
          · cases houtcome
          · cases houtcome
          · have hout := innerPacket_rewrite_src hq hres
            have hout6 := innerPacket_rewrite_src hq6 hres6
            refine ⟨rfl, rfl, fun _ => ?_, fun _ q => ?_⟩
            · show s6.stamped = s.stamped
              rw [((Edit.rewriteAddrPort_spec (by decide) hres).1).rest,
                ((Edit.rewriteAddrPort_spec (by decide) hres6).1).rest]
              exact ht.stamped
            · rw [outHlen_eth]
              exact carries_iff_of_innerPacket hout hout6 q

/-! ### Egress -/

/-- A packet on an uplink is read as a flow's if it is one as far as the linear head goes. -/
theorem uplinkFrame_iff {fam : Family} {q : InnerPacket} : UplinkFrame fam l2Hlen skb q ↔
    (∃ ver, skb.load.u8 l2Hlen = some ver ∧ fam.uplinkHeaderOk ver = true) ∧ isFlowProto q.proto = true ∧
      Carries skb.load fam l2Hlen q ∧ l2Hlen + fam.ipHlen + 4 ≤ skb.linear := by
  constructor
  · rintro ⟨⟨ver, hver, hok⟩, hflow, hq⟩
    refine ⟨⟨ver, ?_, hok⟩, hflow, (refines_loadDirect skb l2Hlen).carries hq, ?_⟩
    · unfold loadVersion at hver
      split at hver
      · rename_i hzero
        rw [hzero]
        exact hver
      · exact (refines_loadDirect skb l2Hlen).u8 (i := 0) hver
    · obtain ⟨b, hb, _⟩ := Option.map_eq_some_iff.mp hq.dstPort
      unfold Skb.loadDirect at hb
      split at hb
      · assumption
      · cases hb
  · rintro ⟨⟨ver, hver, hok⟩, hflow, hq, hlinear⟩
    have hdirect : ∀ off m, off + m ≤ l2Hlen + fam.ipHlen + 4 → skb.loadDirect off m = skb.load off m :=
      fun off m hm => if_pos (hm.trans hlinear)
    refine ⟨⟨ver, ?_, hok⟩, hflow, ?_⟩
    · unfold loadVersion
      split
      · rename_i hzero
        rw [hzero] at hver
        exact hver
      · rw [Loader.u8, hdirect _ _ (by omega)]
        exact hver
    · obtain ⟨hproto, hsrc, hsport, hdst, hdport⟩ := hq
      cases fam <;>
      · simp only [Family.ipHlen, Family.protoOff, Family.srcOff, Family.dstOff, Family.loadAddr] at *
        refine ⟨?_, ?_, ?_, ?_, ?_⟩ <;>
          simp only [Loader.u8, Loader.u16, Family.loadAddr, Family.ipHlen, Family.protoOff, Family.srcOff,
            Family.dstOff] <;> rw [hdirect _ _ (by omega)] <;> assumption

/-- Twins are read as the same reply. -/
theorem Twins.egressHeaders (ht : Twins l2Hlen skb skb6) (n : Node) (p : ReplyPacket) :
    Beep.egressHeaders n .v6 l2Hlen skb6 = some (some { p with family := .v6 }) ↔
      Beep.egressHeaders n .v4 l2Hlen skb = some (some { p with family := .v4 }) := by
  -- the linear heads reach equally far behind the IP header
  have hlinear : l2Hlen + Family.v6.ipHlen + 4 ≤ skb6.linear ↔ l2Hlen + Family.v4.ipHlen + 4 ≤ skb.linear := by
    rw [ht.rest]
    show l2Hlen + 40 + 4 ≤ skb.linear + 20 ↔ l2Hlen + 20 + 4 ≤ skb.linear
    omega
  rw [egressHeaders_eq_some, egressHeaders_eq_some, uplinkFrame_iff, uplinkFrame_iff]
  constructor
  · rintro ⟨⟨_, hflow, hq, hlin⟩, _, hl2, hpod⟩
    exact ⟨⟨ht.version, hflow, ht.carries.mpr hq, hlinear.mp hlin⟩, rfl, hl2, hpod⟩
  · rintro ⟨⟨_, hflow, hq, hlin⟩, _, hl2, hpod⟩
    exact ⟨⟨ht.version6, hflow, ht.carries.mp hq, hlinear.mpr hlin⟩, rfl, hl2, hpod⟩

/-- Whether an Ethernet header can be put in front does not depend on the packet. -/
theorem ethHeader_outcome (l3Ethertype : UInt16) (hl3 : l3Ethertype ≠ noL3Ethertype) (s : Skb) :
    (Edit.ethHeader h l3Ethertype s).2 = (h .changeHead && h .storeEthertype) := by
  unfold Edit.ethHeader
  rw [if_neg hl3]
  cases h .changeHead with
  | false => rfl
  | true =>
    rw [if_pos rfl, (Edit.Outcome.store _ _ _ _).1]
    have hfit : 12 + 2 ≤ (List.replicate ethHlen (0 : UInt8) ++ s.data).length := by
      rw [List.length_append, List.length_replicate]
      unfold ethHlen
      omega
    simp only [decide_eq_true hfit, Bool.and_true, Bool.true_and]

/-- Two loaders that read the same carry the same. -/
theorem carries_congr {load load' : Loader} {off off' : Nat} (hload : ∀ i m, load' (off' + i) m = load (off + i) m)
    {fam : Family} {q : InnerPacket} : Carries load' fam off' q ↔ Carries load fam off q := by
  constructor
  · exact Refines.carries fun i m v hv => (hload i m).symm.trans hv
  · exact Refines.carries fun i m v hv => (hload i m).trans hv

/-- What a packet that is handed to `geneve0` says there is what it said. -/
theorem carries_ethHeader {fam : Family} {s s' : Skb} (hlen : l2Hlen = 0 ∨ l2Hlen = ethHlen)
    (hres : Edit.ethHeader h (if l2Hlen = 0 then fam.ethertype else noL3Ethertype) s = (s', true))
    (q : InnerPacket) : Carries s'.load fam ethHlen q ↔ Carries s.load fam l2Hlen q := by
  rcases hlen with rfl | rfl
  · rw [if_pos rfl] at hres
    refine carries_congr fun i m => ?_
    rw [Nat.zero_add]
    exact ethHeader_load (ethertype_ne_noL3 fam) hres i m
  · rw [if_neg (by decide : ¬ ethHlen = 0), Edit.ethHeader, if_pos rfl] at hres
    obtain ⟨rfl, _⟩ := Prod.mk.inj hres
    exact Iff.rfl

/-- **The redirect** of twins. -/
theorem Twins.redirectToGeneve (ht : Twins l2Hlen skb skb6) (hlen : l2Hlen = 0 ∨ l2Hlen = ethHlen) (n : Node)
    (geneveIfindex vni : UInt32) (remote : Bytes 16) (opt : Bytes 24) {r r6 : Skb × TcAction}
    (hr : r = skb.redirectToGeneve h geneveIfindex remote vni opt
      (if l2Hlen = 0 then Family.v4.ethertype else noL3Ethertype))
    (hr6 : r6 = skb6.redirectToGeneve h geneveIfindex remote vni opt
      (if l2Hlen = 0 then Family.v6.ethertype else noL3Ethertype)) :
    SameRun l2Hlen .ok (n, r.1, some r.2) (n, r6.1, some r6.2) := by
  have hdrop : ∀ s s6 : Skb, SameRun l2Hlen .ok (n, s, some .shot) (n, s6, some .shot) :=
    fun s s6 => ⟨rfl, rfl, fun hshot => absurd rfl hshot, fun hshot => absurd rfl hshot⟩
  subst hr hr6
  unfold Skb.redirectToGeneve
  cases h .setTunnelKey with
  | false => exact hdrop _ _
  | true =>
    cases h .setTunnelOpt with
    | false => exact hdrop _ _
    | true =>
      simp only [Bool.not_true, Bool.false_eq_true, if_false]
      let stamp (s : Skb) : Skb :=
        { s with stamped := some { remote := setTunnelRemote remote, tunnelId := vni, options := opt.toList } }
      have houtcome : (Edit.ethHeader h (if l2Hlen = 0 then Family.v6.ethertype else noL3Ethertype)
            (stamp skb6)).2 =
          (Edit.ethHeader h (if l2Hlen = 0 then Family.v4.ethertype else noL3Ethertype) (stamp skb)).2 := by
        rcases hlen with rfl | rfl
        · rw [if_pos rfl, if_pos rfl, ethHeader_outcome _ (ethertype_ne_noL3 _),
            ethHeader_outcome _ (ethertype_ne_noL3 _)]
        · rfl
      rcases hres : Edit.ethHeader h (if l2Hlen = 0 then Family.v4.ethertype else noL3Ethertype) (stamp skb)
        with ⟨s, ok⟩
      rcases hres6 : Edit.ethHeader h (if l2Hlen = 0 then Family.v6.ethertype else noL3Ethertype) (stamp skb6)
        with ⟨s6, ok6⟩
      rw [hres, hres6] at houtcome
      cases ok with
      | false =>
        cases houtcome
        exact hdrop _ _
      | true =>
        cases houtcome
        cases h .redirect with
        | false => exact hdrop _ _
        | true =>
          refine ⟨rfl, rfl, fun _ => ?_, fun _ q => ?_⟩
          · show s6.stamped = s.stamped
            rw [(ethHeader_eq_true hres).1, (ethHeader_eq_true hres6).1]
          · show Carries s.load .v4 ethHlen q ↔ Carries s6.load .v6 ethHlen q
            rw [carries_ethHeader hlen hres, carries_ethHeader hlen hres6]
            exact ht.carries

/-- **Egress.** -/
theorem Twins.egressReturn (ht : Twins l2Hlen skb skb6) (hlen : l2Hlen = 0 ∨ l2Hlen = ethHlen) (n : Node) :
    SameRun l2Hlen .ok (tryUplinkEgressReturnHeadersV4 l2Hlen n h skb)
      (tryUplinkEgressReturnHeadersV6 l2Hlen n h skb6) := by
  unfold tryUplinkEgressReturnHeadersV4 tryUplinkEgressReturnHeadersV6 uplinkEgressReply
  by_cases hreply : ∃ p, Beep.egressHeaders n .v4 l2Hlen skb = some (some p)
  · obtain ⟨p, hp⟩ := hreply
    obtain ⟨_, hfam, hl2, _⟩ := egressHeaders_eq_some.mp hp
    obtain ⟨family, l2, podIp, targetPort, clientIp, backendDstPort, proto⟩ := p
    obtain rfl : .v4 = family := hfam.symm
    obtain rfl : l2Hlen = l2 := hl2.symm
    have hp6 := (ht.egressHeaders n ⟨.v4, l2Hlen, podIp, targetPort, clientIp, backendDstPort, proto⟩).mpr hp
    rw [hp, hp6]
    simp only [tunnelReply, ReplyPacket.key]
    cases n.flowTableGetReverse (encodeFlowKey clientIp backendDstPort podIp targetPort proto .reverse) with
    | none => exact ht.sameRun n rfl rfl
    | some rev =>
      simp only [egressReturnOutcome, Option.isSome_some, if_true, ht.tcpFlags]
      cases tcpFlagsDirect skb proto (l2Hlen + Family.v4.ipHlen) with
      | none => exact ht.sameRun n rfl rfl
      | some tcpFlags =>
        simp only
        -- both touch the same row
        generalize n.touchReturnRow h _ rev proto tcpFlags = n'
        obtain ⟨hgo, htwins⟩ := ht.rewriteL4Port h 2 backendDstPort rev.originalClientPort proto
        rcases hres : Edit.rewriteL4Port h (l2Hlen + Family.v4.ipHlen) (l2Hlen + Family.v4.ipHlen + 2)
          backendDstPort rev.originalClientPort proto skb with ⟨s, ok⟩
        rcases hres6 : Edit.rewriteL4Port h (l2Hlen + Family.v6.ipHlen) (l2Hlen + Family.v6.ipHlen + 2)
          backendDstPort rev.originalClientPort proto skb6 with ⟨s6, ok6⟩
        rw [hres, hres6] at hgo htwins
        cases ok with
        | false =>
          cases hgo
          exact htwins.sameRun n' rfl rfl
        | true =>
          cases hgo
          cases n'.config.map (·.geneveIfindex) with
          | none => exact htwins.sameRun n' rfl rfl
          | some geneveIfindex => exact htwins.redirectToGeneve hlen n' geneveIfindex vniRet _ _ rfl rfl
  · -- neither is read as a reply, so both pass as they are
    have hreply6 : ¬ ∃ p, Beep.egressHeaders n .v6 l2Hlen skb6 = some (some p) := by
      rintro ⟨p, hp⟩
      obtain ⟨_, hfam, _⟩ := egressHeaders_eq_some.mp hp
      refine hreply ⟨{ p with family := .v4 }, (ht.egressHeaders n p).mp ?_⟩
      rw [hp, ← hfam]
    have hpass : ∀ {fam : Family} {s : Skb}, (¬ ∃ p, Beep.egressHeaders n fam l2Hlen s = some (some p)) →
        ∃ v : Option TcAction, v.getD .ok = .ok ∧ uplinkEgressReply fam l2Hlen n h s = (n, s, v) := by
      intro fam s hno
      unfold uplinkEgressReply
      rcases hread : Beep.egressHeaders n fam l2Hlen s with _ | _ | p
      · exact ⟨none, rfl, rfl⟩
      · exact ⟨some .ok, rfl, rfl⟩
      · exact absurd ⟨p, hread⟩ hno
    obtain ⟨v, hv, hrun⟩ := hpass hreply
    obtain ⟨v6, hv6, hrun6⟩ := hpass hreply6
    unfold uplinkEgressReply at hrun hrun6
    rw [hrun, hrun6]
    exact ht.sameRun n (hv6.trans hv.symm) (by rw [hv]; rfl)

end

/-- **The siblings are one program.** On twins the IPv4 and the IPv6 copy of each path write the same maps, answer
    with the same verdict, stamp the same remote and option, and leave packets that say the same. -/
theorem siblings_agree (n : Node) {h : Helpers} (hcalls : h.ExtraCallsOk) :
    (∀ skb skb6 info podIp targetPort, Twins ethHlen skb skb6 → (unmapIpv4 podIp).isSome →
      SameRun ethHlen .shot (tryGeneveDecapForwardV4 n h skb info podIp targetPort)
        (tryGeneveDecapForwardV6 n h skb6 info podIp targetPort)) ∧
    (∀ skb skb6 frontIp frontPort, Twins ethHlen skb skb6 → (unmapIpv4 frontIp).isSome →
      SameRun ethHlen .shot (tryGeneveDecapReturnV4 n h skb frontIp frontPort)
        (tryGeneveDecapReturnV6 n h skb6 frontIp frontPort)) ∧
    (∀ l2Hlen skb skb6, l2Hlen = 0 ∨ l2Hlen = ethHlen → Twins l2Hlen skb skb6 →
      SameRun l2Hlen .ok (tryUplinkEgressReturnHeadersV4 l2Hlen n h skb)
        (tryUplinkEgressReturnHeadersV6 l2Hlen n h skb6)) := by
  refine ⟨?_, ?_, ?_⟩
  · intro skb skb6 info podIp targetPort ht hpod
    exact ht.decapForward hcalls n info hpod targetPort
  · intro skb skb6 frontIp frontPort ht hfront
    exact ht.decapReturn hcalls n hfront frontPort
  · intro l2Hlen skb skb6 hlen ht
    exact ht.egressReturn hlen n

end

/-! ## A packet and its twin -/

/-- The client's packet with its addresses mapped. -/
def skb6Through [Host] (x : UInt8) : Skb := { skbThrough x with
  data := List.replicate 12 0 ++ [0x86, 0xdd, 0x60, 0, 0, 0, 0, 8, 17, 64] ++ (mappedAddr 198 51 100 7).toList ++
    (mappedAddr 192 0 2 x).toList ++ (skbThrough x).data.drop 34
  linear := 62 }

section
local instance twinHost : Host := littleHost

/-- Field by field; the bytes behind the IP header are the same list. -/
theorem twins_through : Twins ethHlen (skbThrough 1) (skb6Through 1) where
  rest := rfl
  length := by decide
  whole := by decide
  ethertype _ := by decide
  version := ⟨0x45, by decide⟩
  version6 := ⟨0x60, by decide⟩
  proto := by decide
  srcIp := by decide
  dstIp := by decide
  l4 i := by
    have hdata : (skb6Through 1).data = (skb6Through 1).data.take 54 ++ (skbThrough 1).data.drop 34 := by
      decide
    have hhead : ((skb6Through 1).data.take 54).length = 54 := by decide
    rw [hdata, List.getD_eq_getElem?_getD, List.getElem?_append_right (by rw [hhead]; unfold ethHlen; omega),
      hhead, List.getElem?_drop, List.getD_eq_getElem?_getD]
    congr 2
    unfold ethHlen
    omega

end

/-- The client's first packet at the pod's node. -/
theorem siblings_agree_first_packet :
    letI := littleHost
    Helpers.ExtraCallsOk (fun _ => true) ∧ Twins ethHlen (skbThrough 1) (skb6Through 1) ∧
      SameRun ethHlen .shot
        (tryGeneveDecapForwardV4 oneBackend (fun _ => true) (skbThrough 1)
          ⟨.v4 (Host.endian.u32OfBytes (quad 10 0 0 1)), vniFwd, []⟩ (flowThrough 1).podIp (flowThrough 1).targetPort)
        (tryGeneveDecapForwardV6 oneBackend (fun _ => true) (skb6Through 1)
          ⟨.v4 (Host.endian.u32OfBytes (quad 10 0 0 1)), vniFwd, []⟩ (flowThrough 1).podIp
          (flowThrough 1).targetPort) := by
  let := littleHost
  have hcalls : Helpers.ExtraCallsOk fun _ => true := ⟨rfl, fun _ _ => rfl⟩
  exact ⟨hcalls, twins_through, (siblings_agree oneBackend hcalls).1 _ _ _ _ _ twins_through (by decide)⟩

end Beep
