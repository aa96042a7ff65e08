import Beep.Ebpf.Skb

/-!
# `Ebpf.Rewrite` — what a rewrite leaves in a packet

An edit that goes through changes the bytes at some offsets and nothing else (`WritesOnly`). The two rewrites
of the datapath are sequences of checksum updates and stores; for each, one lemma says which offsets it
writes and what the fields it is for hold afterwards (`rewriteL4Port_spec`, `rewriteAddrPort_spec`). No proof
above this file looks at a checksum.
-/

namespace Beep

/-! ## Frames -/

/-- The offset lies in the `len` bytes from `off` on. -/
def Within (off len i : Nat) : Prop := off ≤ i ∧ i < off + len

/-- The packets agree but for the bytes at the offsets of `W`. -/
structure SameBut (W : Nat → Prop) (skb skb' : Skb) : Prop where
  rest : skb' = { skb with data := skb'.data }
  length : skb'.data.length = skb.data.length
  bytes : ∀ i, ¬ W i → skb'.data.getD i 0 = skb.data.getD i 0

namespace SameBut

variable {W W' : Nat → Prop} {skb skb' skb'' : Skb}

theorem refl (W : Nat → Prop) (skb : Skb) : SameBut W skb skb := ⟨rfl, rfl, fun _ _ => rfl⟩

theorem trans (h : SameBut W skb skb') (h' : SameBut W skb' skb'') : SameBut W skb skb'' where
  rest := by
    rw [h'.rest, h.rest]
  length := h'.length.trans h.length
  bytes i hi := (h'.bytes i hi).trans (h.bytes i hi)

theorem mono (h : SameBut W skb skb') (hsub : ∀ i, W i → W' i) : SameBut W' skb skb' :=
  ⟨h.rest, h.length, fun i hi => h.bytes i fun hw => hi (hsub i hw)⟩

/-- A read outside the written offsets sees what was there. -/
theorem load {off n : Nat} (h : SameBut W skb skb') (hout : ∀ i, Within off n i → ¬ W i) :
    skb'.load off n = skb.load off n := by
  unfold Skb.load Buffer.loadBytes
  rw [h.length]
  congr 2
  apply Vector.ext
  intro i hi
  rw [Vector.getElem_ofFn, Vector.getElem_ofFn]
  exact h.bytes _ (hout _ ⟨Nat.le_add_right .., Nat.add_lt_add_left hi _⟩)

end SameBut

/-- Every run of the edit that goes through writes at offsets of `W` only. -/
def Edit.WritesOnly (W : Nat → Prop) (a : Edit) : Prop :=
  ∀ skb skb', a skb = (skb', true) → SameBut W skb skb'

namespace Edit

variable {W : Nat → Prop}

/-- An edit in two parts goes through when both do. -/
theorem andThen_eq_true {a b : Edit} {skb skb'' : Skb} :
    andThen a b skb = (skb'', true) ↔ ∃ skb', a skb = (skb', true) ∧ b skb' = (skb'', true) := by
  unfold andThen
  rcases h : a skb with ⟨skb', _ | _⟩
  · simp
  · simp

theorem WritesOnly.andThen {a b : Edit} (ha : a.WritesOnly W) (hb : b.WritesOnly W) :
    (Edit.andThen a b).WritesOnly W := by
  intro skb skb'' h
  obtain ⟨skb', hfst, hsnd⟩ := andThen_eq_true.mp h
  exact (ha skb skb' hfst).trans (hb skb' skb'' hsnd)

theorem WritesOnly.done : Edit.done.WritesOnly W := by
  intro skb skb' h
  cases h
  exact .refl W skb

/-- A store that goes through: the bytes are there, and no others changed. -/
theorem store_eq_true {n off : Nat} {ok : Bool} {v : Bytes n} {skb skb' : Skb}
    (h : store ok off v skb = (skb', true)) :
    SameBut (Within off n) skb skb' ∧ skb'.load off n = some v := by
  unfold store at h
  cases ok with
  | false => cases h
  | true =>
    cases hdata : Buffer.storeBytes skb.data off v with
    | none => simp [hdata] at h
    | some data =>
      simp only [hdata, if_true, Prod.mk.injEq, and_true] at h
      subst h
      refine ⟨⟨rfl, Buffer.storeBytes_length hdata, fun i hi => ?_⟩, Buffer.loadBytes_store_same hdata⟩
      rw [Buffer.getD_storeBytes hdata]
      exact dif_neg hi

theorem WritesOnly.store {n off : Nat} (ok : Bool) (v : Bytes n) (hsub : ∀ i, Within off n i → W i) :
    (Edit.store ok off v).WritesOnly W :=
  fun _ _ h => (store_eq_true h).1.mono hsub

section
variable [Host]

theorem WritesOnly.csum {off : Nat} (ok : Bool) (old new : UInt32) (hsub : ∀ i, Within off 2 i → W i) :
    (Edit.csum ok off old new).WritesOnly W := by
  intro skb skb' h
  unfold Edit.csum at h
  cases hload : skb.load.u16 off with
  | none => simp [hload] at h
  | some sum =>
    rw [hload] at h
    exact WritesOnly.store ok _ hsub skb skb' h

/-! ## Edits that go through -/

/-- The edit goes through on every packet of at least `len` bytes, and keeps its length. -/
def Succeeds (len : Nat) (a : Edit) : Prop :=
  ∀ skb : Skb, len ≤ skb.data.length → ∃ skb', a skb = (skb', true) ∧ skb'.data.length = skb.data.length

omit [Host] in
theorem Succeeds.andThen {len : Nat} {a b : Edit} (ha : a.Succeeds len) (hb : b.Succeeds len) :
    (Edit.andThen a b).Succeeds len := by
  intro skb hlen
  obtain ⟨skb', hfst, hlen'⟩ := ha skb hlen
  obtain ⟨skb'', hsnd, hlen''⟩ := hb skb' (by omega)
  exact ⟨skb'', andThen_eq_true.mpr ⟨skb', hfst, hsnd⟩, hlen''.trans hlen'⟩

omit [Host] in
theorem Succeeds.done (len : Nat) : Edit.done.Succeeds len := fun skb _ => ⟨skb, rfl, rfl⟩

omit [Host] in
/-- An edit that is left out where the checksum is disabled. -/
theorem Succeeds.unless {len : Nat} {a : Edit} (ha : a.Succeeds len) (disabled : Bool) :
    (if disabled then Edit.done else a).Succeeds len := by
  cases disabled with
  | true => exact .done len
  | false => exact ha

omit [Host] in
theorem Succeeds.store {len n off : Nat} (v : Bytes n) (hfit : off + n ≤ len) :
    (Edit.store true off v).Succeeds len := by
  intro skb hlen
  have hdata : ∃ data, Buffer.storeBytes skb.data off v = some data := by
    unfold Buffer.storeBytes
    rw [if_pos (by omega)]
    exact ⟨_, rfl⟩
  obtain ⟨data, hdata⟩ := hdata
  refine ⟨{ skb with data }, ?_, Buffer.storeBytes_length hdata⟩
  simp only [Edit.store, if_true, hdata]

omit [Host] in
theorem load_isSome {skb : Skb} {off n : Nat} (hfit : off + n ≤ skb.data.length) :
    ∃ v, skb.load off n = some v := by
  unfold Skb.load Buffer.loadBytes
  rw [if_pos hfit]
  exact ⟨_, rfl⟩

theorem load_u16_isSome (skb : Skb) (off : Nat) (hfit : off + 2 ≤ skb.data.length) :
    ∃ v, skb.load.u16 off = some v := by
  obtain ⟨b, hb⟩ := load_isSome hfit
  exact ⟨_, by rw [Loader.u16, hb, Option.map_some]⟩

theorem Succeeds.csum {len off : Nat} (old new : UInt32) (hfit : off + 2 ≤ len) :
    (Edit.csum true off old new).Succeeds len := by
  intro skb hlen
  obtain ⟨sum, hsum⟩ := load_u16_isSome skb off (by omega)
  simp only [Edit.csum, hsum]
  exact Succeeds.store _ hfit skb hlen

/-! ## One port -/

/-- `rewrite_l4_port`: the port is the new one; only it and the checksum are written. -/
theorem rewriteL4Port_spec {h : Helpers} {l4Off portOff : Nat} {oldPort newPort : UInt16} {proto : UInt8}
    {skb skb' : Skb} (hold : skb.load.u16 portOff = some oldPort)
    (hres : rewriteL4Port h l4Off portOff oldPort newPort proto skb = (skb', true)) :
    SameBut (fun i => Within (l4CsumOff l4Off proto) 2 i ∨ Within portOff 2 i) skb skb' ∧
      skb'.load.u16 portOff = some newPort := by
  unfold rewriteL4Port at hres
  by_cases hport : oldPort = newPort
  · rw [if_pos hport] at hres
    cases hres
    exact ⟨.refl _ _, hport ▸ hold⟩
  · rw [if_neg hport] at hres
    -- with or without the checksum, the last thing done is to store the port
    have hstored : ∀ {mid : Skb}, store (h .remapStore) portOff (Host.endian.u16Bytes newPort) mid =
        (skb', true) → skb'.load.u16 portOff = some newPort := by
      intro mid hmid
      rw [Loader.u16, (store_eq_true hmid).2, Option.map_some, Endian.u16OfBytes_u16Bytes]
    have hset : (store (h .remapStore) portOff (Host.endian.u16Bytes newPort)).WritesOnly
        (fun i => Within (l4CsumOff l4Off proto) 2 i ∨ Within portOff 2 i) :=
      .store _ _ fun _ => Or.inr
    have hboth : ∀ (ok : Bool) (old new : UInt32),
        (csum ok (l4CsumOff l4Off proto) old new).WritesOnly
          (fun i => Within (l4CsumOff l4Off proto) 2 i ∨ Within portOff 2 i) :=
      fun _ _ _ => .csum _ _ _ fun _ => Or.inl
    simp only at hres
    split at hres
    · split at hres
      · cases hres
      · split at hres
        · exact ⟨hset _ _ hres, hstored hres⟩
        · obtain ⟨mid, _, hmid⟩ := andThen_eq_true.mp hres
          exact ⟨(hboth _ _ _).andThen hset _ _ hres, hstored hmid⟩
    · obtain ⟨mid, _, hmid⟩ := andThen_eq_true.mp hres
      exact ⟨(hboth _ _ _).andThen hset _ _ hres, hstored hmid⟩

/-! ## One address and one port -/

/-- The offsets `rewriteAddrPort` writes: the checksums, the address and the port. -/
def addrPortOffsets (fam : Family) (ipOff portOff : Nat) (proto : UInt8) (i : Nat) : Prop :=
  (fam = .v4 ∧ Within (ethHlen + 10) 2 i) ∨ Within (l4CsumOff (ethHlen + fam.ipHlen) proto) 2 i ∨
    Within ipOff fam.addrLen i ∨ Within portOff 2 i

/-- The last two steps of either rewrite. -/
theorem store_addr_port {n ipOff portOff : Nat} {okAddr okPort : Bool} {addr : Bytes n} {port : UInt16}
    {skb skb' : Skb} (hdis : ipOff + n ≤ portOff)
    (h : andThen (store okAddr ipOff addr) (store okPort portOff (Host.endian.u16Bytes port)) skb =
      (skb', true)) :
    skb'.load ipOff n = some addr ∧ skb'.load.u16 portOff = some port := by
  obtain ⟨mid, haddr, hport⟩ := andThen_eq_true.mp h
  constructor
  · rw [(store_eq_true hport).1.load, (store_eq_true haddr).2]
    intro i hi hw
    have := hi.2
    have := hw.1
    omega
  · rw [Loader.u16, (store_eq_true hport).2, Option.map_some, Endian.u16OfBytes_u16Bytes]

/-- `rewrite_ip_port` and `rewrite_ipv6_port`: the address and the port are the new ones. -/
theorem rewriteAddrPort_spec {h : Helpers} {ipOff portOff : Nat} {oldIp newIp : Bytes 16}
    {oldPort newPort : UInt16} {proto : UInt8} {fam : Family} {skb skb' : Skb}
    (hdis : ipOff + fam.addrLen ≤ portOff)
    (hres : rewriteAddrPort h ipOff oldIp newIp portOff oldPort newPort proto fam skb = (skb', true)) :
    SameBut (addrPortOffsets fam ipOff portOff proto) skb skb' ∧
      fam.loadAddr skb'.load ipOff = some newIp ∧ skb'.load.u16 portOff = some newPort := by
  have hport : ∀ i, Within portOff 2 i → addrPortOffsets fam ipOff portOff proto i :=
    fun _ hi => Or.inr (Or.inr (Or.inr hi))
  have haddr : ∀ i, Within ipOff fam.addrLen i → addrPortOffsets fam ipOff portOff proto i :=
    fun _ hi => Or.inr (Or.inr (Or.inl hi))
  have hcsum : ∀ ok old new, (csum ok (l4CsumOff (ethHlen + fam.ipHlen) proto) old new).WritesOnly
      (addrPortOffsets fam ipOff portOff proto) :=
    fun _ _ _ => .csum _ _ _ fun _ hi => Or.inr (Or.inl hi)
  cases fam with
  | v4 =>
    unfold rewriteAddrPort at hres
    simp only at hres
    split at hres
    · rename_i old new hold hnew
      unfold rewriteIpPort at hres
      simp only at hres
      split at hres
      · cases hres
      · rename_i disabled _
        obtain ⟨skb₁, hip, hres⟩ := andThen_eq_true.mp hres
        obtain ⟨skb₂, hl4, hres⟩ := andThen_eq_true.mp hres
        have hip' : SameBut (addrPortOffsets .v4 ipOff portOff proto) skb skb₁ :=
          WritesOnly.csum (h .ipCsum) old new (fun _ hi => Or.inl ⟨rfl, hi⟩) skb skb₁ hip
        have hl4' : SameBut (addrPortOffsets .v4 ipOff portOff proto) skb₁ skb₂ := by
          cases disabled with
          | true => exact WritesOnly.done skb₁ skb₂ hl4
          | false => exact (hcsum _ _ _).andThen (hcsum _ _ _) skb₁ skb₂ hl4
        have hset := (WritesOnly.store (h .addrStore) (Host.endian.u32Bytes new) haddr).andThen
          (.store (h .portStore) (Host.endian.u16Bytes newPort) hport) skb₂ skb' hres
        obtain ⟨hload, hload'⟩ := store_addr_port (n := 4) hdis hres
        refine ⟨(hip'.trans hl4').trans hset, ?_, hload'⟩
        rw [Family.loadAddr, hload, Option.map_some, Endian.u32OfBytes_u32Bytes, ipv4MappedV6_of_unmapIpv4 hnew]
    · cases hres
  | v6 =>
    unfold rewriteAddrPort rewriteIpv6Port at hres
    simp only at hres
    split at hres
    · cases hres
    · rename_i disabled _
      obtain ⟨skb₁, hl4, hres⟩ := andThen_eq_true.mp hres
      have hl4' : SameBut (addrPortOffsets .v6 ipOff portOff proto) skb skb₁ := by
        cases disabled with
        | true => exact WritesOnly.done skb skb₁ hl4
        | false =>
          exact (hcsum _ _ _).andThen ((hcsum _ _ _).andThen ((hcsum _ _ _).andThen ((hcsum _ _ _).andThen (hcsum _ _ _))))
            skb skb₁ hl4
      have hset := (WritesOnly.store (h .addrStore) newIp haddr).andThen
        (.store (h .portStore) (Host.endian.u16Bytes newPort) hport) skb₁ skb' hres
      obtain ⟨hload, hload'⟩ := store_addr_port hdis hres
      exact ⟨hl4'.trans hset, hload, hload'⟩

/-- The L4 header length the checksum update needs. -/
def l4Hlen (proto : UInt8) : Nat := if proto = ipprotoTcp then 20 else 8

/-- With no call refused, both addresses of the family and the headers whole, the rewrite goes through. -/
theorem rewriteAddrPort_succeeds {ipOff portOff : Nat} {oldIp newIp : Bytes 16} (oldPort newPort : UInt16)
    (proto : UInt8) {fam : Family} {skb : Skb}
    (hmapped : fam = .v4 → (unmapIpv4 oldIp).isSome ∧ (unmapIpv4 newIp).isSome)
    (hip : ipOff + fam.addrLen ≤ ethHlen + fam.ipHlen) (hport : portOff + 2 ≤ ethHlen + fam.ipHlen + 4)
    (hlen : ethHlen + fam.ipHlen + l4Hlen proto ≤ skb.data.length) :
    ∃ skb', rewriteAddrPort (fun _ => true) ipOff oldIp newIp portOff oldPort newPort proto fam skb =
      (skb', true) := by
  have hl4 : 8 ≤ l4Hlen proto := by
    unfold l4Hlen
    split <;> omega
  have hcsum : ∀ old new, (csum true (l4CsumOff (ethHlen + fam.ipHlen) proto) old new).Succeeds
      (ethHlen + fam.ipHlen + l4Hlen proto) := by
    intro old new
    refine .csum _ _ ?_
    unfold l4CsumOff l4Hlen
    split <;> omega
  have hset := (Succeeds.store (Host.endian.u16Bytes newPort)
    (show portOff + 2 ≤ ethHlen + fam.ipHlen + l4Hlen proto by omega))
  -- a UDP checksum can be read, so whether it is disabled is known
  have hread : ∃ disabled, (if proto = ipprotoUdp then
      (skb.load.u16 (ethHlen + fam.ipHlen + 6)).map (· == 0) else some false) = some disabled := by
    obtain ⟨sum, hsum⟩ := load_u16_isSome skb (ethHlen + fam.ipHlen + 6) (by omega)
    rw [hsum]
    split <;> exact ⟨_, rfl⟩
  obtain ⟨disabled, hdisabled⟩ := hread
  cases fam with
  | v4 =>
    obtain ⟨old, hold⟩ := Option.isSome_iff_exists.mp (hmapped rfl).1
    obtain ⟨new, hnew⟩ := Option.isSome_iff_exists.mp (hmapped rfl).2
    have haddr := Succeeds.store (Host.endian.u32Bytes new)
      (show ipOff + 4 ≤ ethHlen + Family.v4.ipHlen + l4Hlen proto by
        have : Family.v4.addrLen = 4 := rfl
        omega)
    have hipCsum : (csum true (ethHlen + 10) old new).Succeeds (ethHlen + Family.v4.ipHlen + l4Hlen proto) :=
      .csum _ _ (by have : Family.v4.ipHlen = 20 := rfl; omega)
    have hfix := ((hcsum old new).andThen (hcsum oldPort.toUInt32 newPort.toUInt32)).unless disabled
    obtain ⟨skb', hres, _⟩ := (hipCsum.andThen (hfix.andThen (haddr.andThen hset))) skb hlen
    refine ⟨skb', ?_⟩
    simp only [rewriteAddrPort, hold, hnew, rewriteIpPort, hdisabled]
    exact hres
  | v6 =>
    have haddr := Succeeds.store newIp (show ipOff + 16 ≤ ethHlen + Family.v6.ipHlen + l4Hlen proto by
      have : Family.v6.addrLen = 16 := rfl
      omega)
    have hfix := (hcsum (addrWord oldIp (0 * 4) (by omega)) (addrWord newIp (0 * 4) (by omega))).andThen
      ((hcsum (addrWord oldIp (1 * 4) (by omega)) (addrWord newIp (1 * 4) (by omega))).andThen
        ((hcsum (addrWord oldIp (2 * 4) (by omega)) (addrWord newIp (2 * 4) (by omega))).andThen
          ((hcsum (addrWord oldIp (3 * 4) (by omega)) (addrWord newIp (3 * 4) (by omega))).andThen
            (hcsum oldPort.toUInt32 newPort.toUInt32))))
    obtain ⟨skb', hres, _⟩ := ((hfix.unless disabled).andThen (haddr.andThen hset)) skb hlen
    refine ⟨skb', ?_⟩
    simp only [rewriteAddrPort, rewriteIpv6Port, hdisabled]
    exact hres

end

end Edit

end Beep
