import Beep.Ebpf.Messages

/-!
# `Ebpf.Correctness.GeneveOptions` — the tunnel options of the two legs

What one end encodes the other decodes, and no leg takes the other's option. What a decapsulation accepts
need not be an encoding: the forward leg compares the length of the option and its length word, the return
leg neither, so it reads a front out of an option that is too short, or of another length word (`LooseEcho`),
and out of nothing else that is not an encoding.
-/

namespace Beep

/-! The fields of an option. -/

theorem optClass_fits : 0 + 2 ≤ 24 := by decide
theorem optHead_fits : 2 + 2 ≤ 24 := by decide
theorem optAddr_fits : 4 + 16 ≤ 24 := by decide
theorem optPort_fits : 20 + 2 ≤ 24 := by decide
theorem optBytes_fit : 0 + 22 ≤ 24 := by decide

variable [Host]

/-! ## An option and its encoding -/

/-- The bytes of an option that say something: all but the padding. -/
def optionBytes : Nat := 22

/-- The option is this encoding, the two bytes of padding apart. -/
def EqualsUpToPadding (options : List UInt8) (enc : Bytes 24) : Prop :=
  options.length = 24 ∧ options.take optionBytes = enc.toList.take optionBytes

/-- What `bpf_skb_get_tunnel_opt` leaves in the buffer. -/
def paddedOption (options : List UInt8) : Bytes 24 := Vector.ofFn fun i => options.getD i 0

omit [Host] in
theorem getTunnelOpt_eq_some {skb : Skb} {info : TunnelInfo} (hinfo : skb.received = some info) {len : Nat}
    {opt : Bytes 24} : skb.getTunnelOpt = some (len, opt) ↔ info.options ≠ [] ∧ info.options.length ≤ 24 ∧
      len = info.options.length ∧ opt = paddedOption info.options := by
  unfold Skb.getTunnelOpt
  simp only [hinfo]
  split
  · rename_i hfail
    constructor
    · intro h
      cases h
    · rintro ⟨hne, hle, _⟩
      rcases hfail with hnil | hlong
      · exact absurd hnil hne
      · omega
  · rename_i hfits
    rw [not_or, Nat.not_lt] at hfits
    rw [Option.some_inj, Prod.mk.injEq]
    constructor
    · rintro ⟨rfl, rfl⟩
      exact ⟨hfits.1, hfits.2, rfl, rfl⟩
    · rintro ⟨_, _, rfl, rfl⟩
      exact ⟨rfl, rfl⟩

omit [Host] in
/-- The header and the body of an option are all of it but the padding. -/
theorem slice_geneveOption (opt : Bytes 24) :
    Bytes.slice opt 0 2 optClass_fits ++ Bytes.slice opt 2 2 optHead_fits ++ Bytes.slice opt 4 16 optAddr_fits ++
      Bytes.slice opt 20 2 optPort_fits = Bytes.slice opt 0 22 optBytes_fit := by
  have hheader := @Bytes.slice_append_adjacent 24 opt 0 2 2 (by omega) (by omega)
  have haddr := @Bytes.slice_append_adjacent 24 opt 0 4 16 (by omega) (by omega)
  have hport := @Bytes.slice_append_adjacent 24 opt 0 20 2 (by omega) (by omega)
  exact (congrArg (fun v => v ++ _ ++ _) hheader).trans ((congrArg (fun v => v ++ _) haddr).trans hport)

/-- An option with this header is the encoding of its body, up to the padding. -/
theorem slice_of_header {opt : Bytes 24} {type : UInt8}
    (hclass : Bytes.slice opt 0 2 optClass_fits = geneveOptClass) (htype : optType opt = type)
    (hwords : optWords opt = geneveOptWords) :
    Bytes.slice opt 0 22 optBytes_fit =
      Bytes.slice (geneveOption type (geneveOptionBody opt).1 (geneveOptionBody opt).2) 0 22 optBytes_fit := by
  have hhead : Bytes.slice opt 2 2 optHead_fits = #v[type, geneveOptWords] := by
    apply Vector.ext
    intro i hi
    have hcase : i = 0 ∨ i = 1 := by omega
    rcases hcase with rfl | rfl
    · simpa [Bytes.slice, optType] using htype
    · simpa [Bytes.slice, optWords] using hwords
  rw [← slice_geneveOption opt, hclass, hhead]
  unfold geneveOption geneveOptionBody
  rw [Bytes.slice_append_left _ (by omega), Bytes.slice_all, Endian.u16Bytes_u16OfBytes]

omit [Host] in
theorem getElem_paddedOption (options : List UInt8) {i : Nat} (hi : i < 24) :
    (paddedOption options)[i] = options.getD i 0 := by
  unfold paddedOption
  rw [Vector.getElem_ofFn]

omit [Host] in
/-- An option of the whole length is its buffer. -/
theorem toList_paddedOption {options : List UInt8} (hlen : options.length = 24) :
    (paddedOption options).toList = options := by
  apply List.ext_getElem
  · rw [Vector.length_toList, hlen]
  · intro i hi hi'
    rw [Vector.getElem_toList, getElem_paddedOption options (by omega), List.getD_eq_getElem?_getD,
      List.getElem?_eq_getElem hi', Option.getD_some]

omit [Host] in
theorem take_toList (v : Bytes 24) : v.toList.take optionBytes = (Bytes.slice v 0 22 optBytes_fit).toList := by
  unfold optionBytes
  apply List.ext_getElem
  · simp
  · intro i hi hi'
    rw [List.getElem_take, Vector.getElem_toList, Vector.getElem_toList]
    simp [Bytes.slice]

/-- **When what is accepted is an encoding.** Given class and type, it is a matter of the length of the option
    and of its length word. -/
theorem equalsUpToPadding_iff {options : List UInt8} {type : UInt8}
    (hclass : Bytes.slice (paddedOption options) 0 2 optClass_fits = geneveOptClass)
    (htype : optType (paddedOption options) = type) :
    EqualsUpToPadding options (geneveOption type (geneveOptionBody (paddedOption options)).1
        (geneveOptionBody (paddedOption options)).2) ↔
      options.length = 24 ∧ optWords (paddedOption options) = geneveOptWords := by
  constructor
  · rintro ⟨hlen, hbytes⟩
    refine ⟨hlen, ?_⟩
    have hbuffer : options.take optionBytes = (paddedOption options).toList.take optionBytes := by
      rw [toList_paddedOption hlen]
    rw [hbuffer, take_toList, take_toList] at hbytes
    have hword := congrArg (fun l => l.getD 3 0) hbytes
    have henc := (getElem_type_geneveOption type (geneveOptionBody (paddedOption options)).1
      (geneveOptionBody (paddedOption options)).2).2
    simpa [Bytes.slice, henc, optWords] using hword
  · rintro ⟨hlen, hwords⟩
    refine ⟨hlen, ?_⟩
    have hslice := slice_of_header hclass htype hwords
    have htake := congrArg Vector.toList hslice
    rw [← take_toList, ← take_toList, toList_paddedOption hlen] at htake
    exact htake

/-! ## What the two decapsulations accept -/

/-- Both decapsulations read only encodings out of these options, on every node and from every peer. -/
def OptionsAgree (options : List UInt8) : Prop :=
  ∀ (n : Node) (skb : Skb) (info : TunnelInfo), skb.received = some info → info.options = options →
    (∀ podIp targetPort, decapForwardGate n skb info = some (podIp, targetPort) →
      EqualsUpToPadding options (encodePodIdOption podIp targetPort)) ∧
    (∀ frontIp frontPort, decapReturnGate n skb info = some (frontIp, frontPort) →
      EqualsUpToPadding options (encodeFrontEcho frontIp frontPort))

/-- A front echo, by class and type, of another length than 24 or with another length word than 5. -/
def LooseEcho (options : List UInt8) : Prop :=
  options.length ≤ 24 ∧ options.take 3 = [0xff, 0xff, geneveOptTypeFrontEcho] ∧
    (options.length ≠ 24 ∨ options.getD 3 0 ≠ geneveOptWords)

omit [Host] in
/-- A missing byte reads as zero, which no byte of the header is. -/
theorem take_three_iff {options : List UInt8} {type : UInt8} (hne : type ≠ 0) :
    options.take 3 = [0xff, 0xff, type] ↔
      options.getD 0 0 = 0xff ∧ options.getD 1 0 = 0xff ∧ options.getD 2 0 = type := by
  have hne' : ¬ 0 = type := fun h => hne h.symm
  rcases options with _ | ⟨a, _ | ⟨b, _ | ⟨c, rest⟩⟩⟩ <;> simp [hne']

omit [Host] in
/-- Class and type of an option, as its buffer has them. -/
theorem take_header_iff {options : List UInt8} {type : UInt8} (hne : type ≠ 0) :
    options.take 3 = [0xff, 0xff, type] ↔
      Bytes.slice (paddedOption options) 0 2 optClass_fits = geneveOptClass ∧ optType (paddedOption options) = type := by
  have hclass : Bytes.slice (paddedOption options) 0 2 optClass_fits = geneveOptClass ↔
      options.getD 0 0 = 0xff ∧ options.getD 1 0 = 0xff := by
    constructor
    · intro h
      have h0 := congrArg (fun v : Bytes 2 => v[0]) h
      have h1 := congrArg (fun v : Bytes 2 => v[1]) h
      simp only [Bytes.slice, geneveOptClass, Vector.getElem_ofFn, Vector.getElem_replicate,
        getElem_paddedOption] at h0 h1
      exact ⟨h0, h1⟩
    · rintro ⟨h0, h1⟩
      apply Vector.ext
      intro i hi
      have hcase : i = 0 ∨ i = 1 := by omega
      rcases hcase with rfl | rfl
      · simpa [Bytes.slice, geneveOptClass, getElem_paddedOption] using h0
      · simpa [Bytes.slice, geneveOptClass, getElem_paddedOption] using h1
  rw [hclass, optType, getElem_paddedOption options (by omega), take_three_iff hne, and_assoc]

/-- The forward leg takes the whole encoding of a pod and a port only. -/
theorem equalsUpToPadding_of_forwardGate {n : Node} {skb : Skb} {info : TunnelInfo} {podIp : Bytes 16}
    {targetPort : UInt16} (hinfo : skb.received = some info)
    (hgate : decapForwardGate n skb info = some (podIp, targetPort)) :
    EqualsUpToPadding info.options (encodePodIdOption podIp targetPort) := by
  obtain ⟨_, opt, hopt, hdecode⟩ := decapForwardGate_some hgate
  obtain ⟨_, _, hlen, rfl⟩ := (getTunnelOpt_eq_some hinfo).mp hopt
  unfold decodePodIdOption at hdecode
  split at hdecode
  · cases hdecode
  · rename_i hheader
    simp only [not_or, not_not] at hheader
    obtain ⟨hclass, htype, hwords⟩ := hheader
    have hbody := Option.some_inj.mp hdecode
    have hequal := (equalsUpToPadding_iff hclass htype).mpr ⟨hlen.symm, hwords⟩
    rw [hbody] at hequal
    exact hequal

/-- The return leg reads the body of whatever has class and type of a front echo, and fits. -/
theorem decapReturnGate_eq_some {n : Node} {skb : Skb} {info : TunnelInfo} {frontIp : Bytes 16}
    {frontPort : UInt16} (hinfo : skb.received = some info) :
    decapReturnGate n skb info = some (frontIp, frontPort) ↔
      n.isNodeAllowed (tunnelRemote info.remote) = true ∧ info.options.length ≤ 24 ∧
        info.options.take 3 = [0xff, 0xff, geneveOptTypeFrontEcho] ∧
        geneveOptionBody (paddedOption info.options) = (frontIp, frontPort) := by
  have hheader := @take_header_iff info.options geneveOptTypeFrontEcho (by decide)
  cases hallowed : n.isNodeAllowed (tunnelRemote info.remote) with
  | false => simp [decapReturnGate, peerNodeAdmission, hallowed]
  | true =>
    simp only [decapReturnGate, peerNodeAdmission, hallowed, if_true, Option.bind_eq_some_iff, true_and]
    constructor
    · rintro ⟨⟨len, opt⟩, hopt, hdecode⟩
      obtain ⟨_, hle, _, rfl⟩ := (getTunnelOpt_eq_some hinfo).mp hopt
      unfold decodeFrontEcho at hdecode
      split at hdecode
      · cases hdecode
      · rename_i hok
        simp only [not_or, not_not] at hok
        exact ⟨hle, hheader.mpr hok, Option.some_inj.mp hdecode⟩
    · rintro ⟨hle, htake, hbody⟩
      have hne : info.options ≠ [] := by
        intro hnil
        rw [hnil] at htake
        cases htake
      obtain ⟨hclass, htype⟩ := hheader.mp htake
      refine ⟨(info.options.length, paddedOption info.options),
        (getTunnelOpt_eq_some hinfo).mpr ⟨hne, hle, rfl, rfl⟩, ?_⟩
      unfold decodeFrontEcho
      rw [optType] at htype
      rw [if_neg (by simp [hclass, htype]), hbody]

/-- A node that knows one peer. -/
def allowing (remote : Bytes 16) : Node where
  frontMeta := ∅
  frontEndpoints := ∅
  frontMisses := 0
  podTargets := ∅
  nodeAllow := AList.insert remote 1 ∅
  fwdPending := ∅
  flowTable := ∅
  config := none
  uplinkConfig := ∅

/-- A packet that came out of a tunnel with these options. -/
def receivedWith (options : List UInt8) : Skb where
  data := []
  linear := 0
  mark := 0
  ingressIfindex := 0
  ifindex := 0
  received := some { remote := setTunnelRemote (Vector.replicate 16 0), tunnelId := vniRet, options }
  stamped := none
  host := true

/-- **Exactly the loose echoes** are read as what they do not encode. -/
theorem optionsAgree_iff (options : List UInt8) : OptionsAgree options ↔ ¬ LooseEcho options := by
  constructor
  · rintro hagree ⟨hle, htake, hloose⟩
    have hread : decapReturnGate (allowing (Vector.replicate 16 0)) (receivedWith options)
        { remote := setTunnelRemote (Vector.replicate 16 0), tunnelId := vniRet, options } =
          some ((geneveOptionBody (paddedOption options)).1, (geneveOptionBody (paddedOption options)).2) := by
      refine (decapReturnGate_eq_some rfl).mpr ⟨?_, hle, htake, rfl⟩
      rw [tunnelRemote_setTunnelRemote]
      unfold Node.isNodeAllowed allowing
      rw [AList.lookup_insert, Option.isSome_some]
    have hequal := (hagree _ _ _ rfl rfl).2 _ _ hread
    obtain ⟨hclass, htype⟩ := (take_header_iff (by decide)).mp htake
    obtain ⟨hlen, hwords⟩ := (equalsUpToPadding_iff hclass htype).mp hequal
    rw [optWords, getElem_paddedOption options (by omega)] at hwords
    rcases hloose with hother | hother
    · exact hother hlen
    · exact hother hwords
  · rintro hstrict n skb info hinfo rfl
    refine ⟨fun podIp targetPort hgate => equalsUpToPadding_of_forwardGate hinfo hgate, ?_⟩
    intro frontIp frontPort hgate
    obtain ⟨_, hle, htake, hbody⟩ := (decapReturnGate_eq_some hinfo).mp hgate
    obtain ⟨hclass, htype⟩ := (take_header_iff (by decide)).mp htake
    have hwhole : info.options.length = 24 ∧ optWords (paddedOption info.options) = geneveOptWords := by
      rw [optWords, getElem_paddedOption info.options (by omega)]
      by_contra hnot
      refine hstrict ⟨hle, htake, ?_⟩
      rw [not_and_or] at hnot
      exact hnot
    have hequal := (equalsUpToPadding_iff hclass htype).mpr hwhole
    rw [hbody] at hequal
    exact hequal

/-! ## The two legs -/

/-- The return leg does not take a pod option. -/
theorem decapReturnGate_podIdOption {n : Node} {skb : Skb} {info : TunnelInfo} {podIp : Bytes 16}
    {targetPort : UInt16} (hinfo : skb.received = some info)
    (hopt : info.options = (encodePodIdOption podIp targetPort).toList) : decapReturnGate n skb info = none := by
  have hdecode : decodeFrontEcho (encodePodIdOption podIp targetPort) = none := by
    unfold decodeFrontEcho encodePodIdOption
    rw [(getElem_type_geneveOption geneveOptTypePodId podIp targetPort).1, if_pos (Or.inr (by decide))]
  unfold decapReturnGate
  rw [getTunnelOpt_of_options hinfo hopt]
  cases peerNodeAdmission (n.isNodeAllowed (tunnelRemote info.remote)) with
  | drop => rfl
  | «continue» => exact hdecode

/-- The forward leg does not take a front echo. -/
theorem decapForwardGate_frontEcho {n : Node} {skb : Skb} {info : TunnelInfo} {frontIp : Bytes 16}
    {frontPort : UInt16} (hinfo : skb.received = some info)
    (hopt : info.options = (encodeFrontEcho frontIp frontPort).toList) : decapForwardGate n skb info = none := by
  cases hgate : decapForwardGate n skb info with
  | none => rfl
  | some v =>
    obtain ⟨podIp, targetPort⟩ := v
    obtain ⟨_, opt, hget, hdecode⟩ := decapForwardGate_some hgate
    rw [getTunnelOpt_of_options hinfo hopt] at hget
    obtain rfl := (Prod.mk.inj (Option.some_inj.mp hget)).2
    unfold decodePodIdOption encodeFrontEcho at hdecode
    rw [(getElem_type_geneveOption geneveOptTypeFrontEcho frontIp frontPort).1,
      if_pos (Or.inr (Or.inl (by decide)))] at hdecode
    cases hdecode

/-- **The option codecs of the two legs.** Each leg decodes what the other end encodes for it, whichever family
    the packet is of; neither takes the other's option; and what they accept is an encoding, unless it is a
    loose echo. -/
theorem option_codecs_agree_iff :
    (∀ podIp targetPort, decodePodIdOption (encodePodIdOption podIp targetPort) = some (podIp, targetPort)) ∧
    (∀ frontIp frontPort, decodeFrontEcho (encodeFrontEcho frontIp frontPort) = some (frontIp, frontPort)) ∧
    (∀ n h skb ifindex neigh, (uplinkEgressReturn n h skb).2.2 = .redirect ifindex neigh →
      ∃ p rev, egressAdmit n skb = some p ∧ n.flowTableGetReverse p.key = some rev ∧
        (uplinkEgressReturn n h skb).2.1.stamped.map (·.options) =
          some (encodeFrontEcho rev.frontIp rev.frontPort).toList) ∧
    (∀ n skb info podIp targetPort, skb.received = some info →
      info.options = (encodePodIdOption podIp targetPort).toList → decapReturnGate n skb info = none) ∧
    (∀ n skb info frontIp frontPort, skb.received = some info →
      info.options = (encodeFrontEcho frontIp frontPort).toList → decapForwardGate n skb info = none) ∧
    ∀ options, OptionsAgree options ↔ ¬ LooseEcho options := by
  refine ⟨decodePodIdOption_encode, decodeFrontEcho_encode, ?_, ?_, ?_, optionsAgree_iff⟩
  · intro n h skb ifindex neigh hres
    obtain ⟨p, rev, _, _, _, hp, hrev, _, _, htunnel⟩ := uplinkEgress_redirect hres
    obtain ⟨hstamped, _⟩ := redirectToGeneve_redirect htunnel
    exact ⟨p, rev, hp, hrev, by rw [hstamped]; rfl⟩
  · intro n skb info podIp targetPort hinfo hopt
    exact decapReturnGate_podIdOption hinfo hopt
  · intro n skb info frontIp frontPort hinfo hopt
    exact decapForwardGate_frontEcho hinfo hopt

end Beep

/-! ## An echo without its port -/

namespace Beep

section
local instance echoHost : Host := littleHost

/-- A front echo of 20 bytes: the front 192.0.2.80, and no port. -/
def shortEcho : List UInt8 :=
  [0xff, 0xff, 0x02, 0x04, 0, 0, 0, 0, 0, 0, 0, 0, 0, 0, 0xff, 0xff, 192, 0, 2, 80]

-- The return leg reads the port 0 out of it, which the comment on the forward leg's length check rules out.
example : (decodeFrontEcho (paddedOption shortEcho)).map Prod.snd = some 0 := by decide

theorem not_optionsAgree_shortEcho : ¬ OptionsAgree shortEcho := by
  intro hagree
  refine (optionsAgree_iff shortEcho).mp hagree ⟨by decide, rfl, Or.inl (by decide)⟩

end

end Beep
