import Gazelle.Config.LtranParam
import Mathlib.Data.Nat.Size

/-!
# Bond ports and their clients

What ltran makes of its configuration: `ltran_parse_port` gives each bond port its slave ports, and
`instance_info_check` admits the clients of the subnet and finds the bond port of each by its mac
address.

* `LtranParams.instanceInfoCheck_and_bondPort_iff`: the clients that a configuration admits, and
  their bond ports;
* `LtranParams.ltranParsePort_spec`: the slave ports are there, and no two bond ports share one.
-/

namespace Gazelle

namespace LtranParams

/-! ## A configuration with two bond ports -/

/-- Hosts 192.168.1.1 to 192.168.1.254, and two bond ports with one port each. -/
def twoBondPorts : LtranParams where
  dpdkArgv := [programName]
  kniSwitch := 0
  numClients := 1
  ipv4SubnetAddr := 0xc0a80100
  ipv4NetMask := 0xff
  ipv4SubnetSize := 0x100
  ipv4SubnetLength := 8
  miimon := 100
  mode := 1
  mtu := 1500
  portmask := [1, 1]
  mac := [#v[2, 0, 0, 0, 0, 1], #v[2, 0, 0, 0, 0, 2]]
  rxQueueNum := 1
  txQueueNum := 1
  tcpConnScanInterval := 1000000
  unixSocketFilename := gazelleRunDir ++ [] ++ gazelleRegSockFilename
  dfxSocketFilename := gazelleRunDir ++ [] ++ gazelleDfxSockFilename
  rxMbufPoolSize := 0
  txMbufPoolSize := 0

/-- It is well formed. -/
theorem wellFormed_twoBondPorts : twoBondPorts.WellFormed where
  dpdkArgv := ⟨[], rfl, by decide, by simp⟩
  kniSwitch := .inl rfl
  numClients := by decide
  subnetLength := by decide
  subnetSize := rfl
  netMask := rfl
  netPart := by decide
  hostPart := by decide
  miimon := by decide
  mode := rfl
  mtu := by decide
  portNum := by decide
  portmask := by decide
  macNum := rfl
  macNodup := by decide
  rxQueueNum := rfl
  txQueueNum := rfl
  scanInterval := ⟨1, by decide, rfl⟩
  filenames := ⟨[], .inl rfl, rfl, rfl⟩

/-! ## Clients -/

/-- A mac address as one number. -/
def etherBits (m : EtherAddr) : BitVec 48 := m[0] ++ m[1] ++ m[2] ++ m[3] ++ m[4] ++ m[5]

/-- What the registration reads: `instance_match_bond_port` looks at all entries of `bond.mac`. -/
def registration (c : LtranParams) : LtranConfig where
  ipv4NetMask := c.ipv4NetMask
  ipv4SubnetAddr := c.ipv4SubnetAddr
  bondMac := c.mac.map etherBits ++ List.replicate (gazelleMaxBondNum - c.mac.length) 0

section Clients

variable {c : LtranParams}

/-- The bytes can be read off the number. -/
theorem etherBits_injective : Function.Injective etherBits := by
  intro m m' h
  have hlast : ∀ {w : ℕ} {x y : BitVec w} {a b : BitVec 8}, x ++ a = y ++ b → x = y ∧ a = b := by
    intro w x y a b hxy
    constructor
    · have hhigh := congrArg (BitVec.extractLsb' 8 w) hxy
      rwa [BitVec.extractLsb'_append_eq_left, BitVec.extractLsb'_append_eq_left] at hhigh
    · have hlow := congrArg (BitVec.extractLsb' 0 8) hxy
      rwa [BitVec.extractLsb'_append_eq_right, BitVec.extractLsb'_append_eq_right] at hlow
  obtain ⟨h, h₅⟩ := hlast h
  obtain ⟨h, h₄⟩ := hlast h
  obtain ⟨h, h₃⟩ := hlast h
  obtain ⟨h, h₂⟩ := hlast h
  obtain ⟨h₀, h₁⟩ := hlast h
  refine Vector.ext fun i hi => ?_
  match i, hi with
  | 0, _ => exact h₀
  | 1, _ => exact h₁
  | 2, _ => exact h₂
  | 3, _ => exact h₃
  | 4, _ => exact h₄
  | 5, _ => exact h₅

/-- The host part of an address. -/
theorem toNat_and_netMask (h : c.WellFormed) (x : BitVec 32) :
    (x &&& c.ipv4NetMask).toNat = x.toNat % 2 ^ c.ipv4SubnetLength.toNat := by
  have hlt : 2 ^ c.ipv4SubnetLength.toNat ≤ 2 ^ 16 :=
    Nat.pow_le_pow_right (by decide) h.subnetLength.2
  rw [h.netMask, BitVec.toNat_and, BitVec.toNat_ofNat, Nat.mod_eq_of_lt (by omega),
    Nat.and_two_pow_sub_one_eq_mod]

/-- The net part of an address is the rest. -/
theorem toNat_and_not (x m : BitVec 32) : (x &&& ~~~m).toNat = x.toNat - (x &&& m).toNat := by
  have hdisjoint : x &&& m &&& (x &&& ~~~m) = 0#32 := by
    rw [BitVec.and_assoc, ← BitVec.and_assoc m, BitVec.and_comm m x, BitVec.and_assoc x m,
      BitVec.and_not_self]
    simp
  have hsum : (x &&& m) + (x &&& ~~~m) = x := by
    rw [BitVec.add_eq_or_of_and_eq_zero _ _ hdisjoint, ← BitVec.and_or_distrib_left,
      BitVec.or_not_self, BitVec.and_allOnes]
  have hle : x &&& m ≤ x := by
    rw [BitVec.le_def, BitVec.toNat_and]
    exact Nat.and_le_left
  have hparts := congrArg BitVec.toNat hsum
  rw [BitVec.toNat_add] at hparts
  rw [BitVec.le_def] at hle
  have hlt := (x &&& ~~~m).isLt
  omega

/-- The addresses of the subnet: the net part is the one of the subnet, the rest is the host. -/
theorem and_not_netMask_eq_iff (h : c.WellFormed) {x : BitVec 32} :
    x &&& ~~~c.ipv4NetMask = c.ipv4SubnetAddr ↔
      x.toNat = c.ipv4SubnetAddr.toNat + x.toNat % 2 ^ c.ipv4SubnetLength.toNat := by
  have hle := Nat.mod_le x.toNat (2 ^ c.ipv4SubnetLength.toNat)
  rw [← BitVec.toNat_inj, toNat_and_not, toNat_and_netMask h]
  omega

/-- The bits that the mask lets through of the broadcast address. -/
theorem toNat_allOnes_and_netMask (h : c.WellFormed) :
    (BitVec.allOnes 32 &&& c.ipv4NetMask).toNat = 2 ^ c.ipv4SubnetLength.toNat - 1 := by
  have hlt : 2 ^ c.ipv4SubnetLength.toNat ≤ 2 ^ 16 :=
    Nat.pow_le_pow_right (by decide) h.subnetLength.2
  rw [BitVec.allOnes_and, h.netMask, BitVec.toNat_ofNat, Nat.mod_eq_of_lt (by omega)]

/-- The address of the subnet ends in zeros. -/
theorem subnetAddr_mod (h : c.WellFormed) :
    c.ipv4SubnetAddr.toNat % 2 ^ c.ipv4SubnetLength.toNat = 0 := by
  rw [← toNat_and_netMask h, h.hostPart]
  rfl

/-- The checks of the address let through the hosts of the subnet, without the first and the
last. -/
theorem addrChecks_iff (h : c.WellFormed) {x : BitVec 32} :
    (x ≠ BitVec.allOnes 32 ∧ x &&& c.ipv4NetMask ≠ BitVec.allOnes 32 &&& c.ipv4NetMask ∧
        x &&& c.ipv4NetMask ≠ 0 ∧ x &&& ~~~c.ipv4NetMask = c.ipv4SubnetAddr) ↔
      ∃ host, 0 < host ∧ host < 2 ^ c.ipv4SubnetLength.toNat - 1 ∧
        x.toNat = c.ipv4SubnetAddr.toNat + host := by
  have hpos : 0 < 2 ^ c.ipv4SubnetLength.toNat := Nat.two_pow_pos _
  rw [and_not_netMask_eq_iff h, Ne, Ne, Ne, ← BitVec.toNat_inj (x := x &&& c.ipv4NetMask),
    ← BitVec.toNat_inj (x := x &&& c.ipv4NetMask), toNat_and_netMask h,
    toNat_allOnes_and_netMask h, show BitVec.toNat (0 : BitVec 32) = 0 from rfl]
  constructor
  · rintro ⟨-, hlast, hfirst, hnet⟩
    have hmod := Nat.mod_lt x.toNat hpos
    exact ⟨x.toNat % 2 ^ c.ipv4SubnetLength.toNat, by omega, by omega, hnet⟩
  · rintro ⟨host, hfirst, hlast, hx⟩
    have hhost : x.toNat % 2 ^ c.ipv4SubnetLength.toNat = host := by
      rw [hx, Nat.add_mod, subnetAddr_mod h, Nat.zero_add, Nat.mod_mod,
        Nat.mod_eq_of_lt (by omega)]
    refine ⟨fun hall => ?_, by omega, by omega, by rw [hhost]; exact hx⟩
    -- The host part of the broadcast address is the last one.
    have hones := toNat_allOnes_and_netMask h
    rw [← hall, toNat_and_netMask h] at hones
    omega

/-- The search through the entries of two bond ports. -/
theorem instanceMatchBondPort_pair {config : LtranConfig} {x y mac : BitVec 48} {i : ℕ}
    (h : config.bondMac = [x, y]) :
    instanceMatchBondPort config mac = some i ↔
      (i = 0 ∧ x = mac) ∨ (i = 1 ∧ x ≠ mac ∧ y = mac) := by
  rw [instanceMatchBondPort, h, List.findIdx?_cons, List.findIdx?_cons, List.findIdx?_nil]
  by_cases hx : x = mac <;> by_cases hy : y = mac <;> simp [hx, hy, eq_comm]

/-- The bond port of a client is the one with its address. Where the second bond port is missing,
its entry is zero, and a client with this address belongs to it. -/
theorem instanceMatchBondPort_eq_some_iff (h : c.WellFormed) {mac : BitVec 48} {i : ℕ} :
    instanceMatchBondPort c.registration mac = some i ↔
      c.mac[i]?.map etherBits = some mac ∨
        (i = 1 ∧ c.mac.length = 1 ∧ mac = 0 ∧ ∀ m ∈ c.mac, etherBits m ≠ 0) := by
  have hnum : gazelleMaxBondNum = 2 := rfl
  have hlen := h.portNum
  rw [← h.macNum, hnum] at hlen
  have hnodup := h.macNodup
  match hmac : c.mac with
  | [] => simp [hmac] at hlen
  -- the second entry is zero, and found when the first one is another address
  | [a] =>
    have hbond : c.registration.bondMac = [etherBits a, 0] := by
      simp [registration, hmac, hnum]
    rw [instanceMatchBondPort_pair hbond]
    rcases i with _ | _ | i
    · simp
    · simp only [List.getElem?_cons_succ, List.getElem?_nil, Option.map_none, List.length_cons,
        List.length_nil, List.mem_singleton, forall_eq]
      constructor
      · rintro (⟨hi, -⟩ | ⟨-, hne, rfl⟩)
        · cases hi
        · exact .inr ⟨trivial, trivial, rfl, hne⟩
      · rintro (hnone | ⟨-, -, rfl, hne⟩)
        · cases hnone
        · exact .inr ⟨trivial, hne, rfl⟩
    · simp
  -- the second address is not the first, so the search does not stop there
  | [a, b] =>
    have hbond : c.registration.bondMac = [etherBits a, etherBits b] := by
      simp [registration, hmac, hnum]
    have hne : etherBits a ≠ etherBits b := fun heq => by
      simp [hmac, etherBits_injective heq] at hnodup
    rw [instanceMatchBondPort_pair hbond]
    rcases i with _ | _ | i
    · simp
    · simp only [List.getElem?_cons_succ, List.getElem?_cons_zero, Option.map_some,
        Option.some.injEq, List.length_cons, List.length_nil]
      constructor
      · rintro (⟨hi, -⟩ | ⟨-, -, hb⟩)
        · cases hi
        · exact .inl hb
      · rintro (rfl | ⟨-, hone, -⟩)
        · exact .inr ⟨trivial, hne, rfl⟩
        · cases hone
    · simp
  | _ :: _ :: _ :: _ =>
    simp only [hmac, List.length_cons] at hlen
    omega

/-- The checks of a client, one after another. -/
theorem instanceInfoCheck_eq_true_iff {config : LtranConfig} {mgr : InstanceMgr}
    {conf : ClientProcConf} :
    instanceInfoCheck config mgr conf = true ↔
      (ntohl conf.ipv4 ≠ BitVec.allOnes 32 ∧
        ntohl conf.ipv4 &&& config.ipv4NetMask ≠ BitVec.allOnes 32 &&& config.ipv4NetMask ∧
        ntohl conf.ipv4 &&& config.ipv4NetMask ≠ 0 ∧
        ntohl conf.ipv4 &&& ~~~config.ipv4NetMask = config.ipv4SubnetAddr) ∧
      mgr.gazelleInstanceGetByPid conf.pid = none ∧
      (instanceMatchBondPort config conf.macAddr).isSome = true := by
  unfold instanceInfoCheck
  dsimp only
  constructor
  · intro hcheck
    split at hcheck
    · cases hcheck
    split at hcheck
    · cases hcheck
    split at hcheck
    · cases hcheck
    split at hcheck
    · cases hcheck
    split at hcheck
    · cases hcheck
    next hall hlast hfirst hnet hpid =>
      exact ⟨⟨hall, hlast, hfirst, not_not.mp hnet⟩, Option.not_isSome_iff_eq_none.mp hpid, hcheck⟩
  · rintro ⟨⟨hall, hlast, hfirst, hnet⟩, hpid, hport⟩
    rw [if_neg hall, if_neg hlast, if_neg hfirst, if_neg (not_not.mpr hnet), hpid]
    exact hport

/-- The clients that ltran admits under a configuration, with their bond ports: a host of the
subnet, not its first and not its last, a new process, and a mac address of a bond port. -/
theorem instanceInfoCheck_and_bondPort_iff (h : c.WellFormed) {mgr : InstanceMgr}
    {conf : ClientProcConf} {i : ℕ} :
    (instanceInfoCheck c.registration mgr conf = true ∧
        instanceMatchBondPort c.registration conf.macAddr = some i) ↔
      (∃ host, 0 < host ∧ host < 2 ^ c.ipv4SubnetLength.toNat - 1 ∧
        (ntohl conf.ipv4).toNat = c.ipv4SubnetAddr.toNat + host) ∧
      mgr.gazelleInstanceGetByPid conf.pid = none ∧
      (c.mac[i]?.map etherBits = some conf.macAddr ∨
        (i = 1 ∧ c.mac.length = 1 ∧ conf.macAddr = 0 ∧ ∀ m ∈ c.mac, etherBits m ≠ 0)) := by
  rw [instanceInfoCheck_eq_true_iff, ← instanceMatchBondPort_eq_some_iff h, ← addrChecks_iff h]
  constructor
  · rintro ⟨⟨haddr, hpid, -⟩, hport⟩
    exact ⟨haddr, hpid, hport⟩
  · rintro ⟨haddr, hpid, hport⟩
    exact ⟨⟨haddr, hpid, by rw [hport]; rfl⟩, hport⟩

/-- The last host of the subnet, with the second mac address, belongs to the second bond port. -/
theorem instanceInfoCheck_and_bondPort_lastHost :
    instanceInfoCheck twoBondPorts.registration ⟨0, 2, fun _ => 0, fun _ => none⟩
        ⟨7, 0, 0, "", 0x020000000002, 0xfe01a8c0, 0⟩ = true ∧
      instanceMatchBondPort twoBondPorts.registration 0x020000000002 = some 1 :=
  (instanceInfoCheck_and_bondPort_iff wellFormed_twoBondPorts).mpr
    ⟨⟨254, by decide, by decide, by decide⟩, by decide, .inl (by decide)⟩

end Clients

/-! ## Slave ports -/

/-- The bits of the mask of one bond port in `ltran_parse_port`: the ids that it gets, and the index
after them. The index stays at most the number of ports, which is a `uint16_t`. -/
def maskPorts (availPortsNum mask index : ℕ) : List ℕ × ℕ :=
  if mask = 0 then ([], index)
  -- Requested port not present, ignoring.
  else if availPortsNum ≤ index then ([], index)
  else
    let rest := maskPorts availPortsNum (mask / 2) (index + 1)
    (if mask % 2 = 1 then index :: rest.1 else rest.1, rest.2)
termination_by mask

/-- The bond ports in `ltran_parse_port`. The index goes on from one to the next. -/
def parsePorts (availPortsNum : ℕ) : List ℕ → ℕ → Option (List (List ℕ))
  | [], _ => some []
  | mask :: masks, index =>
    let port := maskPorts availPortsNum mask index
    if port.1 = [] then none
    else (parsePorts availPortsNum masks port.2).map (port.1 :: ·)

/-- `ltran_parse_port`, with `rte_eth_dev_count_avail` as an argument: the `port_info` of the bond
ports. -/
def ltranParsePort (availPortsNum : ℕ) (c : LtranParams) : Option (List (List ℕ)) :=
  if availPortsNum = 0 then none
  else parsePorts availPortsNum c.portmask 0

/-- The number of the port that the lowest bit of a mask stands for. -/
def portOffset (masks : List ℕ) (i : ℕ) : ℕ := ((masks.take i).map Nat.size).sum

section Slaves

variable {avail mask index : ℕ}

/-- The last bit. -/
theorem size_eq_add_one (h : mask ≠ 0) : mask.size = (mask / 2).size + 1 := by
  have hbit : Nat.bit mask.bodd (mask / 2) = mask := by
    rw [← Nat.div2_val, Nat.bit_bodd_div2]
  conv_lhs => rw [← hbit]
  exact Nat.size_bit (by rwa [hbit])

/-- The ids of a bond port are the ports of its bits that are there. -/
theorem mem_maskPorts {p : ℕ} :
    p ∈ (maskPorts avail mask index).1 ↔
      p < avail ∧ index ≤ p ∧ mask.testBit (p - index) = true := by
  induction mask, index using maskPorts.induct avail with
  | case1 index => simp [maskPorts]
  | case2 mask index hmask hle =>
    rw [maskPorts, if_neg hmask, if_pos hle]
    simp only [List.not_mem_nil, false_iff]
    omega
  | case3 mask index hmask hlt ih =>
    rw [maskPorts, if_neg hmask, if_neg hlt]
    dsimp only
    have hrest : (p < avail ∧ index + 1 ≤ p ∧ (mask / 2).testBit (p - (index + 1)) = true) ↔
        p < avail ∧ index < p ∧ mask.testBit (p - index) = true := by
      refine and_congr_right fun _ => and_congr_right fun hp => ?_
      obtain ⟨bit, rfl⟩ := Nat.exists_eq_add_of_le hp
      rw [Nat.add_sub_cancel_left, show index + 1 + bit - index = bit + 1 by omega,
        Nat.testBit_succ]
    split
    -- the last bit is the port at the index
    next hodd =>
      rw [List.mem_cons, ih, hrest]
      constructor
      · rintro (rfl | ⟨hp, hindex, hbit⟩)
        · refine ⟨by omega, le_rfl, ?_⟩
          rw [Nat.sub_self, Nat.testBit_zero, hodd]
          rfl
        · exact ⟨hp, by omega, hbit⟩
      · rintro ⟨hp, hindex, hbit⟩
        rcases Nat.eq_or_lt_of_le hindex with heq | hlt'
        · exact .inl heq.symm
        · exact .inr ⟨hp, hlt', hbit⟩
    next heven =>
      rw [ih, hrest]
      refine and_congr_right fun _ => ⟨fun ⟨hp, hbit⟩ => ⟨by omega, hbit⟩, ?_⟩
      rintro ⟨hindex, hbit⟩
      rcases Nat.eq_or_lt_of_le hindex with rfl | hlt'
      · rw [Nat.sub_self, Nat.testBit_zero] at hbit
        exact absurd (of_decide_eq_true hbit) heven
      · exact ⟨hlt', hbit⟩

/-- The ids of a bond port ascend. -/
theorem pairwise_maskPorts : (maskPorts avail mask index).1.Pairwise (· < ·) := by
  induction mask, index using maskPorts.induct avail with
  | case1 index => simp [maskPorts]
  | case2 mask index hmask hle => simp [maskPorts, hle]
  | case3 mask index hmask hlt ih =>
    rw [maskPorts, if_neg hmask, if_neg hlt]
    dsimp only
    split
    · refine List.pairwise_cons.mpr ⟨fun p hp => ?_, ih⟩
      exact (mem_maskPorts.mp hp).2.1
    · exact ih

/-- The index after a bond port: past its mask, or past the ports that are there. -/
theorem maskPorts_snd :
    (maskPorts avail mask index).2 = index + mask.size ∨
      avail ≤ (maskPorts avail mask index).2 ∧ avail ≤ index + mask.size := by
  induction mask, index using maskPorts.induct avail with
  | case1 index => simp [maskPorts]
  | case2 mask index hmask hle =>
    rw [maskPorts, if_neg hmask, if_pos hle]
    exact .inr ⟨hle, by omega⟩
  | case3 mask index hmask hlt ih =>
    rw [maskPorts, if_neg hmask, if_neg hlt, size_eq_add_one hmask]
    rwa [show index + ((mask / 2).size + 1) = index + 1 + (mask / 2).size by omega]

/-- Behind the ports that are there, no bond port gets one. -/
theorem parsePorts_of_le {masks : List ℕ} (h : masks ≠ []) (hle : avail ≤ index) :
    parsePorts avail masks index = none := by
  match masks with
  | [] => exact absurd rfl h
  | mask :: masks =>
    have hnil : (maskPorts avail mask index).1 = [] := by
      refine List.eq_nil_iff_forall_not_mem.mpr fun p hp => ?_
      have hp := mem_maskPorts.mp hp
      omega
    rw [parsePorts]
    exact if_pos hnil

/-- The next bond port starts behind the mask of this one. -/
theorem parsePorts_snd {masks : List ℕ} :
    parsePorts avail masks (maskPorts avail mask index).2 =
      parsePorts avail masks (index + mask.size) := by
  have hend : (maskPorts avail mask index).2 = index + mask.size ∨
      avail ≤ (maskPorts avail mask index).2 ∧ avail ≤ index + mask.size := maskPorts_snd
  rcases hend with heq | ⟨hle, hle'⟩
  · rw [heq]
  · by_cases hnil : masks = []
    · rw [hnil, parsePorts, parsePorts]
    · rw [parsePorts_of_le hnil hle, parsePorts_of_le hnil hle']

/-- The members of an ascending list determine it. -/
theorem eq_of_pairwise_lt_of_mem_iff {xs ys : List ℕ} (hxs : xs.Pairwise (· < ·))
    (hys : ys.Pairwise (· < ·)) (h : ∀ p, p ∈ xs ↔ p ∈ ys) : xs = ys := by
  have hperm : xs.Perm ys :=
    (List.perm_ext_iff_of_nodup (hxs.imp Nat.ne_of_lt) (hys.imp Nat.ne_of_lt)).mpr h
  exact hperm.eq_of_pairwise (fun a b _ _ hab hba => absurd hab (Nat.lt_asymm hba)) hxs hys

/-- Bond port `i` of the masks gets the ids, when the masks start at port `start`. -/
def IsSlaves (avail start : ℕ) (masks : List ℕ) (i : ℕ) (ids : List ℕ) : Prop :=
  ids ≠ [] ∧ ids.Pairwise (· < ·) ∧ ∀ p, p ∈ ids ↔ p < avail ∧ ∃ mask bit,
    masks[i]? = some mask ∧ mask.testBit bit = true ∧ p = start + portOffset masks i + bit

/-- The first bond port. -/
theorem isSlaves_zero_iff {masks ids : List ℕ} :
    IsSlaves avail index (mask :: masks) 0 ids ↔
      ids ≠ [] ∧ ids = (maskPorts avail mask index).1 := by
  have hmem : ∀ p, (p < avail ∧ ∃ mask' bit, (mask :: masks)[0]? = some mask' ∧
      mask'.testBit bit = true ∧ p = index + portOffset (mask :: masks) 0 + bit) ↔
      p ∈ (maskPorts avail mask index).1 := by
    intro p
    rw [mem_maskPorts]
    refine and_congr_right fun _ => ?_
    constructor
    · rintro ⟨mask', bit, hmask, hbit, rfl⟩
      cases hmask
      refine ⟨by omega, ?_⟩
      rwa [portOffset, List.take_zero, List.map_nil, List.sum_nil, Nat.add_zero,
        Nat.add_sub_cancel_left]
    · rintro ⟨hle, hbit⟩
      refine ⟨mask, p - index, rfl, hbit, ?_⟩
      rw [portOffset, List.take_zero, List.map_nil, List.sum_nil]
      omega
  unfold IsSlaves
  constructor
  · rintro ⟨hne, hsorted, hids⟩
    exact ⟨hne, eq_of_pairwise_lt_of_mem_iff hsorted pairwise_maskPorts
      fun p => (hids p).trans (hmem p)⟩
  · rintro ⟨hne, rfl⟩
    exact ⟨hne, pairwise_maskPorts, fun p => (hmem p).symm⟩

/-- The other bond ports start behind the first mask. -/
theorem isSlaves_succ_iff {masks ids : List ℕ} {i : ℕ} :
    IsSlaves avail index (mask :: masks) (i + 1) ids ↔
      IsSlaves avail (index + mask.size) masks i ids := by
  have hoffset : index + portOffset (mask :: masks) (i + 1) =
      index + mask.size + portOffset masks i := by
    rw [portOffset, List.take_succ_cons, List.map_cons, List.sum_cons, ← portOffset, Nat.add_assoc]
  unfold IsSlaves
  rw [List.getElem?_cons_succ, hoffset]

/-- The bond ports, all with slaves, from some index on. -/
theorem parsePorts_eq_some_iff {masks : List ℕ} {ports : List (List ℕ)} :
    parsePorts avail masks index = some ports ↔
      ports.length = masks.length ∧
        ∀ i ids, ports[i]? = some ids → IsSlaves avail index masks i ids := by
  -- along the masks, the index of the first port moving on with the size of each mask
  induction masks generalizing index ports with
  | nil =>
    rw [parsePorts, Option.some.injEq, List.length_nil, List.length_eq_zero_iff]
    constructor
    · rintro rfl
      exact ⟨rfl, by simp⟩
    · rintro ⟨rfl, -⟩
      rfl
  | cons mask masks ih =>
    rw [parsePorts, parsePorts_snd]
    match ports with
    | [] =>
      simp only [List.length_nil, List.length_cons, Nat.right_eq_add, Nat.add_eq_zero_iff,
        one_ne_zero, and_false, false_and, iff_false]
      split <;> simp
    | ids :: ports =>
      -- the first port has the slaves of the first mask, the others those of the rest
      have hsplit : (∀ i ids', (ids :: ports)[i]? = some ids' →
          IsSlaves avail index (mask :: masks) i ids') ↔
          (ids ≠ [] ∧ ids = (maskPorts avail mask index).1) ∧ ∀ i ids', ports[i]? = some ids' →
            IsSlaves avail (index + mask.size) masks i ids' := by
        constructor
        · intro hall
          exact ⟨isSlaves_zero_iff.mp (hall 0 ids rfl),
            fun i ids' hi => isSlaves_succ_iff.mp (hall (i + 1) ids' hi)⟩
        · rintro ⟨hfirst, hrest⟩ (_ | i) ids' hi
          · cases hi
            exact isSlaves_zero_iff.mpr hfirst
          · exact isSlaves_succ_iff.mpr (hrest i ids' hi)
      rw [hsplit, List.length_cons, List.length_cons, Nat.add_right_cancel_iff]
      split
      -- a mask without available ports ends the loop with an error
      next hnil =>
        rw [hnil]
        refine iff_of_false (by simp) ?_
        rintro ⟨-, ⟨hne, rfl⟩, -⟩
        exact hne rfl
      -- the rest is read by itself
      next hne =>
        rw [Option.map_eq_some_iff]
        constructor
        · rintro ⟨ports', hports, hcons⟩
          cases hcons
          obtain ⟨hlen, hrest⟩ := ih.mp hports
          exact ⟨hlen, ⟨hne, rfl⟩, hrest⟩
        · rintro ⟨hlen, ⟨-, rfl⟩, hrest⟩
          exact ⟨ports, ih.mpr ⟨hlen, hrest⟩, rfl⟩

/-- A bit is below the size. -/
theorem lt_size_of_testBit {bit : ℕ} (h : mask.testBit bit = true) : bit < mask.size :=
  Nat.lt_size.mpr (Nat.ge_two_pow_of_testBit h)

/-- The offset of the next bond port. -/
theorem portOffset_succ {masks : List ℕ} {i : ℕ} (h : masks[i]? = some mask) :
    portOffset masks (i + 1) = portOffset masks i + mask.size := by
  rw [portOffset, List.take_add_one, h, List.map_append, List.sum_append, ← portOffset]
  simp

/-- Later bond ports have larger offsets. -/
theorem portOffset_le {masks : List ℕ} {i j : ℕ} (h : i ≤ j) :
    portOffset masks i ≤ portOffset masks j := by
  obtain ⟨d, rfl⟩ := Nat.exists_eq_add_of_le h
  rw [portOffset, portOffset, List.take_add, List.map_append, List.sum_append]
  exact Nat.le_add_right _ _

/-- The slaves of an earlier bond port are before those of a later one. -/
theorem IsSlaves.lt {start : ℕ} {masks ids ids' : List ℕ} {i j p p' : ℕ} (hij : i < j)
    (h : IsSlaves avail start masks i ids) (h' : IsSlaves avail start masks j ids')
    (hp : p ∈ ids) (hp' : p' ∈ ids') : p < p' := by
  obtain ⟨-, mask, bit, hmask, hbit, rfl⟩ := (h.2.2 p).mp hp
  obtain ⟨-, mask', bit', -, -, rfl⟩ := (h'.2.2 p').mp hp'
  have hsize := lt_size_of_testBit hbit
  have hoffset : portOffset masks (i + 1) ≤ portOffset masks j := portOffset_le hij
  rw [portOffset_succ hmask] at hoffset
  omega

/-- A bond port has at most as many slaves as its mask has bits. -/
theorem IsSlaves.length_le {start : ℕ} {masks ids : List ℕ} {i : ℕ}
    (h : IsSlaves avail start masks i ids) (hmask : masks[i]? = some mask) :
    ids.length ≤ mask.size := by
  have hsub : ids ⊆ List.range' (start + portOffset masks i) mask.size := by
    intro p hp
    obtain ⟨-, mask', bit, hmask', hbit, rfl⟩ := (h.2.2 p).mp hp
    cases hmask.symm.trans hmask'
    rw [List.mem_range'_1]
    have hsize := lt_size_of_testBit hbit
    omega
  have hnodup : ids.Nodup := h.2.1.imp Nat.ne_of_lt
  have hlen := (hnodup.subperm hsub).length_le
  rwa [List.length_range'] at hlen

/-- **The slave ports of a configuration.** The bond ports get ascending lists of the ports that are
there, where bit `bit` of a mask stands for the port that has this distance from the end of the
masks before it, and all bond ports have one. No two of them share a port, and each has at most
eight. -/
theorem ltranParsePort_spec {c : LtranParams} (h : c.WellFormed) {ports : List (List ℕ)} :
    (ltranParsePort avail c = some ports ↔ ports.length = c.portmask.length ∧
        ∀ i ids, ports[i]? = some ids → IsSlaves avail 0 c.portmask i ids) ∧
      (ltranParsePort avail c = some ports →
        ports.flatten.Pairwise (· < ·) ∧ ∀ ids ∈ ports, ids.length ≤ 8) := by
  have hiff : ltranParsePort avail c = some ports ↔ ports.length = c.portmask.length ∧
      ∀ i ids, ports[i]? = some ids → IsSlaves avail 0 c.portmask i ids := by
    rw [← parsePorts_eq_some_iff, ltranParsePort]
    split
    next hzero =>
      have hne : c.portmask ≠ [] := fun hnil => by
        have hpos := h.portNum.1
        rw [hnil] at hpos
        exact Nat.not_succ_le_zero 0 hpos
      rw [parsePorts_of_le hne (by omega)]
    next => rfl
  refine ⟨hiff, fun hports => ?_⟩
  obtain ⟨hlen, hslaves⟩ := hiff.mp hports
  have hget : ∀ i (hi : i < ports.length), IsSlaves avail 0 c.portmask i ports[i] := fun i hi =>
    hslaves i ports[i] (List.getElem?_eq_getElem hi)
  constructor
  -- within a bond port, and between two of them
  · rw [List.pairwise_flatten, List.pairwise_iff_getElem]
    constructor
    · intro ids hids
      obtain ⟨i, hi, rfl⟩ := List.getElem_of_mem hids
      exact (hget i hi).2.1
    · intro i j hi hj hij p hp p' hp'
      exact (hget i hi).lt hij (hget j hj) hp hp'
  · intro ids hids
    obtain ⟨i, hi, rfl⟩ := List.getElem_of_mem hids
    have hmask : i < c.portmask.length := hlen ▸ hi
    have hle := h.portmask _ (List.getElem_mem hmask)
    refine ((hget i hi).length_le (List.getElem?_eq_getElem hmask)).trans ?_
    exact Nat.size_le.mpr (by omega)

/-- The second mask starts behind the first, so the same mask stands for another port. -/
theorem ltranParsePort_spec_twoBondPorts :
    ltranParsePort 2 twoBondPorts = some [[0], [1]] ∧ [0, 1].Pairwise (· < ·) := by
  have hports : ltranParsePort 2 twoBondPorts = some [[0], [1]] := by
    simp [ltranParsePort, twoBondPorts, parsePorts, maskPorts]
  exact ⟨hports, ((ltranParsePort_spec wellFormed_twoBondPorts).2 hports).1⟩

end Slaves

end LtranParams

end Gazelle
