import Gazelle.Config.NumberGrammar
import Gazelle.Ltran.Instance
import Gazelle.Text.Addresses

/-!
# The configuration file of ltran

`parse_config_file_args` of `ltran_param.c`: the parsers of `g_param_parse_tbl` look up one setting
each, check it and store it. The file itself is read by libconfig, and what its lookups find is an
argument, as is the number of allocations that succeed.

* `LtranParams.parseConfigFileArgs`: the parsers one after another;
* `LtranParams.WellFormed`: what a configuration promises to the rest of ltran;
* `LtranParams.exists_parse_iff`: the well-formed configurations are exactly those that are read
  from some file.
-/

open CText

namespace Gazelle

/-! ## The configuration -/

/-- The values of `gazelle_set_errno` that the parsers use. -/
inductive GazelleErrno
  /-- `GAZELLE_ENOMEM`. -/
  | enomem
  /-- `GAZELLE_EPARAM`. -/
  | eparam
  /-- `GAZELLE_ERANGE`. -/
  | erange
  /-- `GAZELLE_EINETATON`. -/
  | einetaton
  /-- `GAZELLE_EMAC`. -/
  | emac
  /-- `GAZELLE_ECONSIST`. -/
  | econsist
  /-- `GAZELLE_ENETADDR`. -/
  | enetaddr
  /-- `GAZELLE_EHOSTADDR`. -/
  | ehostaddr
  deriving DecidableEq

/-- What libconfig finds in a file under a key. -/
structure ConfigFile where
  /-- `config_lookup_string`. -/
  lookupString : String → Option (List Char)
  /-- `config_lookup_int`. -/
  lookupInt : String → Option (BitVec 32)

/-- `struct rte_ether_addr`. -/
abbrev EtherAddr := Vector (BitVec 8) 6

/-- `struct ltran_config`, as far as the parsers set it. -/
structure LtranParams where
  /-- `dpdk.dpdk_argv`; their number is `dpdk_argc`. -/
  dpdkArgv : List (List Char)
  /-- `dpdk.kni_switch`. -/
  kniSwitch : BitVec 32
  /-- `dispatcher.num_clients`. -/
  numClients : BitVec 8
  /-- `dispatcher.ipv4_subnet_addr`, in host byte order. -/
  ipv4SubnetAddr : BitVec 32
  /-- `dispatcher.ipv4_net_mask`. -/
  ipv4NetMask : BitVec 32
  /-- `dispatcher.ipv4_subnet_size`. -/
  ipv4SubnetSize : BitVec 32
  /-- `dispatcher.ipv4_subnet_length`. -/
  ipv4SubnetLength : BitVec 32
  /-- `bond.miimon`. -/
  miimon : BitVec 32
  /-- `bond.mode`. -/
  mode : BitVec 32
  /-- `bond.mtu`. -/
  mtu : BitVec 32
  /-- The first `bond.port_num` entries of `bond.portmask`. -/
  portmask : List ℕ
  /-- The first `bond.mac_num` entries of `bond.mac`; the others are zero. -/
  mac : List EtherAddr
  /-- `bond.rx_queue_num`. -/
  rxQueueNum : BitVec 32
  /-- `bond.tx_queue_num`. -/
  txQueueNum : BitVec 32
  /-- `tcp_conn.tcp_conn_scan_interval`, in microseconds. -/
  tcpConnScanInterval : BitVec 64
  /-- `unix_socket_filename`. -/
  unixSocketFilename : List Char
  /-- `dfx_socket_filename`. -/
  dfxSocketFilename : List Char
  /-- `rx_mbuf_pool_size`. -/
  rxMbufPoolSize : BitVec 32
  /-- `tx_mbuf_pool_size`. -/
  txMbufPoolSize : BitVec 32

namespace LtranParams

/-- `GAZELLE_MAX_DPDK_ARGS_NUM`. -/
def gazelleMaxDpdkArgsNum : ℕ := 32

/-- `GAZELLE_MAX_BOND_NUM`. -/
def gazelleMaxBondNum : ℕ := 2

/-- `PROGRAM_NAME`. -/
def programName : List Char := "ltran".toList

/-- `GAZELLE_RUN_DIR`. -/
def gazelleRunDir : List Char := "/var/run/gazelle/".toList

/-- `GAZELLE_REG_SOCK_FILENAME`. -/
def gazelleRegSockFilename : List Char := "gazelle_client.sock".toList

/-- `GAZELLE_DFX_SOCK_FILENAME`. -/
def gazelleDfxSockFilename : List Char := "gazelle_cmd.sock".toList

/-- `NAME_MAX`. -/
def nameMax : ℕ := 255

/-- After `memset_s`. -/
def zero : LtranParams where
  dpdkArgv := []
  kniSwitch := 0
  numClients := 0
  ipv4SubnetAddr := 0
  ipv4NetMask := 0
  ipv4SubnetSize := 0
  ipv4SubnetLength := 0
  miimon := 0
  mode := 0
  mtu := 0
  portmask := []
  mac := []
  rxQueueNum := 0
  txQueueNum := 0
  tcpConnScanInterval := 0
  unixSocketFilename := []
  dfxSocketFilename := []
  rxMbufPoolSize := 0
  txMbufPoolSize := 0

/-- A `param_parse_func`, with the number of allocations that succeed in it. -/
abbrev ParamParseFunc :=
  ℕ → ConfigFile → String → LtranParams → Except GazelleErrno LtranParams

/-! ## Numbers -/

/-- A parser of a number that must be there and is checked. -/
def parseInt (ok : ℤ → Bool) (set : LtranParams → BitVec 32 → LtranParams) : ParamParseFunc :=
  fun _ config key c =>
    match config.lookupInt key with
    | none => .error .eparam
    | some v => if ok v.toInt then .ok (set c v) else .error .erange

/-- A parser of a number that has a default and is checked. -/
def parseOptionalInt (default : BitVec 32) (ok : ℤ → Bool)
    (set : LtranParams → BitVec 32 → LtranParams) : ParamParseFunc :=
  fun _ config key c =>
    match config.lookupInt key with
    | none => .ok (set c default)
    | some v => if ok v.toInt then .ok (set c v) else .error .erange

/-- `parse_dispatch_max_client`. -/
def parseDispatchMaxClient : ParamParseFunc :=
  parseInt (fun n => 1 ≤ n ∧ n ≤ gazelleMaxInstanceNum) fun c v =>
    { c with numClients := v.setWidth 8 }

/-- `parse_bond_mode`. -/
def parseBondMode : ParamParseFunc :=
  parseInt (fun n => 1 ≤ n ∧ n ≤ 1) fun c v => { c with mode := v }

/-- `parse_bond_miimon`. -/
def parseBondMiimon : ParamParseFunc := parseInt (fun n => 0 < n) fun c v => { c with miimon := v }

/-- `parse_bond_mtu`. -/
def parseBondMtu : ParamParseFunc :=
  parseInt (fun n => 68 ≤ n ∧ n ≤ 1500) fun c v => { c with mtu := v }

/-- `parse_kni_switch`. -/
def parseKniSwitch : ParamParseFunc :=
  parseOptionalInt 0 (fun n => n = 1 ∨ n = 0) fun c v => { c with kniSwitch := v }

/-- `parse_tcp_conn_scan_interval`. -/
def parseTcpConnScanInterval : ParamParseFunc :=
  parseOptionalInt 600 (fun n => 0 ≤ n ∧ n ≤ 86400) fun c v =>
    { c with tcpConnScanInterval := v.signExtend 64 * 1000000 }

/-- `parse_rx_mbuf_pool_size`. -/
def parseRxMbufPoolSize : ParamParseFunc :=
  parseOptionalInt (300 * 1024) (fun _ => true) fun c v => { c with rxMbufPoolSize := v }

/-- `parse_tx_mbuf_pool_size`. -/
def parseTxMbufPoolSize : ParamParseFunc :=
  parseOptionalInt (30 * 1024) (fun _ => true) fun c v => { c with txMbufPoolSize := v }

/-- `parse_bond_rx_queue_num`: the number is fixed. -/
def parseBondRxQueueNum : ParamParseFunc := fun _ _ _ c => .ok { c with rxQueueNum := 1 }

/-- `parse_bond_tx_queue_num`: the number is fixed. -/
def parseBondTxQueueNum : ParamParseFunc := fun _ _ _ c => .ok { c with txQueueNum := 1 }

/-! ## The arguments of DPDK -/

/-- The loop of `parse_forward_kit_args_single` over the tokens. Before it, there were three
allocations for one argument. -/
def forwardKitLoop (mem : ℕ) : List (List Char) → List (List Char) →
    Except GazelleErrno (List (List Char))
  | [], argv => .ok argv
  | token :: tokens, argv =>
    if argv.length = gazelleMaxDpdkArgsNum then .error .erange
    -- the string, the table and one copy for each argument so far
    else if mem ≤ argv.length + 2 then .error .enomem
    else forwardKitLoop mem tokens (argv ++ [token])

/-- `parse_forward_kit_args_single`, after the allocation of its caller. -/
def parseForwardKitArgsSingle (mem : ℕ) (dpdkStr : List Char) :
    Except GazelleErrno (List (List Char)) :=
  if mem ≤ 2 then .error .enomem else forwardKitLoop mem (strtok ' ' dpdkStr) [programName]

/-- `parse_forward_kit_args`. -/
def parseForwardKitArgs : ParamParseFunc := fun mem config key c =>
  match config.lookupString key with
  | none => .error .eparam
  | some args =>
    if mem = 0 then .error .enomem
    else
      match parseForwardKitArgsSingle mem args with
      | .error e => .error e
      | .ok argv => .ok { c with dpdkArgv := argv }

/-! ## The subnet -/

/-- `parse_dispatch_subnet`. -/
def parseDispatchSubnet : ParamParseFunc := fun _ config key c =>
  match config.lookupString key with
  | none => .error .eparam
  | some subnet =>
    match inetAton subnet with
    | none => .error .einetaton
    | some addr => .ok { c with ipv4SubnetAddr := addr }

/-- `parse_dispatch_subnet_length`, which checks the address of `parse_dispatch_subnet`, too. -/
def parseDispatchSubnetLength : ParamParseFunc := fun _ config key c =>
  match config.lookupInt key with
  | none => .error .eparam
  | some len =>
    if len.toInt < 1 ∨ 16 < len.toInt then .error .erange
    else
      let size : BitVec 32 := 1#32 <<< len.toNat
      let mask : BitVec 32 := size - 1#32
      -- the address was read by `parse_dispatch_subnet`, which comes first in the table
      if c.ipv4SubnetAddr &&& ~~~mask = 0 then .error .enetaddr
      else if c.ipv4SubnetAddr &&& mask ≠ 0 then .error .ehostaddr
      else
        .ok { c with ipv4SubnetSize := size, ipv4SubnetLength := len, ipv4NetMask := mask }

/-! ## The bond ports -/

/-- `is_bond_port_prefix_valid`. -/
def isBondPortPrefixValid (portStr : List Char) : Bool := portStr.take 2 == ['0', 'x']

/-- `parse_bond_ports`: the number of ports is what `separate_str_to_array` returns, as an unsigned
number. -/
def parseBondPorts : ParamParseFunc := fun mem config key c =>
  match config.lookupString key with
  | none => .error .eparam
  | some portStr =>
    if mem = 0 then .error .enomem
    else if !isBondPortPrefixValid portStr then .error .eparam
    else
      match NumberList.separateStrToArray NumberList.bondPorts portStr with
      | (.returns ret, st) =>
        -- a failure, `-1`, becomes a number that is out of range
        let portNum := (BitVec.ofInt 32 ret).toNat
        if gazelleMaxBondNum < portNum then .error .erange
        else if (st.array.take portNum).any fun mask => mask < 0x1 || 0xff < mask then
          .error .erange
        else .ok { c with portmask := st.array.take portNum }
      | _ => .error .erange

/-! ## The mac addresses -/

/-- The loop of `parse_str2mac` over the tokens, after some bytes. -/
def str2macLoop : List (List Char) → List (BitVec 8) → Except GazelleErrno (List (BitVec 8))
  | [], etherAddr => .ok etherAddr
  | token :: tokens, etherAddr =>
    let (oneBitMac, e) := strtoulEnd 16 token
    -- the whole token has to be a number
    if e ≠ [] then .error .emac
    else if 255 < oneBitMac then .error .erange
    else if 6 ≤ etherAddr.length then .error .eparam
    else str2macLoop tokens (etherAddr ++ [BitVec.ofNat 8 oneBitMac])

/-- `parse_str2mac`. -/
def parseStr2mac (macStr : List Char) : Except GazelleErrno EtherAddr :=
  match str2macLoop (strtok ':' macStr) [] with
  | .error e => .error e
  | .ok etherAddr =>
    if h : etherAddr.length = 6 then .ok ⟨etherAddr.toArray, by simpa using h⟩ else .error .emac

/-- The loop of `parse_bond_macs_separate`: the addresses found, and what `errno` is set to. -/
def separateLoop (mem : ℕ) : List (List Char) → List (List Char) →
    List (List Char) × Option GazelleErrno
  | [], cache => (cache, none)
  | token :: tokens, cache =>
    if cache.length = gazelleMaxBondNum then (cache, some .erange)
    else if mem ≤ cache.length + 1 then (cache, some .enomem)
    else separateLoop mem tokens (cache ++ [token])

/-- `parse_bond_macs_separate`. -/
def parseBondMacsSeparate (mem : ℕ) (bondMacsStr : List Char) :
    List (List Char) × Option GazelleErrno :=
  if mem = 0 then ([], some .enomem) else separateLoop mem (strtok ',' bondMacsStr) []

/-- The loop of `parse_bond_macs`: the addresses read, and `errno`. -/
def macLoop : List (List Char) → List EtherAddr → Option GazelleErrno →
    List EtherAddr × Option GazelleErrno
  | [], mac, errno => (mac, errno)
  | s :: cache, mac, errno =>
    match parseStr2mac s with
    -- the loop is left at the first error
    | .error e => (mac, some e)
    | .ok m => macLoop cache (mac ++ [m]) errno

/-- `is_same_mac_addr`. -/
def isSameMacAddr (smac dmac : EtherAddr) : Bool :=
  (List.finRange 6).all fun i => smac[i] = dmac[i]

/-- `check_bond_dup_mac`: whether two addresses are the same. -/
def checkBondDupMac : List EtherAddr → Bool
  | [] => false
  | m :: mac => mac.any (isSameMacAddr m) || checkBondDupMac mac

/-- `parse_bond_macs`: the last value of `errno` counts. -/
def parseBondMacs : ParamParseFunc := fun mem config key c =>
  match config.lookupString key with
  | none => .error .eparam
  | some bondMacsStr =>
    let (cache, errno) := parseBondMacsSeparate mem bondMacsStr
    let (mac, errno) := macLoop cache c.mac errno
    -- as many addresses as masks, which were read before
    let errno := if c.portmask.length ≠ mac.length then some .econsist else errno
    match errno with
    | some e => .error e
    | none => if checkBondDupMac mac then .error .emac else .ok { c with mac := mac }

/-! ## The names of the sockets -/

/-- `filename_check`: the name is refused. -/
def filenameCheck (args : List Char) : Bool :=
  decide (args.length = 0 ∨ 127 < args.length) || args.any (· ∈ "|;&$><`\\!\n".toList)

/-- `strncat_s` of a whole text. -/
def strncatS (destMax : ℕ) (dest src : List Char) : Option (List Char) :=
  if dest.length + src.length < destMax then some (dest ++ src) else none

/-- `parse_unix_prefix`: both names begin with the directory and the prefix. -/
def parseUnixPrefix : ParamParseFunc := fun _ config key c =>
  let name (file : List Char) : Option (List Char) := do
    let dir ← strncatS nameMax [] gazelleRunDir
    let dir ← match config.lookupString key with
      -- the prefix is optional
      | none => some dir
      | some p => if filenameCheck p then none else strncatS nameMax dir p
    strncatS nameMax dir file
  match name gazelleRegSockFilename, name gazelleDfxSockFilename with
  | some unix, some dfx => .ok { c with unixSocketFilename := unix, dfxSocketFilename := dfx }
  | _, _ => .error .einetaton

/-! ## All parsers -/

/-- `g_param_parse_tbl`. -/
def gParamParseTbl : List (String × ParamParseFunc) :=
  [("forward_kit_args", parseForwardKitArgs),
    ("dispatch_max_clients", parseDispatchMaxClient),
    ("dispatch_subnet", parseDispatchSubnet),
    ("dispatch_subnet_length", parseDispatchSubnetLength),
    ("bond_miimon", parseBondMiimon),
    ("bond_mode", parseBondMode),
    ("bond_ports", parseBondPorts),
    ("bond_mtu", parseBondMtu),
    ("bond_macs", parseBondMacs),
    ("bond_rx_queue_num", parseBondRxQueueNum),
    ("bond_tx_queue_num", parseBondTxQueueNum),
    ("tcp_conn_scan_interval", parseTcpConnScanInterval),
    ("kni_switch", parseKniSwitch),
    ("unix_prefix", parseUnixPrefix),
    ("rx_mbuf_pool_size", parseRxMbufPoolSize),
    ("tx_mbuf_pool_size", parseTxMbufPoolSize)]

/-- What `parse_config_file_args` complains about. -/
inductive ConfigError
  /-- The file is not read: `GAZELLE_EPATH`. -/
  | path
  /-- The parser of this parameter fails. -/
  | param (paramName : String) (errno : GazelleErrno)
  deriving DecidableEq

/-- The loop of `parse_config_file_args`. -/
def parseTable (mem : String → ℕ) (config : ConfigFile) :
    List (String × ParamParseFunc) → LtranParams → Except ConfigError LtranParams
  | [], c => .ok c
  | (paramName, func) :: tbl, c =>
    match func (mem paramName) config paramName c with
    | .error e => .error (.param paramName e)
    | .ok c => parseTable mem config tbl c

/-- `parse_config_file_args`, with the file if it is read, and how many allocations succeed in each
parser. -/
def parseConfigFileArgs (mem : String → ℕ) (file : Option ConfigFile) :
    Except ConfigError LtranParams :=
  match file with
  | none => .error .path
  | some config => parseTable mem config gParamParseTbl zero

/-! ## Well-formed configurations -/

/-- What a configuration promises to the rest of ltran. -/
structure WellFormed (c : LtranParams) : Prop where
  /-- The arguments of DPDK are the name of the program and words, and there is room for them. -/
  dpdkArgv : ∃ args, c.dpdkArgv = programName :: args ∧ args.length < gazelleMaxDpdkArgsNum ∧
    ∀ arg ∈ args, arg ≠ [] ∧ ' ' ∉ arg
  /-- The switch is on or off. -/
  kniSwitch : c.kniSwitch = 0 ∨ c.kniSwitch = 1
  /-- Clients are allowed, and no more than there are slots. -/
  numClients : 1 ≤ c.numClients.toNat ∧ c.numClients.toNat ≤ gazelleMaxInstanceNum
  /-- The subnet has 1 to 16 bits for the hosts. -/
  subnetLength : 1 ≤ c.ipv4SubnetLength.toNat ∧ c.ipv4SubnetLength.toNat ≤ 16
  /-- The size of the subnet. -/
  subnetSize : c.ipv4SubnetSize = BitVec.ofNat 32 (2 ^ c.ipv4SubnetLength.toNat)
  /-- The mask of these bits. -/
  netMask : c.ipv4NetMask = BitVec.ofNat 32 (2 ^ c.ipv4SubnetLength.toNat - 1)
  /-- The address of the subnet has a net part. -/
  netPart : c.ipv4SubnetAddr &&& ~~~c.ipv4NetMask ≠ 0
  /-- It has no host part. -/
  hostPart : c.ipv4SubnetAddr &&& c.ipv4NetMask = 0
  /-- The interval of the link monitoring is positive. -/
  miimon : 0 < c.miimon.toInt
  /-- The mode is active backup. -/
  mode : c.mode = 1
  /-- The MTU is one of Ethernet. -/
  mtu : 68 ≤ c.mtu.toInt ∧ c.mtu.toInt ≤ 1500
  /-- There are one or two bond ports. -/
  portNum : 1 ≤ c.portmask.length ∧ c.portmask.length ≤ gazelleMaxBondNum
  /-- Each of them has some of the first eight ports. -/
  portmask : ∀ mask ∈ c.portmask, 1 ≤ mask ∧ mask ≤ 255
  /-- Each of them has an address. -/
  macNum : c.mac.length = c.portmask.length
  /-- The addresses are different. -/
  macNodup : c.mac.Nodup
  /-- There is one receive queue. -/
  rxQueueNum : c.rxQueueNum = 1
  /-- There is one transmit queue. -/
  txQueueNum : c.txQueueNum = 1
  /-- The interval of the scans is at most a day, in whole seconds. -/
  scanInterval : ∃ seconds, seconds ≤ 86400 ∧
    c.tcpConnScanInterval = BitVec.ofNat 64 (seconds * 1000000)
  /-- The names of the sockets are in the directory, with one prefix that is empty or allowed. -/
  filenames : ∃ p, (p = [] ∨ filenameCheck p = false) ∧
    c.unixSocketFilename = gazelleRunDir ++ p ++ gazelleRegSockFilename ∧
    c.dfxSocketFilename = gazelleRunDir ++ p ++ gazelleDfxSockFilename

/-! ## What the parsers accept -/

section Accepted

variable {mem : ℕ} {config : ConfigFile} {key : String} {c d : LtranParams}

theorem parseInt_eq_ok {ok : ℤ → Bool} {set : LtranParams → BitVec 32 → LtranParams} :
    parseInt ok set mem config key c = .ok d ↔
      ∃ v, config.lookupInt key = some v ∧ ok v.toInt = true ∧ set c v = d := by
  unfold parseInt
  cases config.lookupInt key with
  | none => simp
  | some v => by_cases hok : ok v.toInt = true <;> simp [hok]

theorem parseOptionalInt_eq_ok {default : BitVec 32} {ok : ℤ → Bool}
    {set : LtranParams → BitVec 32 → LtranParams} :
    parseOptionalInt default ok set mem config key c = .ok d ↔
      (config.lookupInt key = none ∧ set c default = d) ∨
        ∃ v, config.lookupInt key = some v ∧ ok v.toInt = true ∧ set c v = d := by
  unfold parseOptionalInt
  cases config.lookupInt key with
  | none => simp
  | some v => by_cases hok : ok v.toInt = true <;> simp [hok]

/-- The loop adds all tokens, if there is room for them. -/
theorem forwardKitLoop_eq_ok {tokens argv argv' : List (List Char)}
    (hargv : argv.length ≤ gazelleMaxDpdkArgsNum) :
    forwardKitLoop mem tokens argv = .ok argv' ↔
      argv ++ tokens = argv' ∧ argv'.length ≤ gazelleMaxDpdkArgsNum ∧
        (tokens ≠ [] → argv'.length + 1 < mem) := by
  induction tokens generalizing argv with
  | nil =>
    rw [forwardKitLoop, List.append_nil]
    constructor
    · intro h
      obtain rfl := Except.ok.inj h
      exact ⟨rfl, hargv, fun h => absurd rfl h⟩
    · rintro ⟨rfl, -⟩
      rfl
  | cons token tokens ih =>
    have happend : argv ++ token :: tokens = argv ++ [token] ++ tokens := by simp
    rw [forwardKitLoop]
    split
    · -- the array is full before the end
      next hfull =>
      simp only [reduceCtorEq, false_iff]
      rintro ⟨rfl, hlen, -⟩
      rw [List.length_append, List.length_cons] at hlen
      omega
    · next hroom =>
      split
      · -- there is no memory for one more token
        next hmem =>
        simp only [reduceCtorEq, false_iff]
        rintro ⟨rfl, -, hlen⟩
        have hlen := hlen (List.cons_ne_nil _ _)
        rw [List.length_append, List.length_cons] at hlen
        omega
      · next hmem =>
        rw [ih (by rw [List.length_append, List.length_singleton]; omega), happend]
        refine and_congr_right fun heq => and_congr_right fun _ => ?_
        have hlen := congrArg List.length heq
        simp only [List.length_append, List.length_singleton] at hlen
        constructor
        · -- the last token needs the room that the others left
          rintro h -
          by_cases htokens : tokens = []
          · rw [htokens, List.length_nil] at hlen
            omega
          · exact h htokens
        · exact fun h _ => h (List.cons_ne_nil _ _)

/-- `parse_forward_kit_args` stores the name of the program and the tokens. -/
theorem parseForwardKitArgs_eq_ok :
    parseForwardKitArgs mem config key c = .ok d ↔
      ∃ args, config.lookupString key = some args ∧
        (strtok ' ' args).length < gazelleMaxDpdkArgsNum ∧ 2 < mem ∧
        (strtok ' ' args ≠ [] → (strtok ' ' args).length + 2 < mem) ∧
        { c with dpdkArgv := programName :: strtok ' ' args } = d := by
  unfold parseForwardKitArgs parseForwardKitArgsSingle
  cases config.lookupString key with
  | none => simp
  | some args =>
    by_cases hmem : mem ≤ 2
    · have hnot : ¬ 2 < mem := by omega
      by_cases hzero : mem = 0 <;> simp [hmem, hzero, hnot]
    · have hzero : mem ≠ 0 := by omega
      have hloop : ∀ argv', forwardKitLoop mem (strtok ' ' args) [programName] = .ok argv' ↔
          [programName] ++ strtok ' ' args = argv' ∧ argv'.length ≤ gazelleMaxDpdkArgsNum ∧
            (strtok ' ' args ≠ [] → argv'.length + 1 < mem) :=
        fun argv' => forwardKitLoop_eq_ok (by decide)
      simp only [hzero, hmem, if_false, Option.some.injEq, exists_eq_left']
      constructor
      · intro h
        split at h
        · cases h
        · next argv heq =>
          obtain ⟨rfl, hlen, hroom⟩ := (hloop _).1 heq
          rw [List.singleton_append, List.length_cons] at hlen hroom
          exact ⟨hlen, by omega, fun hne => hroom hne, Except.ok.inj h⟩
      · rintro ⟨hlen, -, hroom, rfl⟩
        rw [(hloop (programName :: strtok ' ' args)).2 ⟨rfl, hlen, hroom⟩]

theorem parseDispatchSubnet_eq_ok :
    parseDispatchSubnet mem config key c = .ok d ↔
      ∃ subnet addr, config.lookupString key = some subnet ∧ inetAton subnet = some addr ∧
        { c with ipv4SubnetAddr := addr } = d := by
  unfold parseDispatchSubnet
  cases config.lookupString key with
  | none => simp
  | some subnet => cases haddr : inetAton subnet <;> simp [haddr]

theorem parseDispatchSubnetLength_eq_ok :
    parseDispatchSubnetLength mem config key c = .ok d ↔
      ∃ len : BitVec 32, config.lookupInt key = some len ∧ (1 ≤ len.toInt ∧ len.toInt ≤ 16) ∧
        c.ipv4SubnetAddr &&& ~~~(1#32 <<< len.toNat - 1#32) ≠ 0 ∧
        c.ipv4SubnetAddr &&& (1#32 <<< len.toNat - 1#32) = 0 ∧
        { c with
          ipv4SubnetSize := 1#32 <<< len.toNat
          ipv4SubnetLength := len
          ipv4NetMask := 1#32 <<< len.toNat - 1#32 } = d := by
  unfold parseDispatchSubnetLength
  cases config.lookupInt key with
  | none => simp
  | some len =>
    simp only [Option.some.injEq, exists_eq_left']
    by_cases hlen : len.toInt < 1 ∨ 16 < len.toInt
    · rw [if_pos hlen]
      simp only [reduceCtorEq, false_iff]
      rintro ⟨hrange, -⟩
      omega
    · have hrange : 1 ≤ len.toInt ∧ len.toInt ≤ 16 := by omega
      rw [if_neg hlen]
      by_cases hnet : c.ipv4SubnetAddr &&& ~~~(1#32 <<< len.toNat - 1#32) = 0
      · rw [if_pos hnet]
        simp only [reduceCtorEq, false_iff]
        exact fun h => h.2.1 hnet
      · rw [if_neg hnet]
        by_cases hhost : c.ipv4SubnetAddr &&& (1#32 <<< len.toNat - 1#32) = 0
        · rw [if_neg (not_not.2 hhost), Except.ok.injEq]
          exact ⟨fun h => ⟨hrange, hnet, hhost, h⟩, fun h => h.2.2.2⟩
        · rw [if_pos hhost]
          simp only [reduceCtorEq, false_iff]
          exact fun h => hhost h.2.2.1

end Accepted

/-! ## Bond ports -/

section BondPorts

open NumberList

variable {mem : ℕ} {config : ConfigFile} {key : String} {c d : LtranParams}

/-- The array keeps its length. -/
theorem length_storeAll (st : ArrayState) (values : List ℕ) :
    (st.storeAll values).array.length = st.array.length := by
  induction values generalizing st with
  | nil => rfl
  | cons v values ih => exact (ih (st.store v)).trans List.length_set

/-- The masks that are stored are those of one or two ports. -/
theorem of_parseBondPorts (h : parseBondPorts mem config key c = .ok d) :
    ∃ masks, 1 ≤ masks.length ∧ masks.length ≤ gazelleMaxBondNum ∧
      (∀ mask ∈ masks, 1 ≤ mask ∧ mask ≤ 255) ∧ d = { c with portmask := masks } := by
  unfold parseBondPorts at h
  cases hlookup : config.lookupString key with
  | none => simp [hlookup] at h
  | some portStr =>
    simp only [hlookup] at h
    split at h
    · cases h
    split at h
    · cases h
    split at h
    swap
    · cases h
    next ret st hread =>
    split at h
    · cases h
    next hnum =>
    split at h
    · cases h
    next hrange =>
    -- the number of ports is not zero, and the array has two entries
    have hret := separateStrToArray_ret bondPorts portStr
    have harray := congrArg Prod.snd (separateStrToArray_eq bondPorts portStr)
    rw [hread] at hret harray
    have hlen : st.array.length = gazelleMaxBondNum := by
      rw [show st = (zeroed bondPorts).storeAll (storedValues bondPorts portStr) from harray,
        length_storeAll]
      rfl
    have hpos : (BitVec.ofInt 32 ret).toNat ≠ 0 := by
      rw [Outcome.returns.inj hret]
      split
      · split
        · decide
        · next hne =>
          rw [BitVec.ofInt_toInt]
          exact fun hzero => hne (BitVec.eq_of_toNat_eq hzero)
      · decide
    refine ⟨st.array.take (BitVec.ofInt 32 ret).toNat, ?_, ?_, fun mask hmask => ?_,
      (Except.ok.inj h).symm⟩
    · rw [List.length_take, hlen, gazelleMaxBondNum]
      omega
    · rw [List.length_take, hlen]
      exact Nat.min_le_right _ _
    · have hmask' : ¬ (decide (mask < 0x1) || decide (0xff < mask)) = true := fun hout =>
        hrange (List.any_eq_true.2 ⟨mask, hmask, hout⟩)
      simp only [Bool.or_eq_true, decide_eq_true_eq] at hmask'
      omega

/-- A text for the masks of some ports. -/
def portText (masks : List (BitVec 8)) : List Char :=
  [','].intercalate (masks.map prefixedByte)

theorem padded_prefixedByte (b : BitVec 8) :
    Padded bondPorts.maxValue (prefixedByte b) b.toNat := by
  refine ⟨?_, [], prefixedByte b, [], by simp, by simp, by simp, ?_⟩
  · have : bondPorts.maxValue = 65535 := rfl
    omega
  · rw [← numeral_hexByte b]
    exact .hex (.inl rfl) (hexByte_ne_nil b) (isDigitIn_hexByte b)

/-- The text is taken for a list, with the masks as its values. -/
theorem taken_portText {masks : List (BitVec 8)} (hne : masks ≠ []) :
    ∃ items, Taken bondPorts.maxValue (portText masks) items ∧
      items.flatMap (lastRange bondPorts.arraySize) = masks.map BitVec.toNat := by
  have hmax : bondPorts.maxValue ≤ 2 ^ 31 := by decide
  induction masks with
  | nil => exact absurd rfl hne
  | cons a masks ih =>
    cases masks with
    | nil =>
      have htaken := Taken.ends ((padded_prefixedByte a).taken hmax []) (.inl rfl)
      rw [List.append_nil] at htaken
      exact ⟨_, htaken, rfl⟩
    | cons b masks =>
      obtain ⟨items, htaken, hvalues⟩ := ih (List.cons_ne_nil _ _)
      have htext : portText (a :: b :: masks) = prefixedByte a ++ ',' :: portText (b :: masks) :=
        rfl
      rw [htext]
      refine ⟨_, .comma ((padded_prefixedByte a).taken hmax _) htaken, ?_⟩
      rw [List.flatMap_cons, hvalues]
      rfl

/-- The values of the text are the masks. -/
theorem storedValues_portText {masks : List (BitVec 8)} (hne : masks ≠ []) :
    (scan bondPorts.maxValue (portText masks)).complete = true ∧
      storedValues bondPorts (portText masks) = masks.map BitVec.toNat := by
  obtain ⟨items, htaken, hvalues⟩ := taken_portText hne
  rw [htaken.storedValues, hvalues]
  refine ⟨?_, rfl⟩
  rw [(taken_iff (by decide) bondPorts.maxValue_pos _ _).1 htaken]

/-- The text for the masks of one or two ports is read. -/
theorem parseBondPorts_portText {masks : List (BitVec 8)} (hpos : 1 ≤ masks.length)
    (hlen : masks.length ≤ gazelleMaxBondNum) (hmasks : ∀ mask ∈ masks, mask ≠ 0)
    (hmem : 0 < mem) (hlookup : config.lookupString key = some (portText masks)) :
    parseBondPorts mem config key c = .ok { c with portmask := masks.map BitVec.toNat } := by
  obtain ⟨hcomplete, hvalues⟩ := storedValues_portText (List.ne_nil_of_length_pos hpos)
  have hfits := separateStrToArray_fits hcomplete (l := bondPorts)
    (by rw [hvalues]; exact List.ne_nil_of_length_pos (by rwa [List.length_map]))
    (by rw [hvalues, List.length_map]; exact hlen)
  rw [hvalues, List.length_map] at hfits
  obtain ⟨hret, harray⟩ := hfits
  -- the text starts with the prefix of a mask
  have hprefix : isBondPortPrefixValid (portText masks) = true := by
    match masks, hpos with
    | [a], _ => rfl
    | a :: b :: masks, _ => rfl
  -- the count is returned as an `int`, and is small
  have htoNat : (BitVec.ofInt 32 (masks.length : ℤ)).toNat = masks.length := by
    rw [BitVec.ofInt_natCast, BitVec.toNat_ofNat]
    exact Nat.mod_eq_of_lt (by unfold gazelleMaxBondNum at hlen; omega)
  have htake : (masks.map BitVec.toNat ++
      List.replicate (bondPorts.arraySize - masks.length) 0).take masks.length =
      masks.map BitVec.toNat := by
    rw [List.take_append_of_le_length (by simp)]
    exact List.take_of_length_le (by simp)
  -- every mask is in the range that is checked, as none is 0
  have hrange : ((masks.map BitVec.toNat).any fun mask => mask < 0x1 || 0xff < mask) = false := by
    rw [List.any_eq_false]
    intro n hn
    obtain ⟨mask, hmask, rfl⟩ := List.mem_map.1 hn
    have hne : mask.toNat ≠ 0 := fun hzero => hmasks mask hmask (BitVec.eq_of_toNat_eq hzero)
    simp only [Bool.or_eq_true, decide_eq_true_eq]
    omega
  -- with these the branches of the parser are taken one after the other
  unfold parseBondPorts
  rw [hlookup]
  dsimp only
  rw [if_neg (by omega), hprefix, if_neg (by decide), ← Prod.eta (separateStrToArray _ _), hret]
  dsimp only
  rw [harray, htoNat, if_neg (by omega), htake, hrange, if_neg Bool.false_ne_true]

end BondPorts

/-! ## Mac addresses -/

section Mac

variable {mem : ℕ} {config : ConfigFile} {key : String} {c d : LtranParams}

/-- `is_same_mac_addr` compares all bytes. -/
theorem isSameMacAddr_iff {m m' : EtherAddr} : isSameMacAddr m m' = true ↔ m = m' := by
  simp only [isSameMacAddr, List.all_eq_true, List.mem_finRange, forall_const, decide_eq_true_eq]
  constructor
  · intro h
    exact Vector.ext fun i hi => h ⟨i, hi⟩
  · rintro rfl i
    rfl

/-- `check_bond_dup_mac` finds two addresses that are the same. -/
theorem checkBondDupMac_eq_false_iff {mac : List EtherAddr} :
    checkBondDupMac mac = false ↔ mac.Nodup := by
  induction mac with
  | nil => simp [checkBondDupMac]
  | cons m mac ih =>
    rw [checkBondDupMac, Bool.or_eq_false_iff, ih, List.nodup_cons, List.any_eq_false]
    simp only [isSameMacAddr_iff]
    exact and_congr_left fun _ => ⟨fun h hm => h m hm rfl, fun h m' hm' heq => h (heq ▸ hm')⟩

/-- The addresses that are stored are as many as the ports, and different. -/
theorem of_parseBondMacs (h : parseBondMacs mem config key c = .ok d) :
    ∃ mac, mac.length = c.portmask.length ∧ mac.Nodup ∧ d = { c with mac := mac } := by
  unfold parseBondMacs at h
  cases hlookup : config.lookupString key with
  | none => simp [hlookup] at h
  | some bondMacsStr =>
    simp only [hlookup] at h
    split at h
    · cases h
    next hnone =>
    split at h
    · cases h
    next hdup =>
    obtain rfl := Except.ok.inj h
    refine ⟨_, ?_, checkBondDupMac_eq_false_iff.1 (Bool.eq_false_iff.2 hdup), rfl⟩
    by_contra hne
    rw [if_pos (Ne.symm hne)] at hnone
    cases hnone

/-- A text for an address. -/
def macText (m : EtherAddr) : List Char := [':'].intercalate (m.toList.map hexByte)

/-- The bytes of an address are read. -/
theorem str2macLoop_hexBytes (bytes : List (BitVec 8)) {etherAddr : List (BitVec 8)}
    (hlen : etherAddr.length + bytes.length ≤ 6) :
    str2macLoop (bytes.map hexByte) etherAddr = .ok (etherAddr ++ bytes) := by
  induction bytes generalizing etherAddr with
  | nil => rw [List.map_nil, str2macLoop, List.append_nil]
  | cons b bytes ih =>
    rw [List.length_cons] at hlen
    rw [List.map_cons, str2macLoop, strtoulEnd_hexByte]
    dsimp only
    rw [if_neg (by simp), if_neg (by omega), if_neg (by omega), BitVec.ofNat_toNat,
      BitVec.setWidth_eq, ih (by rw [List.length_append, List.length_singleton]; omega),
      List.append_assoc, List.singleton_append]

/-- The text for an address is read. -/
theorem parseStr2mac_macText (m : EtherAddr) : parseStr2mac (macText m) = .ok m := by
  have hcolon : isDigitIn 16 ':' = false := by decide
  have htokens : strtok ':' (macText m) = m.toList.map hexByte := by
    refine strtok_intercalate fun t ht => ?_
    obtain ⟨b, -, rfl⟩ := List.mem_map.1 ht
    exact ⟨hexByte_ne_nil b, notMem_hexByte hcolon b⟩
  have hloop : str2macLoop (m.toList.map hexByte) [] = .ok ([] ++ m.toList) :=
    str2macLoop_hexBytes m.toList (by simp)
  have hlen : ([] ++ m.toList).length = 6 := by simp
  unfold parseStr2mac
  rw [htokens, hloop]
  dsimp only
  rw [dif_pos hlen]
  exact congrArg Except.ok (Vector.ext fun i hi => by simp)

/-- The text for an address has no comma. -/
theorem macText_spec (m : EtherAddr) : macText m ≠ [] ∧ ',' ∉ macText m := by
  constructor
  · intro h
    have hread := parseStr2mac_macText m
    rw [h] at hread
    cases hread
  · intro h
    have hcomma : isDigitIn 16 ',' = false := by decide
    obtain hc | ⟨t, ht, hc⟩ := mem_intercalate h
    · exact absurd hc (by decide)
    · obtain ⟨b, -, rfl⟩ := List.mem_map.1 ht
      exact notMem_hexByte hcomma b hc

/-- A text for the addresses of some ports. -/
def macsText (mac : List EtherAddr) : List Char := [','].intercalate (mac.map macText)

/-- The loop of `parse_bond_macs_separate` finds all texts that fit. -/
theorem separateLoop_of_le (tokens : List (List Char)) {cache : List (List Char)}
    (hlen : cache.length + tokens.length ≤ gazelleMaxBondNum) (hmem : gazelleMaxBondNum < mem) :
    separateLoop mem tokens cache = (cache ++ tokens, none) := by
  induction tokens generalizing cache with
  | nil => rw [separateLoop, List.append_nil]
  | cons token tokens ih =>
    rw [List.length_cons] at hlen
    rw [separateLoop, if_neg (by omega), if_neg (by omega),
      ih (by rw [List.length_append, List.length_singleton]; omega), List.append_assoc,
      List.singleton_append]

/-- The loop of `parse_bond_macs` reads all addresses. -/
theorem macLoop_macText (mac : List EtherAddr) (before : List EtherAddr)
    (errno : Option GazelleErrno) :
    macLoop (mac.map macText) before errno = (before ++ mac, errno) := by
  induction mac generalizing before with
  | nil => rw [List.map_nil, macLoop, List.append_nil]
  | cons m mac ih =>
    rw [List.map_cons, macLoop, parseStr2mac_macText]
    exact (ih (before ++ [m])).trans (by rw [List.append_assoc, List.singleton_append])

/-- The text for different addresses of the ports is read. -/
theorem parseBondMacs_macsText {mac : List EtherAddr} (hlen : mac.length ≤ gazelleMaxBondNum)
    (hnum : mac.length = c.portmask.length) (hnodup : mac.Nodup) (hempty : c.mac = [])
    (hmem : gazelleMaxBondNum < mem) (hlookup : config.lookupString key = some (macsText mac)) :
    parseBondMacs mem config key c = .ok { c with mac := mac } := by
  have htokens : strtok ',' (macsText mac) = mac.map macText := by
    refine strtok_intercalate fun t ht => ?_
    obtain ⟨m, -, rfl⟩ := List.mem_map.1 ht
    exact macText_spec m
  have hseparate : parseBondMacsSeparate mem (macsText mac) = (mac.map macText, none) := by
    rw [parseBondMacsSeparate, if_neg (by omega), htokens]
    exact separateLoop_of_le _ (by simpa using hlen) hmem
  have hnumber : ¬ c.portmask.length ≠ ([] ++ mac).length := not_not.2 hnum.symm
  unfold parseBondMacs
  rw [hlookup]
  dsimp only
  rw [hseparate, hempty]
  dsimp only
  rw [macLoop_macText]
  dsimp only
  rw [if_neg hnumber]
  dsimp only
  rw [List.nil_append, checkBondDupMac_eq_false_iff.2 hnodup, if_neg Bool.false_ne_true]

end Mac

/-! ## The names of the sockets -/

section Prefix

variable {mem : ℕ} {config : ConfigFile} {key : String} {c d : LtranParams}

/-- The names fit if the prefix is allowed. -/
theorem parseUnixPrefix_eq_ok :
    parseUnixPrefix mem config key c = .ok d ↔
      ∃ p, (config.lookupString key = none ∧ p = [] ∨
          config.lookupString key = some p ∧ filenameCheck p = false) ∧
        { c with
          unixSocketFilename := gazelleRunDir ++ p ++ gazelleRegSockFilename
          dfxSocketFilename := gazelleRunDir ++ p ++ gazelleDfxSockFilename } = d := by
  unfold parseUnixPrefix
  -- the directory and the names of the sockets have fixed lengths
  have hdir : strncatS nameMax [] gazelleRunDir = some gazelleRunDir := rfl
  have hreg : gazelleRegSockFilename.length = 19 := rfl
  have hdfx : gazelleDfxSockFilename.length = 16 := rfl
  have hrun : gazelleRunDir.length = 17 := rfl
  -- so both texts have room for any prefix that is allowed
  have hfits : ∀ {p : List Char}, p.length ≤ 127 →
      strncatS nameMax gazelleRunDir p = some (gazelleRunDir ++ p) ∧
      strncatS nameMax (gazelleRunDir ++ p) gazelleRegSockFilename =
        some (gazelleRunDir ++ p ++ gazelleRegSockFilename) ∧
      strncatS nameMax (gazelleRunDir ++ p) gazelleDfxSockFilename =
        some (gazelleRunDir ++ p ++ gazelleDfxSockFilename) := by
    intro p hp
    refine ⟨if_pos ?_, if_pos ?_, if_pos ?_⟩ <;>
      simp only [List.length_append, hreg, hdfx, hrun, nameMax] <;> omega
  cases config.lookupString key with
  | none =>
    obtain ⟨-, hregName, hdfxName⟩ := hfits (p := []) (Nat.zero_le _)
    rw [List.append_nil] at hregName hdfxName
    simp [hdir, hregName, hdfxName]
  | some p =>
    by_cases hcheck : filenameCheck p = true
    · simp [hdir, hcheck]
    · have hp : p.length ≤ 127 := by
        simp only [filenameCheck, Bool.or_eq_true, decide_eq_true_eq, not_or] at hcheck
        omega
      obtain ⟨hroom, hregName, hdfxName⟩ := hfits hp
      simp [hdir, hcheck, hroom, hregName, hdfxName]

end Prefix

/-! ## All parsers -/

section All

variable {mem : String → ℕ} {config : ConfigFile} {c d : LtranParams}

theorem parseTable_cons_eq_ok {paramName : String} {func : ParamParseFunc}
    {tbl : List (String × ParamParseFunc)} :
    parseTable mem config ((paramName, func) :: tbl) c = .ok d ↔
      ∃ c', func (mem paramName) config paramName c = .ok c' ∧
        parseTable mem config tbl c' = .ok d := by
  rw [parseTable]
  cases func (mem paramName) config paramName c <;> simp

theorem parseTable_nil_eq_ok : parseTable mem config [] c = .ok d ↔ c = d := by
  rw [parseTable, Except.ok.injEq]

/-- A small number that is not negative is the same unsigned. -/
theorem toNat_of_toInt {v : BitVec 32} (h : 0 ≤ v.toInt) : (v.toNat : ℤ) = v.toInt := by
  rw [BitVec.toInt_eq_toNat_cond] at h ⊢
  split
  · rfl
  · next hbig =>
    rw [if_neg hbig] at h
    omega

/-- The size that is stored for the length of a subnet. -/
theorem one_shiftLeft {n : ℕ} (h : n ≤ 16) :
    1#32 <<< n = BitVec.ofNat 32 (2 ^ n) ∧ 1#32 <<< n - 1#32 = BitVec.ofNat 32 (2 ^ n - 1) := by
  have hlt : 2 ^ n ≤ 2 ^ 16 := Nat.pow_le_pow_right (by decide) h
  have hsize : 1#32 <<< n = BitVec.ofNat 32 (2 ^ n) := by
    apply BitVec.eq_of_toNat_eq
    rw [BitVec.toNat_shiftLeft, Nat.shiftLeft_eq, BitVec.toNat_ofNat, BitVec.toNat_ofNat]
    congr 1
    exact Nat.one_mul _
  have hpos : 0 < 2 ^ n := Nat.two_pow_pos n
  refine ⟨hsize, ?_⟩
  rw [hsize]
  apply BitVec.eq_of_toNat_eq
  simp only [BitVec.toNat_sub, BitVec.toNat_ofNat]
  omega

/-- The interval that is stored for some seconds. -/
theorem scanInterval_eq {v : BitVec 32} (h : 0 ≤ v.toInt) (hmax : v.toInt ≤ 86400) :
    v.signExtend 64 * 1000000 = BitVec.ofNat 64 (v.toNat * 1000000) := by
  have hnat := toNat_of_toInt h
  have hmsb : v.msb = false := by
    rw [BitVec.msb_eq_decide, decide_eq_false_iff_not]
    omega
  rw [BitVec.signExtend_eq_setWidth_of_msb_false hmsb]
  have hfactor : (1000000 : BitVec 64).toNat = 1000000 := rfl
  apply BitVec.eq_of_toNat_eq
  rw [BitVec.toNat_mul, BitVec.toNat_setWidth, BitVec.toNat_ofNat, hfactor,
    Nat.mod_eq_of_lt (a := v.toNat) (by omega)]

theorem of_parseTcpConnScanInterval {mem : ℕ} {key : String}
    (h : parseTcpConnScanInterval mem config key c = .ok d) :
    ∃ interval, (∃ seconds, seconds ≤ 86400 ∧ interval = BitVec.ofNat 64 (seconds * 1000000)) ∧
      { c with tcpConnScanInterval := interval } = d := by
  obtain ⟨-, hd⟩ | ⟨v, -, hv, hd⟩ := parseOptionalInt_eq_ok.1 h
  · exact ⟨_, ⟨600, by decide, by decide⟩, hd⟩
  · simp only [decide_eq_true_eq] at hv
    have hnat := toNat_of_toInt hv.1
    exact ⟨_, ⟨v.toNat, by omega, scanInterval_eq hv.1 hv.2⟩, hd⟩

theorem of_parseKniSwitch {mem : ℕ} {key : String}
    (h : parseKniSwitch mem config key c = .ok d) :
    ∃ kni : BitVec 32, (kni = 0 ∨ kni = 1) ∧ { c with kniSwitch := kni } = d := by
  obtain ⟨-, hd⟩ | ⟨v, -, hv, hd⟩ := parseOptionalInt_eq_ok.1 h
  · exact ⟨0, .inl rfl, hd⟩
  · simp only [decide_eq_true_eq] at hv
    refine ⟨v, ?_, hd⟩
    rcases hv with hv | hv
    · exact .inr (BitVec.eq_of_toInt_eq hv)
    · exact .inl (BitVec.eq_of_toInt_eq hv)

theorem of_parseOptionalInt {mem : ℕ} {key : String} {default : BitVec 32} {ok : ℤ → Bool}
    {set : LtranParams → BitVec 32 → LtranParams}
    (h : parseOptionalInt default ok set mem config key c = .ok d) : ∃ v, set c v = d := by
  obtain ⟨-, hd⟩ | ⟨v, -, -, hd⟩ := parseOptionalInt_eq_ok.1 h
  · exact ⟨_, hd⟩
  · exact ⟨v, hd⟩

/-- What is read from a file is well formed. -/
theorem wellFormed_of_parse {file : Option ConfigFile}
    (h : parseConfigFileArgs mem file = .ok c) : c.WellFormed := by
  cases file with
  | none => cases h
  | some config =>
    simp only [parseConfigFileArgs, gParamParseTbl, parseTable_cons_eq_ok,
      parseTable_nil_eq_ok] at h
    -- the configuration is put in normal form after each parser
    obtain ⟨c₁, h₁, h⟩ := h
    obtain ⟨args, -, hargs, -, -, rfl⟩ := parseForwardKitArgs_eq_ok.1 h₁
    obtain ⟨c₂, h₂, h⟩ := h
    obtain ⟨clients, -, hclients, rfl⟩ := parseInt_eq_ok.1 h₂
    dsimp only at h
    obtain ⟨c₃, h₃, h⟩ := h
    obtain ⟨-, addr, -, -, rfl⟩ := parseDispatchSubnet_eq_ok.1 h₃
    dsimp only at h
    obtain ⟨c₄, h₄, h⟩ := h
    obtain ⟨len, -, hlen, hnet, hhost, rfl⟩ := parseDispatchSubnetLength_eq_ok.1 h₄
    dsimp only at h
    obtain ⟨c₅, h₅, h⟩ := h
    obtain ⟨miimon, -, hmiimon, rfl⟩ := parseInt_eq_ok.1 h₅
    dsimp only at h
    obtain ⟨c₆, h₆, h⟩ := h
    obtain ⟨mode, -, hmode, rfl⟩ := parseInt_eq_ok.1 h₆
    dsimp only at h
    obtain ⟨c₇, h₇, h⟩ := h
    obtain ⟨masks, hpos, hmax, hmasks, rfl⟩ := of_parseBondPorts h₇
    dsimp only at h
    obtain ⟨c₈, h₈, h⟩ := h
    obtain ⟨mtu, -, hmtu, rfl⟩ := parseInt_eq_ok.1 h₈
    dsimp only at h
    obtain ⟨c₉, h₉, h⟩ := h
    obtain ⟨mac, hmac, hnodup, rfl⟩ := of_parseBondMacs h₉
    dsimp only at h
    obtain ⟨c₁₀, h₁₀, h⟩ := h
    obtain rfl := Except.ok.inj h₁₀
    dsimp only at h
    obtain ⟨c₁₁, h₁₁, h⟩ := h
    obtain rfl := Except.ok.inj h₁₁
    dsimp only at h
    obtain ⟨c₁₂, h₁₂, h⟩ := h
    obtain ⟨interval, hinterval, rfl⟩ := of_parseTcpConnScanInterval h₁₂
    dsimp only at h
    obtain ⟨c₁₃, h₁₃, h⟩ := h
    obtain ⟨kni, hkni, rfl⟩ := of_parseKniSwitch h₁₃
    dsimp only at h
    obtain ⟨c₁₄, h₁₄, h⟩ := h
    obtain ⟨p, hp, rfl⟩ := parseUnixPrefix_eq_ok.1 h₁₄
    dsimp only at h
    obtain ⟨c₁₅, h₁₅, h⟩ := h
    obtain ⟨rx, rfl⟩ := of_parseOptionalInt h₁₅
    dsimp only at h
    obtain ⟨c₁₆, h₁₆, rfl⟩ := h
    obtain ⟨tx, rfl⟩ := of_parseOptionalInt h₁₆
    simp only [decide_eq_true_eq] at hclients hmiimon hmode hmtu
    have hlenNat := toNat_of_toInt (v := len) (by omega)
    have hclientsNat := toNat_of_toInt (v := clients) (by omega)
    have hlenRange : 1 ≤ len.toNat ∧ len.toNat ≤ 16 := by omega
    obtain ⟨hsize, hmask⟩ := one_shiftLeft hlenRange.2
    refine {
      dpdkArgv := ⟨_, rfl, hargs, fun arg harg => of_mem_strtok harg⟩
      kniSwitch := hkni
      numClients := ?_
      subnetLength := hlenRange
      subnetSize := hsize
      netMask := hmask
      netPart := hnet
      hostPart := hhost
      miimon := hmiimon
      mode := BitVec.eq_of_toInt_eq (Int.le_antisymm hmode.2 hmode.1)
      mtu := hmtu
      portNum := ⟨hpos, hmax⟩
      portmask := hmasks
      macNum := hmac
      macNodup := hnodup
      rxQueueNum := rfl
      txQueueNum := rfl
      scanInterval := hinterval
      filenames := ⟨p, hp.imp And.right And.right, rfl, rfl⟩ }
    show 1 ≤ (clients.setWidth 8).toNat ∧ (clients.setWidth 8).toNat ≤ gazelleMaxInstanceNum
    have hslots : gazelleMaxInstanceNum = 32 := rfl
    rw [BitVec.toNat_setWidth]
    omega

/-- A file for a configuration. -/
def fileOf (c : LtranParams) (masks : List (BitVec 8)) (seconds : ℕ) (p : List Char) :
    ConfigFile where
  lookupString key :=
    if key = "forward_kit_args" then some ([' '].intercalate c.dpdkArgv.tail)
    else if key = "dispatch_subnet" then some (dotted c.ipv4SubnetAddr)
    else if key = "bond_ports" then some (portText masks)
    else if key = "bond_macs" then some (macsText c.mac)
    else if key = "unix_prefix" ∧ p ≠ [] then some p
    else none
  lookupInt key :=
    if key = "dispatch_max_clients" then some (c.numClients.setWidth 32)
    else if key = "dispatch_subnet_length" then some c.ipv4SubnetLength
    else if key = "bond_miimon" then some c.miimon
    else if key = "bond_mode" then some c.mode
    else if key = "bond_mtu" then some c.mtu
    else if key = "tcp_conn_scan_interval" then some (BitVec.ofNat 32 seconds)
    else if key = "kni_switch" then some c.kniSwitch
    else if key = "rx_mbuf_pool_size" then some c.rxMbufPoolSize
    else if key = "tx_mbuf_pool_size" then some c.txMbufPoolSize
    else none

section FileOf

variable {masks : List (BitVec 8)} {seconds : ℕ} {p : List Char}

theorem parseForwardKitArgs_fileOf (h : c.WellFormed) (d : LtranParams) :
    parseForwardKitArgs 40 (c.fileOf masks seconds p) "forward_kit_args" d =
      .ok { d with dpdkArgv := c.dpdkArgv } := by
  obtain ⟨args, hargv, hargs, hwords⟩ := h.dpdkArgv
  have htokens : strtok ' ' ([' '].intercalate c.dpdkArgv.tail) = args := by
    rw [hargv, List.tail_cons]
    exact strtok_intercalate hwords
  refine parseForwardKitArgs_eq_ok.2 ⟨[' '].intercalate c.dpdkArgv.tail, by simp [fileOf], ?_,
    by decide, ?_, ?_⟩
  · rwa [htokens]
  · rw [htokens]
    rw [gazelleMaxDpdkArgsNum] at hargs
    omega
  · rw [htokens, hargv]

theorem parseDispatchMaxClient_fileOf (h : c.WellFormed) (d : LtranParams) :
    parseDispatchMaxClient 40 (c.fileOf masks seconds p) "dispatch_max_clients" d =
      .ok { d with numClients := c.numClients } := by
  have hclients := h.numClients
  have hnat : (c.numClients.setWidth 32).toNat = c.numClients.toNat := by
    rw [BitVec.toNat_setWidth]
    omega
  have hint : (c.numClients.setWidth 32).toInt = c.numClients.toNat := by
    rw [BitVec.toInt_eq_toNat_cond, hnat, if_pos (by omega)]
  refine parseInt_eq_ok.2 ⟨c.numClients.setWidth 32, by simp [fileOf], decide_eq_true ?_, ?_⟩
  · rw [hint]
    omega
  · rw [BitVec.setWidth_setWidth_of_le _ (by decide), BitVec.setWidth_eq]

/-- The address of the subnet was stored before. -/
theorem parseDispatchSubnetLength_fileOf (h : c.WellFormed) {d : LtranParams}
    (hd : d.ipv4SubnetAddr = c.ipv4SubnetAddr) :
    parseDispatchSubnetLength 40 (c.fileOf masks seconds p) "dispatch_subnet_length" d =
      .ok { d with
        ipv4SubnetSize := c.ipv4SubnetSize
        ipv4SubnetLength := c.ipv4SubnetLength
        ipv4NetMask := c.ipv4NetMask } := by
  obtain ⟨hlow, hhigh⟩ := h.subnetLength
  obtain ⟨hsize, hmask⟩ := one_shiftLeft hhigh
  have hint : (c.ipv4SubnetLength.toNat : ℤ) = c.ipv4SubnetLength.toInt := by
    rw [BitVec.toInt_eq_toNat_cond, if_pos (by omega)]
  rw [← h.subnetSize] at hsize
  rw [← h.netMask] at hmask
  refine parseDispatchSubnetLength_eq_ok.2 ⟨c.ipv4SubnetLength, by simp [fileOf], by omega,
    ?_, ?_, ?_⟩
  · rw [hd, hmask]
    exact h.netPart
  · rw [hd, hmask]
    exact h.hostPart
  · rw [hmask, hsize]

theorem parseBondPorts_fileOf (h : c.WellFormed) (hmasks : masks.map BitVec.toNat = c.portmask)
    (d : LtranParams) :
    parseBondPorts 40 (c.fileOf masks seconds p) "bond_ports" d =
      .ok { d with portmask := c.portmask } := by
  have hlen : masks.length = c.portmask.length := by rw [← hmasks, List.length_map]
  obtain ⟨hone, hmax⟩ := h.portNum
  have hne : ∀ mask ∈ masks, mask ≠ 0 := by
    intro mask hmask hzero
    have hrange := h.portmask mask.toNat (hmasks ▸ List.mem_map_of_mem hmask)
    rw [hzero] at hrange
    exact absurd hrange.1 (by decide)
  rw [← hmasks]
  exact parseBondPorts_portText (by omega) (by omega) hne (by decide) (by simp [fileOf])

/-- The number of the ports was stored before. -/
theorem parseBondMacs_fileOf (h : c.WellFormed) {d : LtranParams} (hd : d.portmask = c.portmask)
    (hempty : d.mac = []) :
    parseBondMacs 40 (c.fileOf masks seconds p) "bond_macs" d = .ok { d with mac := c.mac } :=
  parseBondMacs_macsText (h.macNum ▸ h.portNum.2) (hd ▸ h.macNum) h.macNodup hempty (by decide)
    (by simp [fileOf])

theorem parseTcpConnScanInterval_fileOf (hseconds : seconds ≤ 86400)
    (hinterval : c.tcpConnScanInterval = BitVec.ofNat 64 (seconds * 1000000)) (d : LtranParams) :
    parseTcpConnScanInterval 40 (c.fileOf masks seconds p) "tcp_conn_scan_interval" d =
      .ok { d with tcpConnScanInterval := c.tcpConnScanInterval } := by
  have hint : (BitVec.ofNat 32 seconds).toInt = seconds := NumberList.toInt_count (by omega)
  have hnat : (BitVec.ofNat 32 seconds).toNat = seconds := by
    rw [BitVec.toNat_ofNat]
    omega
  have heq := scanInterval_eq (v := BitVec.ofNat 32 seconds) (by omega) (by omega)
  rw [hnat, ← hinterval] at heq
  refine parseOptionalInt_eq_ok.2 (.inr ⟨BitVec.ofNat 32 seconds, by simp [fileOf],
    decide_eq_true ?_, ?_⟩)
  · omega
  · rw [heq]

theorem parseUnixPrefix_fileOf (hp : p = [] ∨ filenameCheck p = false)
    (hunix : c.unixSocketFilename = gazelleRunDir ++ p ++ gazelleRegSockFilename)
    (hdfx : c.dfxSocketFilename = gazelleRunDir ++ p ++ gazelleDfxSockFilename) (d : LtranParams) :
    parseUnixPrefix 40 (c.fileOf masks seconds p) "unix_prefix" d =
      .ok { d with
        unixSocketFilename := c.unixSocketFilename
        dfxSocketFilename := c.dfxSocketFilename } := by
  refine parseUnixPrefix_eq_ok.2 ⟨p, ?_, by rw [hunix, hdfx]⟩
  rcases hp with rfl | hp
  · exact .inl ⟨by simp [fileOf], rfl⟩
  · have hne : p ≠ [] := by
      rintro rfl
      exact absurd hp (by decide)
    exact .inr ⟨by simp [fileOf, hne], hp⟩

end FileOf

/-- A well-formed configuration is read from a file. -/
theorem exists_parse_of_wellFormed (h : c.WellFormed) :
    ∃ mem file, parseConfigFileArgs mem file = .ok c := by
  obtain ⟨seconds, hseconds, hinterval⟩ := h.scanInterval
  obtain ⟨p, hp, hunix, hdfx⟩ := h.filenames
  -- each entry of the mask is a byte
  obtain ⟨masks, hmasks⟩ : ∃ masks : List (BitVec 8), masks.map BitVec.toNat = c.portmask := by
    refine ⟨c.portmask.map (BitVec.ofNat 8), ?_⟩
    rw [List.map_map]
    refine (List.map_congr_left fun mask hmask => ?_).trans (List.map_id _)
    have hrange := h.portmask mask hmask
    exact Nat.mod_eq_of_lt (by omega)
  -- each parameter is read back from the text that was written for it
  have hsubnet : ∀ d : LtranParams, parseDispatchSubnet 40 (c.fileOf masks seconds p)
      "dispatch_subnet" d = .ok { d with ipv4SubnetAddr := c.ipv4SubnetAddr } := fun d =>
    parseDispatchSubnet_eq_ok.2 ⟨dotted c.ipv4SubnetAddr, c.ipv4SubnetAddr, by simp [fileOf],
      inetAton_dotted _, rfl⟩
  have hmiimon : ∀ d : LtranParams, parseBondMiimon 40 (c.fileOf masks seconds p) "bond_miimon" d =
      .ok { d with miimon := c.miimon } := fun d =>
    parseInt_eq_ok.2 ⟨c.miimon, by simp [fileOf], decide_eq_true h.miimon, rfl⟩
  have hmode : ∀ d : LtranParams, parseBondMode 40 (c.fileOf masks seconds p) "bond_mode" d =
      .ok { d with mode := c.mode } := fun d =>
    parseInt_eq_ok.2 ⟨c.mode, by simp [fileOf], by rw [h.mode]; decide, rfl⟩
  have hmtu : ∀ d : LtranParams, parseBondMtu 40 (c.fileOf masks seconds p) "bond_mtu" d =
      .ok { d with mtu := c.mtu } := fun d =>
    parseInt_eq_ok.2 ⟨c.mtu, by simp [fileOf], decide_eq_true h.mtu, rfl⟩
  have hrxQueue : ∀ d : LtranParams, parseBondRxQueueNum 40 (c.fileOf masks seconds p)
      "bond_rx_queue_num" d = .ok { d with rxQueueNum := c.rxQueueNum } := fun d => by
    rw [h.rxQueueNum]
    rfl
  have htxQueue : ∀ d : LtranParams, parseBondTxQueueNum 40 (c.fileOf masks seconds p)
      "bond_tx_queue_num" d = .ok { d with txQueueNum := c.txQueueNum } := fun d => by
    rw [h.txQueueNum]
    rfl
  have hkni : ∀ d : LtranParams, parseKniSwitch 40 (c.fileOf masks seconds p) "kni_switch" d =
      .ok { d with kniSwitch := c.kniSwitch } := fun d => by
    refine parseOptionalInt_eq_ok.2 (.inr ⟨c.kniSwitch, by simp [fileOf], ?_, rfl⟩)
    rcases h.kniSwitch with heq | heq <;> rw [heq] <;> decide
  have hrxPool : ∀ d : LtranParams, parseRxMbufPoolSize 40 (c.fileOf masks seconds p)
      "rx_mbuf_pool_size" d = .ok { d with rxMbufPoolSize := c.rxMbufPoolSize } := fun d =>
    parseOptionalInt_eq_ok.2 (.inr ⟨c.rxMbufPoolSize, by simp [fileOf], rfl, rfl⟩)
  have htxPool : ∀ d : LtranParams, parseTxMbufPoolSize 40 (c.fileOf masks seconds p)
      "tx_mbuf_pool_size" d = .ok { d with txMbufPoolSize := c.txMbufPoolSize } := fun d =>
    parseOptionalInt_eq_ok.2 (.inr ⟨c.txMbufPoolSize, by simp [fileOf], rfl, rfl⟩)
  -- with room for 40 strings
  refine ⟨fun _ => 40, some (c.fileOf masks seconds p), ?_⟩
  simp only [parseConfigFileArgs, gParamParseTbl, parseTable, parseForwardKitArgs_fileOf h,
    parseDispatchMaxClient_fileOf h, hsubnet, parseDispatchSubnetLength_fileOf h, hmiimon, hmode,
    parseBondPorts_fileOf h hmasks, hmtu, parseBondMacs_fileOf h, hrxQueue, htxQueue,
    parseTcpConnScanInterval_fileOf hseconds hinterval, hkni,
    parseUnixPrefix_fileOf hp hunix hdfx, hrxPool, htxPool, zero]

/-- The configurations that are read from some file, when some allocations succeed, are exactly the
well-formed ones. -/
theorem exists_parse_iff (c : LtranParams) :
    (∃ mem file, parseConfigFileArgs mem file = .ok c) ↔ c.WellFormed :=
  ⟨fun ⟨_, _, h⟩ => wellFormed_of_parse h, exists_parse_of_wellFormed⟩

end All

end LtranParams

end Gazelle
