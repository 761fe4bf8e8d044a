import Gazelle.Ethdev.FlowRules

/-!
# The rule messages between processes

The other processes have process 0 create and delete their flow rules and enter their listen ports.
A message is a text: the arguments in decimal with commas between them. `str_to_array` reads it with
`atoi` and gives up at the first negative result, so that it and all after it stay 0; nobody looks
at the result that tells this.

* `strToArray_joined`: the array that is read, up to the first number that an `int` cannot hold;
* `rule_messages_round_trip`: when exactly the messages arrive as they were sent;
* `rule_messages_high_address`: an address from `2 ^ 31` on does not arrive.
-/

namespace Gazelle

/-- `CREATE_FLOWS_PARAMS_LENGTH`. -/
def createFlowsParamsLength : ℕ := 60

/-- `DELETE_FLOWS_PARAMS_LENGTH`. -/
def deleteFlowsParamsLength : ℕ := 30

/-- `ADD_OR_DELETE_LISTEN_PORT_PARAMS_LENGTH`. -/
def addOrDeleteListenPortParamsLength : ℕ := 25

/-- The loop of `str_to_array` over the tokens that are left. -/
def strToArrayLoop (size : ℕ) (cnt : BitVec 16) (array : ℕ → BitVec 32) :
    List (List Char) → ℤ × (ℕ → BitVec 32)
  | [] => (cnt.toNat, array)
  | elem :: rest =>
    if size ≤ cnt.toNat then (-1, array)
    else if (CText.atoi elem).toInt < 0 then (-1, array)
    else strToArrayLoop size (cnt + 1) (Function.update array cnt.toNat (CText.atoi elem)) rest

/-- `str_to_array`. -/
def strToArray (args : List Char) (size : ℕ) : ℤ × (ℕ → BitVec 32) :=
  strToArrayLoop size 0 (fun _ => 0) (CText.strtok ',' args)

/-- The arguments of `config_flow_director` and `add_user_process_port`. -/
structure CreateRule where
  /-- The queue. -/
  queueId : BitVec 16
  /-- The source address. -/
  srcIp : BitVec 32
  /-- The destination address. -/
  dstIp : BitVec 32
  /-- The source port. -/
  srcPort : BitVec 16
  /-- The destination port, which is entered for the process. -/
  dstPort : BitVec 16
  /-- The process. -/
  processIdx : BitVec 8
  deriving DecidableEq

/-- The arguments of `delete_flow_director`. -/
structure DeleteRule where
  /-- The destination address. -/
  dstIp : BitVec 32
  /-- The source port. -/
  srcPort : BitVec 16
  /-- The destination port. -/
  dstPort : BitVec 16
  deriving DecidableEq

/-- The arguments of a listen port message. -/
structure ListenPort where
  /-- The port. -/
  listenPort : BitVec 16
  /-- The process. -/
  processIdx : BitVec 8
  /-- Whether the port is added. -/
  isAdd : BitVec 8
  deriving DecidableEq

/-- The key of the rule that is created. -/
def CreateRule.key (r : CreateRule) : List Char := ruleKey r.srcIp r.srcPort r.dstPort

/-- The key of the rule that is deleted. -/
def DeleteRule.key (r : DeleteRule) : List Char := ruleKey r.dstIp r.dstPort r.srcPort

/-- The text of `transfer_create_rule_info_to_process0`, where source and destination are
exchanged. -/
def transferCreateRuleInfo (queueId : BitVec 16) (srcIp dstIp : BitVec 32)
    (srcPort dstPort : BitVec 16) (processIdx : BitVec 8) : Option (List Char) :=
  CText.sprintfS createFlowsParamsLength (CText.joined ',' [dstIp.toNat, srcIp.toNat,
    dstPort.toNat, srcPort.toNat, queueId.toNat, processIdx.toNat])

/-- The text of `transfer_delete_rule_info_to_process0`. -/
def transferDeleteRuleInfo (dstIp : BitVec 32) (srcPort dstPort : BitVec 16) :
    Option (List Char) :=
  CText.sprintfS deleteFlowsParamsLength
    (CText.joined ',' [dstIp.toNat, srcPort.toNat, dstPort.toNat])

/-- The text of `transfer_add_or_delete_listen_port_to_process0`. -/
def transferAddOrDeleteListenPort (listenPort : BitVec 16) (processIdx isAdd : BitVec 8) :
    Option (List Char) :=
  CText.sprintfS addOrDeleteListenPortParamsLength
    (CText.joined ',' [listenPort.toNat, processIdx.toNat, isAdd.toNat])

/-- What `parse_and_create_rule` reads. -/
def parseCreateRule (buf : List Char) : CreateRule :=
  let array := (strToArray buf 6).2
  { srcIp := array 0
    dstIp := array 1
    srcPort := (array 2).setWidth 16
    dstPort := (array 3).setWidth 16
    queueId := (array 4).setWidth 16
    processIdx := (array 5).setWidth 8 }

/-- What `parse_and_delete_rule` reads. -/
def parseDeleteRule (buf : List Char) : DeleteRule :=
  let array := (strToArray buf 3).2
  { dstIp := array 0, srcPort := (array 1).setWidth 16, dstPort := (array 2).setWidth 16 }

/-- What `parse_and_add_or_delete_listen_port` reads. -/
def parseListenPort (buf : List Char) : ListenPort :=
  let array := (strToArray buf 3).2
  { listenPort := (array 0).setWidth 16
    processIdx := (array 1).setWidth 8
    isAdd := (array 2).setWidth 8 }

/-! ## What is read -/

/-- Numbers are stored one after the other. -/
def storeFrom (cnt : ℕ) (array : ℕ → BitVec 32) : List ℕ → ℕ → BitVec 32
  | [] => array
  | n :: ns => storeFrom (cnt + 1) (Function.update array cnt (BitVec.ofNat 32 n)) ns

/-- An `int` holds the number. -/
theorem atoi_decimal_nonneg {n : ℕ} (h : n < 2 ^ 32) :
    ¬ (CText.atoi (CText.decimal n)).toInt < 0 ↔ n < 2 ^ 31 := by
  rw [CText.atoi_decimal (by omega), BitVec.toInt_eq_toNat_cond, BitVec.toNat_ofNat,
    Nat.mod_eq_of_lt h]
  split <;> omega

/-- The loop stores the numbers before the first one that an `int` cannot hold. -/
theorem strToArrayLoop_decimal {size : ℕ} {cnt : BitVec 16} {array : ℕ → BitVec 32} {ns : List ℕ}
    (hns : ∀ n ∈ ns, n < 2 ^ 32) (hfits : cnt.toNat + ns.length ≤ size) (hsize : size < 2 ^ 16) :
    (strToArrayLoop size cnt array (ns.map CText.decimal)).2 =
      storeFrom cnt.toNat array (ns.takeWhile (· < 2 ^ 31)) := by
  induction ns generalizing cnt array with
  | nil => rfl
  | cons n ns ih =>
    obtain ⟨hn, hns⟩ := List.forall_mem_cons.1 hns
    rw [List.length_cons] at hfits
    rw [List.map_cons, strToArrayLoop, if_neg (by omega)]
    by_cases hlt : n < 2 ^ 31
    · have hnext : (cnt + 1).toNat = cnt.toNat + 1 := by
        rw [BitVec.toNat_add]
        exact Nat.mod_eq_of_lt (by simp; omega)
      rw [if_neg ((atoi_decimal_nonneg hn).2 hlt), ih hns (by omega), hnext,
        List.takeWhile_cons_of_pos (by simpa using hlt), storeFrom, CText.atoi_decimal (by omega)]
    · rw [if_pos (not_not.1 fun hneg => hlt ((atoi_decimal_nonneg hn).1 hneg)),
        List.takeWhile_cons_of_neg (by simpa using hlt)]
      rfl

/-- What `str_to_array` reads of a message. -/
theorem strToArray_joined {size : ℕ} {ns : List ℕ} (hns : ∀ n ∈ ns, n < 2 ^ 32)
    (hfits : ns.length ≤ size) (hsize : size < 2 ^ 16) :
    (strToArray (CText.joined ',' ns) size).2 =
      storeFrom 0 (fun _ => 0) (ns.takeWhile (· < 2 ^ 31)) := by
  rw [strToArray, CText.strtok_joined (by decide)]
  exact strToArrayLoop_decimal hns (by simpa using hfits) hsize

/-! ## The round trip -/

/-- The messages about a connection and about a listen port arrive as they were sent, and creating
and deleting address the same rule. -/
structure RoundTrips (queueId : BitVec 16) (srcIp dstIp : BitVec 32) (srcPort dstPort : BitVec 16)
    (processIdx : BitVec 8) (listenPort : BitVec 16) (isAdd : BitVec 8) : Prop where
  /-- The message that creates the rule, with source and destination exchanged. -/
  create : (transferCreateRuleInfo queueId srcIp dstIp srcPort dstPort processIdx).map
    parseCreateRule = some ⟨queueId, dstIp, srcIp, dstPort, srcPort, processIdx⟩
  /-- The message that deletes it. -/
  delete : (transferDeleteRuleInfo dstIp srcPort dstPort).map parseDeleteRule =
    some ⟨dstIp, srcPort, dstPort⟩
  /-- The message about the listen port. -/
  listen : (transferAddOrDeleteListenPort listenPort processIdx isAdd).map parseListenPort =
    some ⟨listenPort, processIdx, isAdd⟩
  /-- Both messages about the rule are about the same key. -/
  key : (transferCreateRuleInfo queueId srcIp dstIp srcPort dstPort processIdx).map
      (fun buf => (parseCreateRule buf).key) =
    (transferDeleteRuleInfo dstIp srcPort dstPort).map fun buf => (parseDeleteRule buf).key

section Parse

variable (queueId : BitVec 16) (srcIp dstIp : BitVec 32) (srcPort dstPort : BitVec 16)
  (processIdx isAdd : BitVec 8)

/-- The buffer of the first message is long enough. -/
theorem transferCreateRuleInfo_eq :
    transferCreateRuleInfo queueId srcIp dstIp srcPort dstPort processIdx =
      some (CText.joined ',' [dstIp.toNat, srcIp.toNat, dstPort.toNat, srcPort.toNat,
        queueId.toNat, processIdx.toNat]) := by
  have hone : (CText.joined ',' [processIdx.toNat]).length ≤ 3 :=
    CText.length_joined_singleton_le ',' (by decide) (by omega)
  have htwo := CText.length_joined_cons_le ',' (k := 5) (by decide)
    (lt_trans queueId.isLt (by decide)) hone
  have hthree := CText.length_joined_cons_le ',' (k := 5) (by decide)
    (lt_trans srcPort.isLt (by decide)) htwo
  have hfour := CText.length_joined_cons_le ',' (k := 5) (by decide)
    (lt_trans dstPort.isLt (by decide)) hthree
  have hfive := CText.length_joined_cons_le ',' (k := 10) (by decide)
    (lt_trans srcIp.isLt (by decide)) hfour
  have hsix := CText.length_joined_cons_le ',' (k := 10) (by decide)
    (lt_trans dstIp.isLt (by decide)) hfive
  exact CText.sprintfS_eq_some (Nat.lt_of_le_of_lt hsix (by decide))

/-- The buffer of the second message is long enough. -/
theorem transferDeleteRuleInfo_eq :
    transferDeleteRuleInfo dstIp srcPort dstPort =
      some (CText.joined ',' [dstIp.toNat, srcPort.toNat, dstPort.toNat]) := by
  have hone : (CText.joined ',' [dstPort.toNat]).length ≤ 5 :=
    CText.length_joined_singleton_le ',' (by decide) (by omega)
  have htwo := CText.length_joined_cons_le ',' (k := 5) (by decide)
    (lt_trans srcPort.isLt (by decide)) hone
  have hthree := CText.length_joined_cons_le ',' (k := 10) (by decide)
    (lt_trans dstIp.isLt (by decide)) htwo
  exact CText.sprintfS_eq_some (Nat.lt_of_le_of_lt hthree (by decide))

/-- The buffer of the third message is long enough. -/
theorem transferAddOrDeleteListenPort_eq (listenPort : BitVec 16) :
    transferAddOrDeleteListenPort listenPort processIdx isAdd =
      some (CText.joined ',' [listenPort.toNat, processIdx.toNat, isAdd.toNat]) := by
  have hone : (CText.joined ',' [isAdd.toNat]).length ≤ 3 :=
    CText.length_joined_singleton_le ',' (by decide) (by omega)
  have htwo := CText.length_joined_cons_le ',' (k := 3) (by decide)
    (lt_trans processIdx.isLt (by decide)) hone
  have hthree := CText.length_joined_cons_le ',' (k := 5) (by decide)
    (lt_trans listenPort.isLt (by decide)) htwo
  exact CText.sprintfS_eq_some (Nat.lt_of_le_of_lt hthree (by decide))

/-- With small addresses the first message is read as it was written. -/
theorem parseCreateRule_joined (hsrc : srcIp.toNat < 2 ^ 31) (hdst : dstIp.toNat < 2 ^ 31) :
    parseCreateRule (CText.joined ',' [dstIp.toNat, srcIp.toNat, dstPort.toNat, srcPort.toNat,
      queueId.toNat, processIdx.toNat]) =
        ⟨queueId, dstIp, srcIp, dstPort, srcPort, processIdx⟩ := by
  have hsmall : ∀ n ∈ [dstIp.toNat, srcIp.toNat, dstPort.toNat, srcPort.toNat, queueId.toNat,
      processIdx.toNat], n < 2 ^ 31 := by
    have := queueId.isLt
    have := srcPort.isLt
    have := dstPort.isLt
    have := processIdx.isLt
    simp only [List.mem_cons, List.not_mem_nil, or_false]
    omega
  have hns := fun n hn => Nat.lt_trans (hsmall n hn) (by decide : 2 ^ 31 < 2 ^ 32)
  have htake := List.takeWhile_eq_self_iff.2 fun n hn => decide_eq_true (hsmall n hn)
  have harray := strToArray_joined hns (by simp : _ ≤ 6) (by decide)
  rw [htake] at harray
  simp only [parseCreateRule, harray, storeFrom]
  simp [Function.update]

/-- With a small address the second message is read as it was written. -/
theorem parseDeleteRule_joined (hdst : dstIp.toNat < 2 ^ 31) :
    parseDeleteRule (CText.joined ',' [dstIp.toNat, srcPort.toNat, dstPort.toNat]) =
      ⟨dstIp, srcPort, dstPort⟩ := by
  have hsmall : ∀ n ∈ [dstIp.toNat, srcPort.toNat, dstPort.toNat], n < 2 ^ 31 := by
    have := srcPort.isLt
    have := dstPort.isLt
    simp only [List.mem_cons, List.not_mem_nil, or_false]
    omega
  have hns := fun n hn => Nat.lt_trans (hsmall n hn) (by decide : 2 ^ 31 < 2 ^ 32)
  have htake := List.takeWhile_eq_self_iff.2 fun n hn => decide_eq_true (hsmall n hn)
  have harray := strToArray_joined hns (by simp : _ ≤ 3) (by decide)
  rw [htake] at harray
  simp only [parseDeleteRule, harray, storeFrom]
  simp [Function.update]

/-- The third message is read as it was written. -/
theorem parseListenPort_joined (listenPort : BitVec 16) :
    parseListenPort (CText.joined ',' [listenPort.toNat, processIdx.toNat, isAdd.toNat]) =
      ⟨listenPort, processIdx, isAdd⟩ := by
  have hsmall : ∀ n ∈ [listenPort.toNat, processIdx.toNat, isAdd.toNat], n < 2 ^ 31 := by
    have := listenPort.isLt
    have := processIdx.isLt
    have := isAdd.isLt
    simp only [List.mem_cons, List.not_mem_nil, or_false]
    omega
  have hns := fun n hn => Nat.lt_trans (hsmall n hn) (by decide : 2 ^ 31 < 2 ^ 32)
  have htake := List.takeWhile_eq_self_iff.2 fun n hn => decide_eq_true (hsmall n hn)
  have harray := strToArray_joined hns (by simp : _ ≤ 3) (by decide)
  rw [htake] at harray
  simp only [parseListenPort, harray, storeFrom]
  simp [Function.update]

/-- An address is read as 0 unless an `int` holds it and those before it. -/
theorem parseCreateRule_addresses :
    let r := parseCreateRule (CText.joined ',' [dstIp.toNat, srcIp.toNat, dstPort.toNat,
      srcPort.toNat, queueId.toNat, processIdx.toNat])
    (¬ dstIp.toNat < 2 ^ 31 → r.srcIp = 0) ∧ (¬ srcIp.toNat < 2 ^ 31 → r.dstIp = 0) := by
  have hns : ∀ n ∈ [dstIp.toNat, srcIp.toNat, dstPort.toNat, srcPort.toNat, queueId.toNat,
      processIdx.toNat], n < 2 ^ 32 := by
    have := dstIp.isLt
    have := srcIp.isLt
    have := queueId.isLt
    have := srcPort.isLt
    have := dstPort.isLt
    have := processIdx.isLt
    simp only [List.mem_cons, List.not_mem_nil, or_false]
    omega
  have harray := strToArray_joined hns (by simp : _ ≤ 6) (by decide)
  simp only [parseCreateRule, harray]
  refine ⟨fun hdst => ?_, fun hsrc => ?_⟩
  · rw [List.takeWhile_cons_of_neg (by simpa using hdst)]
    rfl
  · by_cases hdst : dstIp.toNat < 2 ^ 31
    · rw [List.takeWhile_cons_of_pos (by simpa using hdst),
        List.takeWhile_cons_of_neg (by simpa using hsrc)]
      simp [storeFrom]
    · rw [List.takeWhile_cons_of_neg (by simpa using hdst)]
      rfl

end Parse

/-- The messages about a connection and a listen port arrive as they were sent, in buffers that are
long enough, exactly when both addresses are below `2 ^ 31` as `atoi` needs it. -/
theorem rule_messages_round_trip (queueId : BitVec 16) (srcIp dstIp : BitVec 32)
    (srcPort dstPort : BitVec 16) (processIdx : BitVec 8) (listenPort : BitVec 16)
    (isAdd : BitVec 8) :
    RoundTrips queueId srcIp dstIp srcPort dstPort processIdx listenPort isAdd ↔
      srcIp.toNat < 2 ^ 31 ∧ dstIp.toNat < 2 ^ 31 := by
  constructor
  · intro h
    have hcreate := h.create
    rw [transferCreateRuleInfo_eq, Option.map_some, Option.some.injEq] at hcreate
    obtain ⟨hdst, hsrc⟩ :=
      parseCreateRule_addresses queueId srcIp dstIp srcPort dstPort processIdx
    simp only [hcreate] at hdst hsrc
    -- an address that is read as 0 is 0
    constructor
    · by_contra hlarge
      exact hlarge (by rw [hsrc hlarge]; decide)
    · by_contra hlarge
      exact hlarge (by rw [hdst hlarge]; decide)
  · rintro ⟨hsrc, hdst⟩
    refine ⟨?_, ?_, ?_, ?_⟩
    · rw [transferCreateRuleInfo_eq, Option.map_some, parseCreateRule_joined _ _ _ _ _ _ hsrc hdst]
    · rw [transferDeleteRuleInfo_eq, Option.map_some, parseDeleteRule_joined _ _ _ hdst]
    · rw [transferAddOrDeleteListenPort_eq, Option.map_some, parseListenPort_joined]
    · rw [transferCreateRuleInfo_eq, transferDeleteRuleInfo_eq, Option.map_some, Option.map_some,
        parseCreateRule_joined _ _ _ _ _ _ hsrc hdst, parseDeleteRule_joined _ _ _ hdst]
      rfl

/-- The source address `0x80000000` is read as 0. -/
theorem rule_messages_high_address :
    ¬ RoundTrips 1 0x80000000 0x0a000001 80 1024 1 80 1 := by
  intro h
  have hcreate := h.create
  revert hcreate
  decide +kernel

end Gazelle
