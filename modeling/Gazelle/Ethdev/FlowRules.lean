import Gazelle.Text.Decimal
import Gazelle.Transition.System

/-!
# The flow rules of the NIC and their map

Process 0 keeps the rules that it has created in `g_flow_rules`, a `uthash` table with the text
`src_ip_src_port_dst_port` as key, and counts them in `g_flow_num`. `config_flow_director` creates a
rule for a tuple that has none and `delete_flow_director` destroys it.

`delete_rule` frees the entry of a key when there is none, where it should do so when there is one:
the entry of a rule that was destroyed stays, and its tuple never gets a rule again.

* `flow_rules_mirror`: when exactly the map mirrors the NIC along a run;
* `flow_rules_stale`: a rule that is created, deleted and created again is not installed.
-/

namespace Gazelle

/-- `RULE_KEY_LEN`. -/
def ruleKeyLen : ℕ := 23

/-- `sprintf_s` of a rule key, with the format `%u_%u_%u`. -/
def ruleKey (ip : BitVec 32) (port port' : BitVec 16) : List Char :=
  CText.joined '_' [ip.toNat, port.toNat, port'.toNat]

/-- The buffer of a rule key is long enough. -/
theorem length_ruleKey_lt (ip : BitVec 32) (port port' : BitVec 16) :
    (ruleKey ip port port').length < ruleKeyLen := by
  have hip := ip.isLt
  have hport := port.isLt
  have hport' := port'.isLt
  have hone : (CText.joined '_' [port'.toNat]).length ≤ 5 :=
    CText.length_joined_singleton_le '_' (by decide) (by omega)
  have htwo : (CText.joined '_' [port.toNat, port'.toNat]).length ≤ 5 + 1 + 5 :=
    CText.length_joined_cons_le '_' (by decide) (by omega) hone
  have hthree : (ruleKey ip port port').length ≤ 10 + 1 + (5 + 1 + 5) :=
    CText.length_joined_cons_le '_' (by decide) (by omega) htwo
  exact Nat.lt_of_le_of_lt hthree (by decide)

/-- `struct flow_rule`. -/
structure FlowRule where
  /-- `rule_key`. -/
  ruleKey : List Char
  /-- `flow`. -/
  flow : ℕ
  deriving DecidableEq

/-- A rule that the NIC has. -/
structure RteFlow where
  /-- Its handle. -/
  handle : ℕ
  /-- The queue that gets the packets. -/
  queueId : BitVec 16
  /-- The source address that it matches. -/
  srcIp : BitVec 32
  /-- The destination address. -/
  dstIp : BitVec 32
  /-- The source port. -/
  srcPort : BitVec 16
  /-- The destination port. -/
  dstPort : BitVec 16
  deriving DecidableEq

/-- The key under which the rule is known. -/
def RteFlow.key (flow : RteFlow) : List Char := Gazelle.ruleKey flow.srcIp flow.srcPort flow.dstPort

/-- The map, the counter and the NIC. -/
structure FlowTable where
  /-- `g_flow_rules`. -/
  gFlowRules : List FlowRule
  /-- `g_flow_num`. -/
  gFlowNum : BitVec 16
  /-- The rules that the NIC has. -/
  installed : List RteFlow
  deriving DecidableEq

namespace FlowTable

variable (t : FlowTable)

/-- `find_rule`. -/
def findRule (key : List Char) : Option FlowRule := t.gFlowRules.find? (·.ruleKey = key)

/-- `add_rule`. -/
def addRule (key : List Char) (flow : ℕ) : FlowTable :=
  match t.findRule key with
  | none => { t with gFlowRules := ⟨key, flow⟩ :: t.gFlowRules }
  | some _ =>
    { t with
      gFlowRules := t.gFlowRules.map fun rule =>
        if rule.ruleKey = key then { rule with flow } else rule }

/-- `delete_rule`: `HASH_DEL` of the entry that was not found, which dereferences `NULL`. -/
def deleteRule (key : List Char) : Option FlowTable :=
  match t.findRule key with
  | none => none
  | some _ => some t

/-- `config_flow_director`. `rte_flow_create` returns `created`, a handle that no other rule has. -/
def configFlowDirector (queueId : BitVec 16) (srcIp dstIp : BitVec 32) (srcPort dstPort : BitVec 16)
    (created : Option ℕ) : Option FlowTable :=
  let key := ruleKey srcIp srcPort dstPort
  match t.findRule key with
  | some _ => some t
  | none =>
    match created with
    | none => some t
    | some handle =>
      let flow : RteFlow := ⟨handle, queueId, srcIp, dstIp, srcPort, dstPort⟩
      if ∃ other ∈ t.installed, other.handle = handle then none
      else
        let t := { t with gFlowNum := t.gFlowNum + 1, installed := flow :: t.installed }
        some (t.addRule key handle)

/-- `delete_flow_director`, where `rte_flow_destroy` succeeds. -/
def deleteFlowDirector (dstIp : BitVec 32) (srcPort dstPort : BitVec 16) : Option FlowTable :=
  let key := ruleKey dstIp dstPort srcPort
  match t.findRule key with
  | none => some t
  | some fl =>
    let t := { t with installed := t.installed.filter (·.handle ≠ fl.flow) }
    (t.deleteRule key).map fun t => { t with gFlowNum := t.gFlowNum - 1 }

end FlowTable

/-- The calls. -/
inductive FlowAct
  /-- `config_flow_director`. -/
  | config (queueId : BitVec 16) (srcIp dstIp : BitVec 32) (srcPort dstPort : BitVec 16)
    (created : Option ℕ)
  /-- `delete_flow_director`. -/
  | delete (dstIp : BitVec 32) (srcPort dstPort : BitVec 16)

namespace FlowTable

/-- The system of the calls, from an empty map. -/
def system : Transition.System FlowTable FlowAct where
  Init t := t = ⟨[], 0, []⟩
  step t
    | .config queueId srcIp dstIp srcPort dstPort created =>
      t.configFlowDirector queueId srcIp dstIp srcPort dstPort created
    | .delete dstIp srcPort dstPort => t.deleteFlowDirector dstIp srcPort dstPort

/-- The map mirrors the NIC. -/
structure Mirrors (t : FlowTable) : Prop where
  /-- The keys in the map are those whose rules are installed. -/
  keys : ∀ key, (∃ rule ∈ t.gFlowRules, rule.ruleKey = key) ↔ ∃ flow ∈ t.installed, flow.key = key
  /-- Each entry has the handle of the rule that is installed for its key. -/
  flows : ∀ rule ∈ t.gFlowRules, ∃ flow ∈ t.installed,
    flow.handle = rule.flow ∧ flow.key = rule.ruleKey
  /-- `g_flow_num` is the number of entries. -/
  num : t.gFlowNum.toNat = t.gFlowRules.length

/-- `delete_flow_director` finds no rule, and a rule that is created can still be counted by a
`uint16_t`. -/
def Condition (t : FlowTable) : FlowAct → Prop
  | .config _ srcIp _ srcPort dstPort created =>
    t.findRule (ruleKey srcIp srcPort dstPort) = none → created ≠ none →
      t.gFlowRules.length + 1 < 2 ^ 16
  | .delete dstIp srcPort dstPort => t.findRule (ruleKey dstIp dstPort srcPort) = none

variable {t t' : FlowTable}

/-- What `find_rule` returns is an entry with the key. -/
theorem findRule_eq_some {key : List Char} {rule : FlowRule} (h : t.findRule key = some rule) :
    rule ∈ t.gFlowRules ∧ rule.ruleKey = key :=
  ⟨List.mem_of_find?_eq_some h, by simpa using List.find?_some h⟩

/-- A new key gets a new entry. -/
theorem addRule_of_none {key : List Char} (h : t.findRule key = none) (flow : ℕ) :
    t.addRule key flow = { t with gFlowRules := ⟨key, flow⟩ :: t.gFlowRules } := by
  rw [addRule, h]

/-- What `config_flow_director` does: nothing, or it installs a rule with a new handle and enters
it. -/
theorem config_cases {queueId srcPort dstPort : BitVec 16} {srcIp dstIp : BitVec 32}
    {created : Option ℕ}
    (hs : t.configFlowDirector queueId srcIp dstIp srcPort dstPort created = some t') :
    (t' = t ∧ (t.findRule (ruleKey srcIp srcPort dstPort) = none → created = none)) ∨
      ∃ handle, created = some handle ∧ t.findRule (ruleKey srcIp srcPort dstPort) = none ∧
      t' = ⟨⟨ruleKey srcIp srcPort dstPort, handle⟩ :: t.gFlowRules, t.gFlowNum + 1,
        ⟨handle, queueId, srcIp, dstIp, srcPort, dstPort⟩ :: t.installed⟩ := by
  simp only [configFlowDirector] at hs
  split at hs
  · rename_i hfind
    exact .inl ⟨(Option.some.inj hs).symm, fun hnone => by rw [hfind] at hnone; cases hnone⟩
  rename_i hfind
  split at hs
  · exact .inl ⟨(Option.some.inj hs).symm, fun _ => rfl⟩
  rename_i handle
  split at hs
  · cases hs
  · refine .inr ⟨handle, rfl, hfind, ?_⟩
    rw [← Option.some.inj hs]
    exact addRule_of_none (t := { t with
      gFlowNum := t.gFlowNum + 1
      installed := ⟨handle, queueId, srcIp, dstIp, srcPort, dstPort⟩ :: t.installed }) hfind handle

/-- What `delete_flow_director` does when it finds a rule: the NIC loses it and the map keeps it. -/
theorem delete_of_some {srcPort dstPort : BitVec 16} {dstIp : BitVec 32} {rule : FlowRule}
    (hfind : t.findRule (ruleKey dstIp dstPort srcPort) = some rule)
    (hs : t.deleteFlowDirector dstIp srcPort dstPort = some t') :
    t' = ⟨t.gFlowRules, t.gFlowNum - 1, t.installed.filter (·.handle ≠ rule.flow)⟩ := by
  simp only [deleteFlowDirector, hfind, deleteRule] at hs
  have hfind' : findRule { t with installed := t.installed.filter (·.handle ≠ rule.flow) }
      (ruleKey dstIp dstPort srcPort) = some rule := hfind
  rw [hfind'] at hs
  exact (Option.some.inj hs).symm

/-- A rule that is installed and entered keeps the map a mirror while it can be counted. -/
theorem Mirrors.insert (h : t.Mirrors) (flow : RteFlow) (hlt : t.gFlowRules.length + 1 < 2 ^ 16) :
    Mirrors ⟨⟨flow.key, flow.handle⟩ :: t.gFlowRules, t.gFlowNum + 1, flow :: t.installed⟩ where
  keys key := by
    simp only [List.mem_cons, exists_eq_or_imp]
    exact or_congr Iff.rfl (h.keys key)
  flows rule hrule := by
    rcases List.mem_cons.1 hrule with rfl | hrule
    · exact ⟨flow, List.mem_cons_self, rfl, rfl⟩
    · obtain ⟨flow', hmem, hflow⟩ := h.flows rule hrule
      exact ⟨flow', List.mem_cons_of_mem _ hmem, hflow⟩
  num := by
    have hnum := h.num
    rw [BitVec.toNat_add, List.length_cons, hnum]
    exact Nat.mod_eq_of_lt hlt

/-- A step under the condition keeps the map a mirror. -/
theorem Mirrors.step (h : t.Mirrors) {a : FlowAct} (hc : t.Condition a)
    (hs : system.step t a = some t') : t'.Mirrors := by
  cases a with
  | config queueId srcIp dstIp srcPort dstPort created =>
    rcases config_cases hs with ⟨rfl, -⟩ | ⟨handle, hcreated, hfind, rfl⟩
    · exact h
    · have hlt := hc hfind (by rw [hcreated]; exact nofun)
      exact h.insert ⟨handle, queueId, srcIp, dstIp, srcPort, dstPort⟩ hlt
  | delete dstIp srcPort dstPort =>
    have hnone : t.deleteFlowDirector dstIp srcPort dstPort = some t := by
      simp only [deleteFlowDirector]
      rw [show t.findRule _ = none from hc]
    exact Option.some.inj (hnone.symm.trans hs) ▸ h

/-- A step after which the map is still a mirror meets the condition. -/
theorem condition_of_mirrors {a : FlowAct} (hs : system.step t a = some t')
    (h' : t'.Mirrors) : t.Condition a := by
  cases a with
  | config queueId srcIp dstIp srcPort dstPort created =>
    intro hfind hcreated
    rcases config_cases hs with ⟨-, hnone⟩ | ⟨handle, -, -, rfl⟩
    · exact absurd (hnone hfind) hcreated
    · have hnum := h'.num
      have hlt := (t.gFlowNum + 1).isLt
      simp only [List.length_cons] at hnum
      omega
  | delete dstIp srcPort dstPort =>
    show t.findRule _ = none
    by_contra hsome
    obtain ⟨rule, hfind⟩ := Option.ne_none_iff_exists'.1 hsome
    obtain rfl := delete_of_some hfind hs
    -- the entry has the handle that was destroyed
    obtain ⟨flow, hflow, hhandle, -⟩ := h'.flows rule (findRule_eq_some hfind).1
    exact absurd hhandle (by simpa using (List.mem_filter.1 hflow).2)

/-- The map mirrors the NIC in all states of a run exactly when no call of `delete_flow_director`
finds a rule and the counter does not overflow. -/
theorem flow_rules_mirror (as : List FlowAct) :
    system.statesHold Mirrors ⟨[], 0, []⟩ as ↔ system.stepsMeet Condition ⟨[], 0, []⟩ as := by
  refine Transition.System.statesHold_iff_stepsMeet (J := Mirrors) (fun _ h => h)
    (fun _ _ _ h hc hs => h.step hc hs) (fun _ _ _ _ h' hs => condition_of_mirrors hs h') ?_
  exact ⟨fun key => by simp, fun _ h => absurd h List.not_mem_nil, rfl⟩

/-- The rule of a connection is created, deleted and created again. -/
private def againRun : List FlowAct :=
  [.config 1 10 20 30 40 (some 7), .delete 10 40 30, .config 1 10 20 30 40 (some 8)]

/-- In the end the rule is in the map and not in the NIC. -/
theorem flow_rules_stale :
    ¬ ∀ as : List FlowAct, ∀ t, system.run ⟨[], 0, []⟩ as = some t → t.Mirrors := by
  intro h
  have hrun : (system.run ⟨[], 0, []⟩ againRun).any
      (fun t => t.gFlowRules.length = 1 ∧ t.installed = []) = true := by
    decide +kernel
  obtain ⟨t, hs, hstate⟩ := (Option.any_eq_true _ _).1 hrun
  obtain ⟨hlen, hinstalled⟩ := of_decide_eq_true hstate
  obtain ⟨rule, hrules⟩ := List.length_eq_one_iff.1 hlen
  obtain ⟨flow, hflow, -⟩ := (h againRun t hs).flows rule (hrules ▸ List.mem_cons_self)
  rw [hinstalled] at hflow
  cases hflow

end FlowTable

end Gazelle
