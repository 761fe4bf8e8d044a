import Mathlib.Data.Nat.Notation
import Mathlib.Data.List.Basic
import Mathlib.Tactic.Common

/-!
# The argument vector for DPDK

`parse_dpdk_args` fills the vector `dpdk_argv` from the configuration, `parse_stack_cpu_number` and
`gazelle_param_init` append to it, and `gazelle_copy_param` copies strings out of it. An element of
the setting that is not a string leaves a hole.

* `run`: a configuration is parsed, and calls of the last two functions follow;
* `Sees`: an option is found before the first hole;
* `safe_findArg_iff`: the lookups that inspect no hole;
* `inBounds_iff`: the runs in which no hole is inspected and nothing is written past an array;
* `not_inBounds_number`: a setting with a number in it.
-/

namespace Gazelle

namespace DpdkArgs

/-- A C string. -/
abbrev Arg := List Char

/-- Strings of a vector; a hole is `NULL`. -/
abbrev Args := List (Option Arg)

/-- `GAZELLE_MAX_REG_ARGS`. -/
def maxRegArgs : ℕ := 32

/-- `PATH_MAX`. -/
def pathMax : ℕ := 4096

/-- `OPT_FILE_PREFIX`. -/
def optFilePrefix : Arg := "--file-prefix".toList

/-- `OPT_SOCKET_MEM`. -/
def optSocketMem : Arg := "--socket-mem".toList

/-- `OPT_BASE_VIRTADDR`. -/
def optBaseVirtaddr : Arg := "--base-virtaddr".toList

/-- `OPT_BIND_CORELIST`. -/
def optBindCorelist : Arg := "-l".toList

/-! ## What can go wrong -/

/-- What can go wrong. -/
inductive Fault
  /-- A write past the end of `dpdk_argv` or of the vector of the caller. -/
  | outOfBounds
  /-- `get_param_idx` or `foundcorelist_arg` inspects `NULL`. -/
  | nullString
  /-- `dpdk_argc` is more than `GAZELLE_MAX_REG_ARGS`. -/
  | argcTooBig
  /-- `NULL` is used as a string in another place. -/
  | nullElsewhere
  deriving DecidableEq

/-- A run of a function. -/
inductive Run (α : Type)
  /-- It returns a value. -/
  | done (a : α)
  /-- It reports an error, and the program ends. -/
  | refused
  /-- Something goes wrong. -/
  | fault (f : Fault)

namespace Run

variable {α β : Type}

/-- One run after another. -/
def bind (r : Run α) (k : α → Run β) : Run β :=
  match r with
  | done a => k a
  | refused => refused
  | fault f => fault f

/-- No write is out of bounds, no `NULL` is inspected by the two functions that look for options,
and `dpdk_argc` is not too big. -/
def Safe (r : Run α) : Prop := ∀ f, r = fault f → f = .nullElsewhere

@[simp] theorem safe_done (a : α) : (done a).Safe := fun _ h => absurd h (by simp)

@[simp] theorem safe_refused : (refused : Run α).Safe := fun _ h => absurd h (by simp)

@[simp] theorem safe_fault (f : Fault) : (fault f : Run α).Safe ↔ f = .nullElsewhere := by
  constructor
  · exact fun h => h f rfl
  · rintro rfl f heq
    exact (fault.inj heq).symm

@[simp] theorem bind_done (a : α) (k : α → Run β) : (done a).bind k = k a := rfl

@[simp] theorem bind_refused (k : α → Run β) : (refused : Run α).bind k = refused := rfl

@[simp] theorem bind_fault (f : Fault) (k : α → Run β) : (fault f : Run α).bind k = fault f := rfl

/-- Two runs are safe if the first one is and the second one is after it. -/
theorem safe_bind_iff (r : Run α) (k : α → Run β) :
    (r.bind k).Safe ↔ r.Safe ∧ ∀ a, r = done a → (k a).Safe := by
  cases r with
  | done a => simp
  | refused => simp
  | fault f => simp

end Run

/-! ## The vector -/

/-- `dpdk_argc`, `dpdk_argv` and the file prefix. -/
structure Dpdk where
  /-- `dpdk_argc`. -/
  argc : ℕ
  /-- The slots of `dpdk_argv`. -/
  argv : Args
  /-- `sec_attach_arg.file_prefix`. -/
  filePrefix : Arg
  /-- There are `GAZELLE_MAX_REG_ARGS` slots. -/
  argv_length : argv.length = maxRegArgs
  /-- `dpdk_argc` is not more than that. -/
  argc_le : argc ≤ maxRegArgs

namespace Dpdk

/-- Before the configuration is parsed; `calloc` sets the slots to `NULL`. -/
def start : Dpdk where
  argc := 0
  argv := List.replicate maxRegArgs none
  filePrefix := []
  argv_length := List.length_replicate
  argc_le := Nat.zero_le _

/-- `dpdk_argv[i] = x;`. -/
def store (st : Dpdk) (i : ℕ) (x : Option Arg) : Run Dpdk :=
  if i < maxRegArgs then
    .done { st with
      argv := st.argv.set i x
      argv_length := by rw [List.length_set, st.argv_length] }
  else .fault .outOfBounds

/-- `dpdk_argc = n;`. -/
def setArgc (st : Dpdk) (n : ℕ) : Run Dpdk :=
  if h : n ≤ maxRegArgs then .done { st with argc := n, argc_le := h } else .fault .argcTooBig

/-- `dpdk_argv[dpdk_argc] = x; dpdk_argc++;`. -/
def push (st : Dpdk) (x : Option Arg) : Run Dpdk :=
  (st.store st.argc x).bind fun st => st.setArgc (st.argc + 1)

/-- The strings of the vector. -/
def strings (st : Dpdk) : Args := st.argv.take st.argc

end Dpdk

/-! ## Lookups -/

/-- `strncmp(arg, param, strlen(param)) == 0`. -/
def isOpt (param arg : Arg) : Bool := param.isPrefixOf arg

/-- The strings are inspected one after another, from index `i` on, until one has the property. -/
def findArg (p : Arg → Bool) : ℕ → Args → Run (Option ℕ)
  | _, [] => .done none
  | _, none :: _ => .fault .nullString
  | i, some a :: rest => if p a then .done (some i) else findArg p (i + 1) rest

/-- `get_param_idx`; a negative result is `none`. -/
def getParamIdx (st : Dpdk) (param : Arg) : Run (Option ℕ) := findArg (isOpt param) 0 st.strings

/-- The options that say which cores are used. -/
def isCorelist (a : Arg) : Bool :=
  isOpt optBindCorelist a || isOpt "--lcores".toList a || isOpt "-c".toList a ||
    isOpt "-s".toList a || isOpt "-S".toList a

/-- `foundcorelist_arg`. -/
def haveCorelistArg (st : Dpdk) : Run Bool :=
  (findArg isCorelist 0 st.strings).bind fun idx => .done idx.isSome

/-! ## The configuration -/

/-- The settings that are used, and the outcome of what is done with their texts. -/
structure Config where
  /-- `use_ltran`. -/
  useLtran : Bool
  /-- `dpdk_args`: an element is `none` if it is not a string. -/
  dpdkArgs : Option Args
  /-- `seperate_send_recv`, unless it is refused. -/
  seperateSendRecv : Option Bool
  /-- `num_cpus`, if it is a string. -/
  numCpus : Option Arg
  /-- `send_num_cpus`, if it is a string. -/
  sendNumCpus : Option Arg
  /-- `recv_num_cpus`, if it is a string. -/
  recvNumCpus : Option Arg
  /-- The numbers of cores are accepted. -/
  cpusOk : Bool
  /-- `gazelle_parse_socket_mem` accepts its string. -/
  socketMemOk : Bool
  /-- `gazelle_parse_base_virtaddr` accepts its string. -/
  virtaddrOk : Bool
  /-- The process id, as a text. -/
  pid : Arg

/-- The string at an index. -/
def argAt (v : Args) (i : ℕ) : Option Arg := (v[i]?).join

/-- The file prefix that `turn_args_to_config` stores, unless it is refused: `%s` prints `NULL` as a
text. -/
def storedPrefix (cfg : Config) (v : Args) (idx : Option ℕ) : Option Arg :=
  match idx with
  | none => some ("gazelle_".toList ++ cfg.pid)
  | some k =>
    if k + 1 ≥ v.length then none
    else if ((argAt v (k + 1)).getD "(null)".toList).length < pathMax then
      some ((argAt v (k + 1)).getD "(null)".toList)
    else none

/-- `turn_args_to_config` goes on after `--socket-mem`. -/
def socketMemPasses (cfg : Config) (v : Args) (idx : Option ℕ) : Bool :=
  match idx with
  | none => !cfg.useLtran
  | some k =>
    if k + 1 ≥ v.length then !cfg.useLtran else (argAt v (k + 1)).isSome && cfg.socketMemOk

/-- `turn_args_to_config` from `--base-virtaddr` on. -/
def virtaddrRun (cfg : Config) (st : Dpdk) (idx : Option ℕ) : Run Dpdk :=
  match idx with
  | none => .done st
  | some k =>
    if k + 1 ≥ st.argc then .done st
    else if (argAt st.strings (k + 1)).isNone then .fault .nullElsewhere
    else if cfg.virtaddrOk then .done st else .refused

/-- `turn_args_to_config`. -/
def turnArgsToConfig (cfg : Config) (st : Dpdk) : Run Dpdk :=
  (getParamIdx st optFilePrefix).bind fun idx =>
    match storedPrefix cfg st.strings idx with
    | none => .refused
    | some filePrefix =>
      (getParamIdx st optSocketMem).bind fun idx =>
        if socketMemPasses cfg st.strings idx then
          (getParamIdx st optBaseVirtaddr).bind fun idx =>
            virtaddrRun cfg { st with filePrefix } idx
        else .refused

/-- The elements of the setting are stored from index `1 + i` on. -/
def fillArgs : ℕ → Args → Dpdk → Run Dpdk
  | _, [], st => .done st
  | i, none :: rest, st => fillArgs (i + 1) rest st
  | i, some arg :: rest, st => (st.store (1 + i) (some arg)).bind (fillArgs (i + 1) rest)

/-- `parse_dpdk_args`. -/
def parseDpdkArgs (cfg : Config) : Run Dpdk :=
  match cfg.dpdkArgs with
  | none => .refused
  | some args =>
    (Dpdk.start.setArgc args.length).bind fun st =>
      if st.argc ≤ 0 ∨ st.argc ≥ maxRegArgs then .refused
      else
        (st.store 0 (some "lstack".toList)).bind fun st =>
          (fillArgs 0 args st).bind fun st =>
            (st.setArgc (st.argc + 1)).bind (turnArgsToConfig cfg)

/-- `-l` and the list of cores are appended, unless there is an option for the cores. -/
def addCorelist (st : Dpdk) (args : Arg) : Run Dpdk :=
  (haveCorelistArg st).bind fun found =>
    if found then .done st
    else
      (getParamIdx st optBindCorelist).bind fun idx =>
        if idx.isSome then .done st
        else (st.push (some optBindCorelist)).bind fun st => st.push (some args)

/-- `parse_stack_cpu_number`. -/
def parseStackCpuNumber (cfg : Config) (seperate : Bool) (st : Dpdk) : Run Dpdk :=
  if seperate = false then
    match cfg.numCpus with
    | none => .refused
    | some args =>
      (addCorelist st args).bind fun st => if cfg.cpusOk then .done st else .refused
  else
    match cfg.sendNumCpus with
    | none => .refused
    | some args =>
      (addCorelist st args).bind fun st =>
        match cfg.recvNumCpus with
        | none => .refused
        | some args =>
          (addCorelist st args).bind fun st => if cfg.cpusOk then .done st else .refused

/-- The parts of `parse_conf_file` that use the vector. -/
def parseConfFile (cfg : Config) : Run Dpdk :=
  (parseDpdkArgs cfg).bind fun st =>
    match cfg.seperateSendRecv with
    | none => .refused
    | some seperate => parseStackCpuNumber cfg seperate st

/-! ## Calls after the configuration has been parsed -/

/-- `parse_param`. -/
def parseParam (st : Dpdk) (param : Arg) : Run Dpdk :=
  if st.argc ≥ maxRegArgs then .refused else st.push (some param)

/-- `argv[i] = dpdk_argv[i];` for all strings, from index `i` on. -/
def copyArgv : ℕ → Args → Run Args
  | _, [] => .done []
  | i, x :: rest =>
    if i < maxRegArgs then (copyArgv (i + 1) rest).bind fun argv => .done (x :: argv)
    else .fault .outOfBounds

/-- The first part of `gazelle_param_init`. -/
def initPrefix (st : Dpdk) (idx : Option ℕ) : Run Dpdk :=
  match idx with
  | some _ => .done st
  | none => (parseParam st optFilePrefix).bind fun st => parseParam st st.filePrefix

/-- The second part of `gazelle_param_init`. -/
def initVirtaddr (virtaddr : Arg) (st : Dpdk) (idx : Option ℕ) : Run Dpdk :=
  match idx with
  | none => (parseParam st optBaseVirtaddr).bind fun st => parseParam st virtaddr
  | some k => if k + 1 ≥ st.argc then .refused else st.store (k + 1) (some virtaddr)

/-- `gazelle_param_init`: the vector, and the vector of the caller. `print_dpdk_param` inspects all
strings. -/
def gazelleParamInit (st : Dpdk) (virtaddr : Arg) : Run (Dpdk × Args) :=
  (getParamIdx st optFilePrefix).bind fun idx =>
    (initPrefix st idx).bind fun st =>
      (getParamIdx st optBaseVirtaddr).bind fun idx =>
        (initVirtaddr virtaddr st idx).bind fun st =>
          if none ∈ st.strings then .fault .nullElsewhere
          else (copyArgv 0 st.strings).bind fun argv => .done (st, argv)

/-- `strcpy_s(argv[i], PATH_MAX, src)`: whether it succeeds. -/
def strcpyS (i : ℕ) (src : Option Arg) : Run Bool :=
  if i < maxRegArgs then .done (src.any fun s => s.length < pathMax) else .fault .outOfBounds

/-- What `gazelle_copy_param` returns and stores. -/
structure CopyOut where
  /-- 0 is returned. -/
  ok : Bool
  /-- `*argc`. -/
  argc : ℕ

/-- `gazelle_copy_param`. -/
def gazelleCopyParam (st : Dpdk) (param : Arg) (isDouble : Bool) (argc : ℕ) : Run CopyOut :=
  (getParamIdx st param).bind fun idx =>
    match idx with
    | none => .done ⟨false, argc⟩
    | some k =>
      if argc ≥ maxRegArgs then .done ⟨false, argc⟩
      else
        (strcpyS argc (argAt st.strings k)).bind fun ok =>
          if ok = false then .done ⟨false, argc⟩
          else if isDouble = false then .done ⟨true, argc + 1⟩
          else if k + 1 ≥ st.argc ∨ argc + 1 ≥ maxRegArgs then .done ⟨false, argc⟩
          else
            (strcpyS (argc + 1) (argAt st.strings (k + 1))).bind fun ok =>
              if ok = false then .done ⟨false, argc⟩ else .done ⟨true, argc + 2⟩

/-- A call. -/
inductive Call
  /-- `gazelle_param_init`, with the base address as a text. -/
  | paramInit (virtaddr : Arg)
  /-- `gazelle_copy_param`, with the value of `*argc`. -/
  | copyParam (param : Arg) (isDouble : Bool) (argc : ℕ)

/-- The vector after a call. -/
def Call.apply (call : Call) (st : Dpdk) : Run Dpdk :=
  match call with
  | paramInit virtaddr => (gazelleParamInit st virtaddr).bind fun out => .done out.1
  | copyParam param isDouble argc =>
    (gazelleCopyParam st param isDouble argc).bind fun _ => .done st

/-- Several calls. -/
def runCalls : List Call → Dpdk → Run Dpdk
  | [], st => .done st
  | call :: calls, st => (call.apply st).bind (runCalls calls)

/-- The configuration is parsed, and calls follow. -/
def run (cfg : Config) (calls : List Call) : Run Dpdk := (parseConfFile cfg).bind (runCalls calls)

/-! ## Which lookups inspect a hole -/

/-- Before every hole is a string with the property. -/
def Sees (p : Arg → Bool) (v : Args) : Prop :=
  ∀ before after, v = before ++ none :: after → ∃ a, some a ∈ before ∧ p a = true

/-- The index of the first string with the property. -/
def firstMatch (p : Arg → Bool) (v : Args) : Option ℕ := v.findIdx? fun x => x.any p

section Lookup

variable {p : Arg → Bool} {v : Args}

theorem not_sees_none (p : Arg → Bool) (v : Args) : ¬ Sees p (none :: v) := by
  intro h
  obtain ⟨a, ha, -⟩ := h [] v rfl
  exact absurd ha (by simp)

theorem sees_some_iff (a : Arg) : Sees p (some a :: v) ↔ p a = true ∨ Sees p v := by
  constructor
  · intro h
    by_cases hp : p a = true
    · exact .inl hp
    · right
      rintro before after rfl
      obtain ⟨b, hb, hpb⟩ := h (some a :: before) after rfl
      rcases List.mem_cons.1 hb with heq | hb
      · obtain rfl := Option.some.inj heq
        exact absurd hpb hp
      · exact ⟨b, hb, hpb⟩
  · intro h before after heq
    cases before with
    | nil => exact absurd (List.cons.inj heq).1 (by simp)
    | cons x before =>
      obtain ⟨rfl, htail⟩ := List.cons.inj heq
      rcases h with hp | h
      · exact ⟨a, List.mem_cons_self, hp⟩
      · obtain ⟨b, hb, hpb⟩ := h before after htail
        exact ⟨b, List.mem_cons_of_mem _ hb, hpb⟩

/-- Without holes every lookup is fine. -/
theorem sees_of_notMem (p : Arg → Bool) (h : none ∉ v) : Sees p v := by
  rintro before after rfl
  exact absurd (by simp) h

/-- A lookup that inspects no hole finds the first match. -/
theorem findArg_of_sees (h : Sees p v) (i : ℕ) :
    findArg p i v = .done ((firstMatch p v).map (· + i)) := by
  induction v generalizing i with
  | nil => rfl
  | cons x v ih =>
    cases x with
    | none => exact absurd h (not_sees_none p v)
    | some a =>
      rw [findArg, firstMatch, List.findIdx?_cons]
      by_cases hp : p a = true
      · rw [if_pos hp, if_pos (by exact hp), Option.map_some, Nat.zero_add]
      · rw [if_neg hp, if_neg (by exact hp), ih (((sees_some_iff a).1 h).resolve_left hp),
          Option.map_map]
        congr 1
        refine Option.map_congr fun k _ => ?_
        show k + (i + 1) = k + 1 + i
        omega

/-- A lookup inspects a hole unless there is a match before every hole. -/
theorem safe_findArg_iff (i : ℕ) : (findArg p i v).Safe ↔ Sees p v := by
  constructor
  · intro h
    induction v generalizing i with
    | nil => exact sees_of_notMem p (by simp)
    | cons x v ih =>
      cases x with
      | none => exact absurd (h .nullString rfl) (by decide)
      | some a =>
        rw [sees_some_iff]
        by_cases hp : p a = true
        · exact .inl hp
        · rw [findArg, if_neg hp] at h
          exact .inr (ih (i + 1) h)
  · intro h
    rw [findArg_of_sees h]
    exact Run.safe_done _

/-- If a lookup inspects everything and finds nothing, there is no hole. -/
theorem notMem_of_sees (h : Sees p v) (hnone : firstMatch p v = none) : none ∉ v := by
  intro hmem
  obtain ⟨before, after, rfl⟩ := List.append_of_mem hmem
  obtain ⟨a, ha, hp⟩ := h before after rfl
  rw [firstMatch, List.findIdx?_eq_none_iff] at hnone
  have hfalse := hnone (some a) (List.mem_append_left _ ha)
  rw [Option.any_some, hp] at hfalse
  exact absurd hfalse (by decide)

variable {st : Dpdk}

theorem safe_getParamIdx_iff (st : Dpdk) (param : Arg) :
    (getParamIdx st param).Safe ↔ Sees (isOpt param) st.strings :=
  safe_findArg_iff 0

theorem getParamIdx_of_sees {param : Arg} (h : Sees (isOpt param) st.strings) :
    getParamIdx st param = .done (firstMatch (isOpt param) st.strings) := by
  rw [getParamIdx, findArg_of_sees h]
  cases firstMatch (isOpt param) st.strings <;> rfl

/-- A function that starts with a lookup. -/
theorem safe_getParamIdx_bind_iff {β : Type} (st : Dpdk) (param : Arg) (k : Option ℕ → Run β) :
    ((getParamIdx st param).bind k).Safe ↔ Sees (isOpt param) st.strings ∧
      (k (firstMatch (isOpt param) st.strings)).Safe := by
  rw [Run.safe_bind_iff, safe_getParamIdx_iff]
  refine and_congr_right fun h => ?_
  rw [getParamIdx_of_sees h]
  constructor
  · exact fun hk => hk _ rfl
  · rintro hk idx heq
    obtain rfl := Run.done.inj heq
    exact hk

end Lookup

/-! ## Writes into the vector -/

namespace Dpdk

variable {st : Dpdk}

theorem length_strings (st : Dpdk) : st.strings.length = st.argc := by
  have hle := st.argc_le
  rw [strings, List.length_take, st.argv_length]
  omega

/-- A string is appended when there is room. -/
theorem push_of_lt (h : st.argc < maxRegArgs) (x : Option Arg) :
    ∃ st', st.push x = .done st' ∧ st'.strings = st.strings ++ [x] ∧
      st'.filePrefix = st.filePrefix := by
  have hnext : st.argc + 1 ≤ maxRegArgs := h
  have hlt : st.argc < (st.argv.set st.argc x).length := by
    rw [List.length_set, st.argv_length]
    exact h
  rw [push, store, if_pos h, Run.bind_done, setArgc]
  dsimp only
  rw [dif_pos hnext]
  refine ⟨_, rfl, ?_, rfl⟩
  show (st.argv.set st.argc x).take (st.argc + 1) = st.argv.take st.argc ++ [x]
  rw [List.take_add_one, List.take_set_of_le (Nat.le_refl _), List.getElem?_eq_getElem hlt,
    List.getElem_set_self]
  rfl

/-- Without room the write is out of bounds. -/
theorem push_of_not_lt (h : ¬ st.argc < maxRegArgs) (x : Option Arg) :
    st.push x = .fault .outOfBounds := by
  rw [push, store, if_neg h]
  rfl

end Dpdk

/-- The elements are stored one after another. -/
theorem fillArgs_eq (args : Args) (i : ℕ) (st : Dpdk) (filled : Args) (k : ℕ)
    (hargv : st.argv = filled ++ List.replicate k none) (hfilled : filled.length = 1 + i)
    (hk : args.length ≤ k) :
    ∃ st', fillArgs i args st = .done st' ∧ st'.argc = st.argc ∧
      st'.argv = filled ++ args ++ List.replicate (k - args.length) none := by
  induction args generalizing i st filled k with
  | nil =>
    refine ⟨st, rfl, rfl, ?_⟩
    rw [List.append_nil]
    exact hargv
  | cons x rest ih =>
    rw [List.length_cons] at hk
    obtain ⟨k, rfl⟩ := Nat.exists_eq_add_one_of_ne_zero (n := k) (by omega)
    have hlast : ∀ y : Option Arg, (filled ++ [y]).length = 1 + (i + 1) := by
      intro y
      rw [List.length_append, List.length_singleton, hfilled]
      omega
    -- one place less is left for the rest
    have hsub : k + 1 - (rest.length + 1) = k - rest.length := by omega
    rw [List.length_cons, hsub]
    cases x with
    | none =>
      -- a hole is passed over and stays one
      rw [List.replicate_succ, List.append_cons] at hargv
      obtain ⟨st', hfill, hargc, hargv'⟩ := ih (i + 1) st (filled ++ [none]) k hargv (hlast _)
        (by omega)
      refine ⟨st', hfill, hargc, ?_⟩
      rw [hargv', List.append_assoc, List.append_assoc, List.append_assoc]
      rfl
    | some arg =>
      have hlen := st.argv_length
      rw [hargv, List.length_append, List.length_replicate, hfilled] at hlen
      -- the place is inside of the array
      have hlt : 1 + i < maxRegArgs := by omega
      rw [fillArgs, Dpdk.store, if_pos hlt, Run.bind_done]
      have hset : st.argv.set (1 + i) (some arg) =
          (filled ++ [some arg]) ++ List.replicate k none := by
        rw [hargv, List.set_append_right _ _ (by omega), hfilled, Nat.sub_self,
          List.replicate_succ, List.set_cons_zero, List.append_cons]
      obtain ⟨st', hfill, hargc, hargv'⟩ := ih (i + 1)
        { st with argv := st.argv.set (1 + i) (some arg),
                  argv_length := by rw [List.length_set, st.argv_length] }
        (filled ++ [some arg]) k hset (hlast _) (by omega)
      refine ⟨st', hfill, hargc, ?_⟩
      rw [hargv', List.append_assoc, List.append_assoc, List.append_assoc]
      rfl

/-- The vector of a setting. -/
def vectorOf (args : Args) : Args := some "lstack".toList :: args

/-- A setting of a fitting length is stored, and its options are looked at. -/
theorem parseDpdkArgs_eq {cfg : Config} {args : Args} (hargs : cfg.dpdkArgs = some args)
    (hpos : 1 ≤ args.length) (hlt : args.length < maxRegArgs) :
    ∃ st : Dpdk, st.strings = vectorOf args ∧ parseDpdkArgs cfg = turnArgsToConfig cfg st := by
  have hargc : args.length ≤ maxRegArgs := Nat.le_of_lt hlt
  have hnot : ¬ (args.length ≤ 0 ∨ args.length ≥ maxRegArgs) := by omega
  have hzero : 0 < maxRegArgs := by decide
  rw [parseDpdkArgs, hargs]
  simp only [Dpdk.setArgc, dif_pos hargc, Run.bind_done, if_neg hnot, Dpdk.store, if_pos hzero]
  obtain ⟨st', hfill, hargc', hargv⟩ := fillArgs_eq args 0
    { Dpdk.start with
      argc := args.length, argv := Dpdk.start.argv.set 0 (some "lstack".toList),
      argv_length := by rw [List.length_set, Dpdk.start.argv_length], argc_le := hargc }
    [some "lstack".toList] 31 rfl rfl (by unfold maxRegArgs at hlt; omega)
  have hnext : st'.argc + 1 ≤ maxRegArgs := by rw [hargc']; exact hlt
  rw [hfill, Run.bind_done, dif_pos hnext]
  refine ⟨{ st' with argc := st'.argc + 1, argc_le := hnext }, ?_, rfl⟩
  show st'.argv.take (st'.argc + 1) = _
  have hlen : ([some "lstack".toList] ++ args : Args).length = st'.argc + 1 := by
    rw [hargc', List.length_append, List.length_singleton]
    exact Nat.add_comm _ _
  rw [hargv, ← hlen, List.take_left]
  rfl

/-- A setting of another length is refused, but its length is stored in `dpdk_argc` before. -/
theorem parseDpdkArgs_of_length {cfg : Config} {args : Args} (hargs : cfg.dpdkArgs = some args)
    (hlen : args.length = 0 ∨ maxRegArgs ≤ args.length) :
    parseDpdkArgs cfg = if args.length ≤ maxRegArgs then .refused else .fault .argcTooBig := by
  rw [parseDpdkArgs, hargs]
  by_cases hle : args.length ≤ maxRegArgs
  · have hrefused : args.length ≤ 0 ∨ args.length ≥ maxRegArgs := by omega
    simp only [Dpdk.setArgc, dif_pos hle, Run.bind_done, if_pos hrefused, if_pos hle]
  · simp only [Dpdk.setArgc, dif_neg hle, Run.bind_fault, if_neg hle]

/-! ## When the functions are safe -/

/-- `turn_args_to_config` goes on after `--base-virtaddr`. -/
def virtaddrPasses (cfg : Config) (v : Args) (idx : Option ℕ) : Bool :=
  match idx with
  | none => true
  | some k => k + 1 ≥ v.length || (argAt v (k + 1)).isSome && cfg.virtaddrOk

/-- The lookups of `turn_args_to_config` that are reached find their options before every hole. -/
def TurnFine (cfg : Config) (v : Args) : Prop :=
  Sees (isOpt optFilePrefix) v ∧
    ((storedPrefix cfg v (firstMatch (isOpt optFilePrefix) v)).isSome →
      Sees (isOpt optSocketMem) v ∧
        (socketMemPasses cfg v (firstMatch (isOpt optSocketMem) v) →
          Sees (isOpt optBaseVirtaddr) v))

/-- `turn_args_to_config` accepts its options. -/
def TurnPasses (cfg : Config) (v : Args) : Prop :=
  (storedPrefix cfg v (firstMatch (isOpt optFilePrefix) v)).isSome ∧
    socketMemPasses cfg v (firstMatch (isOpt optSocketMem) v) ∧
    virtaddrPasses cfg v (firstMatch (isOpt optBaseVirtaddr) v)

/-- The lookups of some calls find their options before every hole; after `gazelle_param_init` there
is no hole. -/
def CallsFine (v : Args) : List Call → Prop
  | [] => True
  | .copyParam param _ _ :: calls => Sees (isOpt param) v ∧ CallsFine v calls
  | .paramInit _ :: _ => Sees (isOpt optFilePrefix) v ∧ Sees (isOpt optBaseVirtaddr) v

/-- The cores that are appended: `num_cpus` or `send_num_cpus`. -/
def coreSetting (cfg : Config) (seperate : Bool) : Option Arg :=
  if seperate = false then cfg.numCpus else cfg.sendNumCpus

/-- `parse_stack_cpu_number` accepts its settings. -/
def CpusPass (cfg : Config) (seperate : Bool) : Prop :=
  (coreSetting cfg seperate).isSome ∧ (seperate = true → cfg.recvNumCpus.isSome) ∧
    cfg.cpusOk = true

/-- An option for the cores is found before every hole, or there is none and room for two more
strings. -/
def CoresFine (v : Args) : Prop :=
  Sees isCorelist v ∧ (firstMatch isCorelist v = none → v.length + 2 ≤ maxRegArgs)

/-- What is needed after a setting `dpdk_args` of a fitting length is stored. -/
def VectorFine (cfg : Config) (v : Args) (calls : List Call) : Prop :=
  TurnFine cfg v ∧
    (TurnPasses cfg v → ∀ seperate, cfg.seperateSendRecv = some seperate →
      ((coreSetting cfg seperate).isSome → CoresFine v) ∧
        (CpusPass cfg seperate → CallsFine v calls))

/-- When nothing goes wrong. -/
def Fine (cfg : Config) (calls : List Call) : Prop :=
  ∀ args, cfg.dpdkArgs = some args → args.length ≤ maxRegArgs ∧
    (1 ≤ args.length → args.length < maxRegArgs → VectorFine cfg (vectorOf args) calls)

section Functions

variable {cfg : Config} {st : Dpdk}

theorem virtaddrRun_spec (cfg : Config) (st : Dpdk) (idx : Option ℕ) :
    (virtaddrRun cfg st idx).Safe ∧
      ((virtaddrPasses cfg st.strings idx = true ∧ virtaddrRun cfg st idx = .done st) ∨
        (virtaddrPasses cfg st.strings idx = false ∧
          ∀ st', virtaddrRun cfg st idx ≠ .done st')) := by
  cases idx with
  | none => exact ⟨Run.safe_done _, .inl ⟨rfl, rfl⟩⟩
  | some k =>
    rw [virtaddrRun, virtaddrPasses, st.length_strings]
    by_cases hlast : k + 1 ≥ st.argc
    · simp [hlast]
    · cases harg : argAt st.strings (k + 1) with
      | none => simp [hlast]
      | some arg => cases hok : cfg.virtaddrOk <;> simp [hlast]

/-- `turn_args_to_config` keeps the strings. -/
theorem turnArgsToConfig_spec (cfg : Config) (st : Dpdk) :
    ((turnArgsToConfig cfg st).Safe ↔ TurnFine cfg st.strings) ∧
      (TurnFine cfg st.strings →
        (TurnPasses cfg st.strings ∧
          ∃ st', turnArgsToConfig cfg st = .done st' ∧ st'.strings = st.strings) ∨
        (¬ TurnPasses cfg st.strings ∧ ∀ st', turnArgsToConfig cfg st ≠ .done st')) := by
  unfold turnArgsToConfig TurnFine TurnPasses
  rw [safe_getParamIdx_bind_iff]
  -- without a prefix the call ends here, with one it goes on to `--socket-mem`
  cases hprefix : storedPrefix cfg st.strings (firstMatch (isOpt optFilePrefix) st.strings) with
  | none =>
    refine ⟨by simp, fun hfine => .inr ⟨by simp, ?_⟩⟩
    rw [getParamIdx_of_sees hfine.1, Run.bind_done, hprefix]
    simp
  | some filePrefix =>
    simp only [Option.isSome_some, true_imp_iff, true_and, safe_getParamIdx_bind_iff]
    cases hmem : socketMemPasses cfg st.strings (firstMatch (isOpt optSocketMem) st.strings) with
    | false =>
      -- that option cannot be stored
      refine ⟨by simp, fun hfine => .inr ⟨by simp, ?_⟩⟩
      rw [getParamIdx_of_sees hfine.1, Run.bind_done, hprefix]
      dsimp only
      rw [getParamIdx_of_sees hfine.2.1, Run.bind_done, hmem]
      simp
    | true =>
      -- the last step is `--base-virtaddr`, which has a lemma of its own
      have hvirt := virtaddrRun_spec cfg { st with filePrefix }
        (firstMatch (isOpt optBaseVirtaddr) st.strings)
      simp only [if_true, safe_getParamIdx_bind_iff, true_imp_iff, true_and]
      refine ⟨by rw [and_iff_left hvirt.1], fun hfine => ?_⟩
      rw [getParamIdx_of_sees hfine.1, Run.bind_done, hprefix]
      dsimp only
      rw [getParamIdx_of_sees hfine.2.1, Run.bind_done, hmem, if_pos rfl,
        getParamIdx_of_sees hfine.2.2, Run.bind_done]
      rcases hvirt.2 with ⟨hpass, hdone⟩ | ⟨hpass, hnot⟩
      · exact .inl ⟨hpass, _, hdone, rfl⟩
      · refine .inr ⟨?_, hnot⟩
        intro hpass'
        exact absurd (hpass.symm.trans hpass') (by decide)

/-- What is left of the vector after an option for the cores is looked for: it is there, or there
is no hole. -/
def Kept (v w : Args) : Prop := w = v ∧ firstMatch isCorelist v ≠ none ∨ none ∉ v ∧ none ∉ w

/-- The list of cores is appended where there is no hole. -/
theorem addCorelist_spec (st : Dpdk) (args : Arg) :
    ((addCorelist st args).Safe ↔ CoresFine st.strings) ∧
      (CoresFine st.strings → ∃ st', addCorelist st args = .done st' ∧
        Kept st.strings st'.strings ∧ CoresFine st'.strings) := by
  unfold addCorelist haveCorelistArg CoresFine
  -- whether an option for the cores is there
  rw [Run.safe_bind_iff, Run.safe_bind_iff, safe_findArg_iff]
  -- the search stops before a hole, or follows one
  by_cases hsees : Sees isCorelist st.strings
  swap
  · exact ⟨⟨fun h => absurd h.1.1 hsees, fun h => absurd h.1 hsees⟩, fun h => absurd h.1 hsees⟩
  rw [findArg_of_sees hsees]
  -- an option for the cores is there and nothing is written
  cases hmatch : firstMatch isCorelist st.strings with
  | some k =>
    refine ⟨by simp [hsees], fun _ => ⟨st, rfl, .inl ⟨rfl, by simp [hmatch]⟩, hsees, ?_⟩⟩
    rw [hmatch]
    exact fun h => absurd h (by simp)
  | none =>
    -- none is there, so no hole is before the end either
    have hhole := notMem_of_sees hsees hmatch
    have hlookup : getParamIdx st optBindCorelist = _ :=
      getParamIdx_of_sees (sees_of_notMem (isOpt optBindCorelist) hhole)
    have hnone : firstMatch (isOpt optBindCorelist) st.strings = none := by
      -- what does not match any of the options does not match this one
      rw [firstMatch, List.findIdx?_eq_none_iff] at hmatch ⊢
      intro x hx
      have hfalse := hmatch x hx
      cases x with
      | none => rfl
      | some a =>
        simp only [Option.any_some, isCorelist, Bool.or_eq_false_iff] at hfalse ⊢
        exact hfalse.1.1.1.1
    rw [hnone] at hlookup
    simp only [Option.map_none, Run.bind_done, Option.isSome_none, Bool.false_eq_true, if_false,
      hlookup, Run.safe_done, true_and, Run.done.injEq, forall_eq', hsees, true_imp_iff,
      implies_true]
    -- two places are left for the option and its list
    by_cases hroom : st.strings.length + 2 ≤ maxRegArgs
    · rw [st.length_strings] at hroom
      obtain ⟨st₁, hpush₁, hstrings₁, -⟩ := st.push_of_lt (by omega) (some optBindCorelist)
      have hargc₁ : st₁.argc = st.argc + 1 := by
        rw [← st₁.length_strings, hstrings₁, List.length_append, st.length_strings]
        rfl
      obtain ⟨st₂, hpush₂, hstrings₂, -⟩ := st₁.push_of_lt (by omega) (some args)
      rw [hstrings₁] at hstrings₂
      have hhole₂ : none ∉ st₂.strings := by
        rw [hstrings₂]
        simpa using hhole
      rw [hpush₁, Run.bind_done, hpush₂]
      refine ⟨by simp [st.length_strings, hroom], fun _ => ⟨st₂, rfl, .inr ⟨hhole, hhole₂⟩,
        sees_of_notMem _ hhole₂, ?_⟩⟩
      -- afterwards the option is there
      intro hnot
      rw [firstMatch, List.findIdx?_eq_none_iff, hstrings₂] at hnot
      have hopt := hnot (some optBindCorelist) (by simp)
      exact absurd hopt (by decide)
    · -- the option or its list is stored behind the array
      rw [st.length_strings] at hroom
      refine ⟨?_, fun h => absurd h (by rw [st.length_strings]; exact hroom)⟩
      rw [st.length_strings]
      refine iff_of_false ?_ hroom
      by_cases hfirst : st.argc < maxRegArgs
      · obtain ⟨st₁, hpush₁, hstrings₁, -⟩ := st.push_of_lt hfirst (some optBindCorelist)
        have hargc₁ : st₁.argc = st.argc + 1 := by
          rw [← st₁.length_strings, hstrings₁, List.length_append, st.length_strings]
          rfl
        rw [hpush₁, Run.bind_done, Dpdk.push_of_not_lt (by omega), Run.safe_fault]
        decide
      · rw [Dpdk.push_of_not_lt hfirst, Run.bind_fault, Run.safe_fault]
        decide

/-- `parse_stack_cpu_number` is safe if the first list of cores can be appended. -/
theorem parseStackCpuNumber_spec (cfg : Config) (seperate : Bool) (st : Dpdk) :
    ((parseStackCpuNumber cfg seperate st).Safe ↔
      ((coreSetting cfg seperate).isSome → CoresFine st.strings)) ∧
      (((coreSetting cfg seperate).isSome → CoresFine st.strings) →
        (CpusPass cfg seperate ∧ ∃ st', parseStackCpuNumber cfg seperate st = .done st' ∧
          Kept st.strings st'.strings) ∨
        (¬ CpusPass cfg seperate ∧ ∀ st', parseStackCpuNumber cfg seperate st ≠ .done st')) := by
  unfold parseStackCpuNumber CpusPass coreSetting
  cases seperate with
  | false =>
    simp only [if_true, Bool.false_eq_true, false_imp_iff, true_and]
    cases cfg.numCpus with
    | none => simp
    | some args =>
      obtain ⟨hiff, hdone⟩ := addCorelist_spec st args
      simp only [Option.isSome_some, true_imp_iff, true_and]
      rw [Run.safe_bind_iff, hiff]
      refine ⟨and_iff_left_of_imp fun _ st' _ => by split <;> simp, fun hfine => ?_⟩
      obtain ⟨st', hadd, hkept, -⟩ := hdone hfine
      rw [hadd, Run.bind_done]
      cases cfg.cpusOk with
      | false => exact .inr ⟨by decide, by simp⟩
      | true => exact .inl ⟨rfl, st', rfl, hkept⟩
  | true =>
    simp only [Bool.true_eq_false, if_false, true_imp_iff]
    cases cfg.sendNumCpus with
    | none => simp
    | some args =>
      obtain ⟨hiff, hdone⟩ := addCorelist_spec st args
      simp only [Option.isSome_some, true_imp_iff, true_and]
      rw [Run.safe_bind_iff, hiff]
      cases cfg.recvNumCpus with
      | none =>
        refine ⟨and_iff_left_of_imp fun _ st' _ => by simp, fun hfine => .inr ⟨by simp, ?_⟩⟩
        obtain ⟨st', hadd, -⟩ := hdone hfine
        rw [hadd]
        simp
      | some args' =>
        -- the second time the option is found, or there is still no hole
        constructor
        · refine and_iff_left_of_imp fun hfine st' hadd => ?_
          obtain ⟨st'', hadd', -, hfine'⟩ := hdone hfine
          obtain rfl := Run.done.inj (hadd.symm.trans hadd')
          obtain ⟨st₂, hadd₂, -⟩ := (addCorelist_spec st' args').2 hfine'
          dsimp only
          rw [hadd₂, Run.bind_done]
          split <;> simp
        · intro hfine
          obtain ⟨st', hadd, hkept, hfine'⟩ := hdone hfine
          obtain ⟨st₂, hadd₂, hkept₂, -⟩ := (addCorelist_spec st' args').2 hfine'
          rw [hadd, Run.bind_done]
          dsimp only
          rw [hadd₂, Run.bind_done]
          cases cfg.cpusOk with
          | false => exact .inr ⟨by simp, by simp⟩
          | true =>
            refine .inl ⟨by simp, st₂, rfl, ?_⟩
            rcases hkept with ⟨heq, hmatch⟩ | ⟨hhole, hhole'⟩
            · rwa [heq] at hkept₂
            · rcases hkept₂ with ⟨heq₂, -⟩ | ⟨-, hhole₂⟩
              · exact .inr ⟨hhole, heq₂ ▸ hhole'⟩
              · exact .inr ⟨hhole, hhole₂⟩

end Functions

/-! ## Runs -/

section Runs

variable {v w : Args}

/-- Without holes every call is fine. -/
theorem callsFine_of_notMem (h : none ∉ v) (calls : List Call) : CallsFine v calls := by
  induction calls with
  | nil => exact trivial
  | cons call calls ih =>
    cases call with
    | paramInit virtaddr => exact ⟨sees_of_notMem _ h, sees_of_notMem _ h⟩
    | copyParam param isDouble argc => exact ⟨sees_of_notMem _ h, ih⟩

theorem Kept.callsFine_iff (h : Kept v w) (calls : List Call) :
    CallsFine w calls ↔ CallsFine v calls := by
  rcases h with ⟨rfl, -⟩ | ⟨hv, hw⟩
  · exact Iff.rfl
  · exact iff_of_true (callsFine_of_notMem hw calls) (callsFine_of_notMem hv calls)

/-- `parse_param` appends if there is room. -/
theorem parseParam_spec (st : Dpdk) (param : Arg) :
    (parseParam st param).Safe ∧
      ∀ st', parseParam st param = .done st' → st'.strings = st.strings ++ [some param] := by
  unfold parseParam
  by_cases hfull : st.argc ≥ maxRegArgs
  · rw [if_pos hfull]
    exact ⟨Run.safe_refused, fun _ h => absurd h (by simp)⟩
  · rw [if_neg hfull]
    obtain ⟨st', hpush, hstrings, -⟩ := st.push_of_lt (by omega) (some param)
    rw [hpush]
    refine ⟨Run.safe_done _, fun st'' h => ?_⟩
    obtain rfl := Run.done.inj h
    exact hstrings

/-- Two strings are appended where there is no hole. -/
theorem parseParam_twice (st : Dpdk) (param : Arg) (next : Dpdk → Arg) (hhole : none ∉ st.strings) :
    ((parseParam st param).bind fun st => parseParam st (next st)).Safe ∧
      ∀ st', ((parseParam st param).bind fun st => parseParam st (next st)) = .done st' →
        none ∉ st'.strings := by
  obtain ⟨hsafe, hstrings⟩ := parseParam_spec st param
  rw [Run.safe_bind_iff]
  refine ⟨⟨hsafe, fun st₁ _ => (parseParam_spec st₁ _).1⟩, ?_⟩
  cases hfirst : parseParam st param with
  | done st₁ =>
    intro st' hdone
    rw [(parseParam_spec st₁ _).2 st' hdone, hstrings st₁ hfirst]
    simpa using hhole
  | refused => exact fun _ h => absurd h (by simp)
  | fault f => exact fun _ h => absurd h (by simp)

/-- The vector of the caller has room for all strings. -/
theorem copyArgv_eq (v : Args) (i : ℕ) (h : i + v.length ≤ maxRegArgs) :
    copyArgv i v = .done v := by
  induction v generalizing i with
  | nil => rfl
  | cons x v ih =>
    rw [List.length_cons] at h
    rw [copyArgv, if_pos (by omega), ih (i + 1) (by omega)]
    rfl

/-- The second part of `gazelle_param_init`. -/
theorem initVirtaddr_safe (virtaddr : Arg) (st : Dpdk)
    (hsees : Sees (isOpt optBaseVirtaddr) st.strings) :
    (initVirtaddr virtaddr st (firstMatch (isOpt optBaseVirtaddr) st.strings)).Safe := by
  unfold initVirtaddr
  cases hmatch : firstMatch (isOpt optBaseVirtaddr) st.strings with
  | none =>
    exact (parseParam_twice st optBaseVirtaddr (fun _ => virtaddr) (notMem_of_sees hsees hmatch)).1
  | some k =>
    dsimp only
    by_cases hlast : k + 1 ≥ st.argc
    · rw [if_pos hlast]
      exact Run.safe_refused
    · have hle := st.argc_le
      rw [if_neg hlast, Dpdk.store, if_pos (by omega)]
      exact Run.safe_done _

/-- `gazelle_param_init` is safe exactly if its lookups find their options before every hole; there
is no hole after it. -/
theorem gazelleParamInit_spec (st : Dpdk) (virtaddr : Arg) :
    ((gazelleParamInit st virtaddr).Safe ↔
      Sees (isOpt optFilePrefix) st.strings ∧ Sees (isOpt optBaseVirtaddr) st.strings) ∧
      ∀ out, gazelleParamInit st virtaddr = .done out → none ∉ out.1.strings := by
  -- the last part of the function, from `print_dpdk_param` on
  have hprint : ∀ st : Dpdk, (if none ∈ st.strings then .fault .nullElsewhere
      else (copyArgv 0 st.strings).bind fun argv => .done (st, argv) : Run (Dpdk × Args)) =
        if none ∈ st.strings then .fault .nullElsewhere else .done (st, st.strings) := by
    intro st
    have hlen := st.length_strings
    have hle := st.argc_le
    rw [copyArgv_eq _ _ (by omega)]
    rfl
  have hrest : ∀ st : Dpdk, Sees (isOpt optBaseVirtaddr) st.strings →
      ((initVirtaddr virtaddr st (firstMatch (isOpt optBaseVirtaddr) st.strings)).bind fun st =>
        if none ∈ st.strings then .fault .nullElsewhere
        else .done (st, st.strings) : Run (Dpdk × Args)).Safe := by
    intro st hsees
    rw [Run.safe_bind_iff]
    refine ⟨initVirtaddr_safe virtaddr st hsees, fun st' _ => ?_⟩
    split <;> simp
  unfold gazelleParamInit
  simp only [hprint]
  constructor
  · rw [safe_getParamIdx_bind_iff]
    refine and_congr_right fun hsees => ?_
    unfold initPrefix
    cases hmatch : firstMatch (isOpt optFilePrefix) st.strings with
    | some k =>
      dsimp only
      rw [Run.bind_done, safe_getParamIdx_bind_iff]
      exact and_iff_left_of_imp (hrest st)
    | none =>
      have hhole := notMem_of_sees hsees hmatch
      have htwice := parseParam_twice st optFilePrefix Dpdk.filePrefix hhole
      refine iff_of_true ?_ (sees_of_notMem _ hhole)
      rw [Run.safe_bind_iff]
      refine ⟨htwice.1, fun st' hdone => ?_⟩
      have hsees' := sees_of_notMem (isOpt optBaseVirtaddr) (htwice.2 st' hdone)
      rw [safe_getParamIdx_bind_iff]
      exact ⟨hsees', hrest st' hsees'⟩
  · -- only the last part returns
    have hdone : ∀ {α : Type} (r : Run α) (k : α → Run (Dpdk × Args)) (out : Dpdk × Args),
        r.bind k = .done out → ∃ a, k a = .done out := by
      intro α r k out h
      cases r with
      | done a => exact ⟨a, h⟩
      | refused => exact absurd h (by simp)
      | fault f => exact absurd h (by simp)
    intro out hout
    obtain ⟨idx, hout⟩ := hdone _ _ _ hout
    obtain ⟨st₁, hout⟩ := hdone _ _ _ hout
    obtain ⟨idx', hout⟩ := hdone _ _ _ hout
    obtain ⟨st₂, hout⟩ := hdone _ _ _ hout
    by_cases hhole : none ∈ st₂.strings
    · rw [if_pos hhole] at hout
      exact absurd hout (by simp)
    · rw [if_neg hhole] at hout
      obtain rfl := Run.done.inj hout
      exact hhole

theorem strcpyS_of_lt {i : ℕ} (h : i < maxRegArgs) (src : Option Arg) :
    ∃ ok, strcpyS i src = .done ok :=
  ⟨_, if_pos h⟩

/-- If its lookup inspects no hole, `gazelle_copy_param` returns, and changes `*argc` only if it
succeeds. -/
theorem gazelleCopyParam_of_sees {st : Dpdk} {param : Arg} (hsees : Sees (isOpt param) st.strings)
    (isDouble : Bool) (argc : ℕ) :
    ∃ out, gazelleCopyParam st param isDouble argc = .done out ∧
      (out.ok = false → out.argc = argc) := by
  unfold gazelleCopyParam
  rw [getParamIdx_of_sees hsees, Run.bind_done]
  cases firstMatch (isOpt param) st.strings with
  -- the option is not among the strings, so nothing is copied
  | none => exact ⟨_, rfl, fun _ => rfl⟩
  | some k =>
    dsimp only
    -- `argv` has no entry for it
    by_cases hfull : argc ≥ maxRegArgs
    · rw [if_pos hfull]
      exact ⟨_, rfl, fun _ => rfl⟩
    obtain ⟨ok, hcopy⟩ := strcpyS_of_lt (Nat.lt_of_not_ge hfull) (argAt st.strings k)
    rw [if_neg hfull, hcopy, Run.bind_done]
    by_cases hok : ok = false
    · rw [if_pos hok]
      exact ⟨_, rfl, fun _ => rfl⟩
    rw [if_neg hok]
    -- an option without a value is one string
    by_cases hsingle : isDouble = false
    · rw [if_pos hsingle]
      exact ⟨_, rfl, fun hfail => absurd hfail (by simp)⟩
    rw [if_neg hsingle]
    -- of one with a value both strings need an entry
    by_cases hroom : k + 1 ≥ st.argc ∨ argc + 1 ≥ maxRegArgs
    · rw [if_pos hroom]
      exact ⟨_, rfl, fun _ => rfl⟩
    obtain ⟨ok', hcopy'⟩ := strcpyS_of_lt (Nat.lt_of_not_ge (not_or.1 hroom).2)
      (argAt st.strings (k + 1))
    rw [if_neg hroom, hcopy', Run.bind_done]
    by_cases hok' : ok' = false
    · rw [if_pos hok']
      exact ⟨_, rfl, fun _ => rfl⟩
    · rw [if_neg hok']
      exact ⟨_, rfl, fun hfail => absurd hfail (by simp)⟩

/-- It returns only if its lookup inspects no hole. -/
theorem sees_of_gazelleCopyParam {st : Dpdk} {param : Arg} {isDouble : Bool} {argc : ℕ}
    (h : (gazelleCopyParam st param isDouble argc).Safe) : Sees (isOpt param) st.strings := by
  unfold gazelleCopyParam at h
  rw [safe_getParamIdx_bind_iff] at h
  exact h.1

/-- `gazelle_copy_param` changes `*argc` only if it succeeds. -/
theorem gazelleCopyParam_argc {st : Dpdk} {param : Arg} {isDouble : Bool} {argc : ℕ} {out : CopyOut}
    (hout : gazelleCopyParam st param isDouble argc = .done out) (hfail : out.ok = false) :
    out.argc = argc := by
  have hsees := sees_of_gazelleCopyParam (hout ▸ Run.safe_done out)
  obtain ⟨out', hout', hargc⟩ := gazelleCopyParam_of_sees hsees isDouble argc
  obtain rfl := Run.done.inj (hout.symm.trans hout')
  exact hargc hfail

/-- Calls are safe exactly if their lookups find their options before every hole. -/
theorem safe_runCalls_iff (calls : List Call) (st : Dpdk) :
    (runCalls calls st).Safe ↔ CallsFine st.strings calls := by
  induction calls generalizing st with
  | nil => exact iff_of_true (Run.safe_done _) trivial
  | cons call calls ih =>
    rw [runCalls, Run.safe_bind_iff]
    cases call with
    | paramInit virtaddr =>
      obtain ⟨hiff, hhole⟩ := gazelleParamInit_spec st virtaddr
      rw [Call.apply, Run.safe_bind_iff, hiff, CallsFine]
      constructor
      · exact fun h => h.1.1
      · refine fun h => ⟨⟨h, fun _ _ => Run.safe_done _⟩, fun st' hdone => ?_⟩
        cases hinit : gazelleParamInit st virtaddr with
        | done out =>
          rw [hinit, Run.bind_done] at hdone
          obtain rfl := Run.done.inj hdone
          exact (ih out.1).2 (callsFine_of_notMem (hhole out hinit) calls)
        | refused => simp [hinit] at hdone
        | fault f => simp [hinit] at hdone
    | copyParam param isDouble argc =>
      rw [Call.apply, CallsFine, ← ih st]
      by_cases hsees : Sees (isOpt param) st.strings
      · obtain ⟨out, hcopy, -⟩ := gazelleCopyParam_of_sees hsees isDouble argc
        rw [hcopy, Run.bind_done, and_iff_right (Run.safe_done _), and_iff_right hsees]
        exact ⟨fun h => h st rfl, fun h st' hdone => Run.done.inj hdone ▸ h⟩
      · refine iff_of_false (fun h => hsees ?_) (fun h => hsees h.1)
        exact sees_of_gazelleCopyParam ((Run.safe_bind_iff _ _).1 h.1).1

/-- What is asked of a configuration and the calls after it. -/
structure InBounds (cfg : Config) (calls : List Call) : Prop where
  /-- No write goes past `dpdk_argv` or the vector of the caller, `dpdk_argc` is at most
  `GAZELLE_MAX_REG_ARGS`, and no `NULL` is inspected when options are looked for. -/
  noFault : (run cfg calls).Safe
  /-- `gazelle_copy_param` changes `*argc` only if it succeeds. -/
  copyKeeps : ∀ st param isDouble argc out,
    gazelleCopyParam st param isDouble argc = .done out → out.ok = false → out.argc = argc

/-- The configuration after the vector is stored. -/
theorem safe_vector_iff {cfg : Config} {args : Args} (hargs : cfg.dpdkArgs = some args)
    (hpos : 1 ≤ args.length) (hlt : args.length < maxRegArgs) (calls : List Call) :
    (run cfg calls).Safe ↔ VectorFine cfg (vectorOf args) calls := by
  obtain ⟨st, hstrings, hparse⟩ := parseDpdkArgs_eq hargs hpos hlt
  obtain ⟨hturn, hturnDone⟩ := turnArgsToConfig_spec cfg st
  rw [run, parseConfFile, hparse, VectorFine, ← hstrings]
  rw [Run.safe_bind_iff, Run.safe_bind_iff, hturn, and_assoc]
  refine and_congr_right fun hfine => ?_
  rcases hturnDone hfine with ⟨hpass, st₁, hdone, hstrings₁⟩ | ⟨hpass, hnot⟩
  · rw [hdone, ← hstrings₁]
    simp only [Run.done.injEq, forall_eq', Run.bind_done, hstrings₁ ▸ hpass, true_imp_iff]
    cases cfg.seperateSendRecv with
    | none => simp
    | some seperate =>
      obtain ⟨hcpu, hcpuDone⟩ := parseStackCpuNumber_spec cfg seperate st₁
      simp only [hcpu, Option.some.injEq, forall_eq']
      refine and_congr_right fun hcores => ?_
      rcases hcpuDone hcores with ⟨hpass, st₂, hdone₂, hkept⟩ | ⟨hpass, hnot⟩
      · rw [hdone₂]
        simp only [Run.done.injEq, forall_eq', hpass, true_imp_iff, safe_runCalls_iff,
          hkept.callsFine_iff]
      · exact iff_of_true (fun st₂ hdone₂ => absurd hdone₂ (hnot st₂)) fun h => absurd h hpass
  · refine iff_of_true ⟨fun st₁ hdone => absurd hdone (hnot st₁), fun st₂ hdone => ?_⟩
      fun h => absurd h hpass
    cases hrun : turnArgsToConfig cfg st with
    | done st₁ => exact absurd hrun (hnot st₁)
    | refused => simp [hrun] at hdone
    | fault f => simp [hrun] at hdone

/-- Nothing goes wrong exactly if the configuration is `Fine`. -/
theorem inBounds_iff (cfg : Config) (calls : List Call) :
    InBounds cfg calls ↔ Fine cfg calls := by
  have hsafe : InBounds cfg calls ↔ (run cfg calls).Safe :=
    ⟨InBounds.noFault, fun h => ⟨h, fun _ _ _ _ _ => gazelleCopyParam_argc⟩⟩
  rw [hsafe, Fine]
  cases hargs : cfg.dpdkArgs with
  | none =>
    refine iff_of_true ?_ fun _ h => absurd h (by simp)
    rw [run, parseConfFile, parseDpdkArgs, hargs]
    exact Run.safe_refused
  | some args =>
    simp only [Option.some.injEq, forall_eq']
    by_cases hlen : args.length = 0 ∨ maxRegArgs ≤ args.length
    · have hnot : ¬ (1 ≤ args.length ∧ args.length < maxRegArgs) := by omega
      rw [run, parseConfFile, parseDpdkArgs_of_length hargs hlen]
      by_cases hle : args.length ≤ maxRegArgs
      · rw [if_pos hle]
        exact iff_of_true Run.safe_refused ⟨hle, fun hpos hlt => absurd ⟨hpos, hlt⟩ hnot⟩
      · rw [if_neg hle]
        refine iff_of_false (fun h => ?_) (fun h => hle h.1)
        exact absurd (h .argcTooBig rfl) (by decide)
    · have hpos : 1 ≤ args.length := by omega
      have hlt : args.length < maxRegArgs := by omega
      rw [safe_vector_iff hargs hpos hlt, and_iff_right (Nat.le_of_lt hlt)]
      exact ⟨fun h _ _ => h, fun h => h hpos hlt⟩

/-- A setting with a number in it: `("-n", 4)`. -/
def withNumber : Config where
  useLtran := false
  dpdkArgs := some [some "-n".toList, none]
  seperateSendRecv := some false
  numCpus := some "2".toList
  sendNumCpus := none
  recvNumCpus := none
  cpusOk := true
  socketMemOk := true
  virtaddrOk := true
  pid := "1".toList

/-- The hole is inspected when the file prefix is looked for. -/
theorem not_inBounds_number : ¬ InBounds withNumber [] := by
  intro h
  have hfault : run withNumber [] = .fault .nullString := by rfl
  exact absurd (h.noFault _ hfault) (by decide)

end Runs

end DpdkArgs

end Gazelle
