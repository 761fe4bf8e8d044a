import Mathlib.Algebra.BigOperators.Fin
import Mathlib.Data.List.FinRange

/-!
# Hash tables with counted chains

A hash table as an array of `n` chains with the number of entries of each chain and of the whole
table kept beside them, as 32-bit counters, and a limit on the number of entries.

* `HTable.count p`: the number of entries with `p`, with one lemma for each operation;
* `HTable.insertHead`, `HTable.eraseFirst`, `HTable.filterMap`, `HTable.map`: the operations;
* `HTable.Counted`: the counters are right and the limit is kept. Every operation keeps it.
* `HTable.lookup`: a table whose entries may be dead, read as a map of the live ones.
  `HTable.LiveFirst` says that a live entry is the first one of its key, `HTable.lookup_eq_some`
  that the map then has exactly the live entries.
-/

/-- A hash table of `n` counted chains. -/
structure HTable (n : ℕ) (T : Type*) where
  /-- The number of entries. -/
  curNum : BitVec 32
  /-- The limit on it. -/
  maxNum : BitVec 32
  /-- The chain of each bucket. -/
  chain : Fin n → List T
  /-- The number of entries of each chain. -/
  chainSize : Fin n → BitVec 32

namespace HTable

variable {n : ℕ} {T : Type*} (h : HTable n T)

/-- The empty table. -/
def create (maxNum : BitVec 32) : HTable n T := ⟨0, maxNum, fun _ => [], fun _ => 0⟩

/-- All entries, chain after chain. -/
def toList : List T := (List.finRange n).flatMap h.chain

/-- The number of entries with `p`. -/
def count (p : T → Bool) : ℕ := h.toList.countP p

/-- Put an entry at the head of a chain. -/
def insertHead (b : Fin n) (t : T) : HTable n T where
  curNum := h.curNum + 1
  maxNum := h.maxNum
  chain := Function.update h.chain b (t :: h.chain b)
  chainSize := Function.update h.chainSize b (h.chainSize b + 1)

/-- Take the first entry with `p` out of a chain; nothing changes when there is none. -/
def eraseFirst (b : Fin n) (p : T → Bool) : HTable n T :=
  match (h.chain b).find? p with
  | none => h
  | some _ =>
    { h with
      curNum := h.curNum - 1
      chain := Function.update h.chain b ((h.chain b).eraseP p)
      chainSize := Function.update h.chainSize b (h.chainSize b - 1) }

/-- Visit every entry, which is written back or, where `f` is `none`, deleted. -/
def filterMap (f : T → Option T) : HTable n T where
  curNum := h.curNum - BitVec.ofNat 32 (h.count fun t => (f t).isNone)
  maxNum := h.maxNum
  chain b := (h.chain b).filterMap f
  chainSize b := h.chainSize b - BitVec.ofNat 32 ((h.chain b).countP fun t => (f t).isNone)

/-- Visit every entry and write it back. -/
def map (f : T → T) : HTable n T := { h with chain := fun b => (h.chain b).map f }

/-! ## Members -/

variable {h} {b : Fin n} {t u : T} {p q : T → Bool}

@[simp]
theorem mem_toList : t ∈ h.toList ↔ ∃ b, t ∈ h.chain b := by
  simp [toList]

@[simp]
theorem toList_create {maxNum : BitVec 32} : (create maxNum : HTable n T).toList = [] := by
  simp [toList, create]

/-- An entry found in a chain is an entry. -/
theorem mem_of_find? (hfind : (h.chain b).find? p = some t) : t ∈ h.toList :=
  mem_toList.2 ⟨b, List.mem_of_find?_eq_some hfind⟩

theorem mem_insertHead : u ∈ (h.insertHead b t).toList ↔ u = t ∨ u ∈ h.toList := by
  simp only [mem_toList, insertHead]
  constructor
  · rintro ⟨c, hc⟩
    by_cases hcb : c = b
    · subst hcb
      rw [Function.update_self, List.mem_cons] at hc
      exact hc.imp_right fun hu => ⟨c, hu⟩
    · rw [Function.update_of_ne hcb] at hc
      exact .inr ⟨c, hc⟩
  · rintro (rfl | ⟨c, hc⟩)
    · exact ⟨b, by simp⟩
    · by_cases hcb : c = b
      · subst hcb
        exact ⟨c, by simp [hc]⟩
      · exact ⟨c, by rwa [Function.update_of_ne hcb]⟩

/-- What is left after a deletion was there before. -/
theorem mem_of_mem_eraseFirst (hu : u ∈ (h.eraseFirst b p).toList) : u ∈ h.toList := by
  unfold eraseFirst at hu
  split at hu
  · exact hu
  · simp only [mem_toList] at hu ⊢
    obtain ⟨c, hc⟩ := hu
    by_cases hcb : c = b
    · subst hcb
      rw [Function.update_self] at hc
      exact ⟨c, List.mem_of_mem_eraseP hc⟩
    · rw [Function.update_of_ne hcb] at hc
      exact ⟨c, hc⟩

theorem mem_filterMap {f : T → Option T} :
    u ∈ (h.filterMap f).toList ↔ ∃ t ∈ h.toList, f t = some u := by
  simp only [mem_toList, filterMap, List.mem_filterMap]
  exact ⟨fun ⟨b, t, ht, hf⟩ => ⟨t, ⟨b, ht⟩, hf⟩, fun ⟨t, ⟨b, ht⟩, hf⟩ => ⟨b, t, ht, hf⟩⟩

theorem toList_map (f : T → T) : (h.map f).toList = h.toList.map f := by
  simp [toList, map, List.map_flatMap]

theorem map_insertHead (f : T → T) : (h.insertHead b t).map f = (h.map f).insertHead b (f t) := by
  simp only [map, insertHead, mk.injEq, true_and, and_true]
  funext c
  by_cases hc : c = b
  · subst hc
    simp
  · simp [Function.update_of_ne hc]

/-- Writing back entries as they are. -/
theorem map_eq_self {f : T → T} (hf : ∀ t ∈ h.toList, f t = t) : h.map f = h := by
  have hchain : (fun b => (h.chain b).map f) = h.chain := by
    funext b
    exact (List.map_congr_left fun t ht => hf t (mem_toList.2 ⟨b, ht⟩)).trans (List.map_id' _)
  simp only [map, hchain]

/-! ## Counting -/

/-- The entries are counted chain by chain. -/
theorem count_eq_sum : h.count p = ∑ b, (h.chain b).countP p := by
  rw [count, toList, List.countP_flatMap, Fin.sum_univ_def]
  rfl

theorem count_congr (hpq : ∀ t ∈ h.toList, p t = q t) : h.count p = h.count q :=
  List.countP_congr fun t ht => by rw [hpq t ht]

theorem count_pos : 0 < h.count p ↔ ∃ t ∈ h.toList, p t := List.countP_pos_iff

theorem count_eq_zero : h.count p = 0 ↔ ∀ t ∈ h.toList, ¬ p t := List.countP_eq_zero

theorem count_le_count (hpq : ∀ t ∈ h.toList, p t → q t) : h.count p ≤ h.count q :=
  List.countP_mono_left hpq

/-- Entries are split by a second predicate. -/
theorem count_split (q : T → Bool) :
    h.count p = (h.count fun t => p t && q t) + h.count fun t => p t && !q t := by
  rw [count, List.countP_eq_countP_filter_add _ _ q, List.countP_filter, List.countP_filter]
  simp [count]

@[simp]
theorem count_create {maxNum : BitVec 32} : (create maxNum : HTable n T).count p = 0 := by
  simp [count]

/-- Replacing one chain changes the count by what that chain contributes. -/
theorem count_update {g : HTable n T} {l : List T} (hg : g.chain = Function.update h.chain b l) :
    g.count p + (h.chain b).countP p = h.count p + l.countP p := by
  rw [count_eq_sum, count_eq_sum, ← Finset.add_sum_erase _ _ (Finset.mem_univ b),
    ← Finset.add_sum_erase (a := b) _ (fun b => (h.chain b).countP p) (Finset.mem_univ b), hg,
    Function.update_self]
  have hrest : ∀ c ∈ Finset.univ.erase b,
      (Function.update h.chain b l c).countP p = (h.chain c).countP p := by
    intro c hc
    rw [Function.update_of_ne (Finset.ne_of_mem_erase hc)]
  rw [Finset.sum_congr rfl hrest]
  omega

theorem count_insertHead : (h.insertHead b t).count p = h.count p + if p t then 1 else 0 := by
  have hupdate := count_update (p := p) (g := h.insertHead b t) rfl
  rw [List.countP_cons] at hupdate
  omega

theorem eraseFirst_of_none (hfind : (h.chain b).find? p = none) : h.eraseFirst b p = h := by
  rw [eraseFirst, hfind]

theorem count_eraseFirst (hfind : (h.chain b).find? q = some t) :
    (h.eraseFirst b q).count p + (if p t then 1 else 0) = h.count p := by
  have hchain : (h.eraseFirst b q).chain = Function.update h.chain b ((h.chain b).eraseP q) := by
    rw [eraseFirst, hfind]
  have hupdate := count_update (p := p) hchain
  obtain ⟨hq, l₁, l₂, hl, hl₁⟩ := List.find?_eq_some_iff_append.1 hfind
  have hnone : ∀ u ∈ l₁, ¬ q u = true := fun u hu => by simpa using hl₁ u hu
  rw [hl, List.eraseP_append_right _ hnone, List.eraseP_cons_of_pos hq] at hupdate
  simp only [List.countP_append, List.countP_cons] at hupdate
  omega

theorem count_eraseFirst_le : (h.eraseFirst b q).count p ≤ h.count p := by
  cases hfind : (h.chain b).find? q with
  | none => rw [eraseFirst_of_none hfind]
  | some t =>
    rw [← count_eraseFirst (p := p) hfind]
    exact Nat.le_add_right _ _

theorem count_filterMap {f : T → Option T} :
    (h.filterMap f).count p = h.count fun t => ((f t).map p).getD false := by
  rw [count_eq_sum, count_eq_sum]
  refine Finset.sum_congr rfl fun b _ => ?_
  rw [filterMap, List.countP_filterMap]

theorem count_map {f : T → T} : (h.map f).count p = h.count fun t => p (f t) := by
  rw [count, toList_map, List.countP_map]
  rfl

/-- If at most one entry has `p`, then any two entries with `p` are the same. -/
theorem eq_of_count_le_one (hcount : h.count p ≤ 1) (ht : t ∈ h.toList) (hu : u ∈ h.toList)
    (hpt : p t) (hpu : p u) : t = u := by
  rw [count, List.countP_eq_length_filter] at hcount
  have hmemt : t ∈ h.toList.filter p := List.mem_filter.2 ⟨ht, hpt⟩
  have hmemu : u ∈ h.toList.filter p := List.mem_filter.2 ⟨hu, hpu⟩
  match hl : h.toList.filter p with
  | [] => simp [hl] at hmemt
  | [x] =>
    rw [hl, List.mem_singleton] at hmemt hmemu
    rw [hmemt, hmemu]
  | _ :: _ :: _ => simp [hl] at hcount

/-! ## The counters -/

variable (h) in
/-- The counters are right and the limit is kept. -/
structure Counted : Prop where
  /-- The number of entries. -/
  curNum : h.curNum.toNat = h.count fun _ => true
  /-- It is within the limit. -/
  le_maxNum : h.curNum ≤ h.maxNum
  /-- The number of entries of every chain. -/
  chainSize : ∀ b, (h.chainSize b).toNat = (h.chain b).length

/-- The total is at least what any predicate counts. -/
theorem Counted.count_le (hc : h.Counted) : h.count p ≤ h.curNum.toNat := by
  rw [hc.curNum]
  exact count_le_count fun _ _ _ => rfl

/-- A chain has at most as many entries as the table. -/
theorem length_chain_le : (h.chain b).length ≤ h.count fun _ => true := by
  rw [count_eq_sum, ← Finset.add_sum_erase _ _ (Finset.mem_univ b), List.countP_true]
  exact Nat.le_add_right _ _

theorem Counted.create (maxNum : BitVec 32) : (create maxNum : HTable n T).Counted where
  curNum := by rw [count_create]; rfl
  le_maxNum := Nat.zero_le _
  chainSize _ := rfl

/-- An entry is only added below the limit. -/
theorem Counted.insertHead (hc : h.Counted) (hroom : h.curNum ≠ h.maxNum) :
    (h.insertHead b t).Counted := by
  have hlt : h.curNum.toNat < h.maxNum.toNat := by
    have hle := hc.le_maxNum
    have hne : h.curNum.toNat ≠ h.maxNum.toNat := fun heq => hroom (BitVec.eq_of_toNat_eq heq)
    rw [BitVec.le_def] at hle
    omega
  have hsucc : (h.curNum + 1).toNat = h.curNum.toNat + 1 := by
    have := h.maxNum.isLt
    rw [BitVec.toNat_add]
    exact Nat.mod_eq_of_lt (by simp; omega)
  refine ⟨?_, ?_, fun c => ?_⟩
  · rw [count_insertHead]
    simp only [HTable.insertHead, hsucc, hc.curNum, if_true]
  · simp only [HTable.insertHead, BitVec.le_def, hsucc]
    omega
  · by_cases hcb : c = b
    · subst hcb
      have hsize := hc.chainSize c
      have hle := length_chain_le (h := h) (b := c)
      have hcur := hc.curNum
      have := h.maxNum.isLt
      simp only [HTable.insertHead, Function.update_self, List.length_cons, BitVec.toNat_add]
      rw [hsize]
      exact Nat.mod_eq_of_lt (by simp; omega)
    · simp only [HTable.insertHead, Function.update_of_ne hcb, hc.chainSize c]

theorem Counted.eraseFirst (hc : h.Counted) : (h.eraseFirst b p).Counted := by
  cases hfind : (h.chain b).find? p with
  | none => rwa [eraseFirst_of_none hfind]
  | some t =>
    have hcount := count_eraseFirst (p := fun _ => true) hfind
    have hcur := hc.curNum
    have hone : (1 : BitVec 32) ≤ h.curNum := by
      rw [BitVec.le_def]
      simp at hcount ⊢
      omega
    have hlen : 1 ≤ (h.chain b).length := List.length_pos_of_mem (List.mem_of_find?_eq_some hfind)
    have hsub : (h.curNum - 1).toNat = h.curNum.toNat - 1 := BitVec.toNat_sub_of_le hone
    simp only [HTable.eraseFirst, hfind, if_true] at hcount ⊢
    refine ⟨?_, ?_, fun c => ?_⟩
    · rw [hsub]
      omega
    · have hle := hc.le_maxNum
      simp only [BitVec.le_def, hsub] at hle ⊢
      omega
    · by_cases hcb : c = b
      · subst hcb
        have hsize : (1 : BitVec 32) ≤ h.chainSize c := by
          rw [BitVec.le_def, hc.chainSize c]
          simpa using hlen
        simp only [Function.update_self]
        rw [BitVec.toNat_sub_of_le hsize, hc.chainSize c,
          List.length_eraseP_of_mem (List.mem_of_find?_eq_some hfind) (List.find?_some hfind)]
        rfl
      · simp only [Function.update_of_ne hcb, hc.chainSize c]

theorem Counted.map (hc : h.Counted) (f : T → T) : (h.map f).Counted where
  curNum := by rw [count_map]; exact hc.curNum
  le_maxNum := hc.le_maxNum
  chainSize b := by simp [HTable.map, hc.chainSize b]

/-- Taking `k` entries of `m` away from a counter that is right. -/
private theorem toNat_sub_ofNat {x : BitVec 32} {m k : ℕ} (hx : x.toNat = m) (hk : k ≤ m) :
    (x - BitVec.ofNat 32 k).toNat = m - k := by
  have := x.isLt
  rw [BitVec.toNat_sub_of_le, BitVec.toNat_ofNat, Nat.mod_eq_of_lt (by omega), hx]
  rw [BitVec.le_def, BitVec.toNat_ofNat, Nat.mod_eq_of_lt (by omega)]
  omega

/-- A list and what a visit leaves of it. -/
private theorem length_filterMap_add {f : T → Option T} (l : List T) :
    (l.filterMap f).length + (l.countP fun t => (f t).isNone) = l.length := by
  induction l with
  | nil => rfl
  | cons t l ih => cases hf : f t <;> simp [hf] <;> omega

theorem Counted.filterMap (hc : h.Counted) (f : T → Option T) : (h.filterMap f).Counted := by
  have htotal := count_split (h := h) (p := fun _ => true) fun t => (f t).isNone
  have hle : (h.count fun t => (f t).isNone) ≤ h.count fun _ => true :=
    count_le_count fun _ _ _ => rfl
  have hcur := toNat_sub_ofNat hc.curNum hle
  refine ⟨?_, ?_, fun b => ?_⟩
  · have hkept : (h.count fun t => ((f t).map fun _ => true).getD false) =
        h.count fun t => true && !(f t).isNone :=
      count_congr fun t _ => by cases f t <;> rfl
    rw [count_filterMap, hkept]
    simp only [HTable.filterMap, hcur]
    simp only [Bool.true_and] at htotal ⊢
    omega
  · have hmax := hc.le_maxNum
    simp only [HTable.filterMap, BitVec.le_def, hcur] at hmax ⊢
    have := hc.curNum
    omega
  · have hlen := length_filterMap_add (f := f) (h.chain b)
    simp only [HTable.filterMap]
    rw [toNat_sub_ofNat (hc.chainSize b) (by omega)]
    omega

/-! ## Live entries -/

section Live

variable {K : Type*} [DecidableEq K] {live live' : T → Bool} {key : T → K} {bucket : K → Fin n}
  {k : K}

variable (h) in
/-- Every entry is in the chain of its key. -/
def InBucket (bucket : K → Fin n) (key : T → K) : Prop := ∀ b, ∀ t ∈ h.chain b, bucket (key t) = b

omit [DecidableEq K] in
theorem InBucket.create {maxNum : BitVec 32} :
    (create maxNum : HTable n T).InBucket bucket key :=
      fun _ _ ht => absurd ht (by simp [HTable.create])

omit [DecidableEq K] in
theorem InBucket.insertHead (hb : h.InBucket bucket key) :
    (h.insertHead (bucket (key t)) t).InBucket bucket key := by
  intro c u hu
  simp only [HTable.insertHead] at hu
  by_cases hc : c = bucket (key t)
  · subst hc
    rw [Function.update_self, List.mem_cons] at hu
    rcases hu with rfl | hu
    · rfl
    · exact hb _ u hu
  · rw [Function.update_of_ne hc] at hu
    exact hb c u hu

omit [DecidableEq K] in
theorem InBucket.eraseFirst (hb : h.InBucket bucket key) :
    (h.eraseFirst b p).InBucket bucket key := by
  intro c u hu
  unfold HTable.eraseFirst at hu
  split at hu
  · exact hb c u hu
  · by_cases hc : c = b
    · subst hc
      simp only [Function.update_self] at hu
      exact hb c u (List.mem_of_mem_eraseP hu)
    · simp only [Function.update_of_ne hc] at hu
      exact hb c u hu

omit [DecidableEq K] in
/-- A visit that keeps the keys keeps the entries in their chains. -/
theorem InBucket.filterMap (hb : h.InBucket bucket key) {f : T → Option T}
    (hkey : ∀ t u, f t = some u → key u = key t) : (h.filterMap f).InBucket bucket key := by
  intro c u hu
  obtain ⟨t, ht, hf⟩ := List.mem_filterMap.1 hu
  rw [hkey t u hf]
  exact hb c t ht

omit [DecidableEq K] in
theorem InBucket.map (hb : h.InBucket bucket key) {f : T → T} (hkey : ∀ t, key (f t) = key t) :
    (h.map f).InBucket bucket key := by
  intro c u hu
  obtain ⟨t, ht, rfl⟩ := List.mem_map.1 hu
  rw [hkey t]
  exact hb c t ht

variable (h) in
/-- A live entry comes before all other entries of its chain that have its key. -/
def LiveFirst (live : T → Bool) (key : T → K) : Prop :=
  ∀ b, (h.chain b).Pairwise fun u t => live t → key u ≠ key t

omit [DecidableEq K] in
theorem LiveFirst.create {maxNum : BitVec 32} :
    (create maxNum : HTable n T).LiveFirst live key := fun _ => List.Pairwise.nil

omit [DecidableEq K] in
/-- Entries may die. -/
theorem LiveFirst.mono (hl : h.LiveFirst live key) (hdie : ∀ t ∈ h.toList, live' t → live t) :
    h.LiveFirst live' key := fun b =>
  (hl b).imp_of_mem fun _ ht hne hlive => hne (hdie _ (mem_toList.2 ⟨b, ht⟩) hlive)

omit [DecidableEq K] in
/-- An entry is added when its key has no live one. -/
theorem LiveFirst.insertHead (hl : h.LiveFirst live key)
    (hnone : ∀ u ∈ h.chain b, live u → key u ≠ key t) : (h.insertHead b t).LiveFirst live key := by
  intro c
  simp only [HTable.insertHead]
  by_cases hc : c = b
  · subst hc
    rw [Function.update_self]
    exact List.pairwise_cons.2 ⟨fun u hu hlive => (hnone u hu hlive).symm, hl c⟩
  · rw [Function.update_of_ne hc]
    exact hl c

omit [DecidableEq K] in
theorem LiveFirst.eraseFirst (hl : h.LiveFirst live key) :
    (h.eraseFirst b p).LiveFirst live key := by
  unfold HTable.eraseFirst
  split
  · exact hl
  · intro c
    by_cases hc : c = b
    · subst hc
      simp only [Function.update_self]
      exact (hl c).sublist List.eraseP_sublist
    · simp only [Function.update_of_ne hc]
      exact hl c

omit [DecidableEq K] in
/-- A visit that keeps the keys and revives nothing. -/
theorem LiveFirst.filterMap (hl : h.LiveFirst live key) {f : T → Option T}
    (hkey : ∀ t u, f t = some u → key u = key t)
    (hdie : ∀ t ∈ h.toList, ∀ u, f t = some u → live' u → live t) :
    (h.filterMap f).LiveFirst live' key := by
  intro b
  refine List.Pairwise.filterMap f ?_ ((hl b).imp_of_mem (S := fun u t =>
    t ∈ h.toList ∧ (live t → key u ≠ key t)) fun _ ht hne => ⟨mem_toList.2 ⟨b, ht⟩, hne⟩)
  rintro u t ⟨ht, hne⟩ u' hu' t' ht' hlive
  rw [hkey u u' hu', hkey t t' ht']
  exact hne (hdie t ht t' ht' hlive)

omit [DecidableEq K] in
theorem LiveFirst.map (hl : h.LiveFirst live key) {f : T → T} (hkey : ∀ t, key (f t) = key t)
    (hdie : ∀ t ∈ h.toList, live' (f t) → live t) : (h.map f).LiveFirst live' key := by
  intro b
  refine List.pairwise_map.2 ((hl b).imp_of_mem fun _ ht hne hlive => ?_)
  rw [hkey, hkey]
  exact hne (hdie _ (mem_toList.2 ⟨b, ht⟩) hlive)

/-- A live entry is the first one with its key. -/
theorem LiveFirst.find?_key (hl : h.LiveFirst live key) (ht : t ∈ h.chain b) (hlive : live t) :
    (h.chain b).find? (fun u => key u = key t) = some t := by
  obtain ⟨pre, post, hchain⟩ := List.append_of_mem ht
  rw [hchain]
  refine List.find?_eq_some_iff_append.2 ⟨by simp, pre, post, rfl, fun u hu => ?_⟩
  have hpair := List.pairwise_append.1 (hchain ▸ hl b)
  simpa using hpair.2.2 u hu t List.mem_cons_self hlive

variable (h) in
/-- The live entry of a key. -/
def lookup (live : T → Bool) (key : T → K) (bucket : K → Fin n) (k : K) : Option T :=
  (h.chain (bucket k)).find? fun t => live t && key t = k

/-- The live entries are exactly what is looked up. -/
theorem lookup_eq_some (hl : h.LiveFirst live key) (hb : h.InBucket bucket key) :
    h.lookup live key bucket k = some t ↔ t ∈ h.toList ∧ live t ∧ key t = k := by
  constructor
  · intro hfind
    have hp := List.find?_some hfind
    simp only [Bool.and_eq_true, decide_eq_true_eq] at hp
    exact ⟨mem_of_find? hfind, hp⟩
  · rintro ⟨hmem, hlive, rfl⟩
    obtain ⟨c, hc⟩ := mem_toList.1 hmem
    obtain rfl : bucket (key t) = c := hb c t hc
    obtain ⟨-, pre, post, hchain, hpre⟩ := List.find?_eq_some_iff_append.1 (hl.find?_key hc hlive)
    rw [lookup, hchain]
    refine List.find?_eq_some_iff_append.2 ⟨by simp [hlive], pre, post, rfl, fun u hu => ?_⟩
    have hne := hpre u hu
    simp only [Bool.not_eq_true'] at hne ⊢
    rw [hne, Bool.and_false]

/-- A key has no live entry when the look-up fails. -/
theorem lookup_eq_none (hb : h.InBucket bucket key) :
    h.lookup live key bucket k = none ↔ ∀ t ∈ h.toList, live t → key t ≠ k := by
  rw [lookup, List.find?_eq_none]
  constructor
  · rintro hnone t ht hlive rfl
    obtain ⟨c, hc⟩ := mem_toList.1 ht
    obtain rfl : bucket (key t) = c := hb c t hc
    exact absurd (hnone t hc) (by simp [hlive])
  · intro hnone t ht
    have := hnone t (mem_toList.2 ⟨_, ht⟩)
    simpa using this

/-- At most one live entry has a key. -/
theorem LiveFirst.unique (hl : h.LiveFirst live key) (hb : h.InBucket bucket key)
    (ht : t ∈ h.toList) (hu : u ∈ h.toList) (hlt : live t) (hlu : live u) (hkey : key t = key u) :
    t = u := by
  have hfind := (lookup_eq_some hl hb).2 ⟨ht, hlt, hkey⟩
  rw [(lookup_eq_some hl hb).2 ⟨hu, hlu, rfl⟩] at hfind
  exact (Option.some.inj hfind).symm

end Live

/-- What is left when the first entry with `p` is taken out: everything but that entry. -/
theorem mem_eraseFirst [DecidableEq T] (hfind : (h.chain b).find? p = some t)
    (hone : (h.count fun u => u = t) ≤ 1) :
    u ∈ (h.eraseFirst b p).toList ↔ u ∈ h.toList ∧ u ≠ t := by
  have hcount := count_eraseFirst (p := fun v => decide (v = u)) hfind
  have hmem : ∀ g : HTable n T, u ∈ g.toList ↔ 0 < g.count fun v => v = u := by
    intro g
    rw [count_pos]
    exact ⟨fun hu => ⟨u, hu, by simp⟩, fun ⟨v, hv, he⟩ => of_decide_eq_true he ▸ hv⟩
  rw [hmem, hmem]
  by_cases hut : u = t
  · subst hut
    simp only [decide_true, if_true] at hcount
    simp only [ne_eq, not_true_eq_false, and_false, iff_false]
    omega
  · rw [if_neg (by simpa using Ne.symm hut)] at hcount
    simp only [ne_eq, hut, not_false_eq_true, and_true]
    omega

end HTable
