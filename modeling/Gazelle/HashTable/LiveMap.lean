import Gazelle.HashTable.Chains

/-!
# Hash tables as maps of their live entries

A hash table whose entries have an address and a key and may be dead. A look-up passes over the
dead entries, a deletion need not; `HTable.LiveMap` is what makes the table a map from keys to live
entries all the same. There are two theorems for each operation: it keeps `LiveMap`, and it does
to the map what its name says.

* `LiveMap.lookup_eq_some`: the map has exactly the live entries;
* `LiveMap.insertHead`, `LiveMap.write`, `LiveMap.eraseFirst`: the operations on one key;
* `LiveMap.filterMap`, `LiveMap.map`, `LiveMap.mono`: the operations on all of them.
-/

namespace HTable

variable {n : ℕ} {T K A : Type*} [DecidableEq A]

/-- The table is a map of its live entries. -/
structure LiveMap (h : HTable n T) (live : T → Bool) (key : T → K) (addr : T → A)
    (bucket : K → Fin n) : Prop where
  /-- The counters are right. -/
  counted : h.Counted
  /-- Every entry is in the chain of its key. -/
  inBucket : h.InBucket bucket key
  /-- A live entry comes before the others with its key. -/
  liveFirst : h.LiveFirst live key
  /-- Addresses are not used twice. -/
  unique : ∀ a, (h.count fun t => addr t = a) ≤ 1

variable {h g : HTable n T} {live live' : T → Bool} {key : T → K} {addr : T → A}
  {bucket : K → Fin n} {k : K} {t old : T} {p : T → Bool} {b : Fin n}

/-! ## The operations keep the map -/

/-- An entry is known by its address. -/
theorem LiveMap.eq_of_addr (hm : h.LiveMap live key addr bucket) (ht : t ∈ h.toList)
    (hold : old ∈ h.toList) (haddr : addr t = addr old) : t = old :=
  eq_of_count_le_one (hm.unique (addr old)) ht hold (by simpa using haddr) (by simp)

/-- An entry occurs once. -/
theorem LiveMap.once [DecidableEq T] (hm : h.LiveMap live key addr bucket) (t : T) :
    (h.count fun u => u = t) ≤ 1 := by
  refine Nat.le_trans (count_le_count fun u _ hu => ?_) (hm.unique (addr t))
  simpa using congrArg addr (of_decide_eq_true hu)

theorem LiveMap.create {maxNum : BitVec 32} :
    (create maxNum : HTable n T).LiveMap live key addr bucket :=
  ⟨.create maxNum, .create, .create, fun _ => by simp⟩

/-- Entries may die. -/
theorem LiveMap.mono (hm : h.LiveMap live key addr bucket)
    (hdie : ∀ t ∈ h.toList, live' t → live t) : h.LiveMap live' key addr bucket :=
  ⟨hm.counted, hm.inBucket, hm.liveFirst.mono hdie, hm.unique⟩

/-- An entry is added whose key has no live one. -/
theorem LiveMap.insertHead (hm : h.LiveMap live key addr bucket)
    (hfresh : ∀ u ∈ h.toList, addr u ≠ addr t) (hroom : h.curNum ≠ h.maxNum)
    (hnone : ∀ u ∈ h.toList, live u → key u ≠ key t) :
    (h.insertHead (bucket (key t)) t).LiveMap live key addr bucket := by
  refine ⟨hm.counted.insertHead hroom, hm.inBucket.insertHead,
    hm.liveFirst.insertHead fun u hu => hnone u (mem_toList.2 ⟨_, hu⟩), fun a => ?_⟩
  rw [count_insertHead]
  by_cases haddr : addr t = a
  · subst haddr
    have hzero : (h.count fun u => addr u = addr t) = 0 :=
      count_eq_zero.2 fun u hu => by simpa using hfresh u hu
    rw [hzero]
    split <;> omega
  · rw [if_neg (by simpa using haddr)]
    exact hm.unique a

/-- The entries after one was written to. -/
theorem LiveMap.mem_write {f : T → T} (hm : h.LiveMap live key addr bucket)
    (hold : old ∈ h.toList) : t ∈ (h.map fun t => if addr t = addr old then f t else t).toList ↔
      t = f old ∨ t ∈ h.toList ∧ t ≠ old := by
  rw [toList_map, List.mem_map]
  constructor
  · rintro ⟨u, hu, rfl⟩
    by_cases hsame : addr u = addr old
    · rw [if_pos hsame, hm.eq_of_addr hu hold hsame]
      exact .inl rfl
    · rw [if_neg hsame]
      exact .inr ⟨hu, fun heq => hsame (congrArg addr heq)⟩
  · rintro (rfl | ⟨ht, hne⟩)
    · exact ⟨old, hold, if_pos rfl⟩
    · exact ⟨t, ht, if_neg fun hsame => hne (hm.eq_of_addr ht hold hsame)⟩

/-- A live entry is written to. -/
theorem LiveMap.write {f : T → T} (hm : h.LiveMap live key addr bucket) (hold : old ∈ h.toList)
    (hlive : live old) (haddr : ∀ t, addr (f t) = addr t) (hkey : ∀ t, key (f t) = key t) :
    (h.map fun t => if addr t = addr old then f t else t).LiveMap live key addr bucket := by
  have hkeep : ∀ t, key (if addr t = addr old then f t else t) = key t := by
    intro t
    split
    · exact hkey t
    · rfl
  refine ⟨hm.counted.map _, hm.inBucket.map hkeep, hm.liveFirst.map hkeep fun t ht hlive' => ?_,
    fun a => ?_⟩
  · by_cases hsame : addr t = addr old
    · rwa [hm.eq_of_addr ht hold hsame]
    · rwa [if_neg hsame] at hlive'
  · refine Nat.le_trans (Nat.le_of_eq (count_map.trans (count_congr fun t _ => ?_))) (hm.unique a)
    split
    · rw [haddr]
    · rfl

theorem LiveMap.eraseFirst (hm : h.LiveMap live key addr bucket) :
    (h.eraseFirst b p).LiveMap live key addr bucket :=
  ⟨hm.counted.eraseFirst, hm.inBucket.eraseFirst, hm.liveFirst.eraseFirst,
    fun a => Nat.le_trans count_eraseFirst_le (hm.unique a)⟩

/-- A visit that keeps keys and addresses and revives nothing. -/
theorem LiveMap.filterMap {f : T → Option T} (hm : h.LiveMap live key addr bucket)
    (hkeep : ∀ t u, f t = some u → key u = key t ∧ addr u = addr t)
    (hdie : ∀ t ∈ h.toList, ∀ u, f t = some u → live' u → live t) :
    (h.filterMap f).LiveMap live' key addr bucket := by
  refine ⟨hm.counted.filterMap f, hm.inBucket.filterMap fun t u hf => (hkeep t u hf).1,
    hm.liveFirst.filterMap (fun t u hf => (hkeep t u hf).1) hdie, fun a => ?_⟩
  rw [count_filterMap]
  refine Nat.le_trans (count_le_count fun t _ ht => ?_) (hm.unique a)
  cases hf : f t with
  | none => simp [hf] at ht
  | some u => simpa [hf, (hkeep t u hf).2] using ht

/-- What a visit that takes out the dead entries leaves of an entry. -/
private theorem eq_of_purge (hu : (if live old then some old else none) = some t) : t = old := by
  split at hu
  · exact (Option.some.inj hu).symm
  · cases hu

/-- The dead entries are taken out. -/
theorem LiveMap.purge (hm : h.LiveMap live key addr bucket) :
    (h.filterMap fun t => if live t then some t else none).LiveMap live key addr bucket :=
  hm.filterMap (fun _ _ hu => eq_of_purge hu ▸ ⟨rfl, rfl⟩) fun _ _ _ hu hlive =>
    eq_of_purge hu ▸ hlive

/-- All entries are written to, without changing keys and addresses or reviving anything. -/
theorem LiveMap.map {f : T → T} (hm : h.LiveMap live key addr bucket)
    (hkeep : ∀ t, key (f t) = key t ∧ addr (f t) = addr t)
    (hdie : ∀ t ∈ h.toList, live' (f t) → live t) :
    (h.map f).LiveMap live' key addr bucket := by
  refine ⟨hm.counted.map f, hm.inBucket.map fun t => (hkeep t).1,
    hm.liveFirst.map (fun t => (hkeep t).1) hdie, fun a => ?_⟩
  rw [count_map]
  simp only [hkeep]
  exact hm.unique a

/-! ## What they do to the map -/

section Lookup

variable [DecidableEq K]

/-- The map has exactly the live entries. -/
theorem LiveMap.lookup_eq_some (hm : h.LiveMap live key addr bucket) :
    h.lookup live key bucket k = some t ↔ t ∈ h.toList ∧ live t ∧ key t = k :=
  HTable.lookup_eq_some hm.liveFirst hm.inBucket

/-- Two maps agree on a key when the live entries with the key do. -/
theorem LiveMap.lookup_ext (hm : h.LiveMap live key addr bucket)
    (hm' : g.LiveMap live' key addr bucket)
    (hsame : ∀ t, key t = k → (t ∈ g.toList ∧ live' t ↔ t ∈ h.toList ∧ live t)) :
    g.lookup live' key bucket k = h.lookup live key bucket k := by
  apply Option.ext
  intro t
  rw [hm'.lookup_eq_some, hm.lookup_eq_some]
  constructor
  · rintro ⟨hmem, hlive, hkey⟩
    obtain ⟨hmem, hlive⟩ := (hsame t hkey).1 ⟨hmem, hlive⟩
    exact ⟨hmem, hlive, hkey⟩
  · rintro ⟨hmem, hlive, hkey⟩
    obtain ⟨hmem, hlive⟩ := (hsame t hkey).2 ⟨hmem, hlive⟩
    exact ⟨hmem, hlive, hkey⟩

/-- A map is changed at one key when the live entries of the others are left alone. -/
theorem LiveMap.lookup_update (hm : h.LiveMap live key addr bucket)
    (hm' : g.LiveMap live' key addr bucket) {value : Option T}
    (hsame : ∀ t, key t ≠ k → (t ∈ g.toList ∧ live' t ↔ t ∈ h.toList ∧ live t))
    (hvalue : ∀ t, key t = k → (t ∈ g.toList ∧ live' t ↔ value = some t))
    (hkey : ∀ t, value = some t → key t = k) :
    g.lookup live' key bucket = Function.update (h.lookup live key bucket) k value := by
  funext k'
  by_cases hk : k' = k
  · subst hk
    rw [Function.update_self]
    apply Option.ext
    intro t
    rw [hm'.lookup_eq_some, ← and_assoc]
    constructor
    · rintro ⟨hlive, ht⟩
      exact (hvalue t ht).1 hlive
    · intro hsome
      exact ⟨(hvalue t (hkey t hsome)).2 hsome, hkey t hsome⟩
  · rw [Function.update_of_ne hk]
    exact hm.lookup_ext hm' fun t ht => hsame t (ht ▸ hk)

/-- Entries that die leave the map. -/
theorem LiveMap.lookup_mono (hm : h.LiveMap live key addr bucket)
    (hdie : ∀ t ∈ h.toList, live' t → live t) :
    h.lookup live' key bucket k = (h.lookup live key bucket k).filter live' := by
  apply Option.ext
  intro t
  rw [(hm.mono hdie).lookup_eq_some, Option.filter_eq_some_iff, hm.lookup_eq_some]
  constructor
  · rintro ⟨hmem, hlive, hkey⟩
    exact ⟨⟨hmem, hdie t hmem hlive, hkey⟩, hlive⟩
  · rintro ⟨⟨hmem, -, hkey⟩, hlive⟩
    exact ⟨hmem, hlive, hkey⟩

theorem LiveMap.lookup_insertHead (hm : h.LiveMap live key addr bucket)
    (hfresh : ∀ u ∈ h.toList, addr u ≠ addr t) (hroom : h.curNum ≠ h.maxNum)
    (hnone : ∀ u ∈ h.toList, live u → key u ≠ key t) :
    (h.insertHead (bucket (key t)) t).lookup live key bucket =
      Function.update (h.lookup live key bucket) (key t) (if live t then some t else none) := by
  refine hm.lookup_update (hm.insertHead hfresh hroom hnone) (fun u hu => ?_) (fun u hu => ?_)
    fun u hsome => ?_
  · rw [mem_insertHead]
    constructor
    · rintro ⟨rfl | hmem, hlive⟩
      · exact absurd rfl hu
      · exact ⟨hmem, hlive⟩
    · rintro ⟨hmem, hlive⟩
      exact ⟨.inr hmem, hlive⟩
  · rw [mem_insertHead]
    constructor
    · rintro ⟨rfl | hmem, hlive⟩
      · exact if_pos hlive
      · exact absurd hu (hnone u hmem hlive)
    · intro hsome
      split at hsome
      · rename_i hlive
        obtain rfl := Option.some.inj hsome
        exact ⟨.inl rfl, hlive⟩
      · cases hsome
  · split at hsome
    · rw [← Option.some.inj hsome]
    · cases hsome

theorem LiveMap.lookup_write {f : T → T} (hm : h.LiveMap live key addr bucket)
    (hold : old ∈ h.toList) (hlive : live old) (haddr : ∀ t, addr (f t) = addr t)
    (hkey : ∀ t, key (f t) = key t) :
    (h.map fun t => if addr t = addr old then f t else t).lookup live key bucket =
      Function.update (h.lookup live key bucket) (key old)
        (if live (f old) then some (f old) else none) := by
  refine hm.lookup_update (hm.write hold hlive haddr hkey) (fun t ht => ?_) (fun t ht => ?_)
    fun t hsome => ?_
  · rw [hm.mem_write hold]
    constructor
    · rintro ⟨rfl | ⟨hmem, -⟩, hlive'⟩
      · exact absurd (hkey old) ht
      · exact ⟨hmem, hlive'⟩
    · rintro ⟨hmem, hlive'⟩
      exact ⟨.inr ⟨hmem, fun hsame => ht (congrArg key hsame)⟩, hlive'⟩
  · rw [hm.mem_write hold]
    constructor
    · rintro ⟨rfl | ⟨hmem, hne⟩, hlive'⟩
      · exact if_pos hlive'
      · exact absurd (hm.liveFirst.unique hm.inBucket hmem hold hlive' hlive ht) hne
    · intro hsome
      split at hsome
      · rename_i hlive'
        obtain rfl := Option.some.inj hsome
        exact ⟨.inl rfl, hlive'⟩
      · cases hsome
  · split at hsome
    · rw [← Option.some.inj hsome, hkey]
    · cases hsome

/-- A deletion that finds an entry with the key meets the live one, if there is one. -/
theorem LiveMap.eq_of_find? (hm : h.LiveMap live key addr bucket)
    (hp : ∀ t, key t = key old → p t)
    (hfind : (h.chain (bucket (key old))).find? p = some old) (ht : t ∈ h.toList) (hlive : live t)
    (hkey : key t = key old) : t = old := by
  have hfirst : (h.chain (bucket (key old))).find? (fun u => key u = key old) = some old := by
    obtain ⟨-, pre, post, hchain, hpre⟩ := List.find?_eq_some_iff_append.1 hfind
    rw [hchain]
    refine List.find?_eq_some_iff_append.2 ⟨by simp, pre, post, rfl, fun u hu => ?_⟩
    have hne := hpre u hu
    simp only [Bool.not_eq_true', decide_eq_false_iff_not] at hne ⊢
    exact fun hsame => absurd (hp u hsame) (by simp [hne])
  obtain ⟨b, hb⟩ := mem_toList.1 ht
  obtain rfl : bucket (key t) = b := hm.inBucket b t hb
  have hlook := hm.liveFirst.find?_key hb hlive
  rw [hkey, hfirst] at hlook
  exact (Option.some.inj hlook).symm

theorem LiveMap.lookup_eraseFirst [DecidableEq T] (hm : h.LiveMap live key addr bucket)
    (hp : ∀ t, key t = key old → p t)
    (hfind : (h.chain (bucket (key old))).find? p = some old) :
    (h.eraseFirst (bucket (key old)) p).lookup live key bucket =
      Function.update (h.lookup live key bucket) (key old) none := by
  refine hm.lookup_update hm.eraseFirst (fun t ht => ?_) (fun t ht => ?_) (by simp)
  · rw [mem_eraseFirst hfind (hm.once old)]
    constructor
    · rintro ⟨⟨hmem, -⟩, hlive⟩
      exact ⟨hmem, hlive⟩
    · rintro ⟨hmem, hlive⟩
      exact ⟨⟨hmem, fun hsame => ht (congrArg key hsame)⟩, hlive⟩
  · rw [mem_eraseFirst hfind (hm.once old)]
    constructor
    · rintro ⟨⟨hmem, hne⟩, hlive⟩
      exact absurd (hm.eq_of_find? hp hfind hmem hlive ht) hne
    · intro hnone
      cases hnone

theorem LiveMap.lookup_filterMap {f : T → Option T} (hm : h.LiveMap live key addr bucket)
    (hkeep : ∀ t u, f t = some u → key u = key t ∧ addr u = addr t)
    (hlive : ∀ t u, f t = some u → live' u = live t) :
    (h.filterMap f).lookup live' key bucket k = (h.lookup live key bucket k).bind f := by
  have hm' : (h.filterMap f).LiveMap live' key addr bucket :=
    hm.filterMap hkeep fun t _ u hf hu => by rwa [← hlive t u hf]
  apply Option.ext
  intro u
  rw [hm'.lookup_eq_some, mem_filterMap, Option.bind_eq_some_iff]
  constructor
  · rintro ⟨⟨t, ht, hf⟩, hu, hkey⟩
    exact ⟨t, hm.lookup_eq_some.2 ⟨ht, by rwa [← hlive t u hf], by rwa [← (hkeep t u hf).1]⟩, hf⟩
  · rintro ⟨t, hlook, hf⟩
    obtain ⟨ht, hlt, hkey⟩ := hm.lookup_eq_some.1 hlook
    exact ⟨⟨t, ht, hf⟩, by rwa [hlive t u hf], by rwa [(hkeep t u hf).1]⟩

theorem LiveMap.lookup_purge (hm : h.LiveMap live key addr bucket) :
    (h.filterMap fun t => if live t then some t else none).lookup live key bucket k =
      h.lookup live key bucket k := by
  refine (hm.lookup_filterMap (fun _ _ hu => eq_of_purge hu ▸ ⟨rfl, rfl⟩) fun _ _ hu =>
    congrArg live (eq_of_purge hu)).trans ?_
  -- what is in the map is live
  cases hlook : h.lookup live key bucket k with
  | none => rfl
  | some t => exact if_pos (hm.lookup_eq_some.1 hlook).2.1

theorem LiveMap.lookup_map {f : T → T} (hm : h.LiveMap live key addr bucket)
    (hkeep : ∀ t, key (f t) = key t ∧ addr (f t) = addr t) (hlive : ∀ t, live' (f t) = live t) :
    (h.map f).lookup live' key bucket k = (h.lookup live key bucket k).map f := by
  have hm' : (h.map f).LiveMap live' key addr bucket :=
    hm.map hkeep fun t _ hu => by rwa [← hlive t]
  apply Option.ext
  intro u
  rw [hm'.lookup_eq_some, toList_map, List.mem_map, Option.map_eq_some_iff]
  constructor
  · rintro ⟨⟨t, ht, rfl⟩, hu, hkey⟩
    exact ⟨t, hm.lookup_eq_some.2 ⟨ht, by rwa [← hlive t], by rwa [← (hkeep t).1]⟩, rfl⟩
  · rintro ⟨t, hlook, rfl⟩
    obtain ⟨ht, hlt, hkey⟩ := hm.lookup_eq_some.1 hlook
    exact ⟨⟨t, ht, rfl⟩, by rwa [hlive t], by rwa [(hkeep t).1]⟩

end Lookup

end HTable
