/-
The representation invariant of the interner. The buckets of a shard repeat what its patterns say: the
bucket of a fingerprint lists, in ascending order, the slots of the patterns that have it. Since a
pattern is added only when no equal one is there, looking a pattern up and reading an id are inverse
to each other.
-/
import Phrasebook.Interner.Table
import Phrasebook.Proofs.Interner.Id
import Mathlib.Algebra.BigOperators.Fin

namespace Phrasebook

/-! ## Shards -/

namespace Shard

variable {α : Type}

theorem slots_push (s : Shard α) (fp fp' : UInt64) (p : α) :
    (s.push fp p).slots fp' = if fp = fp' then s.slots fp ++ [s.patterns.size] else s.slots fp' := by
  show (s.buckets.insert fp (s.slots fp ++ [s.patterns.size])).getD fp' [] = _
  rw [Std.HashMap.getD_insert]
  simp only [beq_iff_eq]
  rfl

variable [Fingerprint α]

/-- The slots of the patterns that have a fingerprint, in ascending order. -/
def slotsWith (s : Shard α) (fp : UInt64) : List Nat :=
  (List.range s.patterns.size).filter fun k => s.patterns[k]?.any fun p => fingerprint p == fp

theorem mem_slotsWith {s : Shard α} {fp : UInt64} {k : Nat} :
    k ∈ s.slotsWith fp ↔ ∃ p, s.patterns[k]? = some p ∧ fingerprint p = fp := by
  unfold slotsWith
  rw [List.mem_filter, List.mem_range]
  constructor
  · rintro ⟨hk, h⟩
    rw [Array.getElem?_eq_getElem hk] at h ⊢
    exact ⟨_, rfl, by simpa using h⟩
  · rintro ⟨p, hp, rfl⟩
    obtain ⟨hk, -⟩ := Array.getElem?_eq_some_iff.1 hp
    exact ⟨hk, by simp [hp]⟩

theorem slotsWith_pairwise (s : Shard α) (fp : UInt64) : (s.slotsWith fp).Pairwise (· < ·) :=
  List.pairwise_lt_range.filter _

theorem slotsWith_push (s : Shard α) (fp fp' : UInt64) (p : α) :
    (s.push fp p).slotsWith fp' =
      s.slotsWith fp' ++ if fingerprint p = fp' then [s.patterns.size] else [] := by
  unfold slotsWith push
  simp only [Array.size_push, List.range_succ, List.filter_append]
  congr 1
  · -- a slot that was there before holds the pattern that it held
    apply List.filter_congr
    intro k hk
    rw [Array.getElem?_push_lt (List.mem_range.1 hk), Array.getElem?_eq_getElem (List.mem_range.1 hk)]
  · by_cases h : fingerprint p = fp' <;> simp [h]

/-- The invariant of the shard at position `i`. -/
structure WF (i : ShardIndex) (s : Shard α) : Prop where
  /-- A bucket lists the slots of the patterns with its fingerprint. -/
  slots : ∀ fp, s.slots fp = s.slotsWith fp
  /-- There is a bucket only for a fingerprint that occurs. -/
  keys : ∀ fp ∈ s.buckets, s.slots fp ≠ []
  /-- Every pattern belongs to this shard. -/
  home : ∀ p ∈ s.patterns, Interner.shardOf (fingerprint p) = i
  nodup : s.patterns.toList.Nodup
  bound : s.patterns.size ≤ maxSlot + 1

theorem empty_wf (i : ShardIndex) : (empty : Shard α).WF i := by
  refine ⟨fun fp => ?_, ?_, ?_, ?_, ?_⟩
  · simp [slots, slotsWith, empty]
  all_goals simp [empty]

theorem WF.slot_inj {s : Shard α} {i : ShardIndex} (hw : s.WF i) {j k : Nat} {p : α}
    (hj : s.patterns[j]? = some p) (hk : s.patterns[k]? = some p) : j = k := by
  obtain ⟨hlt, -⟩ := Array.getElem?_eq_some_iff.1 hj
  apply (List.getElem?_inj (by simpa using hlt) hw.nodup).1
  rw [Array.getElem?_toList, Array.getElem?_toList, hj, hk]

theorem WF.push {s : Shard α} {i : ShardIndex} (hw : s.WF i) {p : α}
    (hi : Interner.shardOf (fingerprint p) = i) (hp : p ∉ s.patterns)
    (hr : s.patterns.size ≤ maxSlot) : (s.push (fingerprint p) p).WF i := by
  refine ⟨fun fp => ?_, fun fp hfp => ?_, fun q hq => ?_, ?_, ?_⟩
  · rw [slots_push, slotsWith_push, hw.slots, hw.slots]
    by_cases h : fingerprint p = fp
    · subst h; simp
    · simp [h]
  · rw [slots_push]
    by_cases h : fingerprint p = fp
    · simp [h]
    · rw [if_neg h]
      have hmem : fp ∈ s.buckets := by
        rcases Std.HashMap.mem_insert.1 hfp with he | he
        · exact absurd (eq_of_beq he) h
        · exact he
      exact hw.keys fp hmem
  · rcases Array.mem_push.1 hq with hq | rfl
    · exact hw.home q hq
    · exact hi
  · show (s.patterns.push p).toList.Nodup
    rw [Array.toList_push, List.nodup_append]
    refine ⟨hw.nodup, List.nodup_singleton p, fun a ha b hb => ?_⟩
    rw [List.mem_singleton.1 hb]
    rintro rfl
    exact hp (Array.mem_toList_iff.1 ha)
  · show (s.patterns.push p).size ≤ _
    rw [Array.size_push]
    omega

theorem WF.bucket_eq {s : Shard α} {i : ShardIndex} (hw : s.WF i) {fp : UInt64} {slots : List Nat}
    (h : s.buckets[fp]? = some slots) : slots = s.slotsWith fp ∧ slots ≠ [] := by
  have hs : s.slots fp = slots := by
    show s.buckets.getD fp [] = slots
    rw [Std.HashMap.getD_eq_getD_getElem?, h]
    rfl
  have hmem : fp ∈ s.buckets := by
    rw [Std.HashMap.mem_iff_isSome_getElem?, h]
    rfl
  exact ⟨hs ▸ hw.slots fp, hs ▸ hw.keys fp hmem⟩

theorem WF.bucket_slotsWith {s : Shard α} {i : ShardIndex} (hw : s.WF i) {fp : UInt64}
    (h : s.slotsWith fp ≠ []) : s.buckets[fp]? = some (s.slotsWith fp) := by
  rw [← hw.slots] at h ⊢
  unfold Shard.slots at h ⊢
  rw [Std.HashMap.getD_eq_getD_getElem?] at h ⊢
  rcases hb : s.buckets[fp]? with _ | slots
  · rw [hb] at h; exact absurd rfl h
  · rfl

/-- A bucket belongs to its shard, lists its slots in ascending order, and lists only slots that hold a
pattern with its fingerprint. -/
theorem WF.bucket_spec {s : Shard α} {i : ShardIndex} (hw : s.WF i) {fp : UInt64} {slots : List Nat}
    (h : s.buckets[fp]? = some slots) :
    Interner.shardOf fp = i ∧ slots ≠ [] ∧ slots.Pairwise (· < ·) ∧
      ∀ k ∈ slots, ∃ hk : k < s.patterns.size, fingerprint s.patterns[k] = fp := by
  obtain ⟨rfl, hne⟩ := hw.bucket_eq h
  have hslot : ∀ k ∈ s.slotsWith fp, ∃ hk : k < s.patterns.size, fingerprint s.patterns[k] = fp := by
    intro k hk
    obtain ⟨p, hp, rfl⟩ := mem_slotsWith.1 hk
    obtain ⟨hlt, rfl⟩ := Array.getElem?_eq_some_iff.1 hp
    exact ⟨hlt, rfl⟩
  obtain ⟨k, hk⟩ := List.exists_mem_of_ne_nil _ hne
  obtain ⟨hlt, hfp⟩ := hslot k hk
  exact ⟨hfp ▸ hw.home _ (Array.getElem_mem hlt), hne, s.slotsWith_pairwise fp, hslot⟩

/-- Every slot is listed once, in the bucket of its pattern's fingerprint and in no other. -/
theorem WF.slot_listed {s : Shard α} {i : ShardIndex} (hw : s.WF i) {k : Nat}
    (hk : k < s.patterns.size) :
    ∃ (fp : UInt64) (slots : List Nat), s.buckets[fp]? = some slots ∧ slots.count k = 1 ∧
      ∀ fp' slots', s.buckets[fp']? = some slots' → k ∈ slots' → fp' = fp := by
  have hmem : k ∈ s.slotsWith (fingerprint s.patterns[k]) :=
    mem_slotsWith.2 ⟨_, Array.getElem?_eq_getElem hk, rfl⟩
  refine ⟨_, _, hw.bucket_slotsWith (List.ne_nil_of_mem hmem), ?_, fun fp' slots' h hk' => ?_⟩
  · have hnd : (s.slotsWith (fingerprint s.patterns[k])).Nodup :=
      (s.slotsWith_pairwise _).imp fun h => Nat.ne_of_lt h
    exact List.count_eq_one_of_mem hnd hmem
  · obtain ⟨-, -, -, hslot⟩ := hw.bucket_spec h
    obtain ⟨_, hfp⟩ := hslot k hk'
    exact hfp.symm

variable [DecidableEq α]

/-- The search goes through one bucket only and misses nothing. -/
theorem WF.find?_eq_some_iff {s : Shard α} {i : ShardIndex} (hw : s.WF i) {p : α} {k : Nat} :
    s.find? (fingerprint p) p = some k ↔ s.patterns[k]? = some p := by
  unfold find?
  constructor
  · intro h
    simpa using List.find?_some h
  · intro hk
    rcases hf : (s.slots (fingerprint p)).find? (fun slot => s.patterns[slot]? = some p) with _ | j
    · rw [List.find?_eq_none] at hf
      have hmem : k ∈ s.slots (fingerprint p) := by
        rw [hw.slots]
        exact mem_slotsWith.2 ⟨p, hk, rfl⟩
      exact absurd (by simpa using hk) (hf k hmem)
    · have hj : s.patterns[j]? = some p := by simpa using List.find?_some hf
      rw [hw.slot_inj hj hk]

theorem WF.find?_eq_none_iff {s : Shard α} {i : ShardIndex} (hw : s.WF i) {p : α} :
    s.find? (fingerprint p) p = none ↔ p ∉ s.patterns := by
  rw [Option.eq_none_iff_forall_ne_some, Array.mem_iff_getElem?]
  simp only [ne_eq, hw.find?_eq_some_iff, not_exists]

end Shard

/-! ## Tables -/

namespace Interner

variable {α β : Type}

theorem get_shards (t : Interner α) (i : ShardIndex) : t.shards.get i = t.shards[i.val] := rfl

@[simp] theorem shards_empty (owner : Owner) (i : ShardIndex) :
    (empty owner : Interner α).shards.get i = .empty := by
  rw [get_shards]
  simp [empty]

theorem read?_eq_map (t : Interner α) (id : PatternId α) (f : α → β) :
    t.read? id f = (t.get? id).map f := by
  unfold get? read?
  split <;> simp

theorem contains_iff_owner {t : Interner α} {id : PatternId α} :
    t.contains id = true ↔ id.owner = t.owner :=
  beq_iff_eq

theorem get?_eq_some_iff {t : Interner α} {id : PatternId α} {p : α} :
    t.get? id = some p ↔ id.owner = t.owner ∧ (t.shards.get id.shard).patterns[id.slot]? = some p := by
  unfold get? read? contains
  by_cases h : id.owner = t.owner
  · simp [h, get_shards]
  · simp [h]

theorem get?_eq_none_of_owner {t : Interner α} {id : PatternId α} (h : id.owner ≠ t.owner) :
    t.get? id = none := by
  unfold get? read?
  rw [if_neg fun hc => h (contains_iff_owner.1 hc)]

theorem get?_empty (owner : Owner) (id : PatternId α) : (empty owner).get? id = none := by
  simp [get?, read?, empty, Shard.empty]

/-- The shards of a table with one of them replaced. -/
def replaceShard (t : Interner α) (i : ShardIndex) (s : Shard α) : Vector (Shard α) shardCount :=
  t.shards.set i s

variable [Fingerprint α]

/-- The shard of a pattern. -/
def homeShard (t : Interner α) (p : α) : Shard α :=
  t.shards.get (shardOf (fingerprint p))

theorem homeShard_eq {t : Interner α} {p : α} {i : ShardIndex} (h : shardOf (fingerprint p) = i) :
    t.homeShard p = t.shards.get i := by
  subst h; rfl

/-- Whether the shard of a pattern can take one more. -/
def HasRoom (t : Interner α) (p : α) : Prop :=
  (t.homeShard p).patterns.size ≤ maxSlot

/-- The id that a pattern gets if it is added next. -/
def nextId (t : Interner α) (p : α) : PatternId α :=
  .pack t.owner (shardOf (fingerprint p)) (t.homeShard p).patterns.size

/-- The table with one more pattern. -/
def add (t : Interner α) (p : α) : Interner α :=
  { t with
    shards := t.replaceShard (shardOf (fingerprint p)) ((t.homeShard p).push (fingerprint p) p)
    size := t.size + 1 }

@[simp] theorem owner_add (t : Interner α) (p : α) : (t.add p).owner = t.owner := rfl

@[simp] theorem size_add (t : Interner α) (p : α) : (t.add p).size = t.size + 1 := rfl

theorem shards_add (t : Interner α) (p : α) (i : ShardIndex) :
    (t.add p).shards.get i =
      if shardOf (fingerprint p) = i then (t.homeShard p).push (fingerprint p) p else t.shards.get i := by
  show (t.shards.set (shardOf (fingerprint p)) _)[i.val] = _
  rw [Vector.getElem_set, get_shards]
  simp only [Fin.val_inj]

/-- The invariant of a table. -/
structure WF (t : Interner α) : Prop where
  shards : ∀ i : ShardIndex, (t.shards.get i).WF i
  size : t.size = ∑ i : ShardIndex, (t.shards.get i).patterns.size

theorem empty_wf (owner : Owner) : (empty owner : Interner α).WF := by
  refine ⟨fun i => ?_, ?_⟩
  · rw [shards_empty]; exact Shard.empty_wf i
  · simp only [shards_empty]; simp [empty, Shard.empty]

/-- The slot of every pattern fits into an id. -/
theorem WF.slot_le {t : Interner α} (hw : t.WF) {i : ShardIndex} {k : Nat} {p : α}
    (hk : (t.shards.get i).patterns[k]? = some p) : k ≤ maxSlot := by
  obtain ⟨hlt, -⟩ := Array.getElem?_eq_some_iff.1 hk
  have := (hw.shards i).bound
  omega

/-! ## Adding a pattern -/

theorem add_wf {t : Interner α} (hw : t.WF) {p : α} (hp : p ∉ (t.homeShard p).patterns)
    (hr : t.HasRoom p) : (t.add p).WF := by
  refine ⟨fun i => ?_, ?_⟩
  · rw [shards_add]
    split
    · rename_i hi
      have hs : (t.homeShard p).WF i := hi ▸ hw.shards _
      exact hs.push hi hp hr
    · exact hw.shards i
  · -- only the shard of the pattern has grown, by one
    have hsize (i : ShardIndex) : ((t.add p).shards.get i).patterns.size =
        (t.shards.get i).patterns.size + if shardOf (fingerprint p) = i then 1 else 0 := by
      rw [shards_add]
      split
      · rename_i hi
        subst hi
        exact Array.size_push p
      · rfl
    simp only [hsize, Finset.sum_add_distrib, Finset.sum_ite_eq, Finset.mem_univ, if_true,
      size_add, hw.size]

/-- Adding a pattern binds one more id and leaves the others as they are. -/
theorem get?_add {t : Interner α} {p q : α} {id : PatternId α} (hr : t.HasRoom p) :
    (t.add p).get? id = some q ↔ t.get? id = some q ∨ id = t.nextId p ∧ q = p := by
  have hle : (t.homeShard p).patterns.size ≤ maxSlot := hr
  have hid : id = t.nextId p ↔ id.owner = t.owner ∧ id.shard = shardOf (fingerprint p) ∧
      id.slot = (t.homeShard p).patterns.size := PatternId.eq_pack_iff hle
  rw [get?_eq_some_iff, get?_eq_some_iff, shards_add, owner_add, hid]
  by_cases hs : shardOf (fingerprint p) = id.shard
  · rw [if_pos hs]
    show _ ∧ ((t.homeShard p).patterns.push p)[id.slot]? = some q ↔ _
    rw [← homeShard_eq hs, Array.getElem?_push]
    by_cases hk : id.slot = (t.homeShard p).patterns.size
    · simp [hk, hs.symm, eq_comm]
    · simp [hk]
  · rw [if_neg hs]
    simp [Ne.symm hs]

theorem get?_nextId_add {t : Interner α} {p : α} (hr : t.HasRoom p) :
    (t.add p).get? (t.nextId p) = some p :=
  (get?_add hr).2 (.inr ⟨rfl, rfl⟩)

/-! ## Looking patterns up -/

variable [DecidableEq α]

theorem mem_homeShard_iff {t : Interner α} (hw : t.WF) {p : α} :
    p ∈ (t.homeShard p).patterns ↔ (t.lookup? p).isSome := by
  have hs : (t.homeShard p).WF (shardOf (fingerprint p)) := hw.shards _
  show _ ↔ (((t.homeShard p).find? (fingerprint p) p).map _).isSome
  rw [Option.isSome_map, ← Option.isNone_eq_false_iff, Bool.eq_false_iff, ne_eq,
    Option.isNone_iff_eq_none, hs.find?_eq_none_iff, not_not]

/-- Looking up and reading are inverse to each other: a pattern has the id that resolves to it. -/
theorem lookup?_eq_some_iff {t : Interner α} (hw : t.WF) {p : α} {id : PatternId α} :
    t.lookup? p = some id ↔ t.get? id = some p := by
  have hs : (t.homeShard p).WF (shardOf (fingerprint p)) := hw.shards _
  show ((t.homeShard p).find? (fingerprint p) p).map _ = some id ↔ _
  simp only [Option.map_eq_some_iff, hs.find?_eq_some_iff]
  rw [get?_eq_some_iff]
  constructor
  · rintro ⟨k, hk, rfl⟩
    have hle : k ≤ maxSlot := by
      rw [homeShard_eq rfl] at hk
      exact hw.slot_le hk
    refine ⟨rfl, ?_⟩
    rw [← homeShard_eq (PatternId.shard_pack t.owner _ hle).symm, PatternId.slot_pack _ _ hle]
    exact hk
  · rintro ⟨ho, hk⟩
    -- the pattern lies in its own shard, so that its shard is the one the id names
    have hshard : shardOf (fingerprint p) = id.shard :=
      (hw.shards id.shard).home p (Array.mem_of_getElem? hk)
    refine ⟨id.slot, ?_, ?_⟩
    · rw [homeShard_eq hshard]
      exact hk
    · rw [hshard, ← ho]
      exact id.pack_parts

theorem isSome_lookup?_iff {t : Interner α} (hw : t.WF) {p : α} :
    (t.lookup? p).isSome ↔ ∃ id, t.get? id = some p := by
  simp only [Option.isSome_iff_exists, lookup?_eq_some_iff hw]

/-! ## Interning -/

theorem tryIntern_of_lookup? {t : Interner α} {p : α} {id : PatternId α} (h : t.lookup? p = some id) :
    t.tryIntern p = .ok ⟨id, t, []⟩ := by
  unfold tryIntern
  rw [h]

/-- A new pattern takes the next slot of its shard. -/
theorem tryIntern_of_room {t : Interner α} {p : α} (h : t.lookup? p = none) (hr : t.HasRoom p) :
    t.tryIntern p = .ok ⟨t.nextId p, t.add p, additionEvents (t.homeShard p) (fingerprint p)⟩ := by
  unfold tryIntern
  rw [h]
  exact if_pos hr

/-- A new pattern is refused if its shard is full. -/
theorem tryIntern_of_full {t : Interner α} {p : α} (h : t.lookup? p = none) (hr : ¬ t.HasRoom p) :
    t.tryIntern p =
      .error (.shardOverflow (shardOf (fingerprint p)) (t.homeShard p).patterns.size) := by
  unfold tryIntern
  rw [h]
  exact if_neg hr

end Interner

end Phrasebook
