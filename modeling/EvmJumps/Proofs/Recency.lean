import Mathlib.Data.Finset.Card
import EvmJumps.Recency

namespace EvmJumps

/-- The keys of a list of uses, the latest first, each at its latest use. -/
def order [BEq κ] : List κ → List κ
  | [] => []
  | k :: uses => k :: (order uses).filter (· != k)

section Order

variable [BEq κ] [LawfulBEq κ]

theorem mem_order {k : κ} {uses : List κ} : k ∈ order uses ↔ k ∈ uses := by
  induction uses with
  | nil => rfl
  | cons l uses ih =>
    by_cases same : k = l <;> simp [order, ih, same]

theorem nodup_order (uses : List κ) : (order uses).Nodup := by
  induction uses with
  | nil => exact List.nodup_nil
  | cons k uses ih =>
    rw [order, List.nodup_cons]
    exact ⟨by simp, ih.filter _⟩

theorem filter_ne_of_not_mem {k : κ} {keys : List κ} (absent : k ∉ keys) :
    keys.filter (· != k) = keys := by
  apply List.filter_eq_self.mpr
  intro l member
  exact bne_iff_ne.mpr fun same => absent (same ▸ member)

theorem takeWhile_filter_ne {k l : κ} (distinct : l ≠ k) (keys : List κ) :
    (keys.filter (· != l)).takeWhile (· != k) = (keys.takeWhile (· != k)).filter (· != l) := by
  induction keys with
  | nil => rfl
  | cons m keys ih =>
    by_cases first : m = l
    · subst first
      simp [distinct, ih]
    · by_cases stop : m = k <;> simp [first, stop, ih, distinct.symm]

/-- Uses before the latest one of a key do not matter to what was used later. -/
theorem takeWhile_append_of_mem {k : κ} {uses : List κ} (used : k ∈ uses) (older : List κ) :
    (uses ++ older).takeWhile (· != k) = uses.takeWhile (· != k) := by
  induction uses with
  | nil => cases used
  | cons l uses ih =>
    by_cases same : l = k
    · simp [same]
    · have used : k ∈ uses := by simpa [Ne.symm same] using used
      simp [same, ih used]

/-- What comes before a key in the order was used later than it. -/
theorem takeWhile_order (k : κ) (uses : List κ) :
    (order uses).takeWhile (· != k) = order (uses.takeWhile (· != k)) := by
  induction uses with
  | nil => rfl
  | cons l uses ih =>
    by_cases same : l = k
    · simp [order, same]
    · simp [order, same, takeWhile_filter_ne same, ih]

theorem length_order [DecidableEq κ] (uses : List κ) :
    (order uses).length = uses.toFinset.card := by
  rw [← List.toFinset_card_of_nodup (nodup_order uses)]
  congr 1
  ext k
  rw [List.mem_toFinset, List.mem_toFinset, mem_order]

/-- A key is among the first ones of a list if few enough come before it. -/
theorem mem_take_iff {n : Nat} {k : κ} {keys : List κ} :
    k ∈ keys.take n ↔ k ∈ keys ∧ (keys.takeWhile (· != k)).length < n := by
  induction keys generalizing n with
  | nil => simp
  | cons l keys ih =>
    cases n with
    | zero => simp
    | succ n =>
      by_cases same : l = k
      · simp [same]
      · simp [same, ih, Ne.symm same]

/-- Among the first n keys in order are those with less than n others used later. -/
theorem mem_take_order [DecidableEq κ] {n : Nat} {k : κ} {uses : List κ} :
    k ∈ (order uses).take n ↔ k ∈ uses ∧ (uses.takeWhile (· != k)).toFinset.card < n := by
  rw [mem_take_iff, mem_order, takeWhile_order, length_order]

theorem take_filter_of_mem {n : Nat} {k : κ} {keys : List κ} (once : keys.Nodup)
    (held : k ∈ keys.take n) :
    (keys.filter (· != k)).take (n - 1) = (keys.take n).filter (· != k) := by
  induction keys generalizing n with
  | nil => simp
  | cons l keys ih =>
    obtain ⟨fresh, once⟩ := List.nodup_cons.mp once
    cases n with
    | zero => simp at held
    | succ n =>
      by_cases same : l = k
      · subst same
        have others := filter_ne_of_not_mem fresh
        have first : (keys.take n).filter (· != l) = keys.take n :=
          filter_ne_of_not_mem fun early => fresh (List.mem_of_mem_take early)
        simp [others, first]
      · have held : k ∈ keys.take n := by simpa [Ne.symm same] using held
        cases n with
        | zero => simp at held
        | succ n => simpa [same] using ih once held

theorem take_filter_of_not_mem {n : Nat} {k : κ} {keys : List κ} (absent : k ∉ keys.take n) :
    (keys.filter (· != k)).take n = keys.take n := by
  induction keys generalizing n with
  | nil => rfl
  | cons l keys ih =>
    cases n with
    | zero => rfl
    | succ n =>
      simp only [List.take_succ_cons, List.mem_cons, not_or] at absent
      have kept : (l != k) = true := bne_iff_ne.mpr (Ne.symm absent.1)
      rw [List.filter_cons, if_pos kept, List.take_succ_cons, ih absent.2, List.take_succ_cons]

end Order

namespace Recency

/-- The same keys in the same order, with other values. -/
def mapValues (f : α → β) (r : Recency κ α) : Recency κ β where
  capacity := r.capacity
  entries := r.entries.map fun entry => (entry.1, f entry.2)

theorem isFull_mapValues (f : α → β) (r : Recency κ α) : (r.mapValues f).isFull = r.isFull := by
  have same : (r.mapValues f).size = r.size := List.length_map _
  rw [isFull, isFull, same]
  rfl

theorem push_mapValues (f : α → β) (r : Recency κ α) (k : κ) (v : α) :
    (r.push k v).mapValues f = (r.mapValues f).push k (f v) := by
  simp [push, mapValues]

theorem size_eq (r : Recency κ α) : r.size = r.keys.length := by
  simp [size, keys]

/-- Each key stands once, and there are no more of them than there is room for. -/
structure Orderly (r : Recency κ α) : Prop where
  once : r.keys.Nodup
  bounded : r.size ≤ r.capacity

theorem Orderly.of_empty {r : Recency κ α} (none : r.keys = []) : r.Orderly := by
  refine ⟨none ▸ List.nodup_nil, ?_⟩
  rw [size_eq, none]
  exact Nat.zero_le _

theorem Orderly.push {r : Recency κ α} {k : κ} (orderly : r.Orderly) (room : 0 < r.capacity)
    (absent : k ∉ r.keys) (v : α) : (r.push k v).Orderly := by
  refine ⟨?_, ?_⟩
  · rw [keys_push, List.nodup_cons]
    exact ⟨fun early => absent (List.mem_of_mem_take early),
      orderly.once.sublist (List.take_sublist _ _)⟩
  · have capacity : (r.push k v).capacity = r.capacity := rfl
    rw [Recency.size_push, capacity]
    omega

/-- A new entry makes the map larger by one, unless it displaces another. -/
theorem Orderly.size_push {r : Recency κ α} (orderly : r.Orderly) (room : 0 < r.capacity) (k : κ)
    (v : α) : (r.push k v).size + r.isFull.toNat = r.size + 1 := by
  have bounded := orderly.bounded
  rw [Recency.size_push, isFull]
  by_cases full : r.capacity ≤ r.size
  · rw [decide_eq_true full, Bool.toNat_true]
    omega
  · rw [decide_eq_false full, Bool.toNat_false]
    omega

variable [BEq κ]

theorem find?_mapValues (f : α → β) (r : Recency κ α) (k : κ) :
    (r.mapValues f).find? k = (r.find? k).map f := by
  rw [find?, find?, mapValues]
  induction r.entries with
  | nil => rfl
  | cons entry entries ih =>
    rw [List.map_cons, List.lookup_cons, List.lookup_cons, ih]
    cases k == entry.1 <;> rfl

theorem touch_mapValues (f : α → β) (r : Recency κ α) (k : κ) :
    (r.touch k).mapValues f = (r.mapValues f).touch k := by
  rw [touch, touch, find?_mapValues]
  cases r.find? k with
  | none => rfl
  | some v => simp [mapValues, List.filter_map, Function.comp_def]

theorem capacity_touch (r : Recency κ α) (k : κ) : (r.touch k).capacity = r.capacity := by
  unfold touch
  split <;> rfl

/-- The map holds the first keys in the order of their uses. -/
def Keeps (r : Recency κ α) (uses : List κ) : Prop :=
  r.keys = (order uses).take r.capacity

theorem Keeps.of_empty {r : Recency κ α} (none : r.keys = []) : r.Keeps [] := by
  rw [Keeps, none, order, List.take_nil]

variable [LawfulBEq κ]

theorem lookup_cons_of_ne {k l : κ} (distinct : l ≠ k) (v : α) (entries : List (κ × α)) :
    ((k, v) :: entries).lookup l = entries.lookup l := by
  rw [List.lookup_cons, beq_eq_false_iff_ne.mpr distinct]

theorem lookup_filter_of_ne {k l : κ} (distinct : l ≠ k) (entries : List (κ × α)) :
    (entries.filter fun entry => entry.1 != k).lookup l = entries.lookup l := by
  induction entries with
  | nil => rfl
  | cons entry entries ih =>
    obtain ⟨m, v⟩ := entry
    by_cases dropped : m = k
    · subst dropped
      rw [lookup_cons_of_ne distinct, ← ih]
      simp
    · have kept : (m != k) = true := bne_iff_ne.mpr dropped
      rw [List.filter_cons, if_pos kept, List.lookup_cons, List.lookup_cons, ih]

/-- Using an entry changes no entry. -/
theorem find?_touch (r : Recency κ α) (k l : κ) : (r.touch k).find? l = r.find? l := by
  by_cases same : l = k
  · subst same
    exact find?_touch_self r l
  · cases found : r.find? k with
    | none => rw [touch, found]
    | some v =>
      rw [touch, found]
      exact (lookup_cons_of_ne same v _).trans (lookup_filter_of_ne same r.entries)

/-- A new entry is found, and any other was there before. -/
theorem find?_push {r : Recency κ α} {k l : κ} {v w : α}
    (found : (r.push k v).find? l = some w) : l = k ∧ w = v ∨ r.find? l = some w := by
  by_cases same : l = k
  · subst same
    rw [find?_push_self] at found
    exact Or.inl ⟨rfl, (Option.some.inj found).symm⟩
  · have kept : (r.entries.take (r.capacity - 1)).lookup l = some w :=
      (lookup_cons_of_ne same v _).symm.trans found
    exact Or.inr ((List.take_prefix _ _).lookup_eq_some kept)

variable {r : Recency κ α} {uses : List κ} {k : κ}

theorem mem_keys_of_find? {v : α} (found : r.find? k = some v) : k ∈ r.keys := by
  rw [← contains_iff, contains, found]
  rfl

theorem not_mem_keys_of_find? (missing : r.find? k = none) : k ∉ r.keys := by
  rw [← contains_iff, contains, missing]
  exact Bool.false_ne_true

theorem Keeps.touch (keeps : r.Keeps uses) (held : k ∈ r.keys) : (r.touch k).Keeps (k :: uses) := by
  have place : k ∈ (order uses).take r.capacity := keeps ▸ held
  have room : r.capacity = r.capacity - 1 + 1 := by
    cases capacity : r.capacity with
    | zero => simp [capacity] at place
    | succ n => rfl
  rw [Keeps, keys_touch held, capacity_touch, order, room, List.take_succ_cons,
    take_filter_of_mem (nodup_order uses) place, keeps]

theorem Keeps.push (keeps : r.Keeps uses) (room : 0 < r.capacity) (absent : k ∉ r.keys) (v : α) :
    (r.push k v).Keeps (k :: uses) := by
  have place : k ∉ (order uses).take (r.capacity - 1) := by
    intro early
    apply absent
    rw [keeps]
    exact (List.take_sublist_take_left (Nat.sub_le _ _)).subset early
  have capacity : (r.push k v).capacity = r.capacity - 1 + 1 := by
    rw [Nat.sub_add_cancel room]
    rfl
  rw [Keeps, keys_push, capacity, order, List.take_succ_cons, take_filter_of_not_mem place, keeps,
    List.take_take, Nat.min_eq_left (Nat.sub_le _ _)]

theorem size_touch (once : r.keys.Nodup) (k : κ) : (r.touch k).size = r.size := by
  by_cases held : k ∈ r.keys
  · rw [size_eq, size_eq, keys_touch held, ← once.erase_eq_filter]
    exact (List.perm_cons_erase held).length_eq.symm
  · rw [touch_of_not_mem held]

theorem Orderly.touch (orderly : r.Orderly) (k : κ) : (r.touch k).Orderly := by
  refine ⟨?_, ?_⟩
  · by_cases held : k ∈ r.keys
    · rw [keys_touch held, List.nodup_cons]
      exact ⟨by simp, orderly.once.filter _⟩
    · rw [touch_of_not_mem held]
      exact orderly.once
  · rw [size_touch orderly.once, capacity_touch]
    exact orderly.bounded

end Recency

end EvmJumps
