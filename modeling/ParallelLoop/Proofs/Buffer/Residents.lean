/-
# Entries of a write buffer

The entries of a buffer are sound when no key has two of them and the reserved bytes
are theirs. Then every entry is one of a permutation with the entries of all other
keys, so an entry can be removed, added or put off with a known effect: all keep the
entries sound, and `find?` tells for every key what they change.
-/

import Mathlib.Algebra.GroupWithZero.Nat
import Mathlib.Data.List.Nodup
import ParallelLoop.Buffer.Pool

namespace ParallelLoop.Residents

variable {residents : Residents} {entry : BufferEntry} {key other : String}

/-- No key has two entries, and the reserved bytes are those of the entries. -/
structure IsSound (residents : Residents) : Prop where
  nodup : (residents.entries.map BufferEntry.key).Nodup
  size_eq : residents.size = (residents.entries.map BufferEntry.size).sum

/-- Without an entry whose bytes are reserved. -/
def drop (residents : Residents) (entry : BufferEntry) : Residents :=
  { entries := residents.others entry.key, size := residents.size - entry.size }

/-- Without the entry of a key, if there is one. -/
def clear (residents : Residents) (key : String) : Residents :=
  { entries := residents.others key
    size := residents.size - ((residents.find? key).map BufferEntry.size).getD 0 }

/-- After an entry was read, which puts off its eviction if the policy counts reads. -/
def used (residents : Residents) (policy : EvictionPolicy) (entry : BufferEntry) : Residents :=
  if policy = .lru then residents.touch entry else residents

theorem isSound_empty : empty.IsSound := ⟨List.nodup_nil, rfl⟩

theorem find?_empty (key : String) : empty.find? key = none := rfl

theorem mem_of_find? (found : residents.find? key = some entry) :
    entry ∈ residents.entries ∧ entry.key = key :=
  ⟨List.mem_of_find?_eq_some found, by simpa using List.find?_some found⟩

theorem find?_head {rest : List BufferEntry} (order : residents.entries = entry :: rest) :
    residents.find? entry.key = some entry := by
  rw [find?, order, List.find?_cons_of_pos (by simp)]

theorem find?_others (residents : Residents) (key other : String) :
    (residents.others key).find? (fun entry => entry.key == other) =
      if other = key then none else residents.find? other := by
  unfold others Residents.find?
  rw [List.find?_filter]
  by_cases same : other = key
  · rw [if_pos same, List.find?_eq_none]
    intro entry _
    simp [same]
  · rw [if_neg same]
    congr 1
    funext entry
    by_cases this : entry.key = other
    · simp [this, same]
    · simp [this]

theorem key_ne_of_mem_others (member : entry ∈ residents.others key) : entry.key ≠ key :=
  bne_iff_ne.mp (List.mem_filter.mp member).2

theorem others_sublist (residents : Residents) (key : String) :
    (residents.others key).Sublist residents.entries := List.filter_sublist

/-- Without an entry for the key, all entries are those of other keys. -/
theorem others_eq_entries (absent : residents.find? key = none) :
    residents.others key = residents.entries := by
  rw [find?, List.find?_eq_none] at absent
  rw [others, List.filter_eq_self]
  intro entry member
  rw [bne_iff_ne]
  exact fun same => absent entry member (beq_iff_eq.mpr same)

theorem find?_drop (residents : Residents) (entry : BufferEntry) (other : String) :
    (residents.drop entry).find? other =
      if other = entry.key then none else residents.find? other :=
  residents.find?_others entry.key other

theorem find?_clear (residents : Residents) (key other : String) :
    (residents.clear key).find? other = if other = key then none else residents.find? other :=
  residents.find?_others key other

theorem find?_clear_self (residents : Residents) (key : String) :
    (residents.clear key).find? key = none := by
  rw [find?_clear, if_pos rfl]

theorem clear_of_absent (absent : residents.find? key = none) : residents.clear key = residents := by
  rw [clear, others_eq_entries absent, absent]
  rfl

theorem clear_of_found (found : residents.find? key = some entry) :
    residents.clear key = residents.drop entry := by
  obtain ⟨-, rfl⟩ := mem_of_find? found
  rw [clear, found]
  rfl

/-- A key without an entry gets one. -/
theorem find?_add (absent : residents.find? entry.key = none) (other : String) :
    (residents.add entry).find? other =
      if other = entry.key then some entry else residents.find? other := by
  unfold add Residents.find? at *
  rw [List.find?_append, List.find?_singleton]
  by_cases same : other = entry.key
  · rw [same, absent]
    simp
  · rw [if_neg same, if_neg (by rw [beq_iff_eq]; exact Ne.symm same), Option.or_none]

/-- Putting off an eviction does not show in what is found. -/
theorem find?_touch (found : residents.find? key = some entry) (other : String) :
    (residents.touch entry).find? other = residents.find? other := by
  obtain ⟨-, rfl⟩ := mem_of_find? found
  unfold touch
  rw [Residents.find?, List.find?_append, List.find?_singleton, find?_others]
  by_cases same : other = entry.key
  · rw [same, found]
    simp
  · rw [if_neg same, if_neg (by rw [beq_iff_eq]; exact Ne.symm same), Option.or_none]

theorem find?_used (policy : EvictionPolicy) (found : residents.find? key = some entry)
    (other : String) : (residents.used policy entry).find? other = residents.find? other := by
  unfold used
  split
  next => exact find?_touch found other
  next => rfl

namespace IsSound

/-- An entry and those of all other keys are the entries. -/
theorem perm (sound : residents.IsSound) (member : entry ∈ residents.entries) :
    residents.entries.Perm (entry :: residents.others entry.key) := by
  have rest : residents.others entry.key = residents.entries.erase entry := by
    -- Erasing one entry and filtering by its key are the same, as no other entry has the key.
    rw [sound.nodup.of_map.erase_eq_filter]
    refine List.filter_congr fun other there => ?_
    have unique : other.key = entry.key ↔ other = entry :=
      ⟨fun same => List.inj_on_of_nodup_map sound.nodup there member same, congrArg _⟩
    simp only [bne, beq_eq_decide, unique]
  rw [rest]
  exact List.perm_cons_erase member

theorem size_eq_add (sound : residents.IsSound) (member : entry ∈ residents.entries) :
    residents.size = entry.size + ((residents.others entry.key).map BufferEntry.size).sum := by
  rw [sound.size_eq, ((sound.perm member).map _).sum_nat, List.map_cons, List.sum_cons]

/-- The bytes of an entry are among those reserved. -/
theorem remove_eq (sound : residents.IsSound) (member : entry ∈ residents.entries) :
    residents.remove entry = .ok (residents.drop entry) := by
  have total := sound.size_eq_add member
  rw [remove, if_pos (by omega)]
  rfl

/-- Without entries nothing is reserved. -/
theorem room (sound : residents.IsSound) {needed limit : Nat} (fits : needed ≤ limit)
    (room : residents.entries = [] ∨ residents.size + needed ≤ limit) :
    residents.size + needed ≤ limit := by
  obtain empty | room := room
  · rw [sound.size_eq, empty]
    simpa using fits
  · exact room

theorem drop (sound : residents.IsSound) (member : entry ∈ residents.entries) :
    (residents.drop entry).IsSound where
  nodup := sound.nodup.sublist (List.filter_sublist.map _)
  size_eq := by
    have total := sound.size_eq_add member
    dsimp only [Residents.drop]
    omega

theorem clear (sound : residents.IsSound) (key : String) : (residents.clear key).IsSound := by
  cases found : residents.find? key with
  | none => rwa [clear_of_absent found]
  | some entry =>
    rw [clear_of_found found]
    exact sound.drop (mem_of_find? found).1

theorem add (sound : residents.IsSound) (absent : residents.find? entry.key = none) :
    (residents.add entry).IsSound where
  nodup := by
    rw [Residents.find?, List.find?_eq_none] at absent
    dsimp only [Residents.add]
    rw [List.map_append, List.map_singleton, List.nodup_append]
    refine ⟨sound.nodup, List.nodup_singleton _, ?_⟩
    intro key there new added same
    obtain ⟨other, member, rfl⟩ := List.mem_map.mp there
    rw [List.mem_singleton] at added
    exact absent other member (beq_iff_eq.mpr (same.trans added))
  size_eq := by
    dsimp only [Residents.add]
    rw [List.map_append, List.sum_append, sound.size_eq]
    simp

theorem touch_perm (sound : residents.IsSound) (member : entry ∈ residents.entries) :
    (residents.touch entry).entries.Perm residents.entries :=
  (List.perm_append_singleton entry _).trans (sound.perm member).symm

theorem touch (sound : residents.IsSound) (member : entry ∈ residents.entries) :
    (residents.touch entry).IsSound := by
  have moved := sound.touch_perm member
  exact ⟨(moved.map _).nodup_iff.mpr sound.nodup,
    sound.size_eq.trans (moved.map _).sum_nat.symm⟩

theorem used_perm (sound : residents.IsSound) (policy : EvictionPolicy)
    (member : entry ∈ residents.entries) :
    (residents.used policy entry).entries.Perm residents.entries := by
  unfold used
  split
  next => exact sound.touch_perm member
  next => exact .refl _

theorem used (sound : residents.IsSound) (policy : EvictionPolicy)
    (member : entry ∈ residents.entries) : (residents.used policy entry).IsSound := by
  unfold Residents.used
  split
  next => exact sound.touch member
  next => exact sound

/-- The entry to be evicted first is the one of its key, and the others follow it. -/
theorem others_eq_tail {rest : List BufferEntry} (sound : residents.IsSound)
    (order : residents.entries = entry :: rest) : residents.others entry.key = rest := by
  have nodup := sound.nodup
  rw [order, List.map_cons, List.nodup_cons] at nodup
  rw [others, order, List.filter_cons_of_neg (by simp), List.filter_eq_self]
  intro other member
  rw [bne_iff_ne]
  exact fun same => nodup.1 (List.mem_map.mpr ⟨other, member, same⟩)

end IsSound

end ParallelLoop.Residents
