import Mathlib.Data.List.Induction
import Mathlib.Data.List.Nodup
import Mathlib.Data.List.Perm.Subperm

/-!
# Logs of stores into a buffer

A routine that only writes into a buffer is described by the log of its stores, the pairs of an
index and a value in the order in which they happen. The log says more than the final contents do:
whether a store misses the buffer, and how often a cell is written. `replay` gives the contents back,
and `replay?` refuses a log with a store outside the buffer, which is where the meaning of a C
program ends.
-/

namespace StoreLog

variable {α : Type*}

/-- Carry out the stores of a log, in order. -/
def replay (cells : List α) (log : List (ℕ × α)) : List α :=
  log.foldl (fun cells store ↦ cells.set store.1 store.2) cells

def InBounds (length : ℕ) (log : List (ℕ × α)) : Prop :=
  ∀ store ∈ log, store.1 < length

instance (length : ℕ) (log : List (ℕ × α)) : Decidable (InBounds length log) :=
  inferInstanceAs (Decidable (∀ store ∈ log, store.1 < length))

/-- The contents after the log, or nothing when some store misses the buffer. -/
def replay? (cells : List α) (log : List (ℕ × α)) : Option (List α) :=
  if InBounds cells.length log then some (replay cells log) else none

theorem replay?_of_inBounds {cells : List α} {log : List (ℕ × α)}
    (h : InBounds cells.length log) : replay? cells log = some (replay cells log) :=
  if_pos h

theorem replay_concat (cells : List α) (log : List (ℕ × α)) (store : ℕ × α) :
    replay cells (log ++ [store]) = (replay cells log).set store.1 store.2 := by
  rw [replay, List.foldl_append, List.foldl_cons, List.foldl_nil, replay]

@[simp] theorem length_replay (cells : List α) (log : List (ℕ × α)) :
    (replay cells log).length = cells.length := by
  induction log using List.reverseRecOn with
  | nil => rfl
  | append_singleton log store ih => rw [replay_concat, List.length_set, ih]

/-- A cell holds the value the log has for it, when all stores aimed at it agree on that value. -/
theorem getElem?_replay_of_agree {cells : List α} {log : List (ℕ × α)} {p : ℕ} {v : α}
    (hp : p < cells.length) (hmem : (p, v) ∈ log) (hagree : ∀ v', (p, v') ∈ log → v' = v) :
    (replay cells log)[p]? = some v := by
  induction log using List.reverseRecOn with
  | nil => exact absurd hmem List.not_mem_nil
  | append_singleton log store ih =>
    obtain ⟨q, u⟩ := store
    rw [replay_concat]
    by_cases hq : q = p
    · subst hq
      -- the last store aimed at the cell decides
      rw [List.getElem?_set_self (by rw [length_replay]; exact hp), hagree u (by simp)]
    · rw [List.getElem?_set_ne hq]
      refine ih ?_ fun v' hv' ↦ hagree v' (List.mem_append_left _ hv')
      rcases List.mem_append.mp hmem with hmem | hmem
      · exact hmem
      · rw [List.mem_singleton, Prod.mk.injEq] at hmem
        exact absurd hmem.1.symm hq

/-! ## Logs that write every cell once -/

/-- Every store hits the buffer, and every cell of the buffer is stored exactly once. -/
structure WritesOnce (length : ℕ) (log : List (ℕ × α)) : Prop where
  inBounds : InBounds length log
  count_eq : ∀ p < length, (log.map Prod.fst).count p = 1

/-- A log that reaches every cell with no more stores than there are cells. There is no store to
spare for a second visit of a cell, or for an address outside the buffer. -/
theorem writesOnce_of_reaches {length : ℕ} {log : List (ℕ × α)}
    (hreaches : ∀ p < length, ∃ v, (p, v) ∈ log) (hlength : log.length ≤ length) :
    WritesOnce length log := by
  have hsubset : List.range length ⊆ log.map Prod.fst := by
    intro p hp
    obtain ⟨v, hv⟩ := hreaches p (List.mem_range.mp hp)
    exact List.mem_map.mpr ⟨(p, v), hv, rfl⟩
  have hperm : (List.range length).Perm (log.map Prod.fst) := by
    refine (List.nodup_range.subperm hsubset).perm_of_length_le ?_
    rw [List.length_map, List.length_range]
    exact hlength
  refine ⟨fun store hstore ↦ ?_, fun p hp ↦ ?_⟩
  · exact List.mem_range.mp (hperm.mem_iff.mpr (List.mem_map_of_mem hstore))
  · rw [← hperm.count_eq]
    exact List.count_eq_one_of_mem List.nodup_range (List.mem_range.mpr hp)

namespace WritesOnce

variable {length : ℕ} {log : List (ℕ × α)}

theorem exists_mem (h : WritesOnce length log) {p : ℕ} (hp : p < length) : ∃ v, (p, v) ∈ log := by
  have hpos : 0 < (log.map Prod.fst).count p := by
    rw [h.count_eq p hp]
    exact Nat.one_pos
  obtain ⟨⟨q, v⟩, hstore, rfl⟩ := List.mem_map.mp (List.count_pos_iff.mp hpos)
  exact ⟨v, hstore⟩

theorem nodup (h : WritesOnce length log) : (log.map Prod.fst).Nodup := by
  refine List.nodup_iff_count_le_one.mpr fun p ↦ ?_
  by_cases hp : p < length
  · exact Nat.le_of_eq (h.count_eq p hp)
  · rw [List.count_eq_zero_of_not_mem]
    · exact Nat.zero_le 1
    · intro hmem
      obtain ⟨store, hstore, rfl⟩ := List.mem_map.mp hmem
      exact hp (h.inBounds store hstore)

/-- After a log that writes once, each cell holds what its only store has put there. -/
theorem getElem?_replay {cells : List α} {store : ℕ × α} (h : WritesOnce cells.length log)
    (hstore : store ∈ log) : (replay cells log)[store.1]? = some store.2 := by
  refine getElem?_replay_of_agree (h.inBounds store hstore) hstore fun v hv ↦ ?_
  have hsame : (store.1, v) = store := List.inj_on_of_nodup_map h.nodup hv hstore rfl
  rw [← hsame]

end WritesOnce

end StoreLog
