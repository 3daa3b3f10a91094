import Mathlib

/-!
# Redo logs

A log is a list of key-value writes, oldest first, and replaying it over a store
performs them in order. A key the log writes ends with a value that does not
depend on the store, and every other key is left alone. `redo_suffix` is the
rule behind checkpointing and interrupted recovery: the log may lose its oldest
part once the store holds the final value of every key the rest does not write.
-/

namespace RedoLog

universe u v

variable {K : Type u} {V : Type v} [DecidableEq K]

/-- Perform the writes in order. -/
def redo (store : K → V) (log : List (K × V)) : K → V :=
  log.foldl (fun current write => Function.update current write.1 write.2) store

/-- The keys the log writes. -/
def keys (log : List (K × V)) : List K := log.map Prod.fst

@[simp] theorem redo_nil (store : K → V) : redo store [] = store := rfl

theorem redo_append (store : K → V) (older newer : List (K × V)) :
    redo store (older ++ newer) = redo (redo store older) newer := by
  simp [redo]

theorem redo_of_not_mem (store : K → V) (log : List (K × V)) {k : K}
    (unwritten : k ∉ keys log) : redo store log k = store k := by
  induction log generalizing store with
  | nil => rfl
  | cons write rest ih =>
    simp only [keys, List.map_cons, List.mem_cons, not_or] at unwritten
    have later := ih (Function.update store write.1 write.2) unwritten.2
    simpa [redo, Function.update_of_ne unwritten.1] using later

/-- A written key does not remember the store the log was replayed over. -/
theorem redo_of_mem (first second : K → V) (log : List (K × V)) {k : K}
    (written : k ∈ keys log) : redo first log k = redo second log k := by
  induction log generalizing first second with
  | nil => simp [keys] at written
  | cons write rest ih =>
    by_cases later : k ∈ keys rest
    · exact ih _ _ later
    · have here : k = write.1 := by
        simp only [keys, List.map_cons, List.mem_cons] at written later
        exact written.resolve_right later
      have kept (store : K → V) : redo store (write :: rest) k = write.2 := by
        have tail := redo_of_not_mem (Function.update store write.1 write.2) rest later
        rw [here, Function.update_self] at tail
        rw [here]
        exact tail
      rw [kept first, kept second]

/-- Drop an old part of the log: enough that the store already has the final value
of every key that the rest of the log does not write. -/
theorem redo_suffix (store store' : K → V) (older newer : List (K × V))
    (settled : ∀ k, k ∉ keys newer → store' k = redo store (older ++ newer) k) :
    redo store' newer = redo store (older ++ newer) := by
  funext k
  by_cases written : k ∈ keys newer
  · rw [redo_append]
    exact redo_of_mem store' (redo store older) newer written
  · rw [redo_of_not_mem store' newer written]
    exact settled k written

end RedoLog
