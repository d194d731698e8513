import Mathlib.Data.List.Basic
import PeerWan.Lib.Runs

/-!
# Assignments that overwrite one another

Assignments to keys, made one after the other. What is left at a key is the
last value assigned to it, or what was there before them all.
-/

namespace Lib

variable {κ ν : Type} [DecidableEq κ]

def lastAt (k : κ) (ws : List (κ × ν)) : Option ν := ((ws.filter fun w => w.1 = k).map (·.2)).getLast?

@[simp] theorem lastAt_nil (k : κ) : lastAt k ([] : List (κ × ν)) = none := rfl

theorem lastAt_append (k : κ) (ws ws' : List (κ × ν)) :
    lastAt k (ws ++ ws') = (lastAt k ws').or (lastAt k ws) := by
  simp [lastAt, List.getLast?_append]

theorem lastAt_flatMap {α : Type} (k : κ) (f : α → List (κ × ν)) (xs : List α) :
    lastAt k (xs.flatMap f) = (xs.filterMap fun x => lastAt k (f x)).getLast? := by
  induction xs with
  | nil => rfl
  | cons x xs ih =>
    rw [List.flatMap_cons, lastAt_append, ih, List.filterMap_cons]
    cases lastAt k (f x) with
    | none => simp
    | some v => cases h : (xs.filterMap fun x => lastAt k (f x)).getLast? <;> simp [List.getLast?_cons, h]

theorem lastAt_eq_none {k : κ} {ws : List (κ × ν)} : lastAt k ws = none ↔ ∀ w ∈ ws, w.1 ≠ k := by
  simp [lastAt]

theorem mem_of_lastAt {k : κ} {ws : List (κ × ν)} {v : ν} (h : lastAt k ws = some v) : (k, v) ∈ ws := by
  obtain ⟨w, hw, rfl⟩ := List.mem_map.mp (List.mem_of_getLast? h)
  obtain ⟨hmem, hk⟩ := List.mem_filter.mp hw
  obtain rfl : w.1 = k := by simpa using hk
  exact hmem

theorem lastAt_of_forall {k : κ} {ws : List (κ × ν)} {v : ν} (hk : ∃ w ∈ ws, w.1 = k)
    (h : ∀ w ∈ ws, w.1 = k → w.2 = v) : lastAt k ws = some v := by
  cases hlast : lastAt k ws with
  | none =>
    obtain ⟨w, hw, hwk⟩ := hk
    exact absurd hwk (lastAt_eq_none.mp hlast w hw)
  | some v' => exact congrArg some (h _ (mem_of_lastAt hlast) rfl)

/-- The assignment rule: where each step assigns at most one key and keeps the
others, a run leaves the last assignment. -/
theorem get_run {σ ε : Type} {f : ε → σ → σ} {g : σ → κ → Option ν} {w : ε → Option (κ × ν)} {k : κ}
    {es : List ε} (hstep : ∀ e ∈ es, ∀ s, g (f e s) k = (lastAt k (w e).toList).or (g s k)) (s : σ) :
    g (run f s es) k = (lastAt k (es.filterMap w)).or (g s k) := by
  induction es generalizing s with
  | nil => rfl
  | cons e es ih =>
    have hcons : (e :: es).filterMap w = (w e).toList ++ es.filterMap w := by
      cases h : w e <;> simp [h]
    rw [run_cons, ih fun e he => hstep e (List.mem_cons_of_mem _ he), hstep e List.mem_cons_self, hcons,
      lastAt_append, Option.or_assoc]

end Lib
