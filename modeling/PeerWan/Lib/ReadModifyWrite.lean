import Mathlib.Data.List.Basic
import Mathlib.Data.List.Perm.Basic

/-!
# A read and a later write among blind writes

A register takes blind writes, each of which may fail, and one update that
reads the register and later writes what it computed. Run in one piece the
update is serial. Between its two halves blind writes may come and be lost.
-/

namespace Lib

variable {α β : Type} (eff : β → Option α)

/-- What a register holds after blind writes; one without effect failed. -/
def overwritten (x : α) (ws : List β) : α := (ws.filterMap eff).getLastD x

/-- The update `f` reads after the writes `before`, writes after the writes
`between`, and is followed by the writes `after`. -/
def interleaved (f : α → Option α) (x : α) (before between after : List β) : α :=
  let seen := overwritten eff x before
  overwritten eff ((f seen).getD (overwritten eff seen between)) after

variable {eff} {f : α → Option α} {x : α} {ws before between after : List β}

@[simp] theorem overwritten_nil (x : α) : overwritten eff x [] = x := rfl

theorem overwritten_cons (x : α) (b : β) (ws : List β) :
    overwritten eff x (b :: ws) = overwritten eff ((eff b).getD x) ws := by
  rw [overwritten, overwritten, List.filterMap_cons]
  cases eff b with
  | none => rfl
  | some y => exact List.getLastD_cons ..

theorem overwritten_append (x : α) (ws ws' : List β) :
    overwritten eff x (ws ++ ws') = overwritten eff (overwritten eff x ws) ws' := by
  rw [overwritten, overwritten, overwritten, List.filterMap_append]
  cases h : (ws'.filterMap eff).getLast? with
  | none => simp_all
  | some y => simp [List.getLastD_eq_getLast?, h]

theorem overwritten_of_none (x : α) (h : ws.filterMap eff = []) : overwritten eff x ws = x := by
  rw [overwritten, h]
  rfl

theorem overwritten_congr (x y : α) (h : ws.filterMap eff ≠ []) : overwritten eff x ws = overwritten eff y ws := by
  rw [overwritten, overwritten, List.getLastD_eq_getLast?, List.getLastD_eq_getLast?,
    List.getLast?_eq_getLast_of_ne_nil h]
  rfl

theorem overwritten_mem (x : α) (h : ws.filterMap eff ≠ []) : ∃ b ∈ ws, eff b = some (overwritten eff x ws) := by
  have hmem : overwritten eff x ws ∈ ws.filterMap eff := by
    rw [overwritten, List.getLastD_eq_getLast?, List.getLast?_eq_getLast_of_ne_nil h]
    exact List.getLast_mem h
  exact List.mem_filterMap.mp hmem

theorem overwritten_concat {b : β} {y : α} (x : α) (h : eff b = some y) : overwritten eff x (ws ++ [b]) = y := by
  rw [overwritten_append]
  simp [overwritten, h]

/-- The update in one piece, somewhere among the writes in some order. -/
def Serial (eff : β → Option α) (f : α → Option α) (x : α) (ws : List β) (y : α) : Prop :=
  ∃ before after, (before ++ after).Perm ws ∧ interleaved eff f x before [] after = y

/-- The update read before any write took effect, and the last effect is its own. -/
structure Overtakes (eff : β → Option α) (before between after : List β) : Prop where
  before : before.filterMap eff = []
  between : between.filterMap eff ≠ []
  after : after.filterMap eff = []

/-- What the update wrote might as well come from one of the writes: it is what
that write wrote, or what the update makes of it. -/
def Coincides (eff : β → Option α) (f : α → Option α) (ws : List β) (y : α) : Prop :=
  ∃ b ∈ ws, ∃ z, eff b = some z ∧ (z = y ∨ f z = some y)

theorem serial_of_not_overtakes (h : ¬ Overtakes eff before between after) :
    Serial eff f x (before ++ between ++ after) (interleaved eff f x before between after) := by
  by_cases hafter : after.filterMap eff = []
  · by_cases hbefore : before.filterMap eff = []
    · have hbetween : between.filterMap eff = [] := by
        by_contra hbetween
        exact h ⟨hbefore, hbetween, hafter⟩
      refine ⟨before ++ between, after, .refl _, ?_⟩
      rw [interleaved, interleaved]
      simp only [overwritten_append, overwritten_of_none _ hbefore, overwritten_of_none _ hbetween]
      rfl
    · have hseen := overwritten_congr (overwritten eff x between) x hbefore
      cases hf : f (overwritten eff x before) with
      | some y =>
        -- the writes in between may as well come first
        refine ⟨between ++ before, after, .append_right _ List.perm_append_comm, ?_⟩
        rw [interleaved, interleaved]
        simp only [overwritten_append, overwritten_of_none _ hafter, hseen, hf]
        rfl
      | none =>
        refine ⟨before, between ++ after, by rw [List.append_assoc], ?_⟩
        rw [interleaved, interleaved]
        simp only [overwritten_append, hf, Option.getD_none]
        rfl
  · refine ⟨before ++ between, after, .refl _, ?_⟩
    rw [interleaved, interleaved]
    exact overwritten_congr _ _ hafter

theorem interleaved_of_overtakes (h : Overtakes eff before between after) {y : α} (hf : f x = some y) :
    interleaved eff f x before between after = y := by
  simp only [interleaved, overwritten_of_none _ h.before, overwritten_of_none _ h.after, hf, Option.getD_some]

theorem serial_of_coincides {y : α} (h : Coincides eff f ws y) : Serial eff f x ws y := by
  obtain ⟨b, hb, z, hz, hy⟩ := h
  obtain ⟨front, back, rfl⟩ := List.append_of_mem hb
  have hmoved : (front ++ back ++ [b]).Perm (front ++ b :: back) := by
    rw [List.append_assoc]
    exact .append_left _ List.perm_append_comm
  rcases hy with rfl | hy
  · exact ⟨[], front ++ back ++ [b], hmoved, overwritten_concat _ hz⟩
  · refine ⟨front ++ back ++ [b], [], by rw [List.append_nil]; exact hmoved, ?_⟩
    rw [interleaved, overwritten_concat _ hz, hy]
    rfl

theorem coincides_of_serial {y : α} (hws : ws.filterMap eff ≠ []) (h : Serial eff f x ws y) :
    Coincides eff f ws y := by
  obtain ⟨before, after, hperm, rfl⟩ := h
  by_cases hafter : after.filterMap eff = []
  · have hbefore : before.filterMap eff ≠ [] := by
      intro hbefore
      have hnone := hperm.filterMap eff
      rw [List.filterMap_append, hbefore, hafter] at hnone
      exact hws hnone.symm.eq_nil
    obtain ⟨b, hb, hz⟩ := overwritten_mem x hbefore
    refine ⟨b, hperm.subset (List.mem_append_left _ hb), _, hz, ?_⟩
    rw [interleaved, overwritten_of_none _ hafter]
    cases hf : f (overwritten eff x before) with
    | none => exact .inl rfl
    | some y => exact .inr rfl
  · obtain ⟨b, hb, hz⟩ := overwritten_mem ((f (overwritten eff x before)).getD (overwritten eff x before)) hafter
    exact ⟨b, hperm.subset (List.mem_append_right _ hb), _, hz, .inl rfl⟩

/-- An update among blind writes is serial unless it overtakes them all and
what it wrote comes from none of them. -/
theorem serial_iff : Serial eff f x (before ++ between ++ after) (interleaved eff f x before between after) ↔
    (Overtakes eff before between after → ∀ y, f x = some y → Coincides eff f (before ++ between ++ after) y) := by
  constructor
  · intro h hover y hf
    rw [interleaved_of_overtakes hover hf] at h
    refine coincides_of_serial ?_ h
    intro hnone
    rw [List.filterMap_append, List.filterMap_append, List.append_eq_nil_iff, List.append_eq_nil_iff] at hnone
    exact hover.between hnone.1.2
  · intro h
    by_cases hover : Overtakes eff before between after
    · cases hf : f x with
      | none =>
        refine ⟨[], before ++ between ++ after, .refl _, ?_⟩
        simp only [interleaved, overwritten_append, overwritten_nil, overwritten_of_none _ hover.before,
          overwritten_of_none _ hover.after, hf, Option.getD_none]
      | some y =>
        rw [interleaved_of_overtakes hover hf]
        exact serial_of_coincides (h hover y hf)
    · exact serial_of_not_overtakes hover

end Lib
