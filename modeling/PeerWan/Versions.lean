import PeerWan.Lib.Runs
import PeerWan.Controller.Counters
import PeerWan.Controller.Effects

/-!
# Plan versions

Whether a change moves both counters forward together comes down to the
operations that a request performs on the pair.
-/

namespace PeerWan

open Lib
open CountingStore (view)

theorem int64_emod (v : Int) : int64 v % 2 ^ 64 = v % 2 ^ 64 := Int.bmod_emod

theorem int64_succ_ne (v : Int) : int64 (v + 1) ≠ v := by
  intro h
  have := int64_emod (v + 1)
  omega

theorem int64_of_bounds {v : Int} (h : 0 ≤ v) (h' : v < 2 ^ 63) : int64 v = v := by
  refine Int.bmod_eq_of_le ?_ ?_ <;> omega

-- ---------------------------------------------------------------------------
-- Both counters move forward
-- ---------------------------------------------------------------------------

variable {σ : Type} [NodeStore σ] [CountingStore σ]

def Request.ChangesPlans : Request → Prop
  | .register .. | .policy .. | .health .. | .rollback .. => True
  | .prepare .. | .plan .. => False

def Succeeds (host : Host) (c : Controller σ) (e : Env × Request) : Prop :=
  (serve host e.1 e.2 c).1.code = 200

def storedVersion (c : Controller σ) : Int := Reply.getD (NodeStore.getGlobalPlanVersion c.store).1 0

def Woken (host : Host) (c : Controller σ) (e : Env × Request) : Prop :=
  let c' := Request.step host e c
  c.planVersion < c'.planVersion ∧ storedVersion c < storedVersion c' ∧ c'.planVersion = storedVersion c'

def RollsForward (c : Controller σ) (e : Env × Request) : Prop :=
  match e.2 with
  | .rollback _ (some (_, version)) => c.planVersion < version ∧ storedVersion c < version
  | _ => False

/-- A judgement of requests, for runs that have other events as well. -/
def OnRequest (P : Controller σ → Env × Request → Prop) (c : Controller σ) (e : Env × Event) : Prop :=
  match e.2 with
  | .request r => P c (e.1, r)
  | _ => True

theorem storedVersion_eq (c : Controller σ) : storedVersion c = c.counters.stored := by
  rw [storedVersion, CountingStore.getGlobalPlanVersion]
  rfl

theorem Counters.after_saves (s : Counters) (k : Nat) :
    (s.after (.replicate (k + 1) .save)).plan = (s.after (.replicate (k + 1) .save)).stored := by
  rw [List.replicate_succ', Counters.after_append]
  rfl

theorem woken_iff (host : Host) (c : Controller σ) (e : Env × Request) (hr : e.2.ChangesPlans)
    (hs : Succeeds host c e) : Woken host c e ↔ RollsForward c e := by
  obtain ⟨env, r⟩ := e
  obtain ⟨ops, hops, hm⟩ := serve_moves host env r c
  have hplan : (serve host env r c).2.planVersion = (c.counters.after ops).plan := congrArg Counters.plan hm
  have hstored : storedVersion (serve host env r c).2 = (c.counters.after ops).stored := by
    rw [storedVersion_eq, hm]
  rw [Woken, Request.step, hplan, hstored, storedVersion_eq]
  rw [show decide ((serve host env r c).1.code = 200) = true from decide_eq_true hs] at hops
  cases hops with
  | unlisted => exact iff_of_false (by simp) id
  | @register k _ _ hk =>
    refine iff_of_false ?_ id
    rintro ⟨-, hlt, heq⟩
    rw [Counters.after_append] at hlt heq
    cases k with
    | zero => exact absurd hlt (lt_irrefl _)
    | succ k => exact int64_succ_ne _ ((congrArg (int64 <| · + 1) (Counters.after_saves ..).symm).trans heq)
  | prepare => exact hr.elim
  | policy => exact iff_of_false (fun h => absurd h.2.1 (lt_irrefl _)) id
  | health => exact iff_of_false (fun h => int64_succ_ne _ h.2.2) id
  | plan => exact hr.elim
  | rollback =>
    rw [RollsForward, storedVersion_eq]
    exact ⟨fun h => ⟨h.1, h.2.1⟩, fun h => ⟨h.1, h.2, rfl⟩⟩

/-- The counters move forward together along a run exactly where its changes
are rollbacks to versions past both. -/
theorem woken_along_iff (host : Host) (c : Controller σ) (es : List (Env × Event)) :
    Along (Event.step host) (OnRequest fun c e => e.2.ChangesPlans → Succeeds host c e → Woken host c e)
        c es ↔
      Along (Event.step host) (OnRequest fun c e => e.2.ChangesPlans → Succeeds host c e → RollsForward c e)
        c es := by
  refine along_congr (fun c e => ?_) c es
  obtain ⟨env, ev⟩ := e
  cases ev with
  | request r => exact forall_congr' fun hr => forall_congr' fun hs => woken_iff host c (env, r) hr hs
  | tick => exact .rfl
  | watch => exact .rfl
  | restart => exact .rfl

/-- A register saves plans and then bumps: the counter runs ahead of the store. -/
theorem register_leaves_stored_version_behind :
    ¬ Along (Event.step Host.sample)
      (OnRequest fun c e => e.2.ChangesPlans → Succeeds Host.sample c e → Woken Host.sample c e)
      (start MemoryStore.new)
      [({}, .request (.register { jwt := true } (some { id := "a", publicKey := "ka" })))] := by
  rintro ⟨h, -⟩
  exact absurd (h trivial rfl).2.2 (by decide)

end PeerWan
