import PeerWan.Controller.Routes
import PeerWan.Lib.Runs

/-!
# Registering the administrator

`handleRegister` of `pkg/api/auth.go` asks the database how many users there
are and creates one if there are none. Nothing holds the two calls together,
and a count that fails is read as none. The database only keeps usernames
unique.
-/

namespace PeerWan

open Lib

structure User where
  username : String
  passwordHash : String
  isAdmin : Bool
  deriving DecidableEq, Repr

/-- The users' database as the handlers see it. Each call may fail; a create
that is answered has added the user, whose name was new. -/
class UserDB (δ : Type) where
  users : δ → List User
  count : δ → Reply Nat × δ
  create : User → δ → Reply Unit × δ
  count_users : ∀ d, users (count d).2 = users d
  count_ok : ∀ {n d}, (count d).1 = .ok n → n = (users d).length
  create_ok : ∀ {u d}, (create u d).1 = .ok () →
    users (create u d).2 = users d ++ [u] ∧ u.username ∉ (users d).map User.username
  create_error : ∀ {u err d}, (create u d).1 = .error err → users (create u d).2 = users d

/-- What comes to `/api/v1/auth/register`: a username and a password, if the
body decodes. -/
structure AccountRequest where
  method : Method := .post
  body : Option (String × String)
  deriving DecidableEq, Repr

/-- The name and the password of a request that is not refused at once. -/
def AccountRequest.checked (req : AccountRequest) : Except (Nat × String) (String × String) :=
  if req.method ≠ .post then .error (405, "method not allowed")
  else match req.body with
    | none => .error (400, "invalid payload")
    | some (username, password) =>
      if username = "" ∨ password = "" then .error (400, "invalid payload") else .ok (username, password)

variable {δ : Type} [UserDB δ]

/-- `hash` is bcrypt, which gives nothing for a password it does not take, and
`token` what a created user logs in with. -/
def handleRegister (hash : String → String) (token : User → String) (req : AccountRequest) (d : δ) :
    Except (Nat × String) String × δ :=
  match req.checked with
  | .error refusal => (.error refusal, d)
  | .ok (username, password) =>
    let (count, d) := UserDB.count d
    if Reply.getD count 0 > 0 then (.error (403, "registration closed"), d)
    else
      let user : User := { username := username, passwordHash := hash password, isAdmin := true }
      match UserDB.create user d with
      | (.error _, d) => (.error (500, "failed to create user"), d)
      | (.ok (), d) => (.ok (token user), d)

-- ---------------------------------------------------------------------------
-- Requests, call by call
-- ---------------------------------------------------------------------------

/-- Where a request is: before its count, or past it with the user to create. -/
inductive AccountPhase where
  | waiting
  | counted (count : Reply Nat) (user : User)
  | done
  deriving DecidableEq

def accountMove (hash : String → String) (req : AccountRequest) (phase : AccountPhase) (d : δ) :
    AccountPhase × δ :=
  match phase with
  | .waiting => match req.checked with
    | .error _ => (.done, d)
    | .ok (username, password) =>
      let (count, d) := UserDB.count d
      if Reply.getD count 0 > 0 then (.done, d)
      else (.counted count { username := username, passwordHash := hash password, isAdmin := true }, d)
  | .counted _ user => (.done, (UserDB.create user d).2)
  | .done => (.done, d)

/-- One after the other the calls are the request. -/
theorem accountMoves (hash : String → String) (token : User → String) (req : AccountRequest) (d : δ) :
    (fun x => accountMove hash req x.1 x.2)^[2] (.waiting, d) = (.done, (handleRegister hash token req d).2) := by
  simp only [Function.iterate_succ_apply, Function.iterate_zero_apply, accountMove, handleRegister]
  cases req.checked with
  | error refusal => rfl
  | ok checked =>
    obtain ⟨username, password⟩ := checked
    dsimp only
    by_cases hcount : Reply.getD (UserDB.count d).1 0 > 0
    · simp only [if_pos hcount]
    · simp only [if_neg hcount]
      rcases UserDB.create _ (UserDB.count d).2 with ⟨r, d'⟩
      cases r <;> rfl

structure Registrations (δ : Type) (ι : Type) where
  db : δ
  phase : ι → AccountPhase

namespace Registrations

variable {ι : Type} [DecidableEq ι]

def start (d : δ) : Registrations δ ι := ⟨d, fun _ => .waiting⟩

def step (hash : String → String) (reqs : ι → AccountRequest) (i : ι) (s : Registrations δ ι) : Registrations δ ι :=
  let (phase, d) := accountMove hash (reqs i) (s.phase i) s.db
  ⟨d, Function.update s.phase i phase⟩

def size (s : Registrations δ ι) : Nat := (UserDB.users s.db).length

/-- The next call of the request creates a user, and the database takes it. -/
def Creates (s : Registrations δ ι) (i : ι) (count : Reply Nat) (user : User) : Prop :=
  s.phase i = .counted count user ∧ (UserDB.create user s.db).1 = .ok ()

/-- The count is still the number of users; one that failed holds as long as
nobody has registered since there were `n`. -/
def CountHolds (n : Nat) (s : Registrations δ ι) : Reply Nat → Prop
  | .ok count => count = s.size
  | .error _ => s.size = n

def Guarded (n : Nat) (s : Registrations δ ι) (i : ι) : Prop :=
  ∀ count user, Creates s i count user → CountHolds n s count

/-- Whoever is past a count that was answered has found an empty table. -/
structure Passed (n : Nat) (s : Registrations δ ι) : Prop where
  grown : n ≤ s.size
  counted : ∀ i count user, s.phase i = .counted (.ok count) user → count = 0 ∧ n = 0

-- ---------------------------------------------------------------------------
-- One call
-- ---------------------------------------------------------------------------

variable {hash : String → String} {reqs : ι → AccountRequest} {s : Registrations δ ι} {i : ι} {n : Nat}

theorem size_created (h : Creates s i count user) : (step hash reqs i s).size = s.size + 1 := by
  obtain ⟨hphase, hok⟩ := h
  simp only [step, size, hphase, accountMove, (UserDB.create_ok hok).1, List.length_append, List.length_singleton]

theorem size_quiet (h : ∀ count user, ¬ Creates s i count user) : (step hash reqs i s).size = s.size := by
  unfold step size
  cases hphase : s.phase i with
  | done => rfl
  | waiting =>
    simp only [accountMove]
    split
    next => rfl
    next =>
      split
      · exact congrArg List.length (UserDB.count_users s.db)
      · exact congrArg List.length (UserDB.count_users s.db)
  | counted count user =>
    cases hcreate : (UserDB.create user s.db).1 with
    | ok => exact absurd ⟨hphase, hcreate⟩ (h count user)
    | error err => exact congrArg List.length (UserDB.create_error hcreate)

theorem counted_ok {req : AccountRequest} {phase : AccountPhase} {d : δ} {count : Nat} {user : User}
    (h : (accountMove hash req phase d).1 = .counted (.ok count) user) :
    count = 0 ∧ (UserDB.users d).length = 0 := by
  cases phase with
  | counted count' user' => cases h
  | done => cases h
  | waiting =>
    rw [accountMove] at h
    split at h
    next => cases h
    next =>
      dsimp only at h
      split at h
      next => cases h
      next hzero =>
        obtain ⟨hcount, -⟩ := AccountPhase.counted.inj h
        rw [hcount, Reply.getD_ok] at hzero
        have hsize := UserDB.count_ok hcount
        omega

theorem Passed.step (h : Passed n s) : Passed n (step hash reqs i s) := by
  constructor
  · by_cases hcreates : ∃ count user, Creates s i count user
    · obtain ⟨count, user, hc⟩ := hcreates
      rw [size_created hc]
      exact Nat.le_succ_of_le h.grown
    · rw [size_quiet fun count user hc => hcreates ⟨count, user, hc⟩]
      exact h.grown
  · intro j count user hphase
    by_cases hj : j = i
    · subst hj
      obtain ⟨hzero, hnone⟩ := counted_ok (show (accountMove hash (reqs j) (s.phase j) s.db).1 = _ by
        simpa [Registrations.step] using hphase)
      exact ⟨hzero, Nat.le_zero.mp (h.grown.trans_eq hnone)⟩
    · refine h.counted j count user ?_
      simpa [Registrations.step, Function.update_of_ne hj] using hphase

theorem guarded_iff (h : Passed n s) (hone : s.size ≤ n + 1) :
    (step hash reqs i s).size ≤ n + 1 ↔ Guarded n s i := by
  by_cases hcreates : ∃ count user, Creates s i count user
  · obtain ⟨count, user, hc⟩ := hcreates
    have hgrown := h.grown
    have hguarded : Guarded n s i ↔ CountHolds n s count := by
      refine ⟨fun hguard => hguard count user hc, fun hholds count' user' hc' => ?_⟩
      obtain ⟨rfl, -⟩ := AccountPhase.counted.inj (hc.1.symm.trans hc'.1)
      exact hholds
    rw [size_created hc, hguarded]
    cases count with
    | error err => exact ⟨fun hle => show s.size = n by omega, fun hnone => Nat.add_le_add_right (le_of_eq hnone) 1⟩
    | ok count =>
      obtain ⟨hzero, hn⟩ := h.counted i count user hc.1
      show s.size + 1 ≤ n + 1 ↔ count = s.size
      omega
  · rw [size_quiet fun count user hc => hcreates ⟨count, user, hc⟩]
    exact iff_of_true hone fun count user hc => absurd ⟨count, user, hc⟩ hcreates

/-- Whatever the schedule: at most one user is registered exactly when every
count that a user is created on still holds. -/
theorem one_registered_iff (hash : String → String) (reqs : ι → AccountRequest) (d : δ) (schedule : List ι) :
    Throughout (step hash reqs) (fun s => s.size ≤ (UserDB.users d).length + 1) (start d) schedule ↔
      Along (step hash reqs) (Guarded (UserDB.users d).length) (start d) schedule := by
  refine throughout_iff_along (I := Passed (UserDB.users d).length) (fun s i h => h.step)
    (fun s i h hone => guarded_iff h hone) ?_ (Nat.le_succ _)
  exact ⟨le_refl _, fun i count user h => by cases h⟩

end Registrations

-- ---------------------------------------------------------------------------
-- A table of users
-- ---------------------------------------------------------------------------

structure UserTable where
  rows : List User := []
  deriving DecidableEq, Repr

instance : UserDB UserTable where
  users t := t.rows
  count t := (.ok t.rows.length, t)
  create u t :=
    if u.username ∈ t.rows.map User.username then (.error "UNIQUE constraint failed: users.username", t)
    else (.ok (), ⟨t.rows ++ [u]⟩)
  count_users _ := rfl
  count_ok h := (Except.ok.inj h).symm
  create_ok h := by
    split at h
    next => cases h
    next hnew => exact ⟨by rw [if_neg hnew], hnew⟩
  create_error h := by
    split at h
    next hold => rw [if_pos hold]
    next => cases h

/-- Two requests count an empty table, and both become administrators. -/
theorem one_registered_counterexample : ¬ ∀ (hash : String → String) (reqs : Bool → AccountRequest)
    (d : UserTable) (schedule : List Bool), Throughout (Registrations.step hash reqs)
      (fun s => s.size ≤ (UserDB.users d).length + 1) (.start d) schedule := by
  intro h
  have hrun := h id (fun i => { body := some (if i then "alice" else "mallory", "secret") }) {}
    [true, false, true, false]
  exact absurd hrun.final (by decide)

end PeerWan
