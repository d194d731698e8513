import PeerWan.Accounts

/-!
# Logging in

`handleLogin` of `pkg/api/auth.go`, the tokens of `pkg/auth/jwt.go`, and the
check of a bearer token, `authFuncJWT` of `pkg/api/deps.go`. A token says until
when it is good; nobody keeps it, and nothing takes it back. An account is made
by the one registration that `handleRegister` lets through.
-/

namespace PeerWan

open Lib

-- ---------------------------------------------------------------------------
-- Tokens
-- ---------------------------------------------------------------------------

/-- Times are in seconds. -/
structure Claims where
  userID : Nat
  username : String
  expiresAt : Option Int
  issuedAt : Option Int
  deriving DecidableEq, Repr

/-- The package jwt with the secret of the controller. What is signed reads back;
`read` gives the claims of a token whose signature is good. -/
structure Jwt where
  sign : Claims → String
  read : String → Option Claims
  read_sign : ∀ claims, read (sign claims) = some claims

/-- `NewNumericDate` cuts a time to its second. -/
def numericDate (t : Int) : Int := t.fdiv 1000000000

namespace Jwt

variable (jwt : Jwt)

def generate (now : Int) (userID : Nat) (username : String) (ttl : Int) : String :=
  jwt.sign {
    userID := userID
    username := username
    expiresAt := some (numericDate (now + ttl))
    issuedAt := some (numericDate now) }

/-- A token that says no expiry does not expire. -/
def parse (now : Int) (tokenStr : String) : Option Claims :=
  (jwt.read tokenStr).filter fun claims => claims.expiresAt.all fun e => now < e * 1000000000

def authFuncJWT (now : Int) (authorization : String) : Bool :=
  if "Bearer ".toList <+: authorization.toList then
    (jwt.parse now (String.ofList (authorization.toList.drop 7))).isSome
  else false

theorem parse_generate (now issued : Int) (userID : Nat) (username : String) (ttl : Int) :
    (jwt.parse now (jwt.generate issued userID username ttl)).isSome ↔
      now < numericDate (issued + ttl) * 1000000000 := by
  simp [parse, generate, jwt.read_sign]

theorem numericDate_le (t : Int) : numericDate t * 1000000000 ≤ t := by
  rw [numericDate, mul_comm]
  exact Int.mul_fdiv_self_le (by decide)

theorem authFuncJWT_bearer (now : Int) (token : String) :
    jwt.authFuncJWT now ("Bearer " ++ token) = (jwt.parse now token).isSome := by
  simp [authFuncJWT]

end Jwt

-- ---------------------------------------------------------------------------
-- The requests
-- ---------------------------------------------------------------------------

/-- The package bcrypt. A password of more than 72 bytes has no hash, which the
handler takes as the empty text, and no password fits the empty text. -/
structure Bcrypt where
  hash : String → String
  compare : String → String → Bool
  hash_long : ∀ password, 72 < password.utf8ByteSize → hash password = ""
  compare_empty : ∀ password, compare "" password = false

/-- `WHERE username = ?` compares by the collation of the column. -/
class LoginDB (δ : Type) extends UserDB δ where
  sameName : String → String → Bool
  find : String → δ → Reply User × δ
  find_users : ∀ name d, users (find name d).2 = users d
  find_ok : ∀ {name d user}, (find name d).1 = .ok user → user ∈ users d ∧ sameName user.username name = true

variable {δ : Type} [LoginDB δ]

def handleLogin (bcrypt : Bcrypt) (token : User → String) (req : AccountRequest) (d : δ) :
    Except (Nat × String) String × δ :=
  match req.checked with
  | .error refusal => (.error refusal, d)
  | .ok (username, password) =>
    match LoginDB.find username d with
    | (.error _, d) => (.error (401, "invalid credentials"), d)
    | (.ok user, d) =>
      if bcrypt.compare user.passwordHash password then (.ok (token user), d)
      else (.error (401, "invalid credentials"), d)

/-- What the controller works with: `userID` is the key that the database gives a user. -/
structure Portal where
  jwt : Jwt
  bcrypt : Bcrypt
  userID : User → Nat

def Portal.token (p : Portal) (now : Int) (user : User) : String :=
  p.jwt.generate now (p.userID user) user.username MemoryStore.day

inductive PortalEvent where
  | register (now : Int) (req : AccountRequest)
  | login (now : Int) (req : AccountRequest)
  deriving DecidableEq

def PortalEvent.now : PortalEvent → Int
  | .register now _ | .login now _ => now

def PortalEvent.request : PortalEvent → AccountRequest
  | .register _ req | .login _ req => req

def PortalEvent.serve (p : Portal) (e : PortalEvent) (d : δ) : Except (Nat × String) String × δ :=
  match e with
  | .register now req => handleRegister p.bcrypt.hash (p.token now) req d
  | .login now req => handleLogin p.bcrypt (p.token now) req d

structure Grant where
  token : String
  event : PortalEvent
  deriving DecidableEq

structure PortalState (δ : Type) where
  db : δ
  grants : List Grant := []

def PortalEvent.step (p : Portal) (e : PortalEvent) (s : PortalState δ) : PortalState δ where
  db := (e.serve p s.db).2
  grants := s.grants ++ match (e.serve p s.db).1 with
    | .ok token => [⟨token, e⟩]
    | .error _ => []

-- ---------------------------------------------------------------------------
-- What a request does
-- ---------------------------------------------------------------------------

def Bcrypt.newUser (bcrypt : Bcrypt) (username password : String) : User where
  username := username
  passwordHash := bcrypt.hash password
  isAdmin := true

/-- The request has the account's name, and the password that it was registered
with or one that fits its hash. -/
def PortalEvent.Opens (δ : Type) [LoginDB δ] (p : Portal) (user : User) (e : PortalEvent) : Prop :=
  ∃ username password, e.request.checked = .ok (username, password) ∧ match e with
    | .register _ _ => user = p.bcrypt.newUser username password
    | .login _ _ =>
      LoginDB.sameName δ user.username username = true ∧ p.bcrypt.compare user.passwordHash password = true

/-- A count that fails is read as no users. -/
def PortalEvent.Counts (s : PortalState δ) : PortalEvent → Prop
  | .register _ _ => ∃ n, (UserDB.count s.db).1 = .ok n
  | .login _ _ => True

section

variable {p : Portal} {e : PortalEvent} {d : δ} {s : PortalState δ} {token : String}

/-- While counts are answered, only a request that finds nobody makes a user. -/
theorem serve_register_cases (now : Int) (req : AccountRequest) (hcount : ∃ n, (UserDB.count d).1 = .ok n) :
    (∃ username password, req.checked = .ok (username, password) ∧ UserDB.users d = [] ∧
      (PortalEvent.serve p (.register now req) d).1 = .ok (p.token now (p.bcrypt.newUser username password)) ∧
      UserDB.users (PortalEvent.serve p (.register now req) d).2 = [p.bcrypt.newUser username password]) ∨
    ((∃ refusal, (PortalEvent.serve p (.register now req) d).1 = .error refusal) ∧
      UserDB.users (PortalEvent.serve p (.register now req) d).2 = UserDB.users d) := by
  obtain ⟨n, hn⟩ := hcount
  simp only [PortalEvent.serve, handleRegister, hn, Reply.getD_ok]
  cases hchecked : req.checked with
  | error refusal => exact .inr ⟨⟨refusal, rfl⟩, rfl⟩
  | ok checked =>
    obtain ⟨username, password⟩ := checked
    dsimp only
    split
    next => exact .inr ⟨⟨_, rfl⟩, UserDB.count_users d⟩
    next hzero =>
      have hnone : UserDB.users d = [] := by
        have hsize := UserDB.count_ok hn
        exact List.length_eq_zero_iff.mp (by omega)
      have hbefore : UserDB.users (UserDB.count d).2 = [] := (UserDB.count_users d).trans hnone
      cases hcreate : UserDB.create (p.bcrypt.newUser username password) (UserDB.count d).2 with
      | mk r d' =>
        simp only [Bcrypt.newUser] at hcreate
        rw [hcreate]
        cases r with
        | error err =>
          have hsame := UserDB.create_error (congrArg Prod.fst hcreate)
          rw [hcreate, hbefore] at hsame
          exact .inr ⟨⟨_, rfl⟩, hsame.trans hnone.symm⟩
        | ok =>
          have hadded := (UserDB.create_ok (congrArg Prod.fst hcreate)).1
          rw [hcreate, hbefore] at hadded
          exact .inl ⟨username, password, rfl, hnone, rfl, hadded⟩

/-- A login makes no user, and gets a token of one whose password it has. -/
theorem serve_login_cases (now : Int) (req : AccountRequest) :
    UserDB.users (PortalEvent.serve p (.login now req) d).2 = UserDB.users d ∧
    ((∃ user ∈ UserDB.users d, (PortalEvent.login now req).Opens δ p user ∧
      (PortalEvent.serve p (.login now req) d).1 = .ok (p.token now user)) ∨
    ∃ refusal, (PortalEvent.serve p (.login now req) d).1 = .error refusal) := by
  simp only [PortalEvent.serve, handleLogin]
  cases hchecked : req.checked with
  | error refusal => exact ⟨rfl, .inr ⟨refusal, rfl⟩⟩
  | ok checked =>
    obtain ⟨username, password⟩ := checked
    dsimp only
    have hkept := LoginDB.find_users username d
    cases hfind : LoginDB.find username d with
    | mk r d' =>
      rw [hfind] at hkept
      cases r with
      | error err => exact ⟨hkept, .inr ⟨_, rfl⟩⟩
      | ok user =>
        obtain ⟨hmem, hname⟩ := LoginDB.find_ok (congrArg Prod.fst hfind)
        dsimp only
        split
        next hfits => exact ⟨hkept, .inl ⟨user, hmem, ⟨username, password, hchecked, hname, hfits⟩, rfl⟩⟩
        next => exact ⟨hkept, .inr ⟨_, rfl⟩⟩

/-- There is one account at most, and it opened every token. -/
structure PortalState.Traced (p : Portal) (s : PortalState δ) : Prop where
  one : (UserDB.users s.db).length ≤ 1
  granted : ∀ g ∈ s.grants, ∃ user ∈ UserDB.users s.db,
    g.event.Opens δ p user ∧ g.token = p.token g.event.now user

theorem PortalState.Traced.grow {s s' : PortalState δ} (h : s.Traced p) (hone : (UserDB.users s'.db).length ≤ 1)
    (hkept : UserDB.users s.db ⊆ UserDB.users s'.db)
    (hnew : ∀ g ∈ s'.grants, g ∈ s.grants ∨ ∃ user ∈ UserDB.users s'.db,
      g.event.Opens δ p user ∧ g.token = p.token g.event.now user) : s'.Traced p := by
  refine ⟨hone, fun g hg => ?_⟩
  rcases hnew g hg with hold | hopened
  · obtain ⟨user, hmem, hopens⟩ := h.granted g hold
    exact ⟨user, hkept hmem, hopens⟩
  · exact hopened

theorem PortalState.Traced.step (h : s.Traced p) (hcounts : e.Counts s) : (e.step p s).Traced p := by
  cases e with
  | register now req =>
    rcases serve_register_cases (p := p) now req hcounts with
      ⟨username, password, hchecked, hnone, hgrant, hmade⟩ | ⟨⟨refusal, hrefused⟩, hkept⟩
    · refine h.grow ?_ ?_ fun g hg => ?_
      · exact (congrArg List.length hmade).le
      · rw [hnone]
        exact List.nil_subset _
      · simp only [PortalEvent.step, hgrant, List.mem_append, List.mem_singleton] at hg
        rcases hg with hold | rfl
        · exact .inl hold
        · refine .inr ⟨_, ?_, ⟨username, password, hchecked, rfl⟩, rfl⟩
          exact (congrArg (_ ∈ ·) hmade).mpr List.mem_cons_self
    · refine h.grow ?_ ?_ fun g hg => .inl ?_
      · exact (congrArg List.length hkept).trans_le h.one
      · exact fun user hmem => hkept.symm ▸ hmem
      · simpa [PortalEvent.step, hrefused] using hg
  | login now req =>
    obtain ⟨hkept, hgrant⟩ := serve_login_cases (p := p) (d := s.db) now req
    refine h.grow ((congrArg List.length hkept).trans_le h.one) (fun user hmem => hkept.symm ▸ hmem) fun g hg => ?_
    rcases hgrant with ⟨user, hmem, hopens, hgrant⟩ | ⟨refusal, hrefused⟩
    · simp only [PortalEvent.step, hgrant, List.mem_append, List.mem_singleton] at hg
      rcases hg with hold | rfl
      · exact .inl hold
      · exact .inr ⟨user, hkept.symm ▸ hmem, hopens, rfl⟩
    · exact .inl (by simpa [PortalEvent.step, hrefused] using hg)

theorem grants_step (p : Portal) (e : PortalEvent) (s : PortalState δ) :
    ∀ g ∈ (e.step p s).grants, g ∈ s.grants ∨ g.event = e := by
  intro g hg
  rw [PortalEvent.step, List.mem_append] at hg
  refine hg.imp_right fun hnew => ?_
  cases hr : (e.serve p s.db).1 with
  | error refusal => simp [hr] at hnew
  | ok token =>
    rw [hr] at hnew
    rw [List.mem_singleton.mp hnew]

theorem grants_run (p : Portal) (s : PortalState δ) (es : List PortalEvent) :
    ∀ g ∈ (run (PortalEvent.step p) s es).grants, g ∈ s.grants ∨ g.event ∈ es := by
  induction es generalizing s with
  | nil => exact fun g hg => .inl hg
  | cons e es ih =>
    intro g hg
    rcases ih (e.step p s) g hg with hold | hnew
    · rcases grants_step p e s g hold with hbefore | rfl
      · exact .inl hbefore
      · exact .inr List.mem_cons_self
    · exact .inr (List.mem_cons_of_mem e hnew)

theorem token_day (p : Portal) {now issued : Int} {user : User}
    (h : (p.jwt.parse now (p.token issued user)).isSome) : now < issued + MemoryStore.day :=
  ((p.jwt.parse_generate now issued _ _ _).mp h).trans_le (Jwt.numericDate_le _)

theorem bearer_of_authFuncJWT {jwt : Jwt} {now : Int} {authorization : String}
    (h : jwt.authFuncJWT now authorization) :
    ∃ token, authorization = "Bearer " ++ token ∧ (jwt.parse now token).isSome := by
  rw [Jwt.authFuncJWT] at h
  split at h
  next hbearer =>
    obtain ⟨rest, hrest⟩ := hbearer
    refine ⟨String.ofList rest, ?_, ?_⟩
    · rw [← String.ofList_toList (s := authorization), ← hrest, String.ofList_append, String.ofList_toList]
    · simpa [← hrest] using h
  next => cases h

end

/-- From an empty table on, whatever the order of the requests, while every count of
the accounts is answered: whom the controller lets in with a token that it signed
holds the token of a request of the last day, which registered the one account there
is or had a password that fits it. -/
theorem let_in_by_password (p : Portal) (d : δ) (hempty : UserDB.users d = []) (es : List PortalEvent)
    (hcounts : Along (PortalEvent.step p) (fun s e => e.Counts s) ⟨d, []⟩ es)
    (now : Int) (authorization : String) (hlet : p.jwt.authFuncJWT now authorization)
    (hsigned : ∀ token claims, authorization = "Bearer " ++ token → p.jwt.read token = some claims →
      ∃ g ∈ (run (PortalEvent.step p) (⟨d, []⟩ : PortalState δ) es).grants, g.token = token) :
    ∃ user, ∃ e ∈ es, UserDB.users (run (PortalEvent.step p) (⟨d, []⟩ : PortalState δ) es).db = [user] ∧
      authorization = "Bearer " ++ p.token e.now user ∧ e.Opens δ p user ∧ now < e.now + MemoryStore.day := by
  obtain ⟨token, rfl, hgood⟩ := bearer_of_authFuncJWT hlet
  obtain ⟨claims, hread⟩ : ∃ claims, p.jwt.read token = some claims := by
    rw [Jwt.parse, Option.isSome_filter, Option.any_eq_true] at hgood
    exact ⟨hgood.choose, hgood.choose_spec.1⟩
  obtain ⟨g, hg, rfl⟩ := hsigned token claims rfl hread
  have htraced := (throughout_of_along (I := PortalState.Traced p) (fun s e h hc => h.step hc)
    ⟨by simp [hempty], fun g hg => absurd hg List.not_mem_nil⟩ hcounts).final
  obtain ⟨user, hmem, hopens, htoken⟩ := htraced.granted g hg
  refine ⟨user, g.event, ?_, ?_, by rw [htoken], hopens, ?_⟩
  · exact (grants_run p _ es g hg).resolve_left List.not_mem_nil
  · obtain ⟨only, honly⟩ := List.length_eq_one_iff.mp
      (Nat.le_antisymm htraced.one (List.length_pos_of_mem hmem))
    rw [honly, List.mem_singleton] at hmem
    rw [honly, hmem]
  · exact token_day p (htoken ▸ hgood)

-- ---------------------------------------------------------------------------
-- A controller
-- ---------------------------------------------------------------------------

def cutDot (cs : List Char) : List Char × List Char :=
  (cs.takeWhile (· ≠ '.'), (cs.dropWhile (· ≠ '.')).tail)

theorem cutDot_append {front : List Char} (h : '.' ∉ front) (rest : List Char) :
    cutDot (front ++ '.' :: rest) = (front, rest) := by
  have hfront : ∀ c ∈ front, decide (c ≠ '.') := fun c hc => decide_eq_true fun heq => h (heq ▸ hc)
  rw [cutDot, List.takeWhile_append_of_pos hfront, List.dropWhile_append_of_pos hfront]
  simp

def readTime : List Char → Option Int
  | [] => none
  | c :: cs => some (if c = '-' then -digitsValue cs else digitsValue (c :: cs))

def writeTime (t : Option Int) : List Char := (t.map fun t => (toString t).toList).getD []

theorem readTime_writeTime (t : Option Int) : readTime (writeTime t) = t := by
  cases t with
  | none => rfl
  | some t =>
    rw [writeTime, Option.map_some, Option.getD_some, toList_toString_int]
    cases t with
    | ofNat n =>
      dsimp only
      have hvalue := digitsValue_toDigits n
      have hdigit : ∀ c ∈ Nat.toDigits 10 n, c.isDigit := fun c => isDigit_of_mem_numeral
      cases hds : Nat.toDigits 10 n with
      | nil => exact absurd hds Nat.toDigits_ne_nil
      | cons d ds =>
        rw [hds] at hvalue hdigit
        have hminus : d ≠ '-' := by
          rintro rfl
          exact absurd (hdigit _ List.mem_cons_self) (by decide)
        rw [readTime, if_neg hminus, hvalue]
        rfl
    | negSucc n =>
      simp only [readTime, digitsValue_toDigits, if_true]
      rfl

theorem dot_not_mem_writeTime (t : Option Int) : '.' ∉ writeTime t := by
  cases t with
  | none => exact List.not_mem_nil
  | some t => exact not_mem_toString rfl (by decide) t

def plainJwt : Jwt where
  sign claims := String.ofList <| Nat.toDigits 10 claims.userID ++ '.' :: (writeTime claims.expiresAt ++
    '.' :: (writeTime claims.issuedAt ++ '.' :: claims.username.toList))
  read token :=
    let (userID, rest) := cutDot token.toList
    let (expiresAt, rest) := cutDot rest
    let (issuedAt, username) := cutDot rest
    some ⟨digitsValue userID, String.ofList username, readTime expiresAt, readTime issuedAt⟩
  read_sign claims := by
    have hdot : '.' ∉ Nat.toDigits 10 claims.userID := fun h => absurd (isDigit_of_mem_numeral h) (by decide)
    simp [cutDot_append hdot, cutDot_append (dot_not_mem_writeTime _), readTime_writeTime, digitsValue_toDigits]

def plainBcrypt : Bcrypt where
  hash password := if 72 < password.utf8ByteSize then "" else "$2a$10$" ++ password
  compare hash password := hash == "$2a$10$" ++ password
  hash_long password h := if_pos h
  compare_empty password := by
    rw [beq_eq_false_iff_ne]
    exact fun h => absurd (congrArg String.toList h) (by simp)

instance instLoginDBUserTable : LoginDB UserTable where
  sameName a b := a == b
  find name t := ((t.rows.find? fun user => user.username == name).elim (.error "record not found") .ok, t)
  find_users _ _ := rfl
  find_ok {name t user} h := by
    dsimp only at h
    cases hfound : t.rows.find? fun user => user.username == name with
    | none =>
      rw [hfound] at h
      cases h
    | some found =>
      rw [hfound] at h
      cases h
      exact ⟨List.mem_of_find?_eq_some hfound, List.find?_some (p := fun user : User => user.username == name) hfound⟩

def plainPortal : Portal := ⟨plainJwt, plainBcrypt, fun _ => 1⟩

def firstDay : List PortalEvent :=
  [.register 0 { body := some ("admin", "secret") },
    .login (MemoryStore.day / 2) { body := some ("admin", "secret") }]

def firstDayEnd : PortalState UserTable := run (PortalEvent.step plainPortal) ⟨{}, []⟩ firstDay

theorem let_in_by_password_first_day : ∃ user, ∃ e ∈ firstDay, UserDB.users firstDayEnd.db = [user] ∧
    "Bearer 1.129600.43200.admin" = "Bearer " ++ plainPortal.token e.now user ∧
    e.Opens UserTable plainPortal user ∧ MemoryStore.day < e.now + MemoryStore.day := by
  refine let_in_by_password plainPortal ({} : UserTable) rfl firstDay ?_ MemoryStore.day
    "Bearer 1.129600.43200.admin" (by decide +kernel) ?_
  · exact (along_cons ..).mpr ⟨⟨0, rfl⟩, (along_cons ..).mpr ⟨trivial, trivial⟩⟩
  · intro token claims htoken _
    have htail : "1.129600.43200.admin" = token := by
      have hchars := congrArg (List.drop 7 ∘ String.toList) htoken
      exact String.toList_inj.mp (by simpa using hchars)
    refine ⟨⟨token, .login (MemoryStore.day / 2) { body := some ("admin", "secret") }⟩, ?_, rfl⟩
    rw [← htail]
    decide +kernel

-- ---------------------------------------------------------------------------
-- A password that is too long
-- ---------------------------------------------------------------------------

/-- The one account has a hash that no password fits. -/
def PortalState.Shut (user : User) (grants : List Grant) (s : PortalState δ) : Prop :=
  UserDB.users s.db = [user] ∧ user.passwordHash = "" ∧ s.grants = grants

theorem PortalState.Shut.step {p : Portal} {e : PortalEvent} {s : PortalState δ} {user : User}
    {grants : List Grant} (h : s.Shut user grants) (hcounts : e.Counts s) : (e.step p s).Shut user grants := by
  obtain ⟨husers, hhash, hgrants⟩ := h
  have hrefused : (∃ refusal, (e.serve p s.db).1 = .error refusal) ∧
      UserDB.users (e.serve p s.db).2 = UserDB.users s.db := by
    cases e with
    | register now req =>
      rcases serve_register_cases (p := p) now req hcounts with ⟨_, _, _, hnone, _⟩ | hrefused
      · rw [husers] at hnone
        cases hnone
      · exact hrefused
    | login now req =>
      obtain ⟨hkept, ⟨found, hmem, hopens, _⟩ | hrefused⟩ := serve_login_cases (p := p) (d := s.db) now req
      · obtain ⟨_, password, _, _, hfits⟩ := hopens
        rw [husers, List.mem_singleton] at hmem
        rw [hmem, hhash, p.bcrypt.compare_empty] at hfits
        cases hfits
      · exact ⟨hrefused, hkept⟩
  obtain ⟨⟨refusal, hr⟩, hkept⟩ := hrefused
  exact ⟨hkept.trans husers, hhash, by simp [PortalEvent.step, hr, hgrants]⟩

/-- Whoever registers with more than 72 bytes gets one token, for a day; after it nobody
logs in and, while every count of the accounts is answered, nobody registers. -/
theorem locked_out_by_long_password (p : Portal) (d : δ) (now : Int) (req : AccountRequest)
    (username password token : String) (hchecked : req.checked = .ok (username, password))
    (hlong : 72 < password.utf8ByteSize) (es : List PortalEvent)
    (hcounts : Along (PortalEvent.step p) (fun s e => e.Counts s) ⟨d, []⟩ (.register now req :: es))
    (hgranted : (PortalEvent.serve p (.register now req) d).1 = .ok token) :
    Throughout (PortalEvent.step p)
      (fun s => UserDB.users s.db = [⟨username, "", true⟩] ∧ s.grants = [⟨token, .register now req⟩])
      (PortalEvent.step p (.register now req) (⟨d, []⟩ : PortalState δ)) es := by
  have hshut : (PortalEvent.step p (.register now req) (⟨d, []⟩ : PortalState δ)).Shut
      ⟨username, "", true⟩ [⟨token, .register now req⟩] := by
    rcases serve_register_cases (p := p) now req hcounts.1 with
      ⟨username', password', hchecked', -, -, hmade⟩ | ⟨⟨refusal, hrefused⟩, -⟩
    · obtain ⟨rfl, rfl⟩ := Prod.ext_iff.mp (Except.ok.inj (hchecked.symm.trans hchecked'))
      refine ⟨?_, rfl, ?_⟩
      · rw [Bcrypt.newUser, p.bcrypt.hash_long password hlong] at hmade
        exact hmade
      · simp [PortalEvent.step, hgranted]
    · rw [hgranted] at hrefused
      cases hrefused
  exact (throughout_of_along (fun s e h hc => h.step hc) hshut hcounts.2).mono fun s h => ⟨h.1, h.2.2⟩

/-- Seventy-three letters, and the administrator comes back in vain. -/
theorem locked_out_after_first_day : Throughout (PortalEvent.step plainPortal)
    (fun s => UserDB.users s.db = [⟨"admin", "", true⟩] ∧
      s.grants = [⟨"1.86400.0.admin", .register 0 { body := some ("admin", String.ofList (.replicate 73 'x')) }⟩])
    (PortalEvent.step plainPortal (.register 0 { body := some ("admin", String.ofList (.replicate 73 'x')) })
      (⟨{}, []⟩ : PortalState UserTable))
    [.login 1 { body := some ("admin", String.ofList (.replicate 73 'x')) },
      .register 2 { body := some ("second", "secret") }] := by
  refine locked_out_by_long_password plainPortal ({} : UserTable) 0 _ "admin" (String.ofList (.replicate 73 'x'))
    "1.86400.0.admin" rfl (by decide +kernel) _ ?_ (by decide +kernel)
  exact (along_cons ..).mpr ⟨⟨0, rfl⟩,
    (along_cons ..).mpr ⟨trivial, (along_cons ..).mpr ⟨⟨1, by decide +kernel⟩, trivial⟩⟩⟩

end PeerWan
