import PeerWan.Agent.GeoIP
import PeerWan.Lib.Files
import PeerWan.Lib.Pieces
import PeerWan.Lib.Runs

/-!
# The country files

`geoipPrefixes` of `pkg/policy/geoip.go` keeps what a source sends in one file
for each country, and takes the file as long as it is fresh. Renderings,
self-heals and checks ask for countries in their own goroutines, a plan changes
the settings, and nothing locks. A call is cut here where another may come
between: at each look at a file, request, opening and writing.

Nothing else touches the files.
-/

namespace PeerWan

open Lib

/-- What the package takes of Go's `unicode` and `time`. -/
structure GeoLib where
  lower : Char → Char
  upper : Char → Char
  parseDuration : String → Option Int

structure GeoConfig where
  cacheDir : String
  sourceV4 : String
  sourceV6 : String
  ttl : Int

/-- `SetConfig`. -/
def GeoConfig.set (lib : GeoLib) (cfg : GeoIPConfig) (c : GeoConfig) : GeoConfig where
  cacheDir := if cfg.cacheDir = "" then c.cacheDir else cfg.cacheDir
  sourceV4 := if cfg.sourceV4 = "" then c.sourceV4 else cfg.sourceV4
  sourceV6 := if cfg.sourceV6 = "" then c.sourceV6 else cfg.sourceV6
  ttl := if cfg.cacheTTL = "" then c.ttl else (lib.parseDuration cfg.cacheTTL).getD c.ttl

/-- The lower case first, as the sources name their files. -/
def countryCodes (lib : GeoLib) (cc : String) : List String :=
  let cc := trimSpace cc
  let low := String.ofList (cc.toList.map lib.lower)
  let up := String.ofList (cc.toList.map lib.upper)
  if up = low then [low] else [low, up]

def fileName (v6 : Bool) (code : String) : List Char :=
  'v' :: (if v6 then '6' else '4') :: '-' :: (code.toList ++ ".cidr".toList)

def cacheFile (dir : String) (v6 : Bool) (code : String) : String := joinPath dir (String.ofList (fileName v6 code))

structure CountryFile where
  content : String
  modTime : Int
  deriving DecidableEq

inductive CountryPhase where
  | asked
  | looking (source : String) (codes : List String)
  | fetching (source path code : String) (codes : List String)
  | writing (path code body : String)
  | filling (path code body : String)
  | answered (prefixes : List String)

structure CountryCall where
  cc : String
  v6 : Bool
  phase : CountryPhase := .asked

structure CountryText where
  v6 : Bool
  code : String
  path : String
  body : String

structure GeoCache where
  config : GeoConfig
  files : String → Option CountryFile
  calls : List CountryCall
  /-- All that was ever sent. No code reads it. -/
  served : List CountryText

def GeoCache.start (config : GeoConfig) : GeoCache where
  config := config
  files := fun _ => none
  calls := []
  served := []

structure CountryEnv where
  now : Int := 0
  /-- Whether the directory, the file to read or the file to write is there. -/
  fileOK : Bool := true
  body : Option String := none
  written : Nat := 0

structure CountryMove where
  phase : CountryPhase
  write : Option (String × CountryFile) := none
  served : Option CountryText := none

section

variable (lib : GeoLib) (env : CountryEnv) (config : GeoConfig) (files : String → Option CountryFile)

/-- `fresh`, and `os.ReadFile`. -/
def freshContent (path : String) : Option String :=
  match files path with
  | some file => if env.now - file.modTime < config.ttl ∧ env.fileOK then some file.content else none
  | none => none

def CountryCall.move (call : CountryCall) : CountryMove :=
  match call.phase with
  | .asked =>
    if trimSpace call.cc = "" ∨ env.fileOK = false then { phase := .answered [] }
    else { phase := .looking (if call.v6 then config.sourceV6 else config.sourceV4) (countryCodes lib call.cc) }
  | .looking _ [] => { phase := .answered [] }
  | .looking source (code :: codes) =>
    let path := cacheFile config.cacheDir call.v6 code
    match freshContent env config files path with
    | some content => { phase := .answered (PolicyHost.parseCIDRs content) }
    | none => { phase := .fetching source path code codes }
  | .fetching source path code codes =>
    match env.body with
    | none => { phase := .looking source codes }
    | some body => { phase := .writing path code body, served := some ⟨call.v6, code, path, body⟩ }
  | .writing path code body =>
    -- the file is truncated
    if env.fileOK then { phase := .filling path code body, write := some (path, ⟨"", env.now⟩) }
    else { phase := .answered (PolicyHost.parseCIDRs body) }
  | .filling path _ body =>
    let front := body.toList.take env.written
    let old := (files path).elim [] (·.content.toList)
    { phase := .answered (PolicyHost.parseCIDRs body)
      write := if front = [] then none else some (path, ⟨String.ofList (writeOver front old), env.now⟩) }
  | .answered prefixes => { phase := .answered prefixes }

end

inductive GeoEvent where
  | setConfig (cfg : GeoIPConfig)
  | ask (cc : String) (v6 : Bool)
  | move (i : Nat) (env : CountryEnv)
  /-- The agent starts again, with the settings of its environment. -/
  | restart (config : GeoConfig)

def GeoCache.apply (i : Nat) (m : CountryMove) (s : GeoCache) : GeoCache where
  config := s.config
  files := m.write.elim s.files fun w => Function.update s.files w.1 (some w.2)
  calls := s.calls.modify i fun call => { call with phase := m.phase }
  served := s.served ++ m.served.toList

def GeoEvent.step (lib : GeoLib) (e : GeoEvent) (s : GeoCache) : GeoCache :=
  match e with
  | .setConfig cfg => { s with config := s.config.set lib cfg }
  | .ask cc v6 => { s with calls := s.calls ++ [{ cc := cc, v6 := v6 }] }
  | .move i env =>
    match s.calls[i]? with
    | some call => s.apply i (call.move lib env s.config s.files)
    | none => s
  | .restart config => { s with config := config, calls := [] }

-- ---------------------------------------------------------------------------
-- A call on its own
-- ---------------------------------------------------------------------------

def GeoCache.host (lib : GeoLib) (env : CountryEnv) (source : Bool → String → Option String)
    (lookupIP : String → Option (List IP)) (s : GeoCache) : PolicyHost where
  lower := lib.lower
  upper := lib.upper
  cacheDir := env.fileOK
  cached v6 code := freshContent env s.config s.files (cacheFile s.config.cacheDir v6 code)
  httpGet := source
  lookupIP := lookupIP

/-- The next move of a call, to which the sources answer as they do. -/
def GeoCache.solo (lib : GeoLib) (env : CountryEnv) (source : Bool → String → Option String) (i : Nat)
    (s : GeoCache) : GeoCache :=
  match s.calls[i]? with
  | some call =>
    let body := match call.phase with
      | .fetching _ _ code _ => source call.v6 code
      | _ => none
    GeoEvent.step lib (.move i { env with body := body }) s
  | none => s

section

variable {lib : GeoLib} {env : CountryEnv} {source : Bool → String → Option String} {i : Nat} {s : GeoCache}
  {call : CountryCall}

def GeoCache.ComesTo (lib : GeoLib) (env : CountryEnv) (source : Bool → String → Option String) (i : Nat)
    (prefixes : List String) (s : GeoCache) : Prop :=
  ∃ n, (((GeoCache.solo lib env source i)^[n] s).calls[i]?).map (·.phase) = some (.answered prefixes)

theorem GeoCache.ComesTo.after {prefixes : List String}
    (h : (s.solo lib env source i).ComesTo lib env source i prefixes) : s.ComesTo lib env source i prefixes := by
  obtain ⟨n, hn⟩ := h
  exact ⟨n + 1, hn⟩

theorem calls_apply (m : CountryMove) (h : s.calls[i]? = some call) :
    (s.apply i m).calls[i]? = some { call with phase := m.phase } := by
  simp only [GeoCache.apply, List.getElem?_modify_eq, h, Option.map_eq_map, Option.map_some]

theorem comesTo_of_move {prefixes : List String} {body : Option String} (h : s.calls[i]? = some call)
    (hbody : (match call.phase with | .fetching _ _ code _ => source call.v6 code | _ => none) = body)
    (hnext : (s.apply i (call.move lib { env with body := body } s.config s.files)).ComesTo lib env source i prefixes) :
    s.ComesTo lib env source i prefixes := by
  refine .after ?_
  rw [GeoCache.solo, h]
  dsimp only
  rw [hbody, GeoEvent.step, h]
  exact hnext

theorem comesTo_answered {prefixes : List String} (h : s.calls[i]? = some call)
    (hphase : call.phase = .answered prefixes) : s.ComesTo lib env source i prefixes :=
  ⟨0, by rw [Function.iterate_zero, id_eq, h, Option.map_some, hphase]⟩

theorem comesTo_writing {path code body : String} (hok : env.fileOK = true) (h : s.calls[i]? = some call)
    (hphase : call.phase = .writing path code body) : s.ComesTo lib env source i (PolicyHost.parseCIDRs body) := by
  have hopen : call.move lib { env with body := none } s.config s.files =
      { phase := .filling path code body, write := some (path, ⟨"", env.now⟩) } := by
    simp only [CountryCall.move, hphase, hok, if_true]
  refine comesTo_of_move h (by rw [hphase]) ?_
  rw [hopen]
  have hfilling := calls_apply { phase := .filling path code body, write := some (path, ⟨"", env.now⟩) } h
  exact comesTo_of_move hfilling rfl (comesTo_answered (calls_apply _ hfilling) rfl)

theorem comesTo_looking {template : String} {codes : List String} (hok : env.fileOK = true)
    (h : s.calls[i]? = some call) (hphase : call.phase = .looking template codes) :
    s.ComesTo lib env source i (((codes.findSome? fun code =>
      (freshContent env s.config s.files (cacheFile s.config.cacheDir call.v6 code)).or (source call.v6 code)).map
        PolicyHost.parseCIDRs).getD []) := by
  induction codes generalizing s call with
  | nil =>
    refine comesTo_of_move h (by rw [hphase]) (comesTo_answered (calls_apply _ h) ?_)
    simp only [CountryCall.move, hphase]
    rfl
  | cons code codes ih =>
    have hmove : call.move lib { env with body := none } s.config s.files =
        match freshContent env s.config s.files (cacheFile s.config.cacheDir call.v6 code) with
        | some content => { phase := .answered (PolicyHost.parseCIDRs content) }
        | none => { phase := .fetching template (cacheFile s.config.cacheDir call.v6 code) code codes } := by
      simp only [CountryCall.move, hphase]
      rfl
    refine comesTo_of_move h (by rw [hphase]) ?_
    rw [hmove, List.findSome?_cons]
    cases freshContent env s.config s.files (cacheFile s.config.cacheDir call.v6 code) with
    | some content => exact comesTo_answered (calls_apply _ h) rfl
    | none =>
      have hfetching :=
        calls_apply { phase := .fetching template (cacheFile s.config.cacheDir call.v6 code) code codes } h
      rw [Option.none_or]
      cases hsource : source call.v6 code with
      | none =>
        have hrest := ih (calls_apply { phase := .looking template codes } hfetching) rfl
        exact comesTo_of_move hfetching hsource hrest
      | some body => exact comesTo_of_move hfetching hsource (comesTo_writing hok (calls_apply _ hfetching) rfl)

/-- A call that no other comes between is answered as `Agent.GeoIP` has it. -/
theorem solo_geoipPrefixes (lookupIP : String → Option (List IP)) (h : s.calls[i]? = some call)
    (hphase : call.phase = .asked) : s.ComesTo lib env source i
      ((s.host lib env source lookupIP).geoipPrefixes call.cc call.v6) := by
  have hcontent : (s.host lib env source lookupIP).geoipContent call.cc call.v6 =
      if trimSpace call.cc = "" ∨ env.fileOK = false then none
      else (countryCodes lib call.cc).findSome? fun code =>
        (freshContent env s.config s.files (cacheFile s.config.cacheDir call.v6 code)).or (source call.v6 code) := rfl
  have hmove : call.move lib { env with body := none } s.config s.files =
      if trimSpace call.cc = "" ∨ env.fileOK = false then { phase := .answered [] }
      else
        { phase := .looking (if call.v6 then s.config.sourceV6 else s.config.sourceV4)
            (countryCodes lib call.cc) } := by
    simp only [CountryCall.move, hphase]
  generalize (if call.v6 then s.config.sourceV6 else s.config.sourceV4) = template at hmove
  refine comesTo_of_move h (by rw [hphase]) ?_
  rw [PolicyHost.geoipPrefixes, hcontent, hmove]
  by_cases hnothing : trimSpace call.cc = "" ∨ env.fileOK = false
  · rw [if_pos hnothing, if_pos hnothing]
    exact comesTo_answered (calls_apply _ h) rfl
  · rw [if_neg hnothing, if_neg hnothing]
    have hok : env.fileOK = true := by simpa using (not_or.mp hnothing).2
    have hlooking := @comesTo_looking lib env source i _ _ _ _ hok
      (calls_apply { phase := .looking template (countryCodes lib call.cc) } h) rfl
    dsimp only [GeoCache.apply, Option.elim_none] at hlooking
    cases hfound : (countryCodes lib call.cc).findSome? fun code =>
      (freshContent env s.config s.files (cacheFile s.config.cacheDir call.v6 code)).or (source call.v6 code) with
    | none => 
      rw [hfound] at hlooking
      exact hlooking
    | some content =>
      rw [hfound] at hlooking
      exact hlooking

end

-- ---------------------------------------------------------------------------
-- File names
-- ---------------------------------------------------------------------------

theorem fileName_plain {code : String} (v6 : Bool) (h : '/' ∉ code.toList) : PlainName (fileName v6 code) where
  nonempty := by simp [fileName]
  dot := by simp [fileName]
  dots := by simp [fileName]
  slash := by
    rw [fileName, List.mem_cons, List.mem_cons, List.mem_cons, List.mem_append]
    cases v6 <;> simp [h]

theorem cacheFile_inj {dir dir' code code' : String} {v6 v6' : Bool} (h : '/' ∉ code.toList) (h' : '/' ∉ code'.toList)
    (heq : cacheFile dir v6 code = cacheFile dir' v6' code') : v6 = v6' ∧ code = code' := by
  have hname := name_eq_of_joinPath_eq (fileName_plain v6 h) (fileName_plain v6' h') heq
  injection hname with _ hrest
  injection hrest with hkind htail
  injection htail with _ htail
  refine ⟨?_, String.toList_inj.mp (List.append_cancel_right htail)⟩
  cases v6 <;> cases v6' <;> first | rfl | cases hkind

-- ---------------------------------------------------------------------------
-- Where contents come from
-- ---------------------------------------------------------------------------

def GeoCache.bodiesAt (s : GeoCache) (path : String) : List (List Char) :=
  (s.served.filter fun r => r.path = path).map (·.body.toList)

def GeoCache.bodies (s : GeoCache) (v6 : Bool) (code : String) : List (List Char) :=
  (s.served.filter fun r => r.v6 = v6 ∧ r.code = code).map (·.body.toList)

/-- No code of the country has a slash. -/
def PlainCountry (lib : GeoLib) (cc : String) : Prop := ∀ code ∈ countryCodes lib cc, '/' ∉ code.toList

def CountryPhase.Accounted (lib : GeoLib) (served : List CountryText) (cc : String) (v6 : Bool) : CountryPhase → Prop
  | .asked => True
  | .looking _ codes => ∀ code ∈ codes, code ∈ countryCodes lib cc
  | .fetching _ path code codes =>
    (∃ dir, path = cacheFile dir v6 code) ∧ ∀ code' ∈ code :: codes, code' ∈ countryCodes lib cc
  | .writing path code body => code ∈ countryCodes lib cc ∧ ⟨v6, code, path, body⟩ ∈ served
  | .filling path code body => code ∈ countryCodes lib cc ∧ ⟨v6, code, path, body⟩ ∈ served
  | .answered _ => True

structure CountryCall.Accounted (lib : GeoLib) (served : List CountryText) (call : CountryCall) : Prop where
  plain : PlainCountry lib call.cc
  phase : call.phase.Accounted lib served call.cc call.v6

structure CountryText.Accounted (r : CountryText) : Prop where
  path : ∃ dir, r.path = cacheFile dir r.v6 r.code
  plain : '/' ∉ r.code.toList

/-- What a file has was sent for it, piece by piece. -/
structure GeoCache.Accounted (lib : GeoLib) (s : GeoCache) : Prop where
  calls : ∀ call ∈ s.calls, call.Accounted lib s.served
  served : ∀ r ∈ s.served, r.Accounted
  files : ∀ path file, s.files path = some file → Pieced (s.bodiesAt path) file.content.toList

/-- What an answer may rest on: the text that the source sent, or the file of
the country while it is fresh. -/
inductive GeoCache.Supplies (s : GeoCache) (now : Int) (v6 : Bool) (code content : String) : Prop
  | sent (h : content.toList ∈ s.bodies v6 code)
  | kept (file : CountryFile) (h : s.files (cacheFile s.config.cacheDir v6 code) = some file)
      (hcontent : file.content = content) (hfresh : now - file.modTime < s.config.ttl)
      (hpieced : Pieced (s.bodies v6 code) content.toList)

section

variable {lib : GeoLib} {env : CountryEnv} {s : GeoCache} {call : CountryCall} {path code content : String} {v6 : Bool}

theorem GeoCache.Supplies.beginning {now : Int} {body : String} (h : s.Supplies now v6 code content)
    (hone : ∀ b ∈ s.bodies v6 code, b = body.toList) : content.toList <+: body.toList := by
  cases h with
  | sent hsent => exact (hone _ hsent) ▸ List.prefix_rfl
  | kept file h hcontent hfresh hpieced => exact hpieced.beginning hone

theorem mem_bodiesAt {r : CountryText} (h : r ∈ s.served) : r.body.toList ∈ s.bodiesAt r.path :=
  List.mem_map.mpr ⟨r, List.mem_filter.mpr ⟨h, decide_eq_true rfl⟩, rfl⟩

theorem mem_bodies {r : CountryText} (h : r ∈ s.served) : r.body.toList ∈ s.bodies r.v6 r.code :=
  List.mem_map.mpr ⟨r, List.mem_filter.mpr ⟨h, decide_eq_true ⟨rfl, rfl⟩⟩, rfl⟩

theorem bodiesAt_apply (i : Nat) (m : CountryMove) : (s.apply i m).bodiesAt path =
    s.bodiesAt path ++ (m.served.toList.filter fun r => r.path = path).map (·.body.toList) := by
  simp [GeoCache.bodiesAt, GeoCache.apply]

theorem GeoCache.Accounted.bodies_of_bodiesAt (h : s.Accounted lib) (hplain : '/' ∉ code.toList) {dir : String}
    {body : List Char} (hbody : body ∈ s.bodiesAt (cacheFile dir v6 code)) : body ∈ s.bodies v6 code := by
  obtain ⟨r, hr, rfl⟩ := List.mem_map.mp hbody
  obtain ⟨hmem, hpath⟩ := List.mem_filter.mp hr
  obtain ⟨dir', hdir⟩ := (h.served r hmem).path
  obtain ⟨rfl, rfl⟩ := cacheFile_inj (h.served r hmem).plain hplain (hdir.symm.trans (of_decide_eq_true hpath))
  exact mem_bodies hmem

theorem freshContent_eq_some {files : String → Option CountryFile} {config : GeoConfig} :
    freshContent env config files path = some content ↔
      ∃ file, files path = some file ∧ env.now - file.modTime < config.ttl ∧ env.fileOK ∧ file.content = content := by
  rw [freshContent]
  cases files path with
  | none => simp
  | some file => simp [and_assoc]

theorem CountryPhase.Accounted.mono {lib : GeoLib} {served served' : List CountryText} {cc : String} {v6 : Bool}
    {phase : CountryPhase} (h : phase.Accounted lib served cc v6) (hsub : served ⊆ served') :
    phase.Accounted lib served' cc v6 := by
  cases phase with
  | writing | filling => exact ⟨h.1, hsub h.2⟩
  | _ => exact h

structure CountryMove.Accounted (lib : GeoLib) (s : GeoCache) (now : Int) (call : CountryCall)
    (m : CountryMove) : Prop where
  phase : m.phase.Accounted lib (s.served ++ m.served.toList) call.cc call.v6
  served : ∀ r, m.served = some r → r.Accounted
  write : ∀ w, m.write = some w → Pieced (s.bodiesAt w.1) w.2.content.toList
  answers : ∀ ps, m.phase = .answered ps → call.phase = .answered ps ∨ ps = [] ∨
    ∃ code ∈ countryCodes lib call.cc, ∃ content, ps = PolicyHost.parseCIDRs content ∧
      s.Supplies now call.v6 code content

theorem GeoCache.Accounted.move (h : s.Accounted lib) (hcall : call ∈ s.calls) :
    (call.move lib env s.config s.files).Accounted lib s env.now call := by
  obtain ⟨hplain, hphase⟩ := h.calls call hcall
  rw [CountryCall.move]
  cases hp : call.phase with
  | asked =>
    dsimp only
    split
    · exact ⟨trivial, by rintro _ ⟨⟩, by rintro _ ⟨⟩, by rintro _ ⟨⟩; exact .inr (.inl rfl)⟩
    · exact ⟨fun code hcode => hcode, by rintro _ ⟨⟩, by rintro _ ⟨⟩, by rintro _ ⟨⟩⟩
  | looking source codes =>
    rw [hp] at hphase
    cases codes with
    | nil => exact ⟨trivial, by rintro _ ⟨⟩, by rintro _ ⟨⟩, by rintro _ ⟨⟩; exact .inr (.inl rfl)⟩
    | cons code codes =>
      have hcode : code ∈ countryCodes lib call.cc := hphase code List.mem_cons_self
      dsimp only
      split
      next content hfresh =>
        obtain ⟨file, hfile, hnow, -, hcontent⟩ := freshContent_eq_some.mp hfresh
        refine ⟨trivial, by rintro _ ⟨⟩, by rintro _ ⟨⟩, ?_⟩
        rintro _ ⟨⟩
        refine .inr (.inr ⟨code, hcode, content, rfl, .kept file hfile hcontent hnow ?_⟩)
        exact (hcontent ▸ h.files _ file hfile).mono fun body hbody => h.bodies_of_bodiesAt (hplain code hcode) hbody
      next => exact ⟨⟨⟨_, rfl⟩, hphase⟩, by rintro _ ⟨⟩, by rintro _ ⟨⟩, by rintro _ ⟨⟩⟩
  | fetching source path code codes =>
    rw [hp] at hphase
    obtain ⟨hpath, hcodes⟩ := hphase
    have hcode := hcodes code List.mem_cons_self
    dsimp only
    split
    next =>
      exact ⟨fun code' hmem => hcodes code' (List.mem_cons_of_mem _ hmem), by rintro _ ⟨⟩, by rintro _ ⟨⟩,
        by rintro _ ⟨⟩⟩
    next body hbody =>
      refine ⟨⟨hcode, by simp⟩, ?_, by rintro _ ⟨⟩, by rintro _ ⟨⟩⟩
      rintro _ ⟨⟩
      exact ⟨hpath, hplain code hcode⟩
  | writing path code body =>
    rw [hp] at hphase
    dsimp only
    split
    · refine ⟨⟨hphase.1, List.mem_append_left _ hphase.2⟩, by rintro _ ⟨⟩, ?_, by rintro _ ⟨⟩⟩
      rintro _ ⟨⟩
      exact pieced_nil _
    · refine ⟨trivial, by rintro _ ⟨⟩, by rintro _ ⟨⟩, ?_⟩
      rintro _ ⟨⟩
      exact .inr (.inr ⟨code, hphase.1, body, rfl, .sent (mem_bodies hphase.2)⟩)
  | filling path code body =>
    rw [hp] at hphase
    refine ⟨trivial, by rintro _ ⟨⟩, ?_, ?_⟩
    · intro w hw
      dsimp only at hw
      split at hw
      · cases hw
      · obtain rfl := Option.some.inj hw
        rw [String.toList_ofList]
        refine (pieced_take (mem_bodiesAt hphase.2) _).writeOver ?_
        cases hfile : s.files path with
        | none => exact pieced_nil _
        | some file => exact h.files path file hfile
    · rintro _ ⟨⟩
      exact .inr (.inr ⟨code, hphase.1, body, rfl, .sent (mem_bodies hphase.2)⟩)
  | answered prefixes =>
    refine ⟨trivial, by rintro _ ⟨⟩, by rintro _ ⟨⟩, ?_⟩
    rintro _ ⟨⟩
    exact .inl hp

theorem GeoCache.Accounted.apply (h : s.Accounted lib) {i : Nat} (hi : s.calls[i]? = some call) {now : Int}
    {m : CountryMove} (hm : m.Accounted lib s now call) : (s.apply i m).Accounted lib where
  calls := by
    refine forall_mem_modify (fun a ha => ?_) fun a ha => ?_
    · exact ⟨(h.calls a ha).plain, (h.calls a ha).phase.mono (List.subset_append_left ..)⟩
    · obtain rfl := Option.some.inj (hi.symm.trans ha)
      exact ⟨(h.calls call (List.mem_of_getElem? hi)).plain, hm.phase⟩
  served r hr := by
    rcases List.mem_append.mp hr with hold | hnew
    · exact h.served r hold
    · exact hm.served r (Option.mem_toList.mp hnew)
  files path file hfile := by
    refine Pieced.mono ?_ fun body hbody => (bodiesAt_apply i m).symm ▸ List.mem_append_left _ hbody
    simp only [GeoCache.apply] at hfile
    cases hw : m.write with
    | none =>
      rw [hw] at hfile
      exact h.files path file hfile
    | some w =>
      simp only [hw, Option.elim_some, Function.update_apply] at hfile
      split at hfile
      next heq =>
        rw [heq, ← Option.some.inj hfile]
        exact hm.write w hw
      next => exact h.files path file hfile

/-- Who asks, asks for a country whose codes are plain. -/
def GeoEvent.AsksPlainly (lib : GeoLib) (e : GeoEvent) : Prop := ∀ cc v6, e = .ask cc v6 → PlainCountry lib cc

theorem GeoCache.Accounted.step (h : s.Accounted lib) {e : GeoEvent} (he : e.AsksPlainly lib) :
    (e.step lib s).Accounted lib := by
  cases e with
  | setConfig cfg => exact ⟨h.calls, h.served, h.files⟩
  | ask cc v6 =>
    refine ⟨fun call hcall => ?_, h.served, h.files⟩
    rcases List.mem_append.mp hcall with hold | hnew
    · exact h.calls call hold
    · obtain rfl := List.mem_singleton.mp hnew
      exact ⟨he cc v6 rfl, trivial⟩
  | move i env =>
    rw [GeoEvent.step]
    cases hi : s.calls[i]? with
    | none => exact h
    | some call => exact h.apply hi (h.move (List.mem_of_getElem? hi))
  | restart config => exact ⟨by rintro _ ⟨⟩, h.served, h.files⟩

theorem accounted_start (config : GeoConfig) : (GeoCache.start config).Accounted lib where
  calls := by rintro _ ⟨⟩
  served := by rintro _ ⟨⟩
  files := by rintro _ _ ⟨⟩

end

/-- A call that comes to its answer has nothing, or what the text of its country
is parsed to. -/
def GeoEvent.AnswersFrom (lib : GeoLib) (s : GeoCache) (e : GeoEvent) : Prop :=
  ∀ i env call call' ps, e = .move i env → s.calls[i]? = some call → (e.step lib s).calls[i]? = some call' →
    call'.phase = .answered ps → call.phase = .answered ps ∨ ps = [] ∨
      ∃ code ∈ countryCodes lib call.cc, ∃ content, ps = PolicyHost.parseCIDRs content ∧
        s.Supplies env.now call.v6 code content

/-- However calls, plans and restarts come between one another, an answer rests
on what a source sent for the country: on all of it, or on a file that was
written to less than its time to live ago and has at each place what some text
sent for the country has there. -/
theorem countries_answered (lib : GeoLib) (config : GeoConfig) (es : List GeoEvent)
    (hplain : ∀ e ∈ es, e.AsksPlainly lib) :
    Along (GeoEvent.step lib) (fun s e => e.AnswersFrom lib s) (.start config) es := by
  refine along_of_permitted (I := GeoCache.Accounted lib) (p := GeoEvent.AsksPlainly lib)
    (fun s e h he => h.step he) (fun s e h _ => ?_)
    (accounted_start config) hplain
  rintro i env call call' ps rfl hi hi' hps
  rw [GeoEvent.step, hi] at hi'
  dsimp only [GeoCache.apply] at hi'
  rw [List.getElem?_modify_eq, hi] at hi'
  obtain rfl := Option.some.inj hi'
  exact (h.move (List.mem_of_getElem? hi)).answers ps hps

def asciiLib : GeoLib where
  lower := Char.toLower
  upper := Char.toUpper
  parseDuration _ := none

def tmpConfig : GeoConfig where
  cacheDir := "/tmp/peer-wan-geoip"
  sourceV4 := "http://source/%s"
  sourceV6 := "http://source6/%s"
  ttl := 10

def firstLookup : List GeoEvent := [.ask "CN" false, .move 0 {}, .move 0 {}, .move 0 { body := some "1.0.1.0/24" },
  .move 0 {}, .move 0 { written := 10 }]

theorem firstLookup_plain : ∀ e ∈ firstLookup, e.AsksPlainly asciiLib := by
  intro e he cc v6 hask
  subst hask
  simp only [firstLookup, List.mem_cons, GeoEvent.ask.injEq, List.not_mem_nil, reduceCtorEq, or_false] at he
  obtain ⟨rfl, rfl⟩ := he
  show ∀ code ∈ countryCodes asciiLib "CN", '/' ∉ code.toList
  decide +kernel

theorem countries_answered_first :
    Along (GeoEvent.step asciiLib) (fun s e => e.AnswersFrom asciiLib s) (.start tmpConfig) firstLookup :=
  countries_answered asciiLib tmpConfig firstLookup firstLookup_plain

-- ---------------------------------------------------------------------------
-- While a file is fresh
-- ---------------------------------------------------------------------------

/-- The file that a call has found stale and may write. -/
def CountryPhase.path? : CountryPhase → Option String
  | .fetching _ path _ _ => some path
  | .writing path _ _ => some path
  | .filling path _ _ => some path
  | _ => none

/-- The file of a country, which nobody is about to write. -/
structure GeoCache.Settled (v6 : Bool) (code : String) (file : CountryFile) (s : GeoCache) : Prop where
  file : s.files (cacheFile s.config.cacheDir v6 code) = some file
  idle : ∀ call ∈ s.calls, call.phase.path? ≠ some (cacheFile s.config.cacheDir v6 code)

/-- The country is the first that the call looks for. -/
structure CountryCall.Asks (lib : GeoLib) (v6 : Bool) (code : String) (call : CountryCall) : Prop where
  v6 : call.v6 = v6
  named : trimSpace call.cc ≠ ""
  first : (countryCodes lib call.cc).head? = some code

/-- The directory stays, and who looks for the country can read its file and
finds it fresh. -/
def GeoEvent.Calm (lib : GeoLib) (v6 : Bool) (code : String) (file : CountryFile) (s : GeoCache) : GeoEvent → Prop
  | .setConfig cfg => (s.config.set lib cfg).cacheDir = s.config.cacheDir
  | .ask cc _ => PlainCountry lib cc
  | .move i env => ∀ call, s.calls[i]? = some call → call.v6 = v6 → code ∈ countryCodes lib call.cc →
      env.fileOK = true ∧ env.now - file.modTime < s.config.ttl
  | .restart _ => False

/-- What a call for the country may have come to. -/
def CountryPhase.Agrees (lib : GeoLib) (cc content : String) : CountryPhase → Prop
  | .asked => True
  | .looking _ codes => codes = countryCodes lib cc
  | .answered prefixes => prefixes = PolicyHost.parseCIDRs content
  | _ => False

/-- What has become of `before`, where the country's file is `file`. -/
structure GeoCache.Steady (lib : GeoLib) (v6 : Bool) (code : String) (file : CountryFile)
    (s before : GeoCache) : Prop where
  accounted : s.Accounted lib
  settled : s.Settled v6 code file
  dir : s.config.cacheDir = before.config.cacheDir
  sent : s.bodiesAt (cacheFile s.config.cacheDir v6 code) = before.bodiesAt (cacheFile s.config.cacheDir v6 code)
  since : ∀ i call, before.calls.length ≤ i → s.calls[i]? = some call → call.Asks lib v6 code →
    call.phase.Agrees lib call.cc file.content

section

variable {lib : GeoLib} {env : CountryEnv} {before s : GeoCache} {call : CountryCall} {code : String} {v6 : Bool}
  {file : CountryFile}

structure CountryMove.Spares (path : String) (m : CountryMove) : Prop where
  phase : m.phase.path? ≠ some path
  write : ∀ w, m.write = some w → w.1 ≠ path
  served : ∀ r, m.served = some r → r.path ≠ path

theorem GeoCache.Settled.move (h : s.Settled v6 code file) (hcode : '/' ∉ code.toList)
    (hcall : call.Accounted lib s.served) (hmem : call ∈ s.calls)
    (hcalm : call.v6 = v6 → code ∈ countryCodes lib call.cc →
      env.fileOK = true ∧ env.now - file.modTime < s.config.ttl) :
    (call.move lib env s.config s.files).Spares (cacheFile s.config.cacheDir v6 code) ∧
      (call.Asks lib v6 code → call.phase.Agrees lib call.cc file.content →
        (call.move lib env s.config s.files).phase.Agrees lib call.cc file.content) := by
  have hidle := h.idle call hmem
  obtain ⟨hplain, hphase⟩ := hcall
  rw [CountryCall.move]
  cases hp : call.phase with
  | asked =>
    dsimp only
    split
    next hnothing =>
      refine ⟨⟨by rintro ⟨⟩, by rintro _ ⟨⟩, by rintro _ ⟨⟩⟩, fun hasks _ => ?_⟩
      have hfirst : code ∈ countryCodes lib call.cc := List.mem_of_mem_head? hasks.first
      rcases hnothing with hempty | hdir
      · exact absurd hempty hasks.named
      · rw [(hcalm hasks.v6 hfirst).1] at hdir
        cases hdir
    next => exact ⟨⟨by rintro ⟨⟩, by rintro _ ⟨⟩, by rintro _ ⟨⟩⟩, fun _ _ => rfl⟩
  | looking source codes =>
    rw [hp] at hphase
    cases codes with
    | nil =>
      refine ⟨⟨by rintro ⟨⟩, by rintro _ ⟨⟩, by rintro _ ⟨⟩⟩, fun hasks hagrees => ?_⟩
      have hnone := hasks.first
      rw [← show [] = countryCodes lib call.cc from hagrees] at hnone
      cases hnone
    | cons c codes =>
      have hc : c ∈ countryCodes lib call.cc := hphase c List.mem_cons_self
      by_cases hpath : cacheFile s.config.cacheDir call.v6 c = cacheFile s.config.cacheDir v6 code
      · obtain ⟨hv6, rfl⟩ := cacheFile_inj (hplain c hc) hcode hpath
        obtain ⟨hok, hfresh⟩ := hcalm hv6 hc
        have hcontent : freshContent env s.config s.files (cacheFile s.config.cacheDir call.v6 c) = some file.content :=
          freshContent_eq_some.mpr ⟨file, hpath ▸ h.file, hfresh, hok, rfl⟩
        dsimp only
        rw [hcontent]
        exact ⟨⟨by rintro ⟨⟩, by rintro _ ⟨⟩, by rintro _ ⟨⟩⟩, fun _ _ => rfl⟩
      · dsimp only
        refine ⟨?_, fun hasks hagrees => ?_⟩
        · split
          · exact ⟨by rintro ⟨⟩, by rintro _ ⟨⟩, by rintro _ ⟨⟩⟩
          · exact ⟨fun heq => hpath (Option.some.inj heq), by rintro _ ⟨⟩, by rintro _ ⟨⟩⟩
        · have hfirst := hasks.first
          rw [← show c :: codes = countryCodes lib call.cc from hagrees] at hfirst
          rw [hasks.v6, Option.some.inj hfirst] at hpath
          exact absurd rfl hpath
  | fetching source path c codes =>
    rw [hp] at hidle
    refine ⟨?_, fun _ hagrees => hagrees.elim⟩
    dsimp only
    split
    next => exact ⟨by rintro ⟨⟩, by rintro _ ⟨⟩, by rintro _ ⟨⟩⟩
    next => exact ⟨hidle, by rintro _ ⟨⟩, by rintro _ ⟨⟩; exact fun heq => hidle (congrArg some heq)⟩
  | writing path c body =>
    rw [hp] at hidle
    refine ⟨?_, fun _ hagrees => hagrees.elim⟩
    dsimp only
    split
    · exact ⟨hidle, by rintro _ ⟨⟩; exact fun heq => hidle (congrArg some heq), by rintro _ ⟨⟩⟩
    · exact ⟨by rintro ⟨⟩, by rintro _ ⟨⟩, by rintro _ ⟨⟩⟩
  | filling path c body =>
    rw [hp] at hidle
    refine ⟨⟨by rintro ⟨⟩, fun w hw => ?_, by rintro _ ⟨⟩⟩, fun _ hagrees => hagrees.elim⟩
    dsimp only at hw
    split at hw
    · cases hw
    · obtain rfl := Option.some.inj hw
      exact fun heq => hidle (congrArg some heq)
  | answered prefixes => exact ⟨⟨by rintro ⟨⟩, by rintro _ ⟨⟩, by rintro _ ⟨⟩⟩, fun _ hagrees => hagrees⟩

theorem GeoCache.Steady.apply (h : s.Steady lib v6 code file before) {i : Nat} (hi : s.calls[i]? = some call)
    {m : CountryMove} {now : Int} (hm : m.Accounted lib s now call)
    (hspares : m.Spares (cacheFile s.config.cacheDir v6 code))
    (hagrees : call.Asks lib v6 code → call.phase.Agrees lib call.cc file.content →
      m.phase.Agrees lib call.cc file.content) : (s.apply i m).Steady lib v6 code file before where
  accounted := h.accounted.apply hi hm
  settled := by
    refine ⟨?_, forall_mem_modify h.settled.idle fun a _ => hspares.phase⟩
    show (m.write.elim s.files fun w => Function.update s.files w.1 (some w.2)) _ = some file
    cases hw : m.write with
    | none => exact h.settled.file
    | some w => exact (Function.update_of_ne (hspares.write w hw).symm ..).trans h.settled.file
  dir := h.dir
  sent := by
    have hnone : (m.served.toList.filter fun r => r.path = cacheFile s.config.cacheDir v6 code) = [] :=
      List.filter_eq_nil_iff.mpr fun r hr => by simpa using hspares.served r (Option.mem_toList.mp hr)
    show (s.apply i m).bodiesAt (cacheFile s.config.cacheDir v6 code) = _
    rw [bodiesAt_apply, hnone, List.map_nil, List.append_nil]
    exact h.sent
  since j a hj ha hasks := by
    simp only [GeoCache.apply, List.getElem?_modify] at ha
    obtain ⟨b, hb, rfl⟩ := Option.map_eq_some_iff.mp ha
    have hold := h.since j b hj hb
    by_cases hij : i = j
    · subst hij
      obtain rfl := Option.some.inj (hi.symm.trans hb)
      rw [if_pos rfl] at hasks ⊢
      have hasked : call.Asks lib v6 code := ⟨hasks.v6, hasks.named, hasks.first⟩
      exact hagrees hasked (hold hasked)
    · rw [if_neg hij] at hasks ⊢
      exact hold hasks

theorem GeoCache.Steady.step (h : s.Steady lib v6 code file before) (hcode : '/' ∉ code.toList) {e : GeoEvent}
    (he : e.Calm lib v6 code file s) : (e.step lib s).Steady lib v6 code file before := by
  cases e with
  | setConfig cfg =>
    have hdir : (s.config.set lib cfg).cacheDir = s.config.cacheDir := he
    have haccounted : (GeoEvent.step lib (.setConfig cfg) s).Accounted lib :=
      GeoCache.Accounted.step (e := .setConfig cfg) h.accounted (by rintro _ _ ⟨⟩)
    refine ⟨haccounted, ?_, hdir.trans h.dir, ?_, h.since⟩
    · constructor <;> simp only [GeoEvent.step, hdir]
      · exact h.settled.file
      · exact h.settled.idle
    · simp only [GeoEvent.step, hdir]
      exact h.sent
  | ask cc v6' =>
    have haccounted : (GeoEvent.step lib (.ask cc v6') s).Accounted lib :=
      GeoCache.Accounted.step (e := .ask cc v6') h.accounted (by rintro _ _ ⟨⟩; exact he)
    refine ⟨haccounted, ⟨h.settled.file, fun call hcall => ?_⟩, h.dir, h.sent, fun i call hlen hi hasks => ?_⟩
    · rcases List.mem_append.mp hcall with hold | hnew
      · exact h.settled.idle call hold
      · obtain rfl := List.mem_singleton.mp hnew
        rintro ⟨⟩
    · rw [GeoEvent.step, List.getElem?_append] at hi
      split at hi
      · exact h.since i call hlen hi hasks
      · obtain rfl := List.mem_singleton.mp (List.mem_of_getElem? hi)
        trivial
  | move i env =>
    rw [GeoEvent.step]
    cases hi : s.calls[i]? with
    | none => exact h
    | some call =>
      have hmem := List.mem_of_getElem? hi
      obtain ⟨hspares, hagrees⟩ := h.settled.move hcode (h.accounted.calls call hmem) hmem (he call hi)
      exact h.apply hi (h.accounted.move hmem) hspares hagrees
  | restart config => exact he.elim

end

/-- From when the file of a country is there and nobody is about to write it:
as long as the directory stays and the file is fresh for those who look, it
stays, the source is not asked for it, and every later call that looks for it
first is answered what it is parsed to, whoever else comes between. -/
theorem country_file_serves (lib : GeoLib) (config : GeoConfig) (es₀ es : List GeoEvent) (v6 : Bool) (code : String)
    (file : CountryFile) (hplain : ∀ e ∈ es₀, e.AsksPlainly lib) (hcode : '/' ∉ code.toList)
    (hsettled : (run (GeoEvent.step lib) (.start config) es₀).Settled v6 code file) :
    let s := run (GeoEvent.step lib) (.start config) es₀
    let s' := run (GeoEvent.step lib) s es
    Along (GeoEvent.step lib) (fun s e => e.Calm lib v6 code file s) s es →
      s'.Settled v6 code file ∧ s'.bodiesAt (cacheFile s.config.cacheDir v6 code) =
        s.bodiesAt (cacheFile s.config.cacheDir v6 code) ∧
      ∀ i call ps, s.calls.length ≤ i → s'.calls[i]? = some call → call.Asks lib v6 code →
        call.phase = .answered ps → ps = PolicyHost.parseCIDRs file.content := by
  intro s s' hcalm
  have haccounted : s.Accounted lib := (throughout_of_permitted (I := GeoCache.Accounted lib)
    (p := GeoEvent.AsksPlainly lib) (fun s e h he => h.step he) (accounted_start config) hplain).final
  have hstart : s.Steady lib v6 code file s := by
    refine ⟨haccounted, hsettled, rfl, rfl, fun i call hlen hi => ?_⟩
    rw [List.getElem?_eq_none hlen] at hi
    cases hi
  have hsteady : s'.Steady lib v6 code file s :=
    (throughout_of_along (I := fun s' => s'.Steady lib v6 code file s) (fun _ _ h he => h.step hcode he) hstart
      hcalm).final
  refine ⟨hsteady.settled, hsteady.dir ▸ hsteady.sent, fun i call ps hlen hi hasks hps => ?_⟩
  have hagrees := hsteady.since i call hlen hi hasks
  rw [hps] at hagrees
  exact hagrees

/-- A second call, while the file of the first is fresh. -/
theorem country_file_serves_second :
    let s := run (GeoEvent.step asciiLib) (.start tmpConfig) firstLookup
    let s' := run (GeoEvent.step asciiLib) s [.ask "cn" false, .move 1 { now := 5 }, .move 1 { now := 6 }]
    s'.Settled false "cn" ⟨"1.0.1.0/24", 0⟩ ∧ s'.bodiesAt (cacheFile s.config.cacheDir false "cn") =
        s.bodiesAt (cacheFile s.config.cacheDir false "cn") ∧
      ∀ i call ps, s.calls.length ≤ i → s'.calls[i]? = some call → call.Asks asciiLib false "cn" →
        call.phase = .answered ps → ps = PolicyHost.parseCIDRs "1.0.1.0/24" := by
  refine country_file_serves asciiLib tmpConfig firstLookup _ false "cn" ⟨"1.0.1.0/24", 0⟩ firstLookup_plain (by decide)
    ⟨by decide +kernel, by decide +kernel⟩ ⟨?_, ?_, ?_, trivial⟩
  · show ∀ code ∈ countryCodes asciiLib "cn", '/' ∉ code.toList
    decide +kernel
  · rintro call - - -
    exact ⟨rfl, by decide +kernel⟩
  · rintro call - - -
    exact ⟨rfl, by decide +kernel⟩

end PeerWan
