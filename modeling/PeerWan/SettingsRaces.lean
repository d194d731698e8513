import PeerWan.Controller.Settings
import PeerWan.LawfulStore
import PeerWan.Lib.Runs

/-!
# Settings that are posted at the same time

A request to a settings page makes at most two calls: `GetSettings` when it
loads, `UpdateSettings` when it has put its payload over what it loaded. It
writes all five fields back, so a field it does not send is safe only if it is
still stored as it was read, and was not filled in with a default.
-/

namespace PeerWan

open Lib

-- ---------------------------------------------------------------------------
-- Fields
-- ---------------------------------------------------------------------------

inductive SettingsField where
  | cacheDir | sourceV4 | sourceV6 | cacheTTL | pingInterval
  deriving DecidableEq, Repr

namespace SettingsField

def get : SettingsField → Settings → String
  | cacheDir, s => s.geoIP.cacheDir
  | sourceV4, s => s.geoIP.sourceV4
  | sourceV6, s => s.geoIP.sourceV6
  | cacheTTL, s => s.geoIP.cacheTTL
  | pingInterval, s => s.diag.pingInterval

/-- What a payload has for the field; a page does not have those of the other. -/
def sent : SettingsField → SettingsPatch → String
  | cacheDir, .geoIP cfg => cfg.cacheDir
  | sourceV4, .geoIP cfg => cfg.sourceV4
  | sourceV6, .geoIP cfg => cfg.sourceV6
  | cacheTTL, .geoIP cfg => cfg.cacheTTL
  | pingInterval, .diag cfg => cfg.pingInterval
  | _, _ => ""

def default (f : SettingsField) : String := f.get { geoIP := defaultGeoIP, diag := defaultDiag }

end SettingsField

theorem get_apply (f : SettingsField) (patch : SettingsPatch) (s : Settings) :
    f.get (patch.apply s) = if f.sent patch ≠ "" then f.sent patch else f.get s := by
  cases patch <;> cases f <;> rfl

theorem get_orDefault (f : SettingsField) (s : Settings) : f.get s.orDefault = orDefault (f.get s) f.default := by
  cases f <;> rfl

theorem settings_ext {s s' : Settings} (h : ∀ f : SettingsField, f.get s = f.get s') : s = s' := by
  obtain ⟨⟨v4, v6, dir, ttl⟩, ⟨ping⟩⟩ := s
  obtain ⟨⟨v4', v6', dir', ttl'⟩, ⟨ping'⟩⟩ := s'
  obtain rfl : v4 = v4' := h .sourceV4
  obtain rfl : v6 = v6' := h .sourceV6
  obtain rfl : dir = dir' := h .cacheDir
  obtain rfl : ttl = ttl' := h .cacheTTL
  obtain rfl : ping = ping' := h .pingInterval
  rfl

-- ---------------------------------------------------------------------------
-- Requests, call by call
-- ---------------------------------------------------------------------------

/-- An authorized request to one of the pages, with a payload that decodes. -/
inductive SettingsCall where
  | get
  | post (patch : SettingsPatch)
  deriving DecidableEq, Repr

inductive SettingsPhase where
  | waiting
  | read (r : Reply Settings)
  | done

/-- The settings that `loadSettingsOrDefault` makes of the answer. -/
def settingsOf : Reply Settings → Settings
  | .ok s => s.orDefault
  | .error _ => { geoIP := defaultGeoIP, diag := defaultDiag }

variable {σ : Type} [NodeStore σ]

/-- The next store call of a request, with what it does until the one after. -/
def settingsMove (call : SettingsCall) (phase : SettingsPhase) (st : σ) : SettingsPhase × σ :=
  match phase with
  | .waiting =>
    let (r, st) := NodeStore.getSettings st
    match call with
    | .get => (.done, st)
    | .post _ => (.read r, st)
  | .read r =>
    match call with
    | .get => (.done, st)
    | .post patch => (.done, (NodeStore.updateSettings (patch.apply (settingsOf r)) st).2)
  | .done => (.done, st)

theorem loadSettingsOrDefault_eq (st : σ) :
    loadSettingsOrDefault st = (settingsOf (NodeStore.getSettings st).1, (NodeStore.getSettings st).2) := by
  rw [loadSettingsOrDefault]
  rcases NodeStore.getSettings st with ⟨r, st'⟩
  cases r <;> rfl

/-- One after the other the calls are the post. -/
theorem settingsMoves (patch : α → SettingsPatch) (page : Settings → β) (cfg : α) (st : σ) :
    (fun x => settingsMove (.post (patch cfg)) x.1 x.2)^[2] (.waiting, st) =
      (.done, (postSettings patch page { jwt := true } (some cfg) st).2) := by
  rw [postSettings]
  simp only [Function.iterate_succ_apply, Function.iterate_zero_apply, settingsMove, loadSettingsOrDefault_eq,
    Bool.not_true, Bool.false_eq_true, if_false]
  generalize (patch cfg).apply (settingsOf (NodeStore.getSettings st).1) = s
  rcases NodeStore.updateSettings s (NodeStore.getSettings st).2 with ⟨r, st'⟩
  cases r <;> rfl

structure SettingsPages (σ : Type) (ι : Type) where
  store : σ
  phase : ι → SettingsPhase

namespace SettingsPages

variable {ι : Type} [DecidableEq ι]

def start (st : σ) : SettingsPages σ ι := ⟨st, fun _ => .waiting⟩

def step (calls : ι → SettingsCall) (i : ι) (s : SettingsPages σ ι) : SettingsPages σ ι :=
  let (phase, st) := settingsMove (calls i) (s.phase i) s.store
  ⟨st, Function.update s.phase i phase⟩

variable [LawfulStore σ]

def stored (s : SettingsPages σ ι) : Settings := LawfulStore.settings (LawfulStore.data s.store)

/-- The step changes no stored field but those its request sends. -/
def Respects (calls : ι → SettingsCall) (s : SettingsPages σ ι) (i : ι) : Prop :=
  ∀ f : SettingsField, f.get (step calls i s).stored ≠ f.get s.stored →
    ∃ patch, calls i = .post patch ∧ f.sent patch ≠ "" ∧ f.get (step calls i s).stored = f.sent patch

/-- The step writes what its post makes of the answer it read. -/
def WritesBack (calls : ι → SettingsCall) (s : SettingsPages σ ι) (i : ι) (r : Reply Settings)
    (patch : SettingsPatch) : Prop :=
  s.phase i = .read r ∧ calls i = .post patch ∧
    (NodeStore.updateSettings (patch.apply (settingsOf r)) s.store).1 = .ok ()

/-- A field is stored as it was read and not empty, or stored with its default
and was not read. -/
def UpToDate (r : Reply Settings) (now : Settings) (f : SettingsField) : Prop :=
  match r with
  | .ok s => (f.get now = f.get s ∧ f.get s ≠ "") ∨ (f.get now = f.default ∧ f.get s = "")
  | .error _ => f.get now = f.default

/-- Where a post takes effect, the fields that it does not send are up to date. -/
def Current (calls : ι → SettingsCall) (s : SettingsPages σ ι) (i : ι) : Prop :=
  ∀ r patch, WritesBack calls s i r patch → ∀ f, f.sent patch = "" → UpToDate r s.stored f

theorem upToDate_iff {r : Reply Settings} {now : Settings} {f : SettingsField} :
    UpToDate r now f ↔ f.get (settingsOf r) = f.get now := by
  cases r with
  | error err => exact eq_comm
  | ok s =>
    rw [settingsOf, get_orDefault, UpToDate, orDefault]
    by_cases hempty : f.get s = ""
    · rw [if_pos hempty]
      simpa [hempty] using eq_comm
    · rw [if_neg hempty]
      simpa [hempty] using eq_comm

-- ---------------------------------------------------------------------------
-- One call
-- ---------------------------------------------------------------------------

theorem stored_quiet {calls : ι → SettingsCall} {s : SettingsPages σ ι} {i : ι}
    (h : ∀ r patch, ¬ WritesBack calls s i r patch) : (step calls i s).stored = s.stored := by
  unfold step stored
  cases hphase : s.phase i with
  | waiting =>
    have hget := LawfulStore.getSettings_data s.store
    simp only [settingsMove]
    cases calls i <;> exact congrArg LawfulStore.settings hget
  | done => rfl
  | read r =>
    cases hcall : calls i with
    | get => rfl
    | post patch =>
      simp only [settingsMove]
      cases hup : (NodeStore.updateSettings (patch.apply (settingsOf r)) s.store).1 with
      | ok => exact absurd ⟨hphase, hcall, hup⟩ (h r patch)
      | error err => exact congrArg LawfulStore.settings (LawfulStore.updateSettings_error hup)

theorem stored_written {calls : ι → SettingsCall} {s : SettingsPages σ ι} {i : ι}
    (h : WritesBack calls s i r patch) : (step calls i s).stored = patch.apply (settingsOf r) := by
  obtain ⟨hphase, hcall, hup⟩ := h
  unfold step stored
  simp only [hphase, hcall, settingsMove]
  exact LawfulStore.updateSettings_ok hup

theorem respects_iff (calls : ι → SettingsCall) (s : SettingsPages σ ι) (i : ι) :
    Respects calls s i ↔ Current calls s i := by
  by_cases hwrites : ∃ r patch, WritesBack calls s i r patch
  · obtain ⟨r, patch, hw⟩ := hwrites
    have hwritten := stored_written hw
    constructor
    · rintro h r' patch' ⟨hphase', hcall', -⟩ f hsent
      obtain rfl : r = r' := SettingsPhase.read.inj (hw.1.symm.trans hphase')
      obtain rfl : patch = patch' := SettingsCall.post.inj (hw.2.1.symm.trans hcall')
      rw [upToDate_iff]
      by_contra hne
      have hkept : f.get (step calls i s).stored = f.get (settingsOf r) := by
        rw [hwritten, get_apply, if_neg (not_not.mpr hsent)]
      obtain ⟨patch', hcall', hsent', -⟩ := h f (hkept ▸ hne)
      obtain rfl : patch = patch' := SettingsCall.post.inj (hw.2.1.symm.trans hcall')
      exact hsent' hsent
    · intro h f hne
      rw [hwritten, get_apply] at hne ⊢
      refine ⟨patch, hw.2.1, ?_⟩
      by_cases hsent : f.sent patch = ""
      · rw [if_neg (not_not.mpr hsent)] at hne
        exact absurd (upToDate_iff.mp (h r patch hw f hsent)) hne
      · exact ⟨hsent, if_pos hsent⟩
  · have hquiet := stored_quiet fun r patch hw => hwrites ⟨r, patch, hw⟩
    refine iff_of_true (fun f hne => absurd (congrArg f.get hquiet) hne) fun r patch hw => ?_
    exact absurd ⟨r, patch, hw⟩ hwrites

-- ---------------------------------------------------------------------------
-- Every schedule
-- ---------------------------------------------------------------------------

/-- Whatever the schedule of the calls: the posts change only what they send
exactly when each that takes effect is up to date on everything else. -/
theorem settings_respected_iff (calls : ι → SettingsCall) (st : σ) (schedule : List ι) :
    Along (step calls) (Respects calls) (start st) schedule ↔
      Along (step calls) (Current calls) (start st) schedule :=
  along_congr (respects_iff calls) (start st) schedule

def posted (calls : ι → SettingsCall) (s : SettingsPages σ ι) (i : ι) : List SettingsPatch :=
  match s.phase i, calls i with
  | .read r, .post patch =>
    match (NodeStore.updateSettings (patch.apply (settingsOf r)) s.store).1 with
    | .ok () => [patch]
    | .error _ => []
  | _, _ => []

def postedAlong (calls : ι → SettingsCall) : SettingsPages σ ι → List ι → List SettingsPatch
  | _, [] => []
  | s, i :: is => posted calls s i ++ postedAlong calls (step calls i s) is

theorem stored_step {calls : ι → SettingsCall} {s : SettingsPages σ ι} {i : ι} (h : Current calls s i) :
    (step calls i s).stored = (posted calls s i).foldl (fun s patch => patch.apply s) s.stored := by
  by_cases hwrites : ∃ r patch, WritesBack calls s i r patch
  · obtain ⟨r, patch, hw⟩ := hwrites
    have hposted : posted calls s i = [patch] := by
      obtain ⟨hphase, hcall, hup⟩ := hw
      simp only [posted, hphase, hcall, hup]
    rw [hposted, stored_written hw]
    refine settings_ext fun f => ?_
    show f.get _ = f.get (patch.apply s.stored)
    rw [get_apply, get_apply]
    split
    next => rfl
    next hsent => exact upToDate_iff.mp (h r patch hw f (not_not.mp hsent))
  · have hposted : posted calls s i = [] := by
      unfold posted
      split
      next r patch hphase hcall =>
        split
        next hup => exact absurd ⟨r, patch, hphase, hcall, hup⟩ hwrites
        next => rfl
      next => rfl
    rw [hposted, stored_quiet fun r patch hw => hwrites ⟨r, patch, hw⟩]
    rfl

/-- In such a schedule no post is lost: each field ends with the last text that
was sent for it, or as it began. -/
theorem settings_after (calls : ι → SettingsCall) (s : SettingsPages σ ι) (schedule : List ι)
    (h : Along (step calls) (Current calls) s schedule) (f : SettingsField) :
    f.get (run (step calls) s schedule).stored =
      (((postedAlong calls s schedule).map f.sent).filter (· ≠ "")).getLastD (f.get s.stored) := by
  rw [← run_offer]
  induction schedule generalizing s with
  | nil => rfl
  | cons i is ih =>
    rw [run_cons, ih _ h.2, postedAlong, List.map_append, run_append, stored_step h.1]
    congr 1
    generalize posted calls s i = patches
    generalize s.stored = now
    induction patches generalizing now with
    | nil => rfl
    | cons patch patches ih =>
      rw [List.foldl_cons, ih, List.map_cons, run_cons, get_apply, offer_decide]

end SettingsPages

/-- A post to each page, both of which load before either writes: the second to
write puts the other page back as it was. -/
theorem settings_respected_counterexample : ¬ ∀ (calls : Bool → SettingsCall) (st : MemoryStore) (schedule : List Bool),
    Along (SettingsPages.step calls) (SettingsPages.Respects calls) (.start st) schedule := by
  intro h
  let calls (i : Bool) : SettingsCall :=
    if i then .post (.geoIP { cacheDir := "/var/cache/geoip" }) else .post (.diag { pingInterval := "5s" })
  obtain ⟨-, -, -, hlast, -⟩ := h calls MemoryStore.new [false, true, true, false]
  obtain ⟨patch, hcall, hsent, -⟩ := hlast .cacheDir (by decide)
  obtain rfl := SettingsCall.post.inj hcall
  exact hsent rfl

end PeerWan
