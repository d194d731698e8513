import PeerWan.Controller.Handlers

/-!
# Posting settings

The POST parts of `/api/v1/settings/geoip` and `/api/v1/settings/diag`: what
the payload names is put over the settings as they are loaded, and the whole is
written back.
-/

namespace PeerWan

def GeoIPConfig.over (cfg base : GeoIPConfig) : GeoIPConfig where
  cacheDir := if cfg.cacheDir ≠ "" then cfg.cacheDir else base.cacheDir
  sourceV4 := if cfg.sourceV4 ≠ "" then cfg.sourceV4 else base.sourceV4
  sourceV6 := if cfg.sourceV6 ≠ "" then cfg.sourceV6 else base.sourceV6
  cacheTTL := if cfg.cacheTTL ≠ "" then cfg.cacheTTL else base.cacheTTL

def DiagConfig.over (cfg base : DiagConfig) : DiagConfig where
  pingInterval := if cfg.pingInterval ≠ "" then cfg.pingInterval else base.pingInterval

/-- A payload for one of the two pages. -/
inductive SettingsPatch where
  | geoIP (cfg : GeoIPConfig)
  | diag (cfg : DiagConfig)
  deriving DecidableEq, Repr

def SettingsPatch.apply : SettingsPatch → Settings → Settings
  | .geoIP cfg, s => { s with geoIP := cfg.over s.geoIP }
  | .diag cfg, s => { s with diag := cfg.over s.diag }

variable {σ : Type} [NodeStore σ]

/-- The answer is a page of the settings written, or a code with a text. -/
def postSettings (patch : α → SettingsPatch) (page : Settings → β) (auth : Credentials) (body : Option α)
    (st : σ) : Except (Nat × String) β × σ :=
  if !auth.jwt then (.error (401, "unauthorized"), st)
  else match body with
    | none => (.error (400, "invalid payload"), st)
    | some cfg =>
      let (s, st) := loadSettingsOrDefault st
      let s := (patch cfg).apply s
      match NodeStore.updateSettings s st with
      | (.error _, st) => (.error (500, "failed to save settings"), st)
      | (.ok (), st) => (.ok (page s), st)

def postGeoIP (auth : Credentials) (body : Option GeoIPConfig) (st : σ) : Except (Nat × String) GeoIPConfig × σ :=
  postSettings .geoIP Settings.geoIP auth body st

def postDiag (auth : Credentials) (body : Option DiagConfig) (st : σ) : Except (Nat × String) DiagConfig × σ :=
  postSettings .diag Settings.diag auth body st

end PeerWan
