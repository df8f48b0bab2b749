import TrialRouting.Config
import TrialRouting.Document.Toml

/-!
# TrialRouting.Config.Written

Settings that are written in TOML. They are used only if every setting is valid.
-/

namespace TrialRouting

/-- Why written settings are refused. -/
inductive ConfigError where
  | unreadable
  | malformed
  | invalid (setting : InvalidSetting)
  deriving DecidableEq, Repr

namespace ConfigError

/-- The name of the cause. -/
def name : ConfigError → String
  | .unreadable => "Io"
  | .malformed => "Parse"
  | .invalid _ => "Invalid"

end ConfigError

namespace Config

/-- Reads settings and checks them. -/
def ofToml (text : String) : Except ConfigError Config :=
  match (Document.Toml.parse? text).bind (decode? .toml) with
  | none => .error .malformed
  | some config =>
    match config.validate with
    | .error setting => .error (.invalid setting)
    | .ok () => .ok config

end Config

end TrialRouting
