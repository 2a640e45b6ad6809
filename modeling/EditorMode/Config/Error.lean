import EditorMode.Config
import EditorMode.Text.Quoted

/-! # Why a configuration is refused, in words -/

namespace EditorMode.ConfigError

/-- What a user reads. -/
def message : ConfigError → Text
  | zeroIndentUnit => "indent unit must be at least one column".toList
  | zeroTabSize => "tab size must be at least one column".toList
  | invalidAtom atom =>
    "extra atom ".toList ++ Text.quoted .unicode atom ++ " is not a lowercase bare word".toList
  | malformed detail => "malformed mode configuration: ".toList ++ detail

end EditorMode.ConfigError
