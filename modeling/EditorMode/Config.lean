import EditorMode.Column
import EditorMode.Word

/-! # Configuration

A **configuration** fixes the indent steps, the tab size, the extra atoms and the way in which new
lines are indented.  Any values make a configuration; `check` tells those with which the mode
cannot work. -/

namespace EditorMode

/-- How the column of a new line is found. -/
inductive IndentStyle where
  /-- From the innermost open context. -/
  | contextual
  /-- By keeping the indentation of the line before. -/
  | preserve
  deriving DecidableEq, Repr

namespace IndentStyle

/-- The name of a style in a configuration. -/
def name : IndentStyle → String
  | contextual => "contextual"
  | preserve => "preserve"

/-- The style of a given name. -/
def ofName? (name : Text) : Option IndentStyle :=
  [contextual, preserve].find? fun style => style.name.toList == name

theorem ofName?_name (style : IndentStyle) : ofName? style.name.toList = some style := by
  cases style <;> decide

end IndentStyle

/-- The settings of the mode. -/
structure Config where
  /-- Columns added for each level of nesting. -/
  indentUnit : Nat := 4
  /-- Columns added when a statement or a call goes on; `indentUnit` if unset. -/
  statementIndentUnit : Option Nat := none
  /-- Distance of the tab stops. -/
  tabSize : Nat := 4
  /-- Words that are atoms even if they would otherwise be keywords or builtins. -/
  extraAtoms : WordSet := ∅
  indentStyle : IndentStyle := .contextual
  deriving DecidableEq

/-- Why a configuration is refused. -/
inductive ConfigError where
  | zeroIndentUnit
  | zeroTabSize
  | invalidAtom (atom : Text)
  /-- The text is not the JSON form of a configuration; what is wrong with it is said in words. -/
  | malformed (detail : Text)
  deriving DecidableEq, Repr

namespace Config

instance : Inhabited Config := ⟨{}⟩

/-- The columns added when a statement or a call goes on. -/
def continuationUnit (config : Config) : Nat :=
  config.statementIndentUnit.getD config.indentUnit

/-- The first thing about a configuration that the mode cannot work with.  The extra atoms are met
in some order, and it depends on this order which of several invalid ones is told. -/
def fault? (order : WordSet.Enumeration) (config : Config) : Option ConfigError :=
  if config.indentUnit = 0 then some .zeroIndentUnit
  else if config.tabSize = 0 then some .zeroTabSize
  else ((order.words config.extraAtoms).find? fun w => !Word.isBareAtom w).map .invalidAtom

/-- A configuration that the mode can work with, or what is wrong with it. -/
def check (order : WordSet.Enumeration) (config : Config) : Except ConfigError Config :=
  match config.fault? order with
  | some e => .error e
  | none => .ok config

variable {order : WordSet.Enumeration}

theorem check_eq_ok {config result : Config} :
    config.check order = .ok result ↔ result = config ∧ config.fault? order = none := by
  unfold check
  cases config.fault? order <;> simp [eq_comm]

theorem check_eq_error {config : Config} {e : ConfigError} :
    config.check order = .error e ↔ config.fault? order = some e := by
  unfold check
  cases config.fault? order <;> simp

/-- Exactly the configurations with positive steps whose extra atoms are bare words pass, whatever
the order in which the atoms are met. -/
theorem fault?_eq_none {config : Config} :
    config.fault? order = none ↔
      0 < config.indentUnit ∧ 0 < config.tabSize ∧
        ∀ w ∈ config.extraAtoms, Word.isBareAtom w := by
  unfold fault?
  split
  · simp_all
  · split
    · simp_all
    · simp only [Option.map_eq_none_iff, List.find?_eq_none, WordSet.Enumeration.mem_words,
        Bool.not_eq_true', Bool.not_eq_false]
      constructor
      · intro h
        exact ⟨by omega, by omega, h⟩
      · exact fun h => h.2.2

/-- The default configuration passes. -/
theorem check_default : check order {} = .ok {} :=
  check_eq_ok.mpr ⟨rfl, fault?_eq_none.mpr ⟨by decide, by decide, by simp⟩⟩

end Config
end EditorMode
