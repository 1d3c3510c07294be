import WriteBack.Config.Reader

/-!
# WriteBack.Config.Load

A configuration from the contents of a file.
-/

namespace WriteBack.Config

/-- Why a file gives no configuration. -/
inductive LoadError where
  /-- There is no such file, or it is not UTF-8 text. -/
  | unreadable
  /-- The text is not a configuration. -/
  | malformed
deriving DecidableEq, Repr

/-- The wording of a refusal. -/
def LoadError.message : LoadError → String
  | .unreadable => "failed to read configuration: no UTF-8 text found"
  | .malformed => "failed to parse configuration: not a JSON configuration"

/-- The configuration in a file; `none` stands for a file that cannot be read. -/
def load (contents : Option ByteArray) : Except LoadError Config :=
  match contents.bind String.fromUTF8? with
  | none => .error .unreadable
  | some text =>
    match parse? text with
    | none => .error .malformed
    | some config => .ok config

end WriteBack.Config
