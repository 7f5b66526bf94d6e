/-
Settings taken from the environment.

A variable that is not set or empty has its default; so has a whole number that
cannot be read or is not positive.
-/
import Montage.Json.Value
import Montage.Number.Numeral
import Montage.Text.Utf8

namespace Montage

/-- The variables that are set, by name. -/
abbrev Environment := List (String × String)

/-- Why a variable cannot be set. -/
inductive BadVariable where
  | illTyped
  | unwritable (cause : Unwritable)
  | nullByte
  /-- An equals sign in a name. -/
  | badName
  | noName
deriving Repr

namespace Environment

/-- A text of the environment as it is written. -/
def written (s : String) : Except BadVariable Unit :=
  match Unwritable.find? isByteHalf s with
  | some u => .error (.unwritable u)
  | none => .ok ()

/-- The variables that fields set: texts without null characters, each character one that
can be written. -/
def read {α : Type} (fs : Fields α) : Except BadVariable Environment :=
  fs.mapM fun (name, value) => do
    written name
    let .text s := value | throw .illTyped
    written s
    if (name ++ s).contains '\x00' then throw .nullByte
    if name.contains '=' then throw .badName
    if name.isEmpty then throw .noName
    return (name, s)

/-- The value of a variable that is set and not empty. -/
def get? (env : Environment) (name : String) : Option String :=
  ((env.find? (·.1 == name)).map (·.2)).filter (!·.isEmpty)

/-- A positive whole number, or its default. -/
def positive (env : Environment) (name : String) (default : Nat) : Nat :=
  match (env.get? name).bind fun s => readWhole? s.toList with
  | some n => if 0 < n then n.toNat else default
  | none => default

/-- The program that renders. -/
def engine (env : Environment) : String := (env.get? "CLIPFORGE_FFMPEG_BIN").getD "ffmpeg"

/-- The font of overlays. -/
def font (env : Environment) : String :=
  (env.get? "CLIPFORGE_FONT_PATH").getD "/usr/share/fonts/truetype/dejavu/DejaVuSans.ttf"

/-- Where exports are written; none stands for the directory of temporary files. -/
def outputDir? (env : Environment) : Option String := env.get? "CLIPFORGE_OUTPUT_DIR"

/-- How many seconds the engine may take. -/
def renderTimeout (env : Environment) : Nat := env.positive "CLIPFORGE_RENDER_TIMEOUT" 600

/-- A timeout in seconds, that of the environment if what is given holds nothing. -/
def timeout {α : Type} [Scalar α] (env : Environment) (given : Json α) : Json α :=
  if given.isVoid then .int env.renderTimeout else given

/-- How many steps can be undone. -/
def historyLimit (env : Environment) : Nat := env.positive "CLIPFORGE_HISTORY_LIMIT" 50

/-- A limit of the history, that of the environment if what is given holds nothing. -/
def history {α : Type} [Scalar α] (env : Environment) (given : Json α) : Json α :=
  if given.isVoid then .int env.historyLimit else given

end Environment

end Montage
