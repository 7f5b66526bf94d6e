/-
The escaped form of a text inside a single-quoted argument of the `drawtext`
filter. A backslash becomes four, a quote, a colon and the brackets get one in
front, and a percent sign gets two.
-/
namespace Montage

/-- What stands for one character. -/
def escapeChar (c : Char) : List Char :=
  match c with
  | '\\' => ['\\', '\\', '\\', '\\']
  | '\'' => ['\\', '\'']
  | ':' => ['\\', ':']
  | '[' => ['\\', '[']
  | ']' => ['\\', ']']
  | '%' => ['\\', '\\', '%']
  | c => [c]

/-- The escaped form of a text. -/
def escape (s : String) : String := String.ofList (s.toList.flatMap escapeChar)

end Montage
