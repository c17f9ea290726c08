/-!
# Texts

Two rules for the texts of values.

**Quoted text** stands between double quotes, with escapes for the quote, the backslash and the
control characters. All other characters stand for themselves; the inputs of this rule are ASCII.

The text of a value that has parts is **enclosed**: an opening, the parts, and a closing. On one
line the parts are divided by commas; in the wide form each part has lines of its own, indented by
one step and ended by a comma, and so have the lines of a part.
-/

namespace ProbeWindow.Text

/-! ### Quoted text -/

/-- A number in hexadecimal digits, lower case. -/
def hex (n : Nat) : String := String.ofList (Nat.toDigits 16 n)

/-- A character as it stands between quotes. -/
def escaped (c : Char) : String :=
  match c with
  | '"' => "\\\""
  | '\\' => "\\\\"
  | '\n' => "\\n"
  | '\r' => "\\r"
  | '\t' => "\\t"
  | '\x00' => "\\0"
  | c => if c.toNat < 0x20 || c.toNat == 0x7F then "\\u\x7b" ++ hex c.toNat ++ "\x7d" else c.toString

/-- A text between double quotes. -/
def quoted (s : String) : String := "\"" ++ String.join (s.toList.map escaped) ++ "\""

/-! ### Enclosed parts -/

/-- Whether parts share a line or have lines of their own. -/
inductive Spread where
  /-- All on one line. -/
  | compact
  /-- One line, or more, for each part. -/
  | wide
deriving DecidableEq, Repr

/-- A text moved one step to the right. -/
def indented (s : String) : String :=
  "    " ++ "\n    ".intercalate (s.splitOn "\n")

/-- The text of a value with parts. On one line, `margin` stands behind the opening and before
the closing. -/
def enclosed (spread : Spread) (opening margin closing : String) (parts : List String) : String :=
  if parts.isEmpty then
    opening ++ closing
  else
    match spread with
    | .compact => opening ++ margin ++ ", ".intercalate parts ++ margin ++ closing
    | .wide => opening ++ "\n" ++ String.join (parts.map fun p ↦ indented p ++ ",\n") ++ closing

/-- Parts between square brackets. -/
def listed (spread : Spread) (parts : List String) : String := enclosed spread "[" "" "]" parts

/-- Parts between braces. -/
def braced (spread : Spread) (parts : List String) : String :=
  enclosed spread "\x7b" "" "\x7d" parts

/-- A record: its name, then its fields between braces. -/
def record (spread : Spread) (name : String) (fields : List (String × String)) : String :=
  enclosed spread (name ++ " \x7b") " " "\x7d" (fields.map fun (field, value) ↦
    field ++ ": " ++ value)

/-- A text filled up with blanks on the left. -/
def padLeft (width : Nat) (s : String) : String := "".pushn ' ' (width - s.length) ++ s

/-- A number with at least so many decimal digits. -/
def zeroPadded (width n : Nat) : String := "".pushn '0' (width - (toString n).length) ++ toString n

end ProbeWindow.Text
