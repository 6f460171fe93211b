import Piecemeal.Literal.Unprintable
import Piecemeal.Literal.Combining

/-!
# Quoted literals

How characters, texts, bytes and lists are written out in messages and renderings. Inside
quotes every character is written so that it can be seen: the usual short escapes for the
controls that have one, a backslash before the delimiter and before a backslash, and the code
point in hexadecimal for a character that is unprintable or would merge with the one before it.
-/

namespace Piecemeal.Literal

/-- The digits of a number in base sixteen, lower case, without padding. -/
def hex (n : Nat) : List Char := Nat.toDigits 16 n

/-- The digits of a number in base sixteen, padded with zeros to at least `width` digits. -/
def paddedHex (width n : Nat) : List Char :=
  List.replicate (width - (hex n).length) '0' ++ hex n

/-- A character inside quotes whose closing mark is `delimiter`. -/
def escape (delimiter c : Char) : List Char :=
  if c = '\x00' then ['\\', '0']
  else if c = '\t' then ['\\', 't']
  else if c = '\r' then ['\\', 'r']
  else if c = '\n' then ['\\', 'n']
  else if c = '\\' || c = delimiter then ['\\', c]
  else if ' ' ≤ c && c ≤ '~' then [c]
  else if isCombining c || isUnprintable c then ['\\', 'u', '\x7b'] ++ hex c.toNat ++ ['\x7d']
  else [c]

def quoteChar (c : Char) : String := String.ofList ('\'' :: escape '\'' c ++ ['\''])

def quoteString (s : String) : String :=
  String.ofList ('"' :: s.toList.flatMap (escape '"') ++ ['"'])

/-- A byte inside quotes: visible ASCII as it is, both quote marks and the backslash behind a
backslash, and two hexadecimal digits for every byte without a short escape. -/
def escapeByte (b : UInt8) : List Char :=
  let c := Char.ofNat b.toNat
  if c = '\t' then ['\\', 't']
  else if c = '\r' then ['\\', 'r']
  else if c = '\n' then ['\\', 'n']
  else if c = '\'' || c = '"' || c = '\\' then ['\\', c]
  else if ' ' ≤ c && c ≤ '~' then [c]
  else ['\\', 'x'] ++ paddedHex 2 b.toNat

def quoteBytes (bytes : List UInt8) : String :=
  String.ofList ('b' :: '"' :: bytes.flatMap escapeByte ++ ['"'])

/-- Items in square brackets, separated by commas. -/
def bracketed (items : List String) : String := "[" ++ ", ".intercalate items ++ "]"

/-! ## Data notation -/

/-- A character inside a string of the data notation: only the delimiter, the backslash and the
controls are escaped. -/
def escapeData (c : Char) : List Char :=
  if c = '"' || c = '\\' then ['\\', c]
  else if c = '\x08' then ['\\', 'b']
  else if c = '\x0c' then ['\\', 'f']
  else if c = '\n' then ['\\', 'n']
  else if c = '\r' then ['\\', 'r']
  else if c = '\t' then ['\\', 't']
  else if c < ' ' then ['\\', 'u'] ++ paddedHex 4 c.toNat
  else [c]

def quoteData (s : String) : String :=
  String.ofList ('"' :: s.toList.flatMap escapeData ++ ['"'])

end Piecemeal.Literal
