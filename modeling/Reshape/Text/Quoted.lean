import Reshape.Text.Numeral
import Reshape.Text.Printable

/-!
# Quoted text and labelled records

The notation of messages and listings.  A text stands between double quotes and a character
between single ones; the enclosing quote, the backslash and four control characters have short
escapes, and every other hidden character is written by its code point.  A record is a label
with its fields in braces.
-/

namespace Reshape.Quoted

/-- The written form of one character inside the quote mark `mark`. -/
def escape (mark : Char) (c : Char) : List Char :=
  if c = '\x00' then ['\x5c', '0']
  else if c = '\t' then ['\x5c', 't']
  else if c = '\r' then ['\x5c', 'r']
  else if c = '\n' then ['\x5c', 'n']
  else if c = '\x5c' ∨ c = mark then ['\x5c', c]
  else if Printable.isHidden c then
    ['\x5c', 'u', '\x7b'] ++ Nat.toDigits 16 c.toNat ++ ['\x7d']
  else [c]

def between (mark : Char) (cs : List Char) : String :=
  String.ofList (mark :: (cs.flatMap (escape mark) ++ [mark]))

/-- A text between double quotes. -/
def text (s : String) : String := between '\x22' s.toList

/-- A character between single quotes. -/
def char (c : Char) : String := between '\x27' [c]

/-- A label with named fields. -/
def record (label : String) (fields : List (String × String)) : String :=
  label ++ " \x7b " ++ ", ".intercalate (fields.map fun f => f.1 ++ ": " ++ f.2) ++ " \x7d"

/-- A label with one unnamed field. -/
def tagged (label field : String) : String := label ++ "(" ++ field ++ ")"

end Reshape.Quoted
