import TreeFlow.Text.Unprintable
import TreeFlow.Text.Utf8

/-!
# Quoted text

The contents of a byte array are shown as quoted text. A quote and a backslash are preceded by a
backslash, the usual controls have a letter, and any other character that would not show is
written by its code point. A single quote stands for itself.
-/

namespace TreeFlow.Quoted

/-- The lowercase hexadecimal digits of `n`. -/
def hexDigits (n : Nat) : List Char := Nat.toDigits 16 n

/-- A character written by its code point. -/
def byCode (c : Char) : List Char := ['\\', 'u', '\x7b'] ++ hexDigits c.toNat ++ ['\x7d']

/-- A character inside quotes. -/
def escapeChar (c : Char) : List Char :=
  if c = '\x00' then ['\\', '0']
  else if c = '\t' then ['\\', 't']
  else if c = '\n' then ['\\', 'n']
  else if c = '\r' then ['\\', 'r']
  else if c = '"' then ['\\', '"']
  else if c = '\\' then ['\\', '\\']
  else if Unprintable.isUnprintable c then byCode c
  else [c]

/-- Text in quotes. -/
def quote (cs : List Char) : String := String.ofList ('"' :: cs.flatMap escapeChar ++ ['"'])

/-- Bytes in quotes, read as UTF-8. -/
def ofBytes (bytes : List UInt8) : String := quote (Utf8.decodeChars bytes)

end TreeFlow.Quoted
