import NodeQuery.Text.Extender
import NodeQuery.Text.Unprinted

/-!
# Quoted texts

Texts under inspection stand between double quotes.  Quotes, backslashes and the common controls are
written with a backslash before them.  Characters that would attach to the one before them, and those
without a printed form, are written by their code point.
-/

namespace NodeQuery.Text

def codePointChars (c : Char) : List Char :=
  ['\\', 'u', '\x7b'] ++ Nat.toDigits 16 c.toNat ++ ['\x7d']

/-- A character as it is written between quotes. -/
def escapeChar (c : Char) : List Char :=
  if c == '"' then ['\\', '"']
  else if c == '\\' then ['\\', '\\']
  else if c == '\n' then ['\\', 'n']
  else if c == '\r' then ['\\', 'r']
  else if c == '\t' then ['\\', 't']
  else if c.toNat == 0 then ['\\', '0']
  else if isExtender c || isUnprinted c then codePointChars c
  else [c]

def quoted (text : String) : String :=
  String.ofList ('"' :: (text.toList.flatMap escapeChar ++ ['"']))

end NodeQuery.Text
