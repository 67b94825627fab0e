import FlagDelivery.Text.Visible

/-!
# Quoted text

`Quoted.quote` shows a string between quotes on one line: the quote, the backslash and the common controls
by a letter, other invisible characters by their code, every visible character as it is.
-/

namespace FlagDelivery.Quoted

/-- One character as it stands between quotes. -/
def escape (c : Char) : List Char :=
  if c = '"' then ['\\', '"']
  else if c = '\\' then ['\\', '\\']
  else if c = '\n' then ['\\', 'n']
  else if c = '\r' then ['\\', 'r']
  else if c = '\t' then ['\\', 't']
  else if c = '\x00' then ['\\', '0']
  else if Text.isVisible c then [c]
  else ['\\', 'u', '\x7b'] ++ Nat.toDigits 16 c.toNat ++ ['\x7d']

/-- A string between quotes. -/
def quote (s : String) : String := String.ofList ('"' :: (s.toList.flatMap escape ++ ['"']))

end FlagDelivery.Quoted
