import GossipNode.Text.Hidden
/-!
# Quoted text

A text between quotes, as error messages show it: the usual escapes for tab, newline, carriage
return, NUL, the backslash and the quote in use, `\u{…}` with lowercase hex digits for whatever
would not show, every other character as itself.
-/
namespace GossipNode.Text.Quoted

/-- Lowercase hex digits of a number, without leading zeros. -/
def hexDigits (n : Nat) : List Char := Nat.toDigits 16 n

/-- A character inside quotes `quote`. -/
def escape (quote c : Char) : List Char :=
  if c = '\x00' then ['\\', '0']
  else if c = '\t' then ['\\', 't']
  else if c = '\n' then ['\\', 'n']
  else if c = '\r' then ['\\', 'r']
  else if c = '\\' || c = quote then ['\\', c]
  else if isHidden c then ['\\', 'u', '\x7b'] ++ hexDigits c.toNat ++ ['\x7d']
  else [c]

def string (s : String) : String :=
  String.ofList ('"' :: s.toList.flatMap (escape '"') ++ ['"'])

def char (c : Char) : String := String.ofList ('\'' :: escape '\'' c ++ ['\''])

end GossipNode.Text.Quoted
