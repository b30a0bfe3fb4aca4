import ThreeAddress.Shell.Quoted

/-!
# Words in quotes with escapes

A word is written between single quotes. Quotes and backslashes in it, and bytes that cannot be
printed, are written after a backslash.
-/

namespace ThreeAddress.Shell.EscapeQuoted

def escaped (c : Char) : Octets :=
  if c = '\'' || c = '\\' then ['\\', c]
  else if Quoted.isPrintable c then [c]
  else Quoted.code c

def quote (word : Octets) : Octets := '\'' :: word.flatMap escaped ++ ['\'']

end ThreeAddress.Shell.EscapeQuoted
