import InodeVolume.CommandLine.Standalone

/-!
# Quoted text

A text between double quotes, as it is shown to a person who has to see exactly what it holds. Double
quotes and backslashes stand behind a backslash, line breaks and tabs are spelled as letters, and
characters that do not stand by themselves are given by their number.
-/

namespace InodeVolume

namespace Quoted

/-- How a character is written between quotes. -/
def spell (c : Char) : List Char :=
  if c = '"' || c = '\\' then ['\\', c]
  else if c = '\n' then ['\\', 'n']
  else if c = '\r' then ['\\', 'r']
  else if c = '\t' then ['\\', 't']
  else if c = Char.ofNat 0 then ['\\', '0']
  else if standsAlone c then [c]
  else ['\\', 'u', '\x7b'] ++ Nat.toDigits 16 c.toNat ++ ['\x7d']

/-- A text between double quotes. -/
def encode (text : String) : String :=
  String.ofList (['"'] ++ text.toList.flatMap spell ++ ['"'])

end Quoted

end InodeVolume
