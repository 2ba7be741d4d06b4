import BulkPaths.Text.Digit
import BulkPaths.Text.Printable

/-!
Quoted text as messages show it. Single quotes are used unless the text holds a single quote and
no double quote; what has no visible form is written by its code point.
-/

namespace BulkPaths.Text

def escapeUnprintable (c : Char) : List Char :=
  let n := c.toNat
  if n < 0x100 then '\\' :: 'x' :: hex 2 n
  else if n < 0x10000 then '\\' :: 'u' :: hex 4 n
  else '\\' :: 'U' :: hex 8 n

def escapeQuoted (quote c : Char) : List Char :=
  if c = quote ∨ c = '\\' then ['\\', c]
  else if c = '\n' then ['\\', 'n']
  else if c = '\r' then ['\\', 'r']
  else if c = '\t' then ['\\', 't']
  else if isPrintable c then [c]
  else escapeUnprintable c

def quoteMark (cs : List Char) : Char :=
  if '\'' ∈ cs ∧ '"' ∉ cs then '"' else '\''

def quoted (s : String) : String :=
  let cs := s.toList
  let quote := quoteMark cs
  String.ofList (quote :: cs.flatMap (escapeQuoted quote) ++ [quote])

end BulkPaths.Text
