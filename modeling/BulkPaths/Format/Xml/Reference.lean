import BulkPaths.Format.Xml.Name
import BulkPaths.Text.Digit

/-!
Text with references to characters and entities in it.
-/

namespace BulkPaths.Xml

inductive Piece
  | char (c : Char)
  /-- A character given by its number. -/
  | code (c : Char)
  | entity (name : String)
  deriving DecidableEq, Repr

/-- Entities that need no declaration. -/
def predefined? (name : String) : Option Char :=
  Assoc.get? name
    [("lt", '<'), ("gt", '>'), ("amp", '&'), ("apos", Char.ofNat 0x27), ("quot", '"')]

def charOf? (n : Nat) : Option Char :=
  let c := Char.ofNat n
  if c.toNat = n ∧ isAllowed c then some c else none

def numeric? (base : Nat) (digit? : Char → Option Nat) (cs : List Char) : Option Char :=
  if cs.isEmpty then none
  else do
    let digits ← cs.mapM digit?
    charOf? (digits.foldl (fun n d => base * n + d) 0)

def decimalDigit? (c : Char) : Option Nat :=
  if c.isDigit then some (c.toNat - 0x30) else none

namespace Piece

/-- What a reference stands for, given without its ampersand and semicolon. -/
def ofReference? (cs : List Char) : Option Piece :=
  match cs with
  | '#' :: 'x' :: digits => (numeric? 16 Text.hexValue? digits).map .code
  | '#' :: digits => (numeric? 10 decimalDigit? digits).map .code
  | _ =>
    match takeName? cs with
    | some (name, []) => some (.entity name)
    | _ => none

/-- The pieces of a text, after those that were read before, in reverse. -/
def scan? (seen : List Piece) : Option (List Char) → List Char → Option (List Piece)
  | none, [] => some seen.reverse
  | some _, [] => none
  | none, c :: rest =>
    if c = '&' then scan? seen (some []) rest
    else if isAllowed c then scan? (.char c :: seen) none rest
    else none
  | some reference, c :: rest =>
    if c = ';' then
      match ofReference? reference.reverse with
      | some piece => scan? (piece :: seen) none rest
      | none => none
    else scan? seen (some (c :: reference)) rest

def ofText? (cs : List Char) : Option (List Piece) := scan? [] none cs

end Piece

end BulkPaths.Xml
