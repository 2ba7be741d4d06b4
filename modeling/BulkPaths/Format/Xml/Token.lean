import BulkPaths.Format.Xml.Aside

/-!
Tokens of what stands before the root element of a document, white space between them left out.
-/

namespace BulkPaths.Xml

open Text

inductive Token
  | aside
  | declare (keyword : String)
  | word (name : String)
  | qualified (name : QName)
  /-- Characters of names, though they make no name. -/
  | nameChars
  /-- A name that may be missing or come again. -/
  | particle
  | literal (body : List Char)
  | hash (keyword : String)
  | percent
  | parameter
  | openBracket
  | closeBracket
  | openGroup
  /-- A parenthesis with what says how often the group may come. -/
  | closeGroup (count : Option Char)
  | comma
  | bar
  | close
  deriving DecidableEq, Repr

namespace Token

def qname? : Token → Option QName
  | word name => some { front := "", part := name }
  | qualified name => some name
  | _ => none

def isCount (c : Char) : Bool := c == '?' || c == '*' || c == '+'

/-- A token ends where one of these comes, or white space. -/
def endsBefore (marks : String) (cs : List Char) : Bool :=
  cs.head?.any fun c => isSpace c || marks.toList.contains c

/-- One colon may stand within a name. -/
def ofChars (cs : List Char) : Token :=
  let (front, tail) := cs.span (· != ':')
  if !cs.head?.any isNameStart then nameChars
  else
    match tail with
    | [] => word (String.ofList front)
    | _ :: part =>
      if part.isEmpty ∨ ':' ∈ part then nameChars
      else qualified { front := String.ofList front, part := String.ofList part }

def takeWord? (cs : List Char) : Option (Token × List Char) :=
  let (chars, rest) := cs.span fun c => isNamePart c || c == ':'
  let token := ofChars chars
  if chars.isEmpty then none
  else if endsBefore ">),|[%" rest then some (token, rest)
  else
    match rest with
    | c :: rest => if isCount c && token != nameChars then some (particle, rest) else none
    | [] => none

def takeLiteral? (quote : Char) (cs : List Char) : Option (Token × List Char) := do
  let (body, rest) ← cutBefore? (String.singleton quote) cs
  if body.all isAllowed && endsBefore ">%[" rest then some (literal body, rest) else none

def takeHash? (cs : List Char) : Option (Token × List Char) := do
  let (name, rest) ← takeName? cs
  if endsBefore ")>%|" rest then some (hash name, rest) else none

def takePercent? (cs : List Char) : Option (Token × List Char) :=
  if endsBefore "%" cs then some (percent, cs)
  else do
    let (_, rest) ← takeName? cs
    return (parameter, ← after? ";" rest)

def takeClosing? (cs : List Char) : Option (Token × List Char) :=
  match cs with
  | c :: rest =>
    if isCount c then some (closeGroup (some c), rest)
    else if endsBefore ">,|)" cs then some (closeGroup none, cs)
    else none
  | [] => none

def takeDeclaration? (cs : List Char) : Option (Token × List Char) :=
  match after? "--" cs with
  | some body => (afterComment? body).map fun rest => (aside, rest)
  | none =>
    let (keyword, rest) := cs.span fun c => c.isAlpha || c == '_'
    if !keyword.isEmpty && endsBefore "" rest then some (declare (String.ofList keyword), rest)
    else none

def take? (cs : List Char) : Option (Token × List Char) :=
  match cs with
  | '<' :: '!' :: rest => takeDeclaration? rest
  | '<' :: '?' :: rest => (afterInstruction? rest).map fun rest => (aside, rest)
  | '"' :: rest => takeLiteral? '"' rest
  | '#' :: rest => takeHash? rest
  | '%' :: rest => takePercent? rest
  | '[' :: rest => some (openBracket, rest)
  | ']' :: rest => some (closeBracket, rest)
  | '(' :: rest => some (openGroup, rest)
  | ')' :: rest => takeClosing? rest
  | ',' :: rest => some (comma, rest)
  | '|' :: rest => some (bar, rest)
  | '>' :: rest => some (close, rest)
  | c :: rest => if c.toNat = 0x27 then takeLiteral? c rest else takeWord? cs
  | [] => none

def startsElement : List Char → Bool
  | '<' :: c :: _ => isNameStart c || 0x80 ≤ c.toNat
  | _ => false

/-- All tokens before the root element, and what follows them. -/
def prologue? : Nat → List Char → Option (List Token × List Char)
  | 0, _ => none
  | fuel + 1, cs =>
    let cs := skipSpace cs
    if startsElement cs then some ([], cs)
    else do
      let (token, rest) ← take? cs
      let (tokens, rest) ← prologue? fuel rest
      return (token :: tokens, rest)

end Token

end BulkPaths.Xml
