import BulkPaths.Decimal.Numeral
import BulkPaths.Uuid

/-!
Vertex identifiers of three categories. Identifiers of different categories are never equal, so
the number 1 and the text `1` name two vertices.
-/

namespace BulkPaths

open Text Decimal

inductive VertexId
  | long (n : Int)
  | utf8 (s : String)
  | uuid (u : Uuid)
  deriving DecidableEq, Repr

namespace VertexId

/-- Numbers come before texts, and texts before universal identifiers. -/
def category : VertexId → Nat
  | .long _ => 1
  | .utf8 _ => 2
  | .uuid _ => 3

def categoryName : VertexId → String
  | .long _ => "LONG"
  | .utf8 _ => "UTF8"
  | .uuid _ => "UUID"

/-- The identifier alone, its category not shown. -/
def plain : VertexId → String
  | .long n => toString n
  | .utf8 s => s
  | .uuid u => u.toText

/-- Total order: category first, then numbers by size, texts by code points. -/
def cmp : VertexId → VertexId → Ordering
  | .long m, .long n => compare m n
  | .utf8 s, .utf8 t => compare s t
  | .uuid u, .uuid v => u.cmp v
  | a, b => compare a.category b.category

/-- Lexicographic order of paths; a path comes after its prefixes. -/
def cmpPath : List VertexId → List VertexId → Ordering
  | [], [] => .eq
  | [], _ :: _ => .lt
  | _ :: _, [] => .gt
  | a :: as, b :: bs => (a.cmp b).then (cmpPath as bs)

def isUnsigned (cs : List Char) : Bool := !cs.isEmpty && cs.all isDigit

def isNumeral (cs : List Char) : Bool := isUnsigned (takeSign cs).2

def dropFinalNewline (cs : List Char) : List Char :=
  if cs.getLast? = some '\n' then cs.dropLast else cs

/-- A text that would be read as a number or a universal identifier, also with a newline after
it. -/
def needsQuotes (cs : List Char) : Bool :=
  let body := dropFinalNewline cs
  isNumeral body || (Uuid.ofChars? body).isSome

inductive ParseError
  | blank
  | emptyQuoted
  | tooLong
  deriving DecidableEq, Repr

/-- What stands between double quotes at both ends. -/
def unquote? (cs : List Char) : Option (List Char) :=
  if 2 ≤ cs.length ∧ cs.head? = some '"' ∧ cs.getLast? = some '"' then some cs.tail.dropLast
  else none

/-- Reads trimmed text: a quoted text is a text identifier, a numeral a number, a hyphenated
universal identifier itself, and all else a text. -/
def ofTrimmed (cs : List Char) : Except ParseError VertexId :=
  if cs.isEmpty then .error .blank
  else
    match unquote? cs with
    | some inner =>
      if inner.isEmpty then .error .emptyQuoted else .ok (.utf8 (String.ofList inner))
    | none =>
      if isNumeral cs then
        let (negative, digits) := takeSign cs
        match limited negative digits with
        | .ok n => .ok (.long n)
        | .error _ => .error .tooLong
      else
        match Uuid.ofChars? cs with
        | some u => .ok (.uuid u)
        | none => .ok (.utf8 (String.ofList cs))

def parseChars (cs : List Char) : Except ParseError VertexId := ofTrimmed (trim cs)

def parse (token : String) : Except ParseError VertexId := parseChars token.toList

/-- The text form; a text that `parse` would take for another category is quoted. -/
def toText : VertexId → String
  | .utf8 s => if needsQuotes s.toList then "\"" ++ s ++ "\"" else s
  | id => id.plain

end VertexId

end BulkPaths
