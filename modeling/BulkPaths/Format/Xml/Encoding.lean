import BulkPaths.Fault
import BulkPaths.Format.Xml.Name
import BulkPaths.Text.CodePage

/-!
From octets to characters. A byte order mark, or the first two octets, tell 16-bit units from single
octets; the XML declaration may name the encoding.
-/

namespace BulkPaths.Xml

open Text

/-- Stands for octets that spell no character; no document may hold it. -/
def stray : Char := Char.ofNat 0xFFFF

inductive Units
  | octets
  | words (bigEndian : Bool)
  deriving DecidableEq, Repr

namespace Units

/-- The units of a document, and its octets without a byte order mark. -/
def detect : List UInt8 → Units × List UInt8
  | 0xFE :: 0xFF :: rest => (words true, rest)
  | 0xFF :: 0xFE :: rest => (words false, rest)
  | 0xEF :: 0xBB :: 0xBF :: rest => (octets, rest)
  | 0 :: second :: rest => (words true, 0 :: second :: rest)
  | first :: 0 :: rest => (words false, first :: 0 :: rest)
  | content => (octets, content)

def wordsOf (bigEndian : Bool) : List UInt8 → List Nat
  | [] => []
  | [_] => [stray.toNat]
  | a :: b :: rest =>
    (if bigEndian then 0x100 * a.toNat + b.toNat else 0x100 * b.toNat + a.toNat) ::
      wordsOf bigEndian rest

def single (word : Nat) : Char :=
  if 0xD800 ≤ word ∧ word < 0xE000 then stray else Char.ofNat word

/-- A high surrogate takes the low ten bits of the word after it, whatever that is. -/
def joinWords : List Nat → List Char
  | [] => []
  | [word] => [single word]
  | high :: low :: rest =>
    if 0xD800 ≤ high ∧ high < 0xDC00 then
      Char.ofNat (0x10000 + (high - 0xD800) * 0x400 + low % 0x400) :: joinWords rest
    else single high :: joinWords (low :: rest)

/-- The characters as far as they matter to the XML declaration. -/
def chars (units : Units) (content : List UInt8) : List Char :=
  match units with
  | octets => content.map fun octet => Char.ofNat octet.toNat
  | words bigEndian => joinWords (wordsOf bigEndian content)

end Units

structure Declaration where
  encoding : Option (List Char)
  standalone : Bool
  deriving DecidableEq, Repr

namespace Declaration

def plain : Declaration := { encoding := none, standalone := false }

def isValueChar (c : Char) : Bool := c.isAlphanum || c == '.' || c == '-' || c == '_'

def takeValue? (cs : List Char) : Option (List Char × List Char) :=
  match cs with
  | [] => none
  | quote :: rest =>
    let (value, rest) := rest.span isValueChar
    if quote != '"' && quote.toNat != 0x27 then none
    else
      match rest with
      | closing :: rest => if closing = quote then some (value, rest) else none
      | [] => none

/-- Settings, each after white space. -/
def settings? : Nat → List Char → Option (List (String × List Char))
  | 0, _ => none
  | fuel + 1, cs =>
    let rest := skipSpace cs
    if rest.isEmpty then some []
    else if !cs.head?.any isSpace then none
    else do
      let (name, rest) := rest.span fun c => !isSpace c && c != '='
      let (value, rest) ← takeValue? (skipSpace (← after? "=" (skipSpace rest)))
      return (String.ofList name, value) :: (← settings? fuel rest)

def standalone? (answer : List Char) : Option Bool :=
  Assoc.get? (String.ofList answer) [("yes", true), ("no", false)]

/-- Version, then perhaps the encoding, then perhaps whether the document stands alone. -/
def ofSettings? : List (String × List Char) → Option Declaration
  | ("version", _) :: rest =>
    match rest with
    | [] => some plain
    | [("encoding", name)] => some { plain with encoding := some name }
    | [("standalone", answer)] =>
      (standalone? answer).map fun standalone => { plain with standalone }
    | [("encoding", name), ("standalone", answer)] =>
      (standalone? answer).map fun standalone => { encoding := some name, standalone }
    | _ => none
  | _ => none

/-- The name of an encoding begins with a letter. -/
def isUsable (d : Declaration) : Bool :=
  d.encoding.all fun name => name.head?.any Char.isAlpha

/-- The declaration at the start of a document, and what follows it. -/
def take? (cs : List Char) : Option (Declaration × List Char) :=
  match after? "<?xml" cs with
  | none => some (plain, cs)
  | some rest =>
    if rest.head?.any isNamePart then some (plain, cs)
    else do
      let (body, rest) ← cutBefore? "?>" rest
      let d ← ofSettings? (← settings? (body.length + 1) body)
      if d.isUsable then some (d, rest) else none

end Declaration

/-- A document as characters, its XML declaration left out. -/
structure Source where
  text : List Char
  standalone : Bool
  deriving DecidableEq, Repr

namespace Source

def normalizeLines : List Char → List Char
  | [] => []
  | '\r' :: '\n' :: rest => '\n' :: normalizeLines rest
  | '\r' :: rest => '\n' :: normalizeLines rest
  | c :: rest => c :: normalizeLines rest

def utf8 (content : List UInt8) : List Char :=
  ((String.fromUTF8? ⟨content.toArray⟩).map String.toList).getD [stray]

def octetsOn (upper : List Char) (content : List UInt8) : List Char :=
  content.map fun octet => (CodePage.char? upper octet).getD stray

def ofPage (name : List Char) (content : List UInt8) : Except Fault (List Char) :=
  match CodePage.ofName? name with
  | none => .error (.unknownEncoding (String.ofList name))
  | some (.octets upper) => .ok (octetsOn upper.toList content)
  | some .wide => .error .wideEncoding
  | some .foreign => .error .malformedXml
  | some .strict => .error .notAscii
  | some .unsuited => .error .unsuitedEncoding

/-- Single octets under the encoding of a name. -/
def ofOctets (name : List Char) (content : List UInt8) : Except Fault (List Char) :=
  match lower (String.ofList name) with
  | "utf-8" => .ok (utf8 content)
  | "us-ascii" => ofPage "ascii".toList content
  | "iso-8859-1" => ofPage "latin1".toList content
  | "utf-16" | "utf-16be" | "utf-16le" => .error .malformedXml
  | _ => ofPage name content

def ofWords (bigEndian : Bool) (name : List Char) (text : List Char) :
    Except Fault (List Char) :=
  match lower (String.ofList name) with
  | "utf-16" => .ok text
  | "utf-16be" => if bigEndian then .ok text else .error .malformedXml
  | "utf-16le" => if bigEndian then .error .malformedXml else .ok text
  | "utf-8" | "us-ascii" | "iso-8859-1" => .error .malformedXml
  | _ => do
    let _ ← ofPage name []
    .error .malformedXml

def ofContent (content : ByteArray) : Except Fault Source := do
  let (units, octets) := Units.detect content.toList
  let front := units.chars octets
  let (d, rest) ← (Declaration.take? front).elim (.error .malformedXml) .ok
  let remaining := octets.drop (front.length - rest.length)
  let text ←
    match units, d.encoding with
    | .octets, none => .ok (utf8 remaining)
    | .octets, some name => ofOctets name remaining
    | .words _, none => .ok rest
    | .words bigEndian, some name => ofWords bigEndian name rest
  .ok { text := normalizeLines text, standalone := d.standalone }

end Source

end BulkPaths.Xml
