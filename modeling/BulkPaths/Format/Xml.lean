import BulkPaths.Format.Xml.Doctype

/-!
Well-formed XML with namespaces, as a tree of elements. Entities are expanded; comments and
processing instructions leave no trace.
-/

namespace BulkPaths.Xml

open Text

inductive Element
  /-- `text` is what stands before the first child. -/
  | mk (name : Name) (attributes : List (Name × String)) (text : List Char)
      (children : List Element)
  deriving Repr

namespace Element

def name : Element → Name
  | mk name _ _ _ => name

def attributes : Element → List (Name × String)
  | mk _ attributes _ _ => attributes

def text : Element → List Char
  | mk _ _ text _ => text

def children : Element → List Element
  | mk _ _ _ children => children

/-- An attribute without a namespace. -/
def attribute? (e : Element) (part : String) : Option String :=
  Assoc.get? { space := "", part } e.attributes

def childrenNamed (e : Element) (name : Name) : List Element :=
  e.children.filter fun child => child.name == name

def grandchild? (e : Element) (child name : Name) : Option Element :=
  ((e.childrenNamed child).flatMap fun inner => inner.childrenNamed name).head?

end Element

/-- What an element holds so far, in reverse. -/
structure Content where
  text : List Char
  children : List Element

namespace Content

def empty : Content := { text := [], children := [] }

/-- Only text before the first child is kept. -/
def addText (content : Content) (cs : List Char) : Content :=
  if content.children.isEmpty then { content with text := cs.reverseAux content.text } else content

def addChild (content : Content) (child : Element) : Content :=
  { content with children := child :: content.children }

def toElement (content : Content) (name : Name) (attributes : List (Name × String)) : Element :=
  .mk name attributes content.text.reverse content.children.reverse

end Content

/-- Where a text stands: the document type, and the entities that it is part of. -/
structure Place where
  doctype : Doctype
  opened : List String

/-- Attributes as they are written, each after white space, and what follows them. -/
def takeAttributes? : Nat → List Char → Option (List (QName × List Char) × List Char)
  | 0, _ => none
  | fuel + 1, cs =>
    let rest := skipSpace cs
    if !rest.head?.any isNameStart then some ([], rest)
    else if !cs.head?.any isSpace then none
    else do
      let (name, rest) ← takeQName? rest
      match skipSpace (← after? "=" (skipSpace rest)) with
      | [] => none
      | quote :: rest =>
        if quote != '"' && quote.toNat != 0x27 then none
        else
          let (literal, rest) ← cutBefore? (String.singleton quote) rest
          let (more, rest) ← takeAttributes? fuel rest
          if Assoc.contains name more then none else some ((name, literal) :: more, rest)

def takeText? (cs : List Char) : Option (List Char × List Char) :=
  let (text, rest) := cs.span fun c => c != '<' && c != '&'
  if text.all isAllowed && (cutBefore? "]]>" text).isNone then some (text, rest) else none

mutual

/-- An element, its opening angle bracket gone already. -/
def takeElement (place : Place) : Nat → Scope → List Char → Expansion (Element × List Char)
  | 0, _, _ => failure
  | fuel + 1, scope, cs => do
    let (written, rest) ← StateT.lift (takeQName? cs)
    let (literals, rest) ← StateT.lift (takeAttributes? fuel rest)
    let attributes ← place.doctype.attributes place.opened written literals
    let scope ← StateT.lift (scope.extend? attributes)
    let name ← StateT.lift (scope.resolve? written)
    let attributes ← StateT.lift (scope.attributes? attributes)
    match after? "/>" rest with
    | some rest => return (Content.empty.toElement name attributes, rest)
    | none =>
      let rest ← StateT.lift (after? ">" rest)
      let (content, rest) ← takeContent place fuel scope .empty rest
      let (closing, rest) ← StateT.lift ((after? "</" rest).bind takeQName?)
      let rest ← StateT.lift (after? ">" (skipSpace rest))
      if closing = written then return (content.toElement name attributes, rest) else failure

/-- Content up to an end tag or the end of the text, after the content that was read before. -/
def takeContent (place : Place) :
    Nat → Scope → Content → List Char → Expansion (Content × List Char)
  | 0, _, _, _ => failure
  | fuel + 1, scope, content, cs =>
    match cs with
    | [] => return (content, [])
    | '<' :: '/' :: _ => return (content, cs)
    | '<' :: '?' :: rest => do
      takeContent place fuel scope content (← StateT.lift (afterInstruction? rest))
    | '<' :: '!' :: rest =>
      match after? "--" rest with
      | some rest => do takeContent place fuel scope content (← StateT.lift (afterComment? rest))
      | none => do
        let (text, rest) ← StateT.lift ((after? "[CDATA[" rest).bind (cutBefore? "]]>"))
        if text.all isAllowed then takeContent place fuel scope (content.addText text) rest
        else failure
    | '<' :: rest => do
      let (child, rest) ← takeElement place fuel scope rest
      takeContent place fuel scope (content.addChild child) rest
    | '&' :: rest => do
      let (reference, rest) ← StateT.lift (cutBefore? ";" rest)
      match ← StateT.lift (Piece.ofReference? reference) with
      | .char c | .code c => takeContent place fuel scope (content.addText [c]) rest
      | .entity name =>
        match predefined? name, Assoc.get? name place.doctype.entities with
        | some c, _ => takeContent place fuel scope (content.addText [c]) rest
        | none, some (.text replacement) =>
          if place.opened.contains name then failure
          else do
            Expansion.spend replacement.length
            let inner := { place with opened := name :: place.opened }
            let (content, after) ← takeContent inner fuel scope content replacement
            if after.isEmpty then takeContent place fuel scope content rest else failure
        | none, _ => failure
    | cs => do
      let (text, rest) ← StateT.lift (takeText? cs)
      takeContent place fuel scope (content.addText text) rest

end

def afterMisc? : Nat → List Char → Option (List Char)
  | 0, _ => none
  | fuel + 1, cs =>
    let rest := skipSpace cs
    match after? "<!--" rest, after? "<?" rest with
    | some body, _ => do afterMisc? fuel (← afterComment? body)
    | none, some body => do afterMisc? fuel (← afterInstruction? body)
    | none, none => some rest

/-- One element, with a prologue before it and nothing of weight after it. -/
def ofSource? (source : Source) : Option Element := do
  let cs := source.text
  let (tokens, rest) ← Token.prologue? (cs.length + 1) cs
  let doctype ← Doctype.ofTokens? source.standalone tokens
  let replacements := doctype.entities.flatMap fun entry =>
    match entry.2 with
    | .text replacement => replacement
    | _ => []
  let fuel := 2 * (cs.length + replacements.length + doctype.entities.length) + 2
  let rest ← after? "<" rest
  let place := { doctype, opened := [] }
  let (root, rest) ←
    (takeElement place fuel .outer rest).run' (max Doctype.allowance (100 * cs.length))
  let rest ← afterMisc? (rest.length + 1) rest
  if rest.isEmpty then some root else none

def read (content : ByteArray) : Except Fault Element := do
  let source ← Source.ofContent content
  (ofSource? source).elim (.error .malformedXml) .ok

end BulkPaths.Xml
