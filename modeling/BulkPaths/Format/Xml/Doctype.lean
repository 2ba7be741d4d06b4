import BulkPaths.Format.Xml.Encoding
import BulkPaths.Format.Xml.Reference
import BulkPaths.Format.Xml.Token

/-!
Document types: the entities and the attributes that a document declares for itself. Declarations
elsewhere are not looked for.
-/

namespace BulkPaths.Xml

inductive Entity
  /-- A text, with the references that it holds. -/
  | text (replacement : List Char)
  | outside
  | data
  deriving DecidableEq, Repr

structure AttributeRule where
  element : QName
  name : QName
  /-- Blanks count as they are. -/
  plain : Bool
  /-- What an element has that does not give the attribute. -/
  fallback : Option String
  deriving DecidableEq, Repr

structure Doctype where
  entities : List (String × Entity)
  rules : List AttributeRule
  standalone : Bool
  /-- Declarations that count may stand elsewhere. -/
  elsewhere : Bool
  heeding : Bool

/-- Work with entities, which may come to a number of characters in all. -/
abbrev Expansion := StateT Nat Option

def Expansion.spend (count : Nat) : Expansion Unit := fun left =>
  if count ≤ left then some ((), left - count) else none

namespace Doctype

def bare (standalone : Bool) : Doctype :=
  { entities := [], rules := [], standalone, elsewhere := false, heeding := true }

def isStrict (d : Doctype) : Bool := !d.elsewhere || d.standalone

/-- What the entities of a document may come to, at the least. -/
def allowance : Nat := 8388608

/-- The characters of an attribute value. `opened` are the entities around it, and `depth` is how
many more can be. -/
def flatten (d : Doctype) : Nat → List String → List Char → Expansion (List Char)
  | 0, _, _ => failure
  | depth + 1, opened, cs => do
    let pieces ← StateT.lift (Piece.ofText? cs)
    let parts ← pieces.mapM fun piece =>
      match piece with
      | .char c => if c = '<' then failure else pure [if isSpace c then ' ' else c]
      | .code c => pure [c]
      | .entity name =>
        match predefined? name, Assoc.get? name d.entities with
        | some c, _ => pure [c]
        | none, none => if d.isStrict then failure else pure []
        | none, some (.text replacement) =>
          if opened.contains name then failure
          else do
            Expansion.spend replacement.length
            d.flatten depth (name :: opened) replacement
        | none, some _ => failure
    return parts.flatten

/-- The words between spaces, with one space between them. -/
def collapse (cs : List Char) : List Char :=
  [' '].intercalate ((Text.cutAt ' ' cs).filter fun word => !word.isEmpty)

def value (d : Doctype) (opened : List String) (plain : Bool) (literal : List Char) :
    Expansion String := do
  let flat ← d.flatten (d.entities.length + 1) opened literal
  return String.ofList (if plain then flat else collapse flat)

def rule? (d : Doctype) (element name : QName) : Option AttributeRule :=
  d.rules.find? fun rule => rule.element == element && rule.name == name

/-- The attributes of an element: those that it gives, then those that it has without giving. -/
def attributes (d : Doctype) (opened : List String) (element : QName)
    (literals : List (QName × List Char)) : Expansion (List (QName × String)) := do
  let given ← literals.mapM fun (name, literal) => do
    let plain := ((d.rule? element name).map AttributeRule.plain).getD true
    return (name, ← d.value opened plain literal)
  let missing := d.rules.filter fun rule =>
    rule.element == element && !Assoc.contains rule.name given
  return given ++ missing.filterMap fun rule => rule.fallback.map fun value => (rule.name, value)

/-- The first declaration of an entity counts. -/
def addEntity (d : Doctype) (name : String) (entity : Entity) : Doctype :=
  if d.heeding && !Assoc.contains name d.entities then
    { d with entities := d.entities ++ [(name, entity)] }
  else d

/-- The first declaration of an attribute counts. -/
def addRule (d : Doctype) (rule : AttributeRule) : Doctype :=
  if d.heeding && (d.rule? rule.element rule.name).isNone then
    { d with rules := d.rules ++ [rule] }
  else d

/-- The text of an entity: numbers are characters by now, names are left as they are. -/
def replacement? (literal : List Char) : Option (List Char) := do
  let pieces ← Piece.ofText? literal
  if '%' ∈ literal then none
  else
    return pieces.flatMap fun piece =>
      match piece with
      | .char c | .code c => [c]
      | .entity name => '&' :: name.toList ++ [';']

/-- Once declarations do not count, nobody looks into them. -/
def heeded? {α : Type} (d : Doctype) (result fallback : Option α) : Option α :=
  if d.heeding then result else fallback

def isPublicChar (c : Char) : Bool :=
  c.isAlphanum || " \n-()+,./:=?;!*#@$_%".toList.contains c || c.toNat == 0x27

/-- The rest after a mention of something that stands elsewhere: a system identifier, and perhaps
a public one before it. -/
def afterOutside? : List Token → Option (List Token)
  | .word "SYSTEM" :: .literal _ :: rest => some rest
  | .word "PUBLIC" :: .literal name :: .literal _ :: rest =>
    if name.all isPublicChar then some rest else none
  | _ => none

def takeEntity? (d : Doctype) : List Token → Option (Doctype × List Token)
  | .percent :: .word _ :: .literal body :: .close :: rest => do
    let _ ← d.heeded? (replacement? body) (some [])
    return (d, rest)
  | .percent :: .word _ :: rest =>
    match afterOutside? rest with
    | some (.close :: rest) => some (d, rest)
    | _ => none
  | .word name :: .literal body :: .close :: rest => do
    let text ← d.heeded? (replacement? body) (some [])
    return (d.addEntity name (.text text), rest)
  | .word name :: rest =>
    match afterOutside? rest with
    | some (.close :: rest) => some (d.addEntity name .outside, rest)
    | some (.word "NDATA" :: .word _ :: .close :: rest) => some (d.addEntity name .data, rest)
    | _ => none
  | _ => none

def afterChoices? (isChoice : Token → Bool) : List Token → Option (List Token)
  | choice :: .bar :: rest => if isChoice choice then afterChoices? isChoice rest else none
  | choice :: .closeGroup none :: rest => if isChoice choice then some rest else none
  | _ => none

def isWord : Token → Bool
  | .word _ => true
  | _ => false

def isNameToken : Token → Bool
  | .word _ | .qualified _ | .nameChars => true
  | _ => false

/-- Whether an attribute is plain text, and what follows its type. -/
def takeType? : List Token → Option (Bool × List Token)
  | .word "NOTATION" :: .openGroup :: rest =>
    (afterChoices? isWord rest).map fun rest => (false, rest)
  | .openGroup :: rest => (afterChoices? isNameToken rest).map fun rest => (false, rest)
  | .word "CDATA" :: rest => some (true, rest)
  | .word type :: rest =>
    if ["ID", "IDREF", "IDREFS", "ENTITY", "ENTITIES", "NMTOKEN", "NMTOKENS"].contains type then
      some (false, rest)
    else none
  | _ => none

def fallback? (d : Doctype) (plain : Bool) (literal : List Char) : Option (Option String) :=
  d.heeded? (((d.value [] plain literal).run' allowance).map some) (some none)

/-- What an attribute is when it is not given, and the tokens after that. -/
def takeFallback? (d : Doctype) (plain : Bool) :
    List Token → Option (Option String × List Token)
  | .hash "IMPLIED" :: rest | .hash "REQUIRED" :: rest => some (none, rest)
  | .hash "FIXED" :: .literal body :: rest | .literal body :: rest =>
    (d.fallback? plain body).map fun value => (value, rest)
  | _ => none

/-- The attributes that are declared for an element, up to the end of the declaration. -/
def takeRules? (element : QName) : Nat → Doctype → List Token → Option (Doctype × List Token)
  | _, d, .close :: rest => some (d, rest)
  | fuel + 1, d, token :: rest => do
    let name ← token.qname?
    let (plain, rest) ← takeType? rest
    let (fallback, rest) ← d.takeFallback? plain rest
    takeRules? element fuel (d.addRule { element, name, plain, fallback }) rest
  | _, _, _ => none

def isParticle : Token → Bool
  | .word _ | .qualified _ | .particle => true
  | _ => false

mutual

/-- The rest after a content model that goes on with an item; every open group has its separator,
once there is one. -/
def afterModel? : List (Option Token) → List Token → Option (List Token)
  | groups, .openGroup :: rest => afterModel? (none :: groups) rest
  | groups, token :: rest => if isParticle token then afterItem? groups rest else none
  | _, [] => none

/-- The rest after a content model that goes on with a separator or the end of a group. -/
def afterItem? : List (Option Token) → List Token → Option (List Token)
  | [_], .closeGroup _ :: rest => some rest
  | _ :: groups, .closeGroup _ :: rest => afterItem? groups rest
  | separator :: groups, token :: rest =>
    if (token = .comma ∨ token = .bar) ∧ separator.all (· = token) then
      afterModel? (some token :: groups) rest
    else none
  | _, _ => none

end

def afterMixed? : List Token → Option (List Token)
  | .closeGroup (some '*') :: rest => some rest
  | .bar :: token :: rest => if token.qname?.isSome then afterMixed? rest else none
  | _ => none

def afterContent? : List Token → Option (List Token)
  | .word "EMPTY" :: rest | .word "ANY" :: rest => some rest
  | .openGroup :: .hash "PCDATA" :: .closeGroup none :: rest => some rest
  | .openGroup :: .hash "PCDATA" :: rest => afterMixed? rest
  | .openGroup :: rest => afterModel? [none] rest
  | _ => none

def afterElement? : List Token → Option (List Token)
  | token :: rest => do
    let _ ← token.qname?
    match ← afterContent? rest with
    | .close :: rest => some rest
    | _ => none
  | [] => none

/-- A public identifier is enough to find a notation. -/
def afterNotation? : List Token → Option (List Token)
  | .word _ :: .word "PUBLIC" :: .literal name :: .close :: rest =>
    if name.all isPublicChar then some rest else none
  | .word _ :: rest =>
    match afterOutside? rest with
    | some (.close :: rest) => some rest
    | _ => none
  | _ => none

/-- The declarations between brackets. After a parameter entity, whose text nobody knows, they only
count in a document that stands alone. -/
def takeSubset? : Nat → Doctype → List Token → Option (Doctype × List Token)
  | 0, _, _ => none
  | fuel + 1, d, tokens =>
    match tokens with
    | .closeBracket :: rest => some (d, rest)
    | .aside :: rest => takeSubset? fuel d rest
    | .parameter :: rest =>
      takeSubset? fuel { d with elsewhere := true, heeding := d.standalone } rest
    | .declare "ENTITY" :: rest => do
      let (d, rest) ← d.takeEntity? rest
      takeSubset? fuel d rest
    | .declare "ATTLIST" :: token :: rest => do
      let (d, rest) ← takeRules? (← token.qname?) (rest.length + 1) d rest
      takeSubset? fuel d rest
    | .declare "ELEMENT" :: rest => do takeSubset? fuel d (← afterElement? rest)
    | .declare "NOTATION" :: rest => do takeSubset? fuel d (← afterNotation? rest)
    | _ => none

/-- The document type that stands before the root element, if there is one. -/
def ofTokens? (standalone : Bool) (tokens : List Token) : Option Doctype :=
  match tokens.dropWhile (· == .aside) with
  | [] => some (bare standalone)
  | .declare "DOCTYPE" :: name :: rest => do
    let _ ← name.qname?
    let (d, rest) :=
      match afterOutside? rest with
      | some rest => ({ bare standalone with elsewhere := true }, rest)
      | none => (bare standalone, rest)
    let (d, rest) ←
      match rest with
      | .openBracket :: rest => takeSubset? (rest.length + 1) d rest
      | rest => some (d, rest)
    match rest with
    | .close :: rest => if rest.all (· == .aside) then some d else none
    | _ => none
  | _ => none

end Doctype

end BulkPaths.Xml
