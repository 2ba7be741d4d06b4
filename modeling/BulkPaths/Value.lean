import BulkPaths.Decimal.Numeral
import BulkPaths.Decimal.Shortest
import BulkPaths.Text.Quoted
import BulkPaths.Uuid

/-!
Property values: what an edge, an option or a log field can hold, and how messages spell it.
-/

namespace BulkPaths

inductive Value
  | null
  | bool (b : Bool)
  | int (n : Int)
  | real (x : Float)
  | text (s : String)
  | uuid (u : Uuid)
  | list (items : List Value)
  | record (fields : List (String × Value))
  deriving Repr, Inhabited

/-- Named values, in order of first arrival. -/
abbrev Properties := List (String × Value)

/-- A truth value is no number. -/
inductive Number
  | int (n : Int)
  | real (x : Float)
  deriving Repr

namespace Number

def toValue : Number → Value
  | .int n => .int n
  | .real x => .real x

/-- Whole numbers beyond the doubles have no float. -/
def toFloat? : Number → Option Float
  | .int n => Binary64.ofInt? n
  | .real x => some x

def isPositive : Number → Bool
  | .int n => 0 < n
  | .real x => 0 < x

def isBelow (number : Number) (x : Float) : Bool :=
  match number with
  | .int n => Binary64.intBelow n x
  | .real y => y < x

end Number

namespace Value

def number? : Value → Option Number
  | .int n => some (.int n)
  | .real x => some (.real x)
  | _ => none

def typeName : Value → String
  | .null => "NoneType"
  | .bool _ => "bool"
  | .int _ => "int"
  | .real _ => "float"
  | .text _ => "str"
  | .uuid _ => "UUID"
  | .list _ => "list"
  | .record _ => "dict"

/-- Empty, zero and absent values count as no. -/
def isTrue : Value → Bool
  | .null => false
  | .bool b => b
  | .int n => n != 0
  | .real x => !(x == 0)
  | .text s => !s.isEmpty
  | .uuid _ => true
  | .list items => !items.isEmpty
  | .record fields => !fields.isEmpty

def boolText (b : Bool) : String := if b then "True" else "False"

def commaSeparated (items : List String) : String := ", ".intercalate items

mutual

/-- The value with its kind visible: texts are quoted. -/
def spelled : Value → String
  | .null => "None"
  | .bool b => boolText b
  | .int n => toString n
  | .real x => Decimal.text x
  | .text s => Text.quoted s
  | .uuid u => "UUID('" ++ u.toText ++ "')"
  | .list items => "[" ++ commaSeparated (spelledItems items) ++ "]"
  | .record fields => "\x7b" ++ commaSeparated (spelledFields fields) ++ "\x7d"

def spelledItems : List Value → List String
  | [] => []
  | item :: rest => item.spelled :: spelledItems rest

def spelledFields : List (String × Value) → List String
  | [] => []
  | (name, value) :: rest => (Text.quoted name ++ ": " ++ value.spelled) :: spelledFields rest

end

mutual

/-- Whether no whole number in the value has too many digits to be spelled. -/
def isSpellable : Value → Bool
  | .int n => (Nat.toDigits 10 n.natAbs).length ≤ Decimal.digitLimit
  | .list items => areSpellable items
  | .record fields => fieldsSpellable fields
  | _ => true

def areSpellable : List Value → Bool
  | [] => true
  | item :: rest => item.isSpellable && areSpellable rest

def fieldsSpellable : List (String × Value) → Bool
  | [] => true
  | (_, value) :: rest => value.isSpellable && fieldsSpellable rest

end

/-- Values hold values: what is true of a value if it is true of all that it holds is true of all
values. -/
@[elab_as_elim]
theorem held_induction {motive : Value → Prop} (null : motive .null)
    (bool : ∀ b, motive (.bool b)) (int : ∀ n, motive (.int n)) (real : ∀ x, motive (.real x))
    (text : ∀ s, motive (.text s)) (uuid : ∀ u, motive (.uuid u))
    (list : ∀ items, (∀ item ∈ items, motive item) → motive (.list items))
    (record : ∀ fields, (∀ field ∈ fields, motive field.2) → motive (.record fields)) :
    ∀ value, motive value
  | .null => null
  | .bool b => bool b
  | .int n => int n
  | .real x => real x
  | .text s => text s
  | .uuid u => uuid u
  | .list items => list items fun item _ =>
    held_induction null bool int real text uuid list record item
  | .record fields => record fields fun field _ =>
    held_induction null bool int real text uuid list record field.2
termination_by value => sizeOf value
decreasing_by
  · have hlt := List.sizeOf_lt_of_mem ‹item ∈ items›
    simp only [Value.list.sizeOf_spec]
    omega
  · have hlt := List.sizeOf_lt_of_mem ‹field ∈ fields›
    obtain ⟨name, value⟩ := field
    simp only [Prod.mk.sizeOf_spec] at hlt
    simp only [Value.record.sizeOf_spec]
    omega

/-- As `spelled`, but a text or an identifier on its own stands for itself. -/
def plain : Value → String
  | .text s => s
  | .uuid u => u.toText
  | value => value.spelled

end Value

end BulkPaths
