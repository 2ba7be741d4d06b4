import BulkPaths.Value
import BulkPaths.VertexId

/-!
Everything that can go wrong, by cause. A fault belongs to one kind, and its message says what was
found where.
-/

namespace BulkPaths

inductive Quantity
  | single
  | multiple
  | all
  deriving DecidableEq, Repr

def Quantity.name : Quantity → String
  | .single => "single"
  | .multiple => "multiple"
  | .all => "all"

inductive FaultKind
  | input
  | format
  | config
  | weightType
  | weightRange
  | algorithm
  /-- A name that is none of the known ones. -/
  | choice
  | value
  | overflow
  | type
  | attribute
  | index
  | lookup
  | missingFile
  | directory
  | noDirectory
  /-- What the system refuses for another reason. -/
  | system
  /-- Octets that spell no text. -/
  | encoding
  | charset
  | transcoding
  | xml
  | json
  | depth
  | graph
  deriving DecidableEq, Repr

/-- Faults that a user of a job can mend, by changing what was typed or the file that was read. -/
def FaultKind.isUserError : FaultKind → Bool
  | .input | .format | .config | .weightType | .weightRange => true
  | _ => false

inductive Fault
  | boolId (b : Bool)
  | emptyId
  | unsupportedId (value : Value)
  | blankToken
  | emptyQuoted
  | unknownVertex (id : VertexId)
  | edgesNotFound (path : String)
  | noEdges
  | unknownFormat
  | fewCells (path : String) (line : Nat)
  | badRow (path : String) (line : Nat) (cause : Fault)
  | badMarkup (path : String) (cause : Fault)
  | targetCount (quantity : Quantity)
  | blankTarget
  | emptyTarget (raw : String)
  | starNotAlone (raw : String)
  | badTarget (raw : String) (cause : Fault)
  | blankSource
  | severalSources (raw : String)
  | badSource (cause : Fault)
  | idsNotText
  | defaultUnreadable (option raw : String)
  | defaultNotNumber (value : Value)
  | defaultNotPositive (value : Value)
  | workersNotPositive
  | boundNegative
  | unknownEngineOption (name : String)
  | keyTaken (key : String)
  | weightNotNumber (property : String) (value : Value) (target : VertexId)
  | weightNotPositive (property : String) (value : Value) (target : VertexId)
  | notShorter (id : VertexId) (candidate current : String)
  | notFinite (id : VertexId) (candidate : String)
  | strayTargets (ids : List VertexId)
  | noAggregator (key : String)
  | noConvergence (bound pending : Nat)
  | unsettled
  | unknownLevel (name : String)
  | unknownLayout (name : String)
  | longNumeral
  | notANumeral
  | negativeSample
  | pairLength
  | nullNode
  | badScalar
  | tooLarge
  | workersOutOfRange
  | reservedName (name : String)
  | badArgument (name : String)
  | notComparable
  | notHashable
  | notAMapping
  | notAWord
  | emptyPath
  | noSuchItem
  | noValue (id : VertexId)
  | levelNotFound (name : String)
  | fieldNotFound (name : String)
  | fileNotFound (path : String)
  | isDirectory (path : String)
  | notDirectory (path : String)
  | nameTooLong (path : String)
  | nullInPath
  | notUtf8
  | notAscii
  | unknownEncoding (name : String)
  | unsuitedEncoding
  | wideEncoding
  | malformedXml
  | malformedJson
  /-- Too many values of some kind lie within one another. -/
  | tooDeep (kind : String)
  /-- Too many values lie within one that a message or an option spells. -/
  | tooNested
  | noGroupGraph
  | noJob
  | unusableGraph
  deriving Repr

namespace Fault

def kind : Fault → FaultKind
  | boolId _ | emptyId | unsupportedId _ | blankToken | emptyQuoted | unknownVertex _
  | edgesNotFound _ => .input
  | noEdges | unknownFormat | fewCells .. | badRow .. | badMarkup .. => .format
  | targetCount _ | blankTarget | emptyTarget _ | starNotAlone _ | badTarget .. | blankSource
  | severalSources _ | badSource _ | idsNotText | defaultUnreadable .. | defaultNotNumber _
  | defaultNotPositive _ | workersNotPositive | boundNegative | unknownEngineOption _
  | keyTaken _ => .config
  | weightNotNumber .. => .weightType
  | weightNotPositive .. => .weightRange
  | notShorter .. | notFinite .. | strayTargets _ | noAggregator _ | noConvergence ..
  | unsettled => .algorithm
  | unknownLevel _ | unknownLayout _ => .choice
  | longNumeral | notANumeral | negativeSample | pairLength | nullNode | badScalar | nullInPath
  | wideEncoding => .value
  | tooLarge | workersOutOfRange => .overflow
  | reservedName _ | badArgument _ | notComparable | notHashable | notAMapping => .type
  | notAWord | noGroupGraph | noJob => .attribute
  | emptyPath | noSuchItem => .index
  | noValue _ | levelNotFound _ | fieldNotFound _ => .lookup
  | fileNotFound _ => .missingFile
  | isDirectory _ => .directory
  | notDirectory _ => .noDirectory
  | nameTooLong _ => .system
  | notUtf8 | notAscii => .encoding
  | unknownEncoding _ => .charset
  | unsuitedEncoding => .transcoding
  | malformedXml => .xml
  | malformedJson => .json
  | tooDeep _ | tooNested => .depth
  | unusableGraph => .graph

/-- The message of a fault. The cause inside a file fault shows its own message only if it is
about an identifier or a missing field; `label` names any other. -/
def messageWith (label : FaultKind → String) : Fault → String
  | boolId b => "vertex id must not be a bool, got " ++ Value.boolText b
  | emptyId => "vertex id must not be empty"
  | unsupportedId value =>
    "unsupported vertex id type " ++ value.typeName ++ ": " ++ value.spelled
  | blankToken => "vertex id must not be blank"
  | emptyQuoted => "quoted vertex id must not be empty"
  | unknownVertex id => "unknown vertex " ++ id.plain
  | edgesNotFound path => "edges file not found: " ++ path
  | noEdges => "no edges parsed from file"
  | unknownFormat => "unknown graph format"
  | fewCells path line => path ++ ":" ++ toString line ++ ": expected at least 'u,v'"
  | badRow path line cause =>
    path ++ ":" ++ toString line ++ ": " ++
      (match cause.kind with
      | .input | .lookup => messageWith label cause
      | other => label other)
  | badMarkup path cause =>
    "cannot parse GraphML " ++ path ++ ": " ++
      (match cause.kind with
      | .input => messageWith label cause
      | other => label other)
  | targetCount .all => "target_ids must be empty exactly when quantity is ALL"
  | targetCount .single => "a SINGLE target spec holds exactly one target id"
  | targetCount .multiple => "a MULTIPLE target spec holds at least two target ids"
  | blankTarget => "the target id must not be blank"
  | emptyTarget raw => "malformed target id list " ++ Text.quoted raw ++ ": empty entry"
  | starNotAlone raw => "malformed target id list " ++ Text.quoted raw ++ ": '*' must stand alone"
  | badTarget raw cause =>
    "malformed target id list " ++ Text.quoted raw ++ ": " ++ messageWith label cause
  | blankSource => "the source id must not be blank"
  | severalSources raw =>
    "the source id must identify exactly one vertex, got " ++ Text.quoted raw
  | badSource cause => messageWith label cause
  | idsNotText => "source_id and target_id must be strings"
  | defaultUnreadable option raw =>
    "the param '" ++ option ++ "' must be a number, actual got " ++ Text.quoted raw
  | defaultNotNumber value =>
    "the default weight must be a number, actual got " ++ value.spelled
  | defaultNotPositive value =>
    "the default weight must be greater than 0, actual got " ++ value.spelled
  | workersNotPositive => "num_workers must be a positive integer"
  | boundNegative => "max_supersteps must be a non-negative integer"
  | unknownEngineOption name =>
    "invalid engine option: EngineConfig.__init__() got " ++
      (if name = "self" then "multiple values for argument"
      else "an unexpected keyword argument") ++
      " '" ++ name ++ "'"
  | keyTaken key => "aggregator " ++ Text.quoted key ++ " already registered"
  | weightNotNumber property value target =>
    "the value of " ++ property ++ " must be a numeric value, actual got " ++ value.spelled ++
      " on edge to " ++ target.plain
  | weightNotPositive property value target =>
    "the value of " ++ property ++ " must be greater than 0, actual got " ++ value.spelled ++
      " on edge to " ++ target.plain
  | notShorter id candidate current =>
    "vertex " ++ id.plain ++ " cannot adopt weight " ++ candidate ++ " over current " ++ current
  | notFinite id candidate =>
    "vertex " ++ id.plain ++ " received non-finite weight " ++ candidate
  | strayTargets ids =>
    "reached targets contain non-target vertices: [" ++
      Value.commaSeparated
        (((ids.map VertexId.plain).mergeSort fun s t => compare s t != .gt).map Text.quoted) ++
      "]"
  | noAggregator key => "no aggregator registered under " ++ Text.quoted key
  | noConvergence bound pending =>
    "no convergence within " ++ toString bound ++ " supersteps (" ++ toString pending ++
      " messages pending)"
  | unsettled => "messages pending after every vertex had its turn"
  | unknownLevel name => "unknown log level " ++ Text.quoted name
  | unknownLayout name => "Unknown layout: " ++ name
  | longNumeral => "numeral with more than " ++ toString Decimal.digitLimit ++ " digits"
  | notANumeral => "text is not a numeral"
  | negativeSample => "negative number of edges to draw"
  | pairLength => "a property needs a name and a value"
  | nullNode => "null cannot name a node"
  | badScalar => "text does not fit its declared type"
  | tooLarge => "int too large to convert to float"
  | workersOutOfRange => "worker count out of range"
  | reservedName name => "reserved name " ++ Text.quoted name
  | badArgument name => "missing or unknown argument " ++ Text.quoted name
  | notComparable => "value cannot be compared with a weight"
  | notHashable => "value cannot be a key"
  | notAMapping => "value is not a mapping"
  | notAWord => "property name is not a text"
  | emptyPath => "path is empty"
  | noSuchItem => "no item at this place"
  | noValue id => "no value of vertex " ++ id.plain
  | levelNotFound name => Text.quoted name
  | fieldNotFound name => Text.quoted name
  | fileNotFound path => "[Errno 2] No such file or directory: " ++ Text.quoted path
  | isDirectory path => "[Errno 21] Is a directory: " ++ Text.quoted path
  | notDirectory path => "[Errno 20] Not a directory: " ++ Text.quoted path
  | nameTooLong path => "[Errno 36] File name too long: " ++ Text.quoted path
  | nullInPath => "embedded null byte"
  | notUtf8 => "text is not UTF-8"
  | notAscii => "text is not ASCII"
  | unknownEncoding name => "unknown encoding: " ++ name
  | unsuitedEncoding => "encoding is not made for texts"
  | wideEncoding => "multi-byte encodings are not supported"
  | malformedXml => "malformed XML"
  | malformedJson => "malformed JSON"
  | tooDeep kind =>
    "maximum recursion depth exceeded while decoding a JSON " ++ kind ++ " from a unicode string"
  | tooNested => "maximum recursion depth exceeded while getting the repr of an object"
  | noGroupGraph => "group without a graph"
  | noJob => "no job is set up"
  | unusableGraph => "unusable graph document"

def causeLabel : FaultKind → String
  | .json => "malformed JSON"
  | .type => "value of the wrong type"
  | .value => "value out of range"
  | .graph => "unusable graph document"
  | _ => "unreadable"

def message (fault : Fault) : String := fault.messageWith causeLabel

def ofParse : VertexId.ParseError → Fault
  | .blank => blankToken
  | .emptyQuoted => emptyQuoted
  | .tooLong => longNumeral

end Fault

namespace VertexId

/-- The identifier that a value names: a number, a text that is not empty, or a universal
identifier. -/
def ofValue : Value → Except Fault VertexId
  | .int n => .ok (.long n)
  | .text s => if s.isEmpty then .error .emptyId else .ok (.utf8 s)
  | .uuid u => .ok (.uuid u)
  | .bool b => .error (.boolId b)
  | value => .error (.unsupportedId value)

def toValue : VertexId → Value
  | .long n => .int n
  | .utf8 s => .text s
  | .uuid u => .uuid u

def read (token : String) : Except Fault VertexId := (parse token).mapError Fault.ofParse

end VertexId

end BulkPaths
