import BulkPaths.Spelling

/-!
Which worker owns a vertex: the CRC-32 checksum of the identifier, modulo the number of workers.
-/

namespace BulkPaths

namespace Crc32

/-- The polynomial of ISO 3309, lowest power first. -/
def polynomial : UInt32 := 0xEDB88320

def shiftBit (crc : UInt32) : UInt32 :=
  if crc &&& 1 = 1 then (crc >>> 1) ^^^ polynomial else crc >>> 1

def addOctet (crc : UInt32) (octet : UInt8) : UInt32 :=
  Nat.repeat shiftBit 8 (crc ^^^ octet.toUInt32)

def checksum (octets : List UInt8) : UInt32 := octets.foldl addOctet 0xFFFFFFFF ^^^ 0xFFFFFFFF

end Crc32

namespace VertexId

/-- The category and the spelled identifier. -/
def octets (id : VertexId) : Except Fault (List UInt8) :=
  if id.isPrintable then .ok (toString id.category ++ ":" ++ id.plain).toUTF8.toList
  else .error .longNumeral

def checksum (id : VertexId) : Except Fault Nat :=
  id.octets.map fun octets => (Crc32.checksum octets).toNat

end VertexId

/-- The one of the workers that a checksum stands for. -/
def workerOf (workers checksum : Nat) : Nat := if workers = 0 then 0 else checksum % workers

/-- The owner of an identifier that has a checksum; vertices with others are never divided among
workers. -/
def VertexId.owner (workers : Nat) (id : VertexId) : Nat :=
  match id.checksum with
  | .ok checksum => workerOf workers checksum
  | .error _ => 0

/-- Worker counts are numbers of 32 bits. -/
def workerLimit : Nat := 0x100000000

/-- The owner of each identifier. All checksums are made before the workers are counted. -/
def partition (ids : List VertexId) (workers : Int) : Except Fault (List Nat) := do
  let checksums ← ids.mapM VertexId.checksum
  if 0 ≤ workers ∧ workers.toNat < workerLimit then .ok (checksums.map (workerOf workers.toNat))
  else .error .workersOutOfRange

end BulkPaths
