import TreeFlow.Machine.Value
import TreeFlow.Text.Utf8

/-!
# Memory

Memory has two regions. The lower one holds the globals and, above them, the stack; its first
bytes are never handed out, so address zero means nothing. The heap starts at an address of its
own. Addresses from yet another one on stand for functions.

A value is stored as so many bytes, the lowest first, as its type is large. An access has to lie
inside one region as a whole.
-/

namespace TreeFlow

/-! ### The map of addresses -/

namespace Memory

/-- Addresses below this one stand for nothing. -/
def nullGuard : Nat := 8

/-- The globals and the stack end below this address. -/
def stackLimit : Nat := 0x800000

/-- The address of the first byte of the heap. -/
def heapBase : Nat := 0x100000000

/-- The address of the first function. -/
def functionBase : Nat := 0x1000000000000

/-- What blocks on the heap are aligned to. -/
def heapAlign : Nat := 16

/-- The number of addresses. Sums of addresses are taken modulo this number. -/
def addressLimit : Nat := UInt64.size

/-- No block of memory is as large as this. -/
def blockLimit : Nat := 0x8000000000000000

/-- The next multiple of an alignment from an address on. -/
def alignUp (address align : Nat) : Nat :=
  let unit := max align 1
  (address + (unit - 1)) % addressLimit / unit * unit

end Memory

/-- The contents of memory. -/
structure Memory where
  /-- The globals and the stack, from address zero on. -/
  low : Array UInt8 := Array.replicate Memory.nullGuard 0
  heap : Array UInt8 := #[]
  deriving Inhabited

/-- A place in one of the regions. -/
inductive Place where
  | low (offset : Nat)
  | heap (offset : Nat)
  deriving DecidableEq, Repr

namespace Memory

/-- Some bytes from an offset on have to lie inside a region of so many bytes. The end must be an
address, or the machine breaks down. -/
def within (place : Place) (address : UInt64) (offset length size : Nat) : Except RunError Place :=
  if addressLimit ≤ offset + length then .error .addressOverflow
  else if offset + length ≤ size then .ok place
  else .error (.outOfBounds length address)

/-- Where some bytes at an address lie. -/
def locate (m : Memory) (address : UInt64) (length : Nat) : Except RunError Place :=
  let a := address.toNat
  if a < nullGuard then .error (.nullAccess address)
  else if heapBase ≤ a then
    within (.heap (a - heapBase)) address (a - heapBase) length m.heap.size
  else within (.low a) address a length m.low.size

/-- The bytes at a place. -/
def bytesAt (m : Memory) (place : Place) (length : Nat) : List UInt8 :=
  match place with
  | .low offset => (m.low.extract offset (offset + length)).toList
  | .heap offset => (m.heap.extract offset (offset + length)).toList

/-- Writes bytes into a region from an offset on. -/
def overwrite (region : Array UInt8) (offset : Nat) : List UInt8 → Array UInt8
  | [] => region
  | b :: bs => overwrite (region.setIfInBounds offset b) (offset + 1) bs

/-- Writes so many zeros into a region from an offset on. -/
def clear (region : Array UInt8) (offset : Nat) : Nat → Array UInt8
  | 0 => region
  | count + 1 => clear (region.setIfInBounds offset 0) (offset + 1) count

/-- Writes bytes at a place. -/
def putBytes (m : Memory) (place : Place) (contents : List UInt8) : Memory :=
  match place with
  | .low offset => { m with low := overwrite m.low offset contents }
  | .heap offset => { m with heap := overwrite m.heap offset contents }

/-- The bytes at an address. -/
def loadBytes (m : Memory) (address : UInt64) (length : Nat) : Except RunError (List UInt8) :=
  (m.locate address length).map fun place => m.bytesAt place length

/-- A region that ends no earlier than at an offset. -/
def extend (region : Array UInt8) (stop : Nat) : Array UInt8 :=
  region ++ Array.replicate (stop - region.size) 0

/-- A region that ends at an offset. -/
def resize (region : Array UInt8) (stop : Nat) : Array UInt8 :=
  if stop < region.size then region.take stop else extend region stop

/-- Memory whose lower region ends at an address. -/
def resizeLow (m : Memory) (stop : Nat) : Memory := { m with low := resize m.low stop }

/-- Memory whose heap ends at an offset. -/
def resizeHeap (m : Memory) (stop : Nat) : Memory :=
  { m with heap := resize m.heap stop }

/-- Clears a part of the lower region, which grows where it is too short. -/
def reserve (m : Memory) (start stop : Nat) : Memory :=
  { m with low := clear (extend m.low stop) start (stop - start) }

/-- The text at an address: the bytes before the first zero, of at most so many. -/
def textBytes (m : Memory) : Nat → UInt64 → Except RunError (List UInt8)
  | 0, address => .error (.outOfBounds 1 address)
  | most + 1, address => do
    match ← m.loadBytes address 1 with
    | b :: _ => if b = 0 then return [] else return b :: (← textBytes m most (address + 1))
    | [] => return []

/-- The text at an address. It ends inside its region, or reading it goes out of bounds. -/
def text (m : Memory) (address : UInt64) : Except RunError String :=
  (m.textBytes (m.low.size + m.heap.size + 1) address).map Utf8.decode

end Memory

/-! ### Values as bytes -/

/-- The lowest bytes of a number, the lowest first. -/
def littleEndian (n : Nat) : Nat → List UInt8
  | 0 => []
  | count + 1 => .ofNat n :: littleEndian (n / 256) count

/-- The number with the given bytes, the lowest first. -/
def ofLittleEndian : List UInt8 → Nat
  | [] => 0
  | b :: bs => b.toNat + 256 * ofLittleEndian bs

/-- Bytes cut or padded with zeros to a length. -/
def resizeBytes (contents : List UInt8) (length : Nat) : Except RunError (List UInt8) :=
  if Memory.blockLimit ≤ length then .error .addressOverflow
  else .ok (contents.take length ++ List.replicate (length - contents.length) 0)

namespace RunValue

/-- The bytes of a value that is stored as some type, before they are brought to its size. -/
def encode? (v : RunValue) (ty : Ty) : Except RunError (List UInt8) :=
  match ty, v with
  | .float, float x => .ok (littleEndian x.toFloat32.toBits.toNat 4)
  | .double, float x => .ok (littleEndian x.toBits.toNat 8)
  | _, bytes contents => .ok contents
  | _, int i => .ok (littleEndian (i % Signed.span Signed.unitBits).toNat 16)
  | _, pointer p => .ok (littleEndian p.toNat 8)
  | ty, v => .error (.cannotStore v ty)

/-- The value that some bytes are, read as a type. -/
def decode? (ty : Ty) (contents : List UInt8) : Except RunError RunValue :=
  match ty with
  | .bool => .ok (int (ofLittleEndian (contents.take 1) % 2))
  | .int n | .bitField n =>
    if contents.length ≤ 16 then
      .ok (int (Signed.wrap n (Signed.wrapUnit (ofLittleEndian contents))))
    else .error (.wideInteger contents.length)
  | .float => .ok (float (Float32.ofBits (.ofNat (ofLittleEndian (contents.take 4)))).toFloat)
  | .double => .ok (float (Float.ofBits (.ofNat (ofLittleEndian (contents.take 8)))))
  | .pointer _ => .ok (pointer (.ofNat (ofLittleEndian (contents.take 8))))
  | .array .. | .struct _ | .union _ => .ok (bytes contents)
  | .void | .function .. => .ok void

end RunValue

end TreeFlow
