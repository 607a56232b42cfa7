import Mathlib.Data.UInt

/-!
# The artifact transport ABI

The shared mapping is bytes, and a descriptor is what its bytes say in little-endian order. Offsets and
sizes are those of the C structures of `artifact_transport_abi.h`.
-/

namespace LasecSimul.Vnext

def magicNumber : UInt64 := 0x4C415443564E4251
def abiMajor : UInt32 := 1
def abiMinor : UInt32 := 2
def maxLanes : UInt32 := 16
def maxEndpoints : UInt32 := 64
def maxResponses : UInt32 := 16
def maxSnapshots : UInt32 := 64
def eventPayload : Nat := 64
def snapshotBytes : Nat := 128

def eventSize : Nat := 96
def ringHeaderSize : Nat := 16
def endpointDescriptorSize : Nat := 48
def laneDescriptorSize : Nat := 56
def c2aDescriptorSize : Nat := 56
def snapshotDescriptorSize : Nat := 32
def responseSlotSize : Nat := 88
def snapshotSize : Nat := 8 + snapshotBytes
def controlPageSize : Nat := 248

/-- The bytes from `size` on belong to other memory. -/
structure Mapping where
  byte : Nat → UInt8
  size : UInt64

namespace Mapping

def u32 (mapping : Mapping) (offset : Nat) : UInt32 :=
  UInt32.ofNat ((List.range 4).foldr (fun i value => (mapping.byte (offset + i)).toNat + 256 * value) 0)

def u64 (mapping : Mapping) (offset : Nat) : UInt64 :=
  UInt64.ofNat ((List.range 8).foldr (fun i value => (mapping.byte (offset + i)).toNat + 256 * value) 0)

end Mapping

structure RegionDescriptor where
  offset : UInt64
  bytes : UInt64
  stride : UInt32
  count : UInt32
  deriving DecidableEq, Repr

def regionAt (mapping : Mapping) (offset : Nat) : RegionDescriptor where
  offset := mapping.u64 offset
  bytes := mapping.u64 (offset + 8)
  stride := mapping.u32 (offset + 16)
  count := mapping.u32 (offset + 20)

structure EndpointDescriptor where
  endpointId : UInt32
  q2cOffset : UInt64
  q2cDepth : UInt32
  eventStride : UInt32
  payloadLimit : UInt32
  deriving DecidableEq, Repr

def endpointAt (mapping : Mapping) (offset : Nat) : EndpointDescriptor where
  endpointId := mapping.u32 offset
  q2cOffset := mapping.u64 (offset + 8)
  q2cDepth := mapping.u32 (offset + 32)
  eventStride := mapping.u32 (offset + 36)
  payloadLimit := mapping.u32 (offset + 40)

/-- `lasec_at_lane_descriptor` and `lasec_at_c2a_descriptor`, which have the same fields. -/
structure RingDescriptor where
  metadata : RegionDescriptor
  events : RegionDescriptor
  depth : UInt32
  eventStride : UInt32
  deriving DecidableEq, Repr

def ringAt (mapping : Mapping) (offset : Nat) : RingDescriptor where
  metadata := regionAt mapping offset
  events := regionAt mapping (offset + 24)
  depth := mapping.u32 (offset + 48)
  eventStride := mapping.u32 (offset + 52)

/-- `storage` of a `lasec_at_snapshot_descriptor`. -/
def storageAt (mapping : Mapping) (offset : Nat) : RegionDescriptor := regionAt mapping offset

structure ControlPage where
  magic : UInt64
  abiMajor : UInt32
  abiMinor : UInt32
  mappingBytes : UInt64
  executionId : UInt64
  laneCount : UInt32
  responseSlotCount : UInt32
  descriptorCapacity : UInt32
  descriptorOffset : UInt64
  endpointCount : UInt32
  snapshotCount : UInt32
  laneDescriptorOffset : UInt64
  responseSlotOffset : UInt64
  snapshotDescriptorOffset : UInt64
  c2aDescriptorOffset : UInt64
  deriving DecidableEq, Repr

def controlPageAt (mapping : Mapping) (offset : Nat) : ControlPage where
  magic := mapping.u64 offset
  abiMajor := mapping.u32 (offset + 8)
  abiMinor := mapping.u32 (offset + 12)
  mappingBytes := mapping.u64 (offset + 16)
  executionId := mapping.u64 (offset + 24)
  laneCount := mapping.u32 (offset + 32)
  responseSlotCount := mapping.u32 (offset + 36)
  descriptorCapacity := mapping.u32 (offset + 44)
  descriptorOffset := mapping.u64 (offset + 48)
  endpointCount := mapping.u32 (offset + 136)
  snapshotCount := mapping.u32 (offset + 140)
  laneDescriptorOffset := mapping.u64 (offset + 144)
  responseSlotOffset := mapping.u64 (offset + 152)
  snapshotDescriptorOffset := mapping.u64 (offset + 160)
  c2aDescriptorOffset := mapping.u64 (offset + 168)

structure Range where
  start : Nat
  length : Nat
  deriving DecidableEq, Repr

namespace Range

def InBounds (range : Range) (size : UInt64) : Prop := range.start + range.length ≤ size.toNat

def Covers (range : Range) (byte : Nat) : Prop := range.start ≤ byte ∧ byte < range.start + range.length

def Apart (a b : Range) : Prop := a.start + a.length ≤ b.start ∨ b.start + b.length ≤ a.start

theorem apart_iff {a b : Range} (filled : 0 < a.length) (filled' : 0 < b.length) :
    a.Apart b ↔ ∀ byte, ¬(a.Covers byte ∧ b.Covers byte) := by
  unfold Apart Covers
  constructor
  · omega
  · intro disjoint
    have first := disjoint a.start
    have second := disjoint b.start
    omega

end Range

/-- The bytes of `region` as its descriptor states them. -/
def RegionDescriptor.range (region : RegionDescriptor) : Range := ⟨region.offset.toNat, region.bytes.toNat⟩

end LasecSimul.Vnext
