import LasecSimul.Lib.Spsc
import LasecSimul.Vnext.Abi

/-!
# Validating a mapping view

`validateMappingView` and the byte ranges that the attachment computes from a header it accepts.
-/

namespace LasecSimul.Vnext

open Lib.Spsc (Depth slot slot_ofNat)

/-- The pointers of `MappingView`, as offsets from the base of the mapping. -/
structure MappingView where
  control : Nat
  endpoints : Nat
  lanes : Nat
  responses : Nat
  snapshots : Nat
  c2a : Nat
  deriving DecidableEq, Repr

def mappingRange (offset bytes total alignment : UInt64) : Bool :=
  alignment ≠ 0 ∧ offset % alignment = 0 ∧ offset ≤ total ∧ bytes ≤ total - offset

def mappingRing (metadata events : RegionDescriptor) (depth stride : UInt32) (total : UInt64) : Bool :=
  depth ≥ 2 ∧ depth ≤ 1024 ∧ depth &&& (depth - 1) = 0 ∧ stride.toNat = eventSize ∧ metadata.count = 1 ∧
    metadata.stride.toNat = ringHeaderSize ∧ events.count = depth ∧ events.stride.toNat = eventSize ∧
    metadata.bytes.toNat = ringHeaderSize ∧ events.bytes = depth.toUInt64 * UInt64.ofNat eventSize ∧
    mappingRange metadata.offset metadata.bytes total 8 ∧ mappingRange events.offset events.bytes total 64

def arrayRange (offset : UInt64) (count : UInt32) (size : Nat) (total : UInt64) : Bool :=
  mappingRange offset (count.toUInt64 * UInt64.ofNat size) total 64

def headerValid (c : ControlPage) (size : UInt64) : Bool :=
  ¬(c.magic ≠ magicNumber ∨ c.abiMajor ≠ abiMajor ∨ c.abiMinor > abiMinor ∨ c.mappingBytes ≠ size ∨
    c.executionId = 0 ∨ c.laneCount = 0 ∨ c.laneCount > maxLanes ∨ c.endpointCount > c.descriptorCapacity ∨
    c.endpointCount > maxEndpoints ∨ c.responseSlotCount ≠ c.laneCount ∨ c.responseSlotCount > maxResponses ∨
    c.snapshotCount > maxSnapshots)

def arraysValid (c : ControlPage) (size : UInt64) : Bool :=
  arrayRange c.descriptorOffset c.descriptorCapacity endpointDescriptorSize size ∧
    arrayRange c.laneDescriptorOffset c.laneCount laneDescriptorSize size ∧
    arrayRange c.responseSlotOffset c.responseSlotCount responseSlotSize size ∧
    arrayRange c.snapshotDescriptorOffset c.snapshotCount snapshotDescriptorSize size ∧
    arrayRange c.c2aDescriptorOffset 1 c2aDescriptorSize size

def laneAt (mapping : Mapping) (lanes lane : Nat) : RingDescriptor :=
  ringAt mapping (lanes + laneDescriptorSize * lane)

def ringValid (ring : RingDescriptor) (size : UInt64) : Bool :=
  mappingRing ring.metadata ring.events ring.depth ring.eventStride size

def endpointValid (mapping : Mapping) (c : ControlPage) (index : Nat) : Bool :=
  let e := endpointAt mapping (c.descriptorOffset.toNat + endpointDescriptorSize * index)
  e.endpointId.toNat = index ∧ e.q2cDepth ≠ 0 ∧ e.q2cDepth ≤ 1024 ∧ e.eventStride.toNat = eventSize ∧
    e.payloadLimit.toNat ≤ eventPayload ∧
    mappingRange e.q2cOffset (e.q2cDepth.toUInt64 * e.eventStride.toUInt64) mapping.size 64 ∧
    (List.range c.laneCount.toNat).any fun lane =>
      let owner := laneAt mapping c.laneDescriptorOffset.toNat lane
      e.q2cOffset == owner.events.offset && e.q2cDepth == owner.depth

def validateMappingView (mapping : Mapping) : Option MappingView :=
  let size := mapping.size
  if size.toNat < controlPageSize then none
  else
    let c := controlPageAt mapping 0
    let c2a := ringAt mapping c.c2aDescriptorOffset.toNat
    if ¬headerValid c size then none
    else if ¬arraysValid c size then none
    else if ¬(List.range c.laneCount.toNat).all fun lane => ringValid (laneAt mapping c.laneDescriptorOffset.toNat lane) size then
      none
    else if c2a.metadata.offset + UInt64.ofNat ringHeaderSize > size ∨ ¬ringValid c2a size then none
    else if ¬(List.range c.endpointCount.toNat).all fun index => endpointValid mapping c index then none
    else some {
      control := 0
      endpoints := c.descriptorOffset.toNat
      lanes := c.laneDescriptorOffset.toNat
      responses := c.responseSlotOffset.toNat
      snapshots := c.snapshotDescriptorOffset.toNat
      c2a := c.c2aDescriptorOffset.toNat }

/-! ### The ranges the attachment computes -/

/-- The slot of `seq`: `seq & (depth - 1)`. -/
def slotRange (ring : RingDescriptor) (seq : UInt64) : Range :=
  ⟨ring.events.offset.toNat + eventSize * slot ring.depth seq, eventSize⟩

def headerRange (ring : RingDescriptor) : Range := ⟨ring.metadata.offset.toNat, ringHeaderSize⟩

def responseRange (view : MappingView) (lane : Nat) : Range :=
  ⟨view.responses + responseSlotSize * lane, responseSlotSize⟩

def snapshotOffset (mapping : Mapping) (view : MappingView) (index : Nat) : Nat :=
  (storageAt mapping (view.snapshots + snapshotDescriptorSize * index)).offset.toNat

/-- The chunks of a copy of `bytes` bytes, word by word. -/
def wordChunks (start bytes : Nat) : List Range :=
  (List.range ((bytes + 7) / 8)).map fun i => ⟨start + 8 * i, min (bytes - 8 * i) 8⟩

def controlRange (view : MappingView) : Range := ⟨view.control, controlPageSize⟩

/-- `consumeLane` and `peekLane`, with `read_seq` at `read`. -/
def laneRanges (mapping : Mapping) (view : MappingView) (lane : Nat) (read : UInt64) : List Range :=
  if lane < (controlPageAt mapping view.control).laneCount.toNat then
    let ring := laneAt mapping view.lanes lane
    [controlRange view, ⟨view.lanes + laneDescriptorSize * lane, laneDescriptorSize⟩, headerRange ring,
      slotRange ring read]
  else [controlRange view]

/-- `publishC2aEvent`, with `write_seq` at `write`. -/
def c2aRanges (mapping : Mapping) (view : MappingView) (write : UInt64) : List Range :=
  let ring := ringAt mapping view.c2a
  [⟨view.c2a, c2aDescriptorSize⟩, headerRange ring, slotRange ring write]

/-- `respondToRequest`, which consumes the lane first unless it is given the request. -/
def responseRanges (mapping : Mapping) (view : MappingView) (lane : Nat) (read : UInt64) : List Range :=
  if lane < (controlPageAt mapping view.control).laneCount.toNat then
    responseRange view lane :: laneRanges mapping view lane read
  else [controlRange view]

/-- `readSnapshot`. -/
def readSnapshotRanges (mapping : Mapping) (view : MappingView) (bytes : Nat) : List Range :=
  if bytes > snapshotBytes then []
  else
    let snapshot := snapshotOffset mapping view 0
    ⟨view.snapshots, 8⟩ :: ⟨snapshot, 8⟩ :: wordChunks (snapshot + 8) bytes

/-- `publishSnapshot`, which stores whole words. -/
def publishSnapshotRanges (mapping : Mapping) (view : MappingView) (bytes : Nat) : List Range :=
  if bytes > snapshotBytes then []
  else
    let snapshot := snapshotOffset mapping view 0
    ⟨view.snapshots, 8⟩ :: ⟨snapshot, 8⟩ :: wordChunks (snapshot + 8) (8 * ((bytes + 7) / 8))

inductive Access where
  | consumeLane (lane : Nat) (read : UInt64)
  | peekLane (lane : Nat) (read : UInt64)
  | publishC2aEvent (write : UInt64)
  | respondToRequest (lane : Nat) (read : UInt64)
  | readSnapshot (bytes : Nat)
  | publishSnapshot (bytes : Nat)
  deriving DecidableEq, Repr

def Access.ranges (mapping : Mapping) (view : MappingView) : Access → List Range
  | .consumeLane lane read | .peekLane lane read => laneRanges mapping view lane read
  | .publishC2aEvent write => c2aRanges mapping view write
  | .respondToRequest lane read => responseRanges mapping view lane read
  | .readSnapshot bytes => readSnapshotRanges mapping view bytes
  | .publishSnapshot bytes => publishSnapshotRanges mapping view bytes

/-- What storage belongs to. -/
inductive Owner where
  | lane (index : Nat)
  | c2a
  | response (index : Nat)
  | snapshot (index : Nat)
  deriving DecidableEq, Repr

inductive Stored (ring : RingDescriptor) : Range → Prop where
  | header : Stored ring (headerRange ring)
  | slot (seq : UInt64) : Stored ring (slotRange ring seq)

/-- The ranges in which an owner keeps its data. -/
inductive Storage (mapping : Mapping) (view : MappingView) : Owner → Range → Prop where
  | lane {index : Nat} {range : Range} (present : index < (controlPageAt mapping view.control).laneCount.toNat)
      (stored : Stored (laneAt mapping view.lanes index) range) : Storage mapping view (.lane index) range
  | c2a {range : Range} (stored : Stored (ringAt mapping view.c2a) range) : Storage mapping view .c2a range
  | response {index : Nat} (present : index < (controlPageAt mapping view.control).responseSlotCount.toNat) :
      Storage mapping view (.response index) (responseRange view index)
  | snapshot {index : Nat} (present : index < (controlPageAt mapping view.control).snapshotCount.toNat) :
      Storage mapping view (.snapshot index) ⟨snapshotOffset mapping view index, snapshotSize⟩

structure SafeView (mapping : Mapping) (view : MappingView) : Prop where
  inside : ∀ access : Access, ∀ range ∈ access.ranges mapping view, range.InBounds mapping.size
  disjoint : ∀ a b range range', a ≠ b → Storage mapping view a range → Storage mapping view b range' →
    ∀ byte, ¬(range.Covers byte ∧ range'.Covers byte)

/-- The regions that the descriptors give to an owner. -/
def regions (mapping : Mapping) (view : MappingView) : Owner → List Range
  | .lane index =>
    if index < (controlPageAt mapping view.control).laneCount.toNat then
      [(laneAt mapping view.lanes index).metadata.range, (laneAt mapping view.lanes index).events.range]
    else []
  | .c2a => [(ringAt mapping view.c2a).metadata.range, (ringAt mapping view.c2a).events.range]
  | .response index =>
    if index < (controlPageAt mapping view.control).responseSlotCount.toNat then [responseRange view index] else []
  | .snapshot index =>
    if index < (controlPageAt mapping view.control).snapshotCount.toNat then
      [⟨snapshotOffset mapping view index, snapshotSize⟩]
    else []

/-- What `validateMappingView` does not check. -/
structure SoundStorage (mapping : Mapping) (view : MappingView) : Prop where
  descriptor : view.snapshots + 8 ≤ mapping.size.toNat
  storage : snapshotOffset mapping view 0 + snapshotSize ≤ mapping.size.toNat
  apart : ∀ a b, a ≠ b → ∀ range ∈ regions mapping view a, ∀ range' ∈ regions mapping view b, range.Apart range'

structure ValidRing (ring : RingDescriptor) (size : UInt64) : Prop where
  depth : ring.depth.toNat.isPowerOfTwo
  small : ring.depth.toNat ≤ 1024
  metadata : ring.metadata.range = headerRange ring
  events : ring.events.bytes.toNat = eventSize * ring.depth.toNat
  metadataInside : ring.metadata.range.InBounds size
  eventsInside : ring.events.range.InBounds size

structure Accepted (mapping : Mapping) (view : MappingView) : Prop where
  control : (controlRange view).InBounds mapping.size
  responseCount : (controlPageAt mapping view.control).responseSlotCount = (controlPageAt mapping view.control).laneCount
  lanes : (⟨view.lanes, (controlPageAt mapping view.control).laneCount.toNat * laneDescriptorSize⟩ : Range).InBounds
    mapping.size
  responses : (⟨view.responses, (controlPageAt mapping view.control).responseSlotCount.toNat * responseSlotSize⟩ :
    Range).InBounds mapping.size
  c2a : (⟨view.c2a, c2aDescriptorSize⟩ : Range).InBounds mapping.size
  laneRings : ∀ index < (controlPageAt mapping view.control).laneCount.toNat,
    ValidRing (laneAt mapping view.lanes index) mapping.size
  c2aRing : ValidRing (ringAt mapping view.c2a) mapping.size

theorem mappingRange_inBounds {offset bytes total alignment : UInt64}
    (accepted : mappingRange offset bytes total alignment = true) :
    (⟨offset.toNat, bytes.toNat⟩ : Range).InBounds total := by
  obtain ⟨_, _, below, fits⟩ := of_decide_eq_true accepted
  rw [UInt64.le_iff_toNat_le] at below fits
  rw [UInt64.toNat_sub_of_le _ _ (UInt64.le_iff_toNat_le.mpr below)] at fits
  show offset.toNat + bytes.toNat ≤ total.toNat
  omega

theorem arrayRange_inBounds {offset total : UInt64} {count : UInt32} {size : Nat} (small : size < 2 ^ 32)
    (accepted : arrayRange offset count size total = true) :
    (⟨offset.toNat, count.toNat * size⟩ : Range).InBounds total := by
  have inside := mappingRange_inBounds accepted
  have product : count.toNat * size < 2 ^ 64 := by
    have := Nat.mul_lt_mul'' count.toNat_lt small
    omega
  have whole : size % 2 ^ 64 = size := Nat.mod_eq_of_lt (by omega)
  rwa [UInt64.toNat_mul, UInt32.toNat_toUInt64, UInt64.toNat_ofNat', whole, Nat.mod_eq_of_lt product] at inside

theorem ringValid_spec {ring : RingDescriptor} {size : UInt64} (accepted : ringValid ring size = true) :
    ValidRing ring size := by
  obtain ⟨atLeast, atMost, mask, _, _, _, _, _, metadata, events, inside, inside'⟩ := of_decide_eq_true accepted
  have atLeast : 2 ≤ ring.depth.toNat := UInt32.le_iff_toNat_le.mp atLeast
  have atMost : ring.depth.toNat ≤ 1024 := UInt32.le_iff_toNat_le.mp atMost
  have mask := congrArg UInt32.toNat mask
  have one : (1 : UInt32) ≤ ring.depth := UInt32.le_iff_toNat_le.mpr (Nat.le_of_succ_le atLeast)
  rw [UInt32.toNat_and, UInt32.toNat_sub_of_le _ _ one] at mask
  have events := congrArg UInt64.toNat events
  rw [UInt64.toNat_mul, UInt32.toNat_toUInt64] at events
  constructor
  · exact (Nat.and_sub_one_eq_zero_iff_isPowerOfTwo (by omega)).mp mask
  · exact atMost
  · exact congrArg (Range.mk ring.metadata.offset.toNat) metadata
  · rw [events, eventSize, show (UInt64.ofNat 96).toNat = 96 from rfl]
    omega
  · exact mappingRange_inBounds inside
  · exact mappingRange_inBounds inside'

theorem validateMappingView_accepted {mapping : Mapping} {view : MappingView}
    (accepted : validateMappingView mapping = some view) : Accepted mapping view := by
  unfold validateMappingView at accepted
  simp only at accepted
  split at accepted
  · cases accepted
  rename_i large
  split at accepted
  · cases accepted
  rename_i header
  split at accepted
  · cases accepted
  rename_i arrays
  split at accepted
  · cases accepted
  rename_i rings
  split at accepted
  · cases accepted
  rename_i c2a
  split at accepted
  · cases accepted
  cases accepted
  have header := of_decide_eq_true (not_not.mp header)
  have ⟨_, lanes, responses, _, c2aDescriptor⟩ := of_decide_eq_true (not_not.mp arrays)
  have rings := List.all_eq_true.mp (not_not.mp rings)
  push Not at header c2a
  constructor
  · exact Nat.le_trans (Nat.le_of_eq (Nat.zero_add _)) (Nat.le_of_not_lt large)
  · exact header.2.2.2.2.2.2.2.2.2.1
  · exact arrayRange_inBounds (by decide) lanes
  · exact arrayRange_inBounds (by decide) responses
  · exact arrayRange_inBounds (by decide) c2aDescriptor
  · exact fun index lt => ringValid_spec (rings index (List.mem_range.mpr lt))
  · exact ringValid_spec c2a.2

def ValidRing.cells {ring : RingDescriptor} {size : UInt64} (valid : ValidRing ring size) : Depth :=
  ⟨ring.depth, valid.depth⟩

theorem ValidRing.slot_lt {ring : RingDescriptor} {size : UInt64} (valid : ValidRing ring size) (seq : UInt64) :
    slot ring.depth seq < ring.depth.toNat :=
  Lib.Spsc.slot_lt valid.cells seq

theorem ValidRing.slot_eq {ring : RingDescriptor} {size : UInt64} (valid : ValidRing ring size) {k : Nat}
    (lt : k < ring.depth.toNat) : slot ring.depth (UInt64.ofNat k) = k :=
  (slot_ofNat valid.cells k).trans (Nat.mod_eq_of_lt lt)

theorem ValidRing.slot_inBounds {ring : RingDescriptor} {size : UInt64} (valid : ValidRing ring size) (seq : UInt64) :
    (slotRange ring seq).InBounds size := by
  have inside := valid.eventsInside
  have lt := valid.slot_lt seq
  have events := valid.events
  unfold RegionDescriptor.range Range.InBounds eventSize at *
  simp only [slotRange, eventSize] at *
  omega

theorem ValidRing.header_inBounds {ring : RingDescriptor} {size : UInt64} (valid : ValidRing ring size) :
    (headerRange ring).InBounds size :=
  valid.metadata ▸ valid.metadataInside

theorem ValidRing.filled {ring : RingDescriptor} {size : UInt64} (valid : ValidRing ring size) :
    0 < ring.metadata.range.length ∧ 0 < ring.events.range.length := by
  have positive := Nat.pos_of_isPowerOfTwo valid.depth
  have events := valid.events
  constructor
  · rw [valid.metadata]
    exact Nat.zero_lt_succ 15
  · show 0 < ring.events.bytes.toNat
    rw [events, eventSize]
    omega

/-- Over all sequence numbers the slots fill the region of the events. -/
theorem ValidRing.stored_iff {ring : RingDescriptor} {size : UInt64} (valid : ValidRing ring size) (byte : Nat) :
    (∃ range, Stored ring range ∧ range.Covers byte) ↔
      ∃ range ∈ [ring.metadata.range, ring.events.range], range.Covers byte := by
  have events := valid.events
  constructor
  · rintro ⟨_, stored, covers⟩
    cases stored with
    | header => exact ⟨_, List.mem_cons_self, valid.metadata ▸ covers⟩
    | slot seq =>
      refine ⟨ring.events.range, by simp, ?_⟩
      have lt := valid.slot_lt seq
      unfold Range.Covers RegionDescriptor.range slotRange eventSize at *
      simp only at *
      omega
  · rintro ⟨range, member, covers⟩
    rcases List.mem_cons.mp member with rfl | member
    · exact ⟨_, .header, valid.metadata ▸ covers⟩
    · obtain rfl := List.mem_singleton.mp member
      unfold Range.Covers RegionDescriptor.range eventSize at *
      simp only at *
      refine ⟨_, .slot (UInt64.ofNat ((byte - ring.events.offset.toNat) / 96)), ?_⟩
      unfold slotRange eventSize
      simp only
      rw [valid.slot_eq (by omega)]
      omega

theorem Accepted.storage_iff {mapping : Mapping} {view : MappingView} (accepted : Accepted mapping view)
    (owner : Owner) (byte : Nat) :
    (∃ range, Storage mapping view owner range ∧ range.Covers byte) ↔
      ∃ range ∈ regions mapping view owner, range.Covers byte := by
  constructor
  · rintro ⟨_, stored, covers⟩
    cases stored with
    | @lane index _ present stored =>
      simp only [regions, if_pos present]
      exact ((accepted.laneRings index present).stored_iff byte).mp ⟨_, stored, covers⟩
    | c2a stored => exact (accepted.c2aRing.stored_iff byte).mp ⟨_, stored, covers⟩
    | response present =>
      simp only [regions, if_pos present]
      exact ⟨_, List.mem_cons_self, covers⟩
    | snapshot present =>
      simp only [regions, if_pos present]
      exact ⟨_, List.mem_cons_self, covers⟩
  · rintro ⟨range, member, covers⟩
    cases owner with
    | lane index =>
      simp only [regions] at member
      split at member
      · rename_i present
        obtain ⟨_, stored, here⟩ := ((accepted.laneRings index present).stored_iff byte).mpr ⟨_, member, covers⟩
        exact ⟨_, .lane present stored, here⟩
      · cases member
    | c2a =>
      obtain ⟨_, stored, here⟩ := (accepted.c2aRing.stored_iff byte).mpr ⟨_, member, covers⟩
      exact ⟨_, .c2a stored, here⟩
    | response index =>
      simp only [regions] at member
      split at member
      · rename_i present
        obtain rfl := List.mem_singleton.mp member
        exact ⟨_, .response present, covers⟩
      · cases member
    | snapshot index =>
      simp only [regions] at member
      split at member
      · rename_i present
        obtain rfl := List.mem_singleton.mp member
        exact ⟨_, .snapshot present, covers⟩
      · cases member

theorem Accepted.regions_filled {mapping : Mapping} {view : MappingView} (accepted : Accepted mapping view)
    {owner : Owner} {range : Range} (member : range ∈ regions mapping view owner) : 0 < range.length := by
  have either {ring : RingDescriptor} (valid : ValidRing ring mapping.size)
      (member : range ∈ [ring.metadata.range, ring.events.range]) : 0 < range.length := by
    rcases List.mem_cons.mp member with rfl | member
    · exact valid.filled.1
    · exact List.mem_singleton.mp member ▸ valid.filled.2
  cases owner with
  | lane index =>
    simp only [regions] at member
    split at member
    · rename_i present
      exact either (accepted.laneRings index present) member
    · cases member
  | c2a => exact either accepted.c2aRing member
  | response index =>
    simp only [regions] at member
    split at member
    · obtain rfl := List.mem_singleton.mp member
      exact Nat.zero_lt_succ 87
    · cases member
  | snapshot index =>
    simp only [regions] at member
    split at member
    · obtain rfl := List.mem_singleton.mp member
      exact Nat.zero_lt_succ 135
    · cases member

theorem Accepted.disjoint_iff {mapping : Mapping} {view : MappingView} (accepted : Accepted mapping view) :
    (∀ a b range range', a ≠ b → Storage mapping view a range → Storage mapping view b range' →
      ∀ byte, ¬(range.Covers byte ∧ range'.Covers byte)) ↔
    ∀ a b, a ≠ b → ∀ range ∈ regions mapping view a, ∀ range' ∈ regions mapping view b, range.Apart range' := by
  constructor
  · intro disjoint a b different range member range' member'
    refine (Range.apart_iff (accepted.regions_filled member) (accepted.regions_filled member')).mpr ?_
    rintro byte ⟨covers, covers'⟩
    obtain ⟨touched, stored, here⟩ := (accepted.storage_iff a byte).mpr ⟨range, member, covers⟩
    obtain ⟨touched', stored', here'⟩ := (accepted.storage_iff b byte).mpr ⟨range', member', covers'⟩
    exact disjoint a b touched touched' different stored stored' byte ⟨here, here'⟩
  · rintro apart a b range range' different stored stored' byte ⟨covers, covers'⟩
    obtain ⟨region, member, here⟩ := (accepted.storage_iff a byte).mp ⟨range, stored, covers⟩
    obtain ⟨region', member', here'⟩ := (accepted.storage_iff b byte).mp ⟨range', stored', covers'⟩
    have separate := apart a b different region member region' member'
    exact (Range.apart_iff (accepted.regions_filled member) (accepted.regions_filled member')).mp separate byte
      ⟨here, here'⟩

theorem Accepted.laneRanges_inBounds {mapping : Mapping} {view : MappingView} (accepted : Accepted mapping view)
    {lane : Nat} {read : UInt64} : ∀ range ∈ laneRanges mapping view lane read, range.InBounds mapping.size := by
  unfold laneRanges
  split
  · rename_i present
    have ring := accepted.laneRings lane present
    have lanes := accepted.lanes
    simp only [List.forall_mem_cons]
    refine ⟨accepted.control, ?_, ring.header_inBounds, ring.slot_inBounds read, nofun⟩
    unfold Range.InBounds laneDescriptorSize at *
    simp only at *
    omega
  · simpa using accepted.control

theorem Accepted.response_inBounds {mapping : Mapping} {view : MappingView} (accepted : Accepted mapping view)
    {lane : Nat} (present : lane < (controlPageAt mapping view.control).laneCount.toNat) :
    (responseRange view lane).InBounds mapping.size := by
  have responses := accepted.responses
  rw [accepted.responseCount] at responses
  unfold responseRange Range.InBounds responseSlotSize at *
  simp only at *
  omega

theorem wordChunks_inBounds {start bytes : Nat} {size : UInt64} (fits : start + bytes ≤ size.toNat) :
    ∀ range ∈ wordChunks start bytes, range.InBounds size := by
  intro range member
  obtain ⟨i, lt, rfl⟩ := List.mem_map.mp member
  have := List.mem_range.mp lt
  unfold Range.InBounds
  simp only
  omega

theorem SoundStorage.inBounds {mapping : Mapping} {view : MappingView} (accepted : Accepted mapping view)
    (sound : SoundStorage mapping view) :
    ∀ access : Access, ∀ range ∈ access.ranges mapping view, range.InBounds mapping.size := by
  have storage := sound.storage
  have first : (⟨view.snapshots, 8⟩ : Range).InBounds mapping.size := sound.descriptor
  have sequence : (⟨snapshotOffset mapping view 0, 8⟩ : Range).InBounds mapping.size := by
    unfold Range.InBounds snapshotSize at *
    simp only
    omega
  intro access
  cases access with
  | consumeLane lane read => exact accepted.laneRanges_inBounds
  | peekLane lane read => exact accepted.laneRanges_inBounds
  | publishC2aEvent write =>
    have ring := accepted.c2aRing
    simp only [Access.ranges, c2aRanges, List.forall_mem_cons]
    exact ⟨accepted.c2a, ring.header_inBounds, ring.slot_inBounds write, nofun⟩
  | respondToRequest lane read =>
    simp only [Access.ranges, responseRanges]
    split
    · rename_i present
      exact List.forall_mem_cons.mpr ⟨accepted.response_inBounds present, accepted.laneRanges_inBounds⟩
    · simpa using accepted.control
  | readSnapshot bytes =>
    simp only [Access.ranges, readSnapshotRanges]
    split
    · simp
    · simp only [List.forall_mem_cons]
      refine ⟨first, sequence, wordChunks_inBounds ?_⟩
      unfold snapshotSize snapshotBytes at *
      omega
  | publishSnapshot bytes =>
    simp only [Access.ranges, publishSnapshotRanges]
    split
    · simp
    · simp only [List.forall_mem_cons]
      refine ⟨first, sequence, wordChunks_inBounds ?_⟩
      unfold snapshotSize snapshotBytes at *
      omega

/-- The whole snapshot is read with a full buffer. -/
theorem snapshot_of_inBounds {mapping : Mapping} {view : MappingView}
    (inside : ∀ access : Access, ∀ range ∈ access.ranges mapping view, range.InBounds mapping.size) :
    view.snapshots + 8 ≤ mapping.size.toNat ∧ snapshotOffset mapping view 0 + snapshotSize ≤ mapping.size.toNat := by
  have ranges := inside (.readSnapshot snapshotBytes)
  simp only [Access.ranges, readSnapshotRanges, gt_iff_lt, Nat.lt_irrefl, if_false, List.forall_mem_cons] at ranges
  refine ⟨ranges.1, ?_⟩
  have last := ranges.2.2 ⟨snapshotOffset mapping view 0 + 8 + 8 * 15, 8⟩
    (List.mem_map.mpr ⟨15, by decide, by simp [snapshotBytes]⟩)
  unfold Range.InBounds snapshotSize snapshotBytes at *
  simp only at last
  omega

theorem validateMappingView_safe {mapping : Mapping} {view : MappingView}
    (accepted : validateMappingView mapping = some view) : SafeView mapping view ↔ SoundStorage mapping view := by
  have accepted := validateMappingView_accepted accepted
  constructor
  · intro safe
    have ⟨descriptor, storage⟩ := snapshot_of_inBounds safe.inside
    exact ⟨descriptor, storage, accepted.disjoint_iff.mp safe.disjoint⟩
  · intro sound
    exact ⟨sound.inBounds accepted, accepted.disjoint_iff.mpr sound.apart⟩

/-- A mapping written field by field: offset, width and value of each. -/
def mappingOf (fields : List (Nat × Nat × Nat)) (size : UInt64) : Mapping where
  byte i :=
    match fields.find? fun field => field.1 ≤ i ∧ i < field.1 + field.2.1 with
    | some (offset, _, value) => UInt8.ofNat (value / 256 ^ (i - offset))
    | none => 0
  size := size

/-- One lane and a C2A ring of depth 2, one response slot and one snapshot at `snapshot`. -/
def smallMapping (snapshot : Nat) : Mapping :=
  mappingOf ([(0, 8, magicNumber.toNat), (8, 4, 1), (12, 4, 2), (16, 8, 1216), (24, 8, 1), (32, 4, 1), (36, 4, 1),
    (48, 8, 256), (140, 4, 1), (144, 8, 256), (152, 8, 320), (160, 8, 448), (168, 8, 512)] ++
    [(256, 8, 576), (264, 8, 16), (272, 4, 16), (276, 4, 1), (280, 8, 832), (288, 8, 192), (296, 4, 96), (300, 4, 2),
      (304, 4, 2), (308, 4, 96)] ++
    [(448, 8, snapshot), (456, 8, 136), (464, 4, 136), (468, 4, 1), (472, 4, 1)] ++
    [(512, 8, 592), (520, 8, 16), (528, 4, 16), (532, 4, 1), (536, 8, 1024), (544, 8, 192), (552, 4, 96), (556, 4, 2),
      (560, 4, 2), (564, 4, 96)]) 1216

def smallView : MappingView :=
  { control := 0, endpoints := 256, lanes := 256, responses := 320, snapshots := 448, c2a := 512 }

theorem smallMapping_regions (owner : Owner) : ∀ range ∈ regions (smallMapping 640) smallView owner, (owner, range) ∈
    [(Owner.lane 0, Range.mk 576 16), (.lane 0, ⟨832, 192⟩), (.c2a, ⟨592, 16⟩), (.c2a, ⟨1024, 192⟩),
      (.response 0, ⟨320, 88⟩), (.snapshot 0, ⟨640, 136⟩)] := by
  have lanes : (controlPageAt (smallMapping 640) smallView.control).laneCount.toNat = 1 := by decide +kernel
  have responses : (controlPageAt (smallMapping 640) smallView.control).responseSlotCount.toNat = 1 := by decide +kernel
  have snapshots : (controlPageAt (smallMapping 640) smallView.control).snapshotCount.toNat = 1 := by decide +kernel
  cases owner with
  | lane index =>
    cases index with
    | zero => decide +kernel
    | succ index => simp [regions, lanes]
  | c2a => decide +kernel
  | response index =>
    cases index with
    | zero => decide +kernel
    | succ index => simp [regions, responses]
  | snapshot index =>
    cases index with
    | zero => decide +kernel
    | succ index => simp [regions, snapshots]

theorem smallMapping_safe : SafeView (smallMapping 640) smallView := by
  refine (validateMappingView_safe (by decide +kernel)).mpr ⟨by decide +kernel, by decide +kernel, ?_⟩
  intro a b different range member range' member'
  have first := smallMapping_regions a range member
  have second := smallMapping_regions b range' member'
  simp only [List.mem_cons, Prod.mk.injEq, List.not_mem_nil, or_false] at first second
  unfold Range.Apart
  rcases first with ⟨rfl, rfl⟩ | ⟨rfl, rfl⟩ | ⟨rfl, rfl⟩ | ⟨rfl, rfl⟩ | ⟨rfl, rfl⟩ | ⟨rfl, rfl⟩ <;>
    rcases second with ⟨rfl, rfl⟩ | ⟨rfl, rfl⟩ | ⟨rfl, rfl⟩ | ⟨rfl, rfl⟩ | ⟨rfl, rfl⟩ | ⟨rfl, rfl⟩ <;>
    simp at different ⊢

/-- A snapshot outside the mapping is not noticed. -/
theorem smallMapping_outside : ¬∀ (mapping : Mapping) (view : MappingView),
    validateMappingView mapping = some view → SafeView mapping view := by
  intro always
  have safe := always (smallMapping (2 ^ 40)) smallView (by decide +kernel)
  have inside := (snapshot_of_inBounds safe.inside).2
  revert inside
  decide +kernel

end LasecSimul.Vnext
