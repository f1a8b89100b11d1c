import FabricMemory.Operation.Submission

/-!
# Exporting memory

Pages of the local NUMA nodes or a range of a process become reachable for a remote endpoint. The
caller's descriptor gets the address, token and length of what was exported.
-/

namespace FabricMemory.Operation

def addSize (total size : UInt64) : Option UInt64 :=
  if total.toNat + size.toNat < wordBound 64 then some (total + size) else none

def totalSize (sizes : List UInt64) : Option UInt64 := sizes.foldlM addSize 0

def checkSizes (sizes : List UInt64) : Except Error UInt64 :=
  if maxLocalNodes < sizes.length then .error (.invalidArgument (.tooManySizes sizes.length))
  else
    match totalSize sizes with
    | some total => .ok total
    | none => .error (.invalidArgument .sizesOverflow)

/-- The total over the natural numbers. -/
def sizeSum : List UInt64 → Nat
  | [] => 0
  | size :: rest => size.toNat + sizeSum rest

theorem foldlM_addSize_eq_some_iff (sizes : List UInt64) (start total : UInt64) :
    sizes.foldlM addSize start = some total ↔ total.toNat = start.toNat + sizeSum sizes := by
  induction sizes generalizing start with
  | nil =>
    simp only [List.foldlM_nil, Option.pure_def, Option.some.injEq, sizeSum, Nat.add_zero]
    rw [← UInt64.toNat_inj]
    exact eq_comm
  | cons size rest ih =>
    have ht : total.toNat < wordBound 64 := total.toNat_lt
    rw [List.foldlM_cons, sizeSum, addSize]
    split
    · rename_i hs
      have hadd : (start + size).toNat = start.toNat + size.toNat := by
        rw [UInt64.toNat_add]
        exact Nat.mod_eq_of_lt hs
      rw [Option.bind_eq_bind, Option.bind_some, ih, hadd, Nat.add_assoc]
    · simp only [Option.bind_eq_bind, Option.bind_none, reduceCtorEq, false_iff]
      omega

theorem totalSize_eq_some_iff (sizes : List UInt64) (total : UInt64) :
    totalSize sizes = some total ↔ total.toNat = sizeSum sizes := by
  rw [totalSize, foldlM_addSize_eq_some_iff]
  simp

theorem checkSizes_eq_ok_iff (sizes : List UInt64) (total : UInt64) :
    checkSizes sizes = .ok total ↔
      sizes.length ≤ maxLocalNodes ∧ total.toNat = sizeSum sizes := by
  rw [← totalSize_eq_some_iff, checkSizes]
  split
  · simp only [reduceCtorEq, false_iff]
    omega
  · rename_i hl
    cases totalSize sizes with
    | none => simp
    | some sum => simp [Nat.le_of_not_lt hl]

/-- One slot for each local NUMA node, zero past the sizes given. -/
def sizeSlots (sizes : List UInt64) : Vector UInt64 maxLocalNodes :=
  Vector.ofFn fun node => sizes.getD node 0

def exported (region : Descriptor) (length uba : UInt64) (tokenid : UInt32) : Descriptor :=
  { region with addr := uba, tokenid := tokenid, length := length, scna := 0, dcna := 0 }

def pagesCommand (sizes : List UInt64) (flags : ExportFlags) (region : Descriptor)
    (payloadLength : UInt16) (adaptation : Adaptation) : ExportCommand where
  sizes := sizeSlots sizes
  length := UInt64.ofNat maxLocalNodes
  flags := flags.bits
  pxmNuma := adaptation.numa
  payloadLength := payloadLength
  vendorLength := UInt16.ofNat adaptation.vendor.encode.length
  deid := region.deid
  payload := Payload.buffer? region.payload
  vendor := some adaptation.vendor.encode

/-- Exports `sizes[n]` bytes of local NUMA node `n`. -/
def exportPages (sizes : List UInt64) (flags : ExportFlags) : InPlace Descriptor UInt64 := do
  let region ← get
  let total ← check (checkSizes sizes)
  let payloadLength ← check region.payloadLength
  connect
  let command := pagesCommand sizes flags region payloadLength
  let reply ← submitAdapted region fun adaptation => .exportPages (command adaptation)
  let memId := reply.memId.getD 0
  let region := exported region total (reply.uba.getD 0) (reply.tokenid.getD 0)
  set region
  log .info
    ("Exported mem_id " ++ Numeral.decimal memId.toNat ++ " (" ++ Numeral.decimal total.toNat
      ++ " bytes, uba " ++ Numeral.hex region.addr.toNat ++ ") to " ++ region.deid.text)
  return memId

def rangeCommand (pid : Int32) (va length : UInt64) (flags : ExportFlags) (region : Descriptor)
    (payloadLength : UInt16) (adaptation : Adaptation) : ExportRangeCommand where
  va := va
  length := length
  flags := flags.bits
  pid := pid
  pxmNuma := adaptation.numa
  payloadLength := payloadLength
  vendorLength := UInt16.ofNat adaptation.vendor.encode.length
  deid := region.deid
  payload := Payload.buffer? region.payload
  vendor := some adaptation.vendor.encode

/-- Exports `length` bytes at `va` in a process; 0 is the caller. -/
def exportRange (pid : Int32) (va length : UInt64) (flags : ExportFlags) :
    InPlace Descriptor UInt64 := do
  let region ← get
  let payloadLength ← check region.payloadLength
  connect
  let command := rangeCommand pid va length flags region payloadLength
  let reply ← submitAdapted region fun adaptation => .exportRange (command adaptation)
  let memId := reply.memId.getD 0
  let region := exported region length (reply.uba.getD 0) (reply.tokenid.getD 0)
  set region
  log .info
    ("Exported mem_id " ++ Numeral.decimal memId.toNat ++ " (pid " ++ Numeral.decimalInt pid.toInt
      ++ ", va " ++ Numeral.hex va.toNat ++ ", " ++ Numeral.decimal length.toNat ++ " bytes) to "
      ++ region.deid.text)
  return memId

def endExport (memId : UInt64) (flags : UnexportFlags) : Operation Unit := do
  check (checkMemId memId)
  connect
  let _ ← submitPlain (.endExport ⟨memId, flags.bits⟩)
  log .info ("Unexported mem_id " ++ Numeral.decimal memId.toNat)

end FabricMemory.Operation
