import FabricMemory.Error

/-!
# Vendor information

An export carries a blob for the memory management unit of the exporting controller: a version, a
mask with one bit for the unit, and whether it is on the chip. `build` is what an export carries.
`decode` accepts any bytes after the blob and ignores the padding in it.
-/

namespace FabricMemory

structure VendorInfo where
  mask : UInt64
  onChip : Bool
deriving DecidableEq, Repr

namespace VendorInfo

/-- Number that stands for version 1. -/
def version : Nat := 0

def encode (info : VendorInfo) : Bytes :=
  LittleEndian.encode 4 version ++ LittleEndian.encode 4 0
    ++ LittleEndian.encode 8 info.mask.toNat
    ++ LittleEndian.encode 1 info.onChip.toNat ++ LittleEndian.encode 7 0

@[simp] theorem length_encode (info : VendorInfo) : info.encode.length = vendorInfoSize := by
  simp [encode, vendorInfoSize]

def decode (bytes : Bytes) : Except Error VendorInfo :=
  if bytes.length < vendorInfoSize then
    .error (.invalidArgument (.vendorInfoLength bytes.length))
  else
    let found := LittleEndian.decode (bytes.take 4)
    if found = version then
      .ok ⟨UInt64.ofNat (LittleEndian.decode ((bytes.drop 8).take 8)),
        (bytes.drop 16).head? ≠ some 0⟩
    else .error (.invalidArgument (.vendorInfoVersion found))

def forUmmu (ummuMap : UInt32) : Except Error VendorInfo :=
  if ummuMap < 64 then .ok ⟨UInt64.ofNat (1 <<< ummuMap.toNat), true⟩
  else .error (.invalidArgument (.maskWidth ummuMap.toNat))

def blob (info : VendorInfo) : Except Error Bytes :=
  if maxVendorInfo < info.encode.length then
    .error (.invalidArgument (.vendorInfoCapacity info.encode.length))
  else .ok info.encode

def build (ummuMap : UInt32) : Except Error VendorInfo := do
  let info ← forUmmu ummuMap
  let _ ← info.blob
  return info

@[simp] theorem blob_eq (info : VendorInfo) : info.blob = .ok info.encode := by
  simp [blob, vendorInfoSize, maxVendorInfo]

@[simp] theorem build_eq (ummuMap : UInt32) : build ummuMap = forUmmu ummuMap := by
  unfold build
  cases forUmmu ummuMap <;> simp [bind, Except.bind, pure, Except.pure]

def text (info : VendorInfo) : String :=
  "V1 \x7b ummu_idx_mask: " ++ Numeral.decimal info.mask.toNat ++ ", on_chip: "
    ++ (if info.onChip then "true" else "false") ++ " \x7d"

end VendorInfo

end FabricMemory
