import FabricMemory.Bytes

/-!
# UTF-8

`lossy` shows any byte string as text: every longest beginning of a character that is not completed
becomes one U+FFFD. `decode?` accepts well-formed byte strings only.
-/

namespace FabricMemory.Utf8

def encode (text : String) : Bytes := text.toUTF8.data.toList

def decode? (bytes : Bytes) : Option String := String.fromUTF8? ⟨bytes.toArray⟩

theorem decode?_encode (text : String) : decode? (encode text) = some text := by
  have h : (⟨text.toUTF8.data.toList.toArray⟩ : ByteArray) = text.toUTF8 := by simp
  unfold decode? encode
  rw [h]
  exact dif_pos text.isValidUTF8

-- ---------------------------------------------------------------------
-- Lossy decoding

/-- What a lead byte asks for: its own bits, the number of further bytes and the range of the first
of them. -/
structure Lead where
  bits : Nat
  count : Nat
  low : UInt8 := 0x80
  high : UInt8 := 0xbf

def lead? (byte : UInt8) : Option Lead :=
  if byte < 0x80 then some ⟨byte.toNat, 0, 0x80, 0xbf⟩
  else if byte < 0xc2 then none
  else if byte < 0xe0 then some ⟨byte.toNat - 0xc0, 1, 0x80, 0xbf⟩
  else if byte < 0xf0 then
    some ⟨byte.toNat - 0xe0, 2, if byte = 0xe0 then 0xa0 else 0x80,
      if byte = 0xed then 0x9f else 0xbf⟩
  else if byte < 0xf5 then
    some ⟨byte.toNat - 0xf0, 3, if byte = 0xf0 then 0x90 else 0x80,
      if byte = 0xf4 then 0x8f else 0xbf⟩
  else none

/-- Takes the further bytes of a character, and gives back the byte that does not belong to it. -/
def complete : (count : Nat) → (low high : UInt8) → (code : Nat) → Bytes → Option Nat × Bytes
  | 0, _, _, code, rest => (some code, rest)
  | _ + 1, _, _, _, [] => (none, [])
  | count + 1, low, high, code, byte :: rest =>
    if low ≤ byte ∧ byte ≤ high then
      complete count 0x80 0xbf (code * 64 + (byte.toNat - 0x80)) rest
    else (none, byte :: rest)

theorem length_complete_le (count : Nat) (low high : UInt8) (code : Nat) (bytes : Bytes) :
    (complete count low high code bytes).2.length ≤ bytes.length := by
  induction count generalizing low high code bytes with
  | zero => simp [complete]
  | succ count ih =>
    cases bytes with
    | nil => simp [complete]
    | cons byte rest =>
      simp only [complete]
      split
      · exact Nat.le_succ_of_le (ih ..)
      · simp

def replacement : Char := '\uFFFD'

def lossyChars : Bytes → List Char
  | [] => []
  | byte :: rest =>
    match lead? byte with
    | none => replacement :: lossyChars rest
    | some lead =>
      let taken := complete lead.count lead.low lead.high lead.bits rest
      (taken.1.map Char.ofNat).getD replacement :: lossyChars taken.2
termination_by bytes => bytes.length
decreasing_by
  · simp
  · exact Nat.lt_succ_of_le (length_complete_le ..)

def lossy (bytes : Bytes) : String := String.ofList (lossyChars bytes)

end FabricMemory.Utf8
