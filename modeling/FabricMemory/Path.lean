import FabricMemory.Text.Utf8

/-!
# Paths

A path is a byte string; names in it are separated by slashes. It keeps the spelling it was given:
only `parent?` looks at names alone.
-/

namespace FabricMemory

abbrev Name := Bytes

structure Path where
  bytes : Bytes
deriving DecidableEq

namespace Path

def slash : UInt8 := 0x2f

def ofString (text : String) : Path := ⟨Utf8.encode text⟩

/-- Text for messages; bytes that are not UTF-8 show as U+FFFD. -/
def display (path : Path) : String := Utf8.lossy path.bytes

def isAbsolute (path : Path) : Bool := path.bytes.head? = some slash

/-- The pieces between slashes, empty ones included: one more piece than there are slashes. -/
def split : Bytes → List Name
  | [] => [[]]
  | byte :: rest =>
    if byte = slash then [] :: split rest
    else
      match split rest with
      | [] => [[byte]]
      | first :: others => (byte :: first) :: others

/-- `tail` below `path`: an absolute `tail` stands for itself. -/
def join (path tail : Path) : Path :=
  if tail.isAbsolute then tail
  else if path.bytes = [] ∨ path.bytes.getLast? = some slash then ⟨path.bytes ++ tail.bytes⟩
  else ⟨path.bytes ++ slash :: tail.bytes⟩

def child (path : Path) (name : String) : Path := path.join (ofString name)

def dot : Name := [0x2e]

def dotDot : Name := [0x2e, 0x2e]

/-- Drops slashes and lone dots at the end, but neither a leading dot nor the root. -/
def trimEnd (bytes : Bytes) : Bytes :=
  go bytes.reverse
where
  /-- Works on the reversed bytes. -/
  go : Bytes → Bytes
    | [] => []
    | [byte] => [byte]
    | 0x2e :: 0x2f :: rest => go (0x2f :: rest)
    | 0x2f :: rest => go rest
    | kept => kept.reverse

theorem length_trimEnd_le (bytes : Bytes) : (trimEnd bytes).length ≤ bytes.length := by
  have h (b : Bytes) : (trimEnd.go b).length ≤ b.length := by
    fun_induction trimEnd.go b <;> simp_all <;> omega
  simpa [trimEnd] using h bytes.reverse

theorem trimEnd_getLast? (bytes : Bytes) :
    trimEnd bytes = [slash] ∨ (trimEnd bytes).getLast? ≠ some slash := by
  have h (b : Bytes) : trimEnd.go b = [slash] ∨ (trimEnd.go b).getLast? ≠ some slash := by
    fun_induction trimEnd.go b with
    | case1 => simp
    | case2 byte => by_cases hb : byte = slash <;> simp [hb]
    | case3 _ ih => exact ih
    | case4 _ _ ih => exact ih
    | case5 kept h1 h2 h3 h4 =>
      right
      cases kept with
      | nil => simp
      | cons byte rest => simpa using fun hb => h4 rest (by rw [hb]; rfl)
  exact h bytes.reverse

/-- The path without its last name; a root and an empty path have no parent. -/
def parent? (path : Path) : Option Path :=
  let bytes := trimEnd path.bytes
  if bytes = [] ∨ bytes = [slash] then none
  else some ⟨trimEnd ((bytes.reverse.dropWhile (· ≠ slash)).reverse)⟩

theorem length_parent?_lt {path above : Path} (h : path.parent? = some above) :
    above.bytes.length < path.bytes.length := by
  unfold parent? at h
  simp only at h
  split at h
  · simp at h
  · rename_i hb
    simp only [not_or] at hb
    obtain rfl := Option.some.inj h
    have hl := (trimEnd_getLast? path.bytes).resolve_left hb.2
    have hle := length_trimEnd_le path.bytes
    generalize trimEnd path.bytes = bytes at *
    refine Nat.lt_of_le_of_lt (length_trimEnd_le _) (Nat.lt_of_lt_of_le ?_ hle)
    rcases List.eq_nil_or_concat bytes with rfl | ⟨init, last, rfl⟩
    · simp at hb
    · have hn : last ≠ slash := by simpa using hl
      simp only [List.concat_eq_append, List.reverse_append, List.reverse_cons, List.reverse_nil,
        List.nil_append, List.singleton_append, List.length_reverse, List.length_append,
        List.length_cons, List.length_nil]
      rw [List.dropWhile_cons_of_pos (by simpa using hn)]
      have := (List.dropWhile_suffix (fun b => decide (b ≠ slash)) (l := init.reverse)).length_le
      simp only [List.length_reverse] at this
      omega

end Path

end FabricMemory
