/-!
# Sizes of words

`wordBound bits` is one past the largest value of an unsigned word of so many bits. Main statement:
`wordBound_add`, the bound of two words side by side.
-/

namespace FabricMemory

def wordBound (bits : Nat) : Nat := 1 <<< bits

theorem wordBound_add (a b : Nat) : wordBound (a + b) = wordBound a * wordBound b := by
  simp [wordBound, Nat.shiftLeft_eq, Nat.pow_add]

theorem wordBound_succ (bits : Nat) : wordBound (bits + 1) = 2 * wordBound bits := by
  rw [wordBound_add, Nat.mul_comm]
  rfl

theorem wordBound_pos (bits : Nat) : 0 < wordBound bits := by
  rw [wordBound, Nat.shiftLeft_eq, Nat.one_mul]
  exact Nat.two_pow_pos bits

end FabricMemory
