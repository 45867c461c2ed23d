import IUserApps.Words

/-!
# Paths of the file browser

The functions on paths of `file-browser`. A C string is the list of its bytes before the NUL, and a
buffer of `capacity` bytes holds one that is shorter.
-/

namespace IUserApps.FileBrowser

/-- The bytes of a C string. -/
abbrev Path := List Byte

/-- The byte between the components of a path. -/
def slash : Byte := 0x2f

/-- What `copy_string` leaves in a buffer of this capacity. -/
def copyString (capacity : ℕ) (text : Path) : Path := text.take (capacity - 1)

/-- A text that fits is copied whole. -/
theorem copyString_of_lt {capacity : ℕ} {text : Path} (h : text.length < capacity) :
    copyString capacity text = text := List.take_of_length_le (by omega)

/-- What is copied fits. -/
theorem length_copyString_lt {capacity : ℕ} (h : 0 < capacity) (text : Path) :
    (copyString capacity text).length < capacity := by
  unfold copyString
  rw [List.length_take]
  omega

/-- The path is the root's. -/
def pathIsRoot (path : Path) : Bool := decide (path = [slash])

/-- Takes bytes off the end while they satisfy a condition, down to a single one; in `n` passes. -/
def stripWhile (p : Byte → Bool) : ℕ → Path → Path
  | 0, output => output
  | n + 1, output =>
    if 1 < output.length ∧ p (output.getLastD 0) = true then stripWhile p n output.dropLast
    else output

/-- The folder that a path lies in. -/
def buildParentPath (current : Path) (outputSize : ℕ) : Path :=
  let output := copyString outputSize current
  let output := stripWhile (· = slash) output.length output
  let output := stripWhile (· ≠ slash) output.length output
  let output :=
    if 1 < output.length ∧ output.getLastD 0 = slash then output.dropLast else output
  if output = [] then copyString outputSize [slash] else output

/-- Stripping never makes a path longer. -/
theorem length_stripWhile_le (p : Byte → Bool) (n : ℕ) (output : Path) :
    (stripWhile p n output).length ≤ output.length := by
  induction n generalizing output with
  | zero => exact Nat.le_refl _
  | succ n ih =>
    unfold stripWhile
    split
    · have := ih output.dropLast
      rw [List.length_dropLast] at this
      omega
    · exact Nat.le_refl _

/-- Dropping a trailing slash never makes a path longer. -/
theorem length_dropSlash_le (output : Path) :
    (if 1 < output.length ∧ output.getLastD 0 = slash then output.dropLast else output).length ≤
      output.length := by
  split
  · rw [List.length_dropLast]
    omega
  · exact Nat.le_refl _

/-- The folder's path fits into the buffer. -/
theorem length_buildParentPath_lt (current : Path) {outputSize : ℕ} (h : 0 < outputSize) :
    (buildParentPath current outputSize).length < outputSize := by
  have hcopy := length_copyString_lt h current
  have hslashes := length_stripWhile_le (· = slash) (copyString outputSize current).length
    (copyString outputSize current)
  unfold buildParentPath
  simp only
  generalize stripWhile (fun x => x = slash) _ _ = output at hslashes ⊢
  have hname := length_stripWhile_le (· ≠ slash) output.length output
  generalize stripWhile (fun x => x ≠ slash) _ _ = output' at hname ⊢
  have hlast := length_dropSlash_le output'
  generalize (if 1 < output'.length ∧ output'.getLastD 0 = slash then output'.dropLast
    else output') = output'' at hlast ⊢
  split
  · exact length_copyString_lt h _
  · omega

/-- The last part of a path. -/
def lastName (path : Path) : Path := (path.reverse.takeWhile (· ≠ slash)).reverse

end IUserApps.FileBrowser
