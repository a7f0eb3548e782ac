namespace SparseGraph.TableFile

/-!
# Bytes

* `littleEndian` — the number in bytes;
* `groupsOf` — bytes in groups of one size.
-/

/-- The number in bytes, the lowest first. -/
def littleEndian (bytes : List UInt8) : Nat :=
  bytes.foldr (fun b n => b.toNat + 256 * n) 0

/-- The first `count` groups of `size` bytes each. -/
def groupsOf (size : Nat) : Nat → List UInt8 → List (List UInt8)
  | 0, _ => []
  | count + 1, bytes => bytes.take size :: groupsOf size count (bytes.drop size)

example : littleEndian [0x08, 0x01, 0x00, 0x00] = 264 := rfl

end SparseGraph.TableFile
