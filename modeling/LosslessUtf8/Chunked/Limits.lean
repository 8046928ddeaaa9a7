import LosslessUtf8.Text.Numeral

/-!
# Limits of chunked decoding

How much is read at once, and how much is decoded at once. Both limits are at least one.
-/

namespace LosslessUtf8.Chunked

/-- The sizes that chunked decoding works with. -/
structure Limits where
  /-- The number of bytes that are read at once. -/
  chunkSize : Nat
  /-- The number of scalars that are decoded at once. -/
  capacity : Nat
  chunkSize_pos : 0 < chunkSize
  capacity_pos : 0 < capacity

/-- A limit that is not positive. -/
inductive LimitFault where
  | chunkSize (given : Int)
  | capacity (given : Int)
  deriving DecidableEq, Repr

/-- The words in which a limit is turned down. -/
def LimitFault.message : LimitFault → String
  | .chunkSize given => describe "chunk_size" given
  | .capacity given => describe "output_capacity" given
where
  describe (name : String) (given : Int) : String :=
    Numeral.telling [given] (name ++ " must be > 0, got " ++ toString given)

namespace Limits

/-- The number of bytes that are read at once unless said otherwise. -/
def defaultChunkSize : Nat := 65536

/-- The number of scalars that are decoded at once unless said otherwise. -/
def defaultCapacity : Nat := 4096

/-- Takes limits that are positive; the chunk size is looked at first. -/
def ofInts (chunkSize capacity : Int) : Except LimitFault Limits :=
  if chunkSize_pos : 0 < chunkSize then
    if capacity_pos : 0 < capacity then
      .ok ⟨chunkSize.toNat, capacity.toNat, by omega, by omega⟩
    else .error (.capacity capacity)
  else .error (.chunkSize chunkSize)

end Limits

end LosslessUtf8.Chunked
