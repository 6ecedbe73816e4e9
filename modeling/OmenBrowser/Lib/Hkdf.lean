import OmenBrowser.Lib.Wire

/- HKDF (RFC 5869) over a message authentication code of 32 bytes.

   Extraction is one code of the input under the salt. Expansion chains codes under the extracted
   key, each over the one before it, the information and a counter of one byte, and takes as many
   bytes as are asked for. The counter bounds the blocks by 255, and more bytes are refused. -/
namespace Kdf
open Wire

/-- A message authentication code of 32 bytes. -/
structure Hmac where
  code : Bytes → Bytes → Bytes
  length_code : ∀ key message, (code key message).length = 32

namespace Hmac
variable (hmac : Hmac)

def extract (salt input : Bytes) : Bytes := hmac.code salt input

/-- So many blocks from the counter on, after the block before it. -/
def blocks (key info : Bytes) : Nat → Nat → Bytes → Bytes
  | 0, _, _ => []
  | n + 1, counter, previous =>
    let block := hmac.code key (previous ++ info ++ [UInt8.ofNat counter])
    block ++ blocks key info n (counter + 1) block

/-- The most bytes that are derived. -/
def maxOutputBytes : Nat := 255 * 32

def expand (key info : Bytes) (length : Nat) : Option Bytes :=
  if length > maxOutputBytes then none
  else some ((hmac.blocks key info ((length + 31) / 32) 1 []).take length)

theorem length_blocks (key info : Bytes) (n counter : Nat) (previous : Bytes) :
    (hmac.blocks key info n counter previous).length = 32 * n := by
  induction n generalizing counter previous with
  | zero => rfl
  | succ n ih =>
    unfold blocks
    simp only [List.length_append, hmac.length_code, ih]
    omega

theorem expand_eq_none {key info : Bytes} {length : Nat} :
    hmac.expand key info length = none ↔ maxOutputBytes < length := by
  unfold expand
  split
  · next h => exact iff_of_true rfl h
  · next h => exact iff_of_false (by simp) h

variable {hmac}

theorem length_expand {key info output : Bytes} {length : Nat}
    (h : hmac.expand key info length = some output) : output.length = length := by
  unfold expand at h
  split at h
  · cases h
  · rw [← Option.some.inj h, List.length_take, length_blocks]
    omega

end Hmac
end Kdf
