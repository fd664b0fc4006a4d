/-!
# Big-endian numbers

A number as the bytes that spell it, most significant first. Encoding cuts the number to the width; decoding takes bytes of any number, so that one definition serves every field of a program.
-/

namespace RuleMachine.BigEndian

/-- The low `width` bytes of `n`, most significant first. -/
def encode : Nat → Nat → List UInt8
  | 0, _ => []
  | width + 1, n => encode width (n / 256) ++ [UInt8.ofNat n]

/-- The number that `bytes` spell. -/
def decode (bytes : List UInt8) : Nat := bytes.foldl (fun n b => n * 256 + b.toNat) 0

@[simp] theorem length_encode (width n : Nat) : (encode width n).length = width := by
  induction width generalizing n with
  | zero => rfl
  | succ width ih => simp [encode, ih]

@[simp] theorem decode_nil : decode [] = 0 := rfl

theorem decode_concat (bytes : List UInt8) (b : UInt8) : decode (bytes ++ [b]) = decode bytes * 256 + b.toNat := by
  simp [decode]

end RuleMachine.BigEndian
