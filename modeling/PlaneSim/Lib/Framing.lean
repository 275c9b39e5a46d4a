import Mathlib.Data.List.Basic
import Mathlib.Tactic.Ring

/-!
# Messages in a byte stream

A message travels in a stream of bytes behind a header of fixed width that holds its length, the
lowest byte first (`frame`, `stream`).

1. The header gives the length back (`ofBytes_bytesOf`).
2. Taking the header and then as many bytes as it says takes exactly the first message
   (`take_stream_cons`, `drop_stream_cons`).
-/

namespace PlaneSim.Framing

/-- The `width` low bytes of `n`, the lowest first. -/
def bytesOf : ℕ → ℕ → List UInt8
  | 0, _ => []
  | width + 1, n => UInt8.ofNat n :: bytesOf width (n / 256)

/-- The number whose bytes are given, the lowest first. -/
def ofBytes : List UInt8 → ℕ
  | [] => 0
  | b :: bytes => b.toNat + 256 * ofBytes bytes

@[simp] theorem length_bytesOf (width n : ℕ) : (bytesOf width n).length = width := by
  induction width generalizing n with
  | zero => rfl
  | succ width ih => rw [bytesOf, List.length_cons, ih]

theorem ofBytes_bytesOf {width n : ℕ} (h : n < 256 ^ width) : ofBytes (bytesOf width n) = n := by
  induction width generalizing n with
  | zero =>
    rw [pow_zero] at h
    obtain rfl : n = 0 := by omega
    rfl
  | succ width ih =>
    have hdiv : n / 256 < 256 ^ width :=
      Nat.div_lt_of_lt_mul (by rwa [pow_succ, mul_comm] at h)
    rw [bytesOf, ofBytes, ih hdiv, UInt8.toNat_ofNat']
    exact Nat.mod_add_div n 256

/-- A message behind its length. -/
def frame (width : ℕ) (msg : List UInt8) : List UInt8 := bytesOf width msg.length ++ msg

/-- The messages one behind the other. -/
def stream (width : ℕ) (msgs : List (List UInt8)) : List UInt8 := msgs.flatMap (frame width)

@[simp] theorem stream_nil (width : ℕ) : stream width [] = [] := rfl

theorem stream_cons (width : ℕ) (msg : List UInt8) (msgs : List (List UInt8)) :
    stream width (msg :: msgs) = bytesOf width msg.length ++ (msg ++ stream width msgs) := by
  rw [stream, List.flatMap_cons, frame, List.append_assoc]
  rfl

theorem stream_concat (width : ℕ) (msgs : List (List UInt8)) (msg : List UInt8) :
    stream width (msgs ++ [msg]) = stream width msgs ++ frame width msg := by
  rw [stream, List.flatMap_append, List.flatMap_singleton]
  rfl

/-- The first bytes are the header of the first message. -/
theorem take_stream_cons (width : ℕ) (msg : List UInt8) (msgs : List (List UInt8)) :
    (stream width (msg :: msgs)).take width = bytesOf width msg.length := by
  rw [stream_cons]
  exact List.take_left' (length_bytesOf _ _)

/-- After the header comes the message, then the rest of the stream. -/
theorem drop_stream_cons (width : ℕ) (msg : List UInt8) (msgs : List (List UInt8)) :
    (stream width (msg :: msgs)).drop width = msg ++ stream width msgs := by
  rw [stream_cons]
  exact List.drop_left' (length_bytesOf _ _)

end PlaneSim.Framing
