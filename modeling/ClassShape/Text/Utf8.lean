import ClassShape.Text.Basic

/-! UTF-8. Reading never fails: each maximal start of a character that cannot be completed becomes
one replacement character. -/
namespace ClassShape

/-- The content of a file, a name or a path; it need not be UTF-8. -/
abbrev Bytes := List UInt8

namespace Text

def replacement : Char := Char.ofNat 0xFFFD

/-- The continuation bytes that a lead byte asks for, each as a closed range, and the bits that the
lead byte gives. -/
def lead? (b : Nat) : Option (List (Nat × Nat) × Nat) :=
  let tail := (0x80, 0xBF)
  if b < 0x80 then some ([], b)
  else if 0xC2 ≤ b ∧ b ≤ 0xDF then some ([tail], b - 0xC0)
  else if b = 0xE0 then some ([(0xA0, 0xBF), tail], 0)
  else if b = 0xED then some ([(0x80, 0x9F), tail], 13)
  else if 0xE1 ≤ b ∧ b ≤ 0xEF then some ([tail, tail], b - 0xE0)
  else if b = 0xF0 then some ([(0x90, 0xBF), tail, tail], 0)
  else if 0xF1 ≤ b ∧ b ≤ 0xF3 then some ([tail, tail, tail], b - 0xF0)
  else if b = 0xF4 then some ([(0x80, 0x8F), tail, tail], 4)
  else none

def continue? (n : Nat) : List (Nat × Nat) → Bytes → Option Nat × Bytes
  | [], bs => (some n, bs)
  | _ :: _, [] => (none, [])
  | (lo, hi) :: ranges, b :: bs =>
    if lo ≤ b.toNat ∧ b.toNat ≤ hi then continue? (n * 64 + (b.toNat - 0x80)) ranges bs
    else (none, b :: bs)

theorem continue?_length (n : Nat) (ranges : List (Nat × Nat)) (bs : Bytes) :
    (continue? n ranges bs).2.length ≤ bs.length := by
  fun_induction continue? n ranges bs with
  | case1 => simp
  | case2 => simp
  | case3 n lo hi ranges b bs _ ih => simp only [List.length_cons]; omega
  | case4 => simp

def decode? : Bytes → List (Option Char)
  | [] => []
  | b :: bs =>
    match lead? b.toNat with
    | none => none :: decode? bs
    | some (ranges, n) =>
      (continue? n ranges bs).1.map Char.ofNat :: decode? (continue? n ranges bs).2
termination_by bs => bs.length
decreasing_by
  · simp
  · exact Nat.lt_succ_of_le (continue?_length _ _ bs)

def isUtf8 (bs : Bytes) : Bool := (decode? bs).all Option.isSome

def decode (bs : Bytes) : String := String.ofList ((decode? bs).map (·.getD replacement))

def encode (s : String) : Bytes := s.toList.flatMap String.utf8EncodeChar

end Text
end ClassShape
