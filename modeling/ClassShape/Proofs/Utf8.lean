import ClassShape.Disk.Collect
import Mathlib.Data.List.Basic

/-! UTF-8. The bytes of a text are read as the characters of that text, and making ASCII lower case
neither spoils UTF-8 nor mends it. -/
namespace ClassShape

namespace Text

/-! What the lead byte asks for, by the number of bytes. -/

theorem lead?_two {w : Nat} (h : 2 ≤ w) (h' : w < 32) :
    lead? (w + 0xC0) = some ([(0x80, 0xBF)], w) := by
  simp only [lead?]
  rw [if_neg (by omega), if_pos (by omega), Nat.add_sub_cancel]

theorem lead?_three : ∀ w < 16, lead? (w + 0xE0) =
    some ([(if w = 0 then 0xA0 else 0x80, if w = 13 then 0x9F else 0xBF), (0x80, 0xBF)], w) := by
  decide

theorem lead?_four : ∀ w < 5, lead? (w + 0xF0) =
    some ([(if w = 0 then 0x90 else 0x80, if w = 4 then 0x8F else 0xBF), (0x80, 0xBF),
      (0x80, 0xBF)], w) := by
  decide

variable {n m lo hi : Nat} {ranges : List (Nat × Nat)} {bs rest : Bytes}

theorem decode?_ofNat (h : n < 256) (hlead : lead? n = some (ranges, m)) (c : Char)
    (hrest : continue? m ranges bs = (some c.toNat, rest)) :
    decode? (UInt8.ofNat n :: bs) = some c :: decode? rest := by
  rw [← Nat.mod_eq_of_lt h, ← UInt8.toNat_ofNat'] at hlead
  rw [decode?, hlead]
  simp [hrest]

theorem continue?_ofNat (h : n < 256) (hrange : lo ≤ n ∧ n ≤ hi) :
    continue? m ((lo, hi) :: ranges) (UInt8.ofNat n :: bs) =
      continue? (m * 64 + (n - 0x80)) ranges bs := by
  rw [continue?, UInt8.toNat_ofNat', Nat.mod_eq_of_lt h, if_pos hrange]

/-- The bytes of a character are read as that character, whatever follows them. -/
theorem decode?_utf8EncodeChar (c : Char) (bs : Bytes) :
    decode? (String.utf8EncodeChar c ++ bs) = some c :: decode? bs := by
  have hvalid : c.toNat < 0xD800 ∨ 0xDFFF < c.toNat ∧ c.toNat < 0x110000 := c.valid
  have hnat : c.val.toNat = c.toNat := rfl
  simp only [String.utf8EncodeChar, hnat]
  split_ifs with h1 h2 h3
  all_goals simp only [List.cons_append, List.nil_append]
  · exact decode?_ofNat (by omega) (if_pos (by omega)) c rfl
  · refine decode?_ofNat (by omega) (lead?_two (by omega) (by omega)) c ?_
    rw [continue?_ofNat (by omega) (by omega), continue?]
    exact congrArg (fun v => (some v, bs)) (by omega)
  · refine decode?_ofNat (by omega) (lead?_three _ (by omega)) c ?_
    rw [continue?_ofNat (by omega) (by split_ifs <;> omega), continue?_ofNat (by omega) (by omega),
      continue?]
    exact congrArg (fun v => (some v, bs)) (by omega)
  · refine decode?_ofNat (by omega) (lead?_four _ (by omega)) c ?_
    rw [continue?_ofNat (by omega) (by split_ifs <;> omega), continue?_ofNat (by omega) (by omega),
      continue?_ofNat (by omega) (by omega), continue?]
    exact congrArg (fun v => (some v, bs)) (by omega)

theorem decode?_encode (s : String) : decode? (encode s) = s.toList.map some := by
  rw [encode]
  induction s.toList with
  | nil => rw [List.flatMap_nil, decode?, List.map_nil]
  | cons c cs ih => rw [List.flatMap_cons, decode?_utf8EncodeChar, ih, List.map_cons]

theorem isUtf8_encode (s : String) : isUtf8 (encode s) = true := by
  simp [isUtf8, decode?_encode]

end Text

theorem lowerAscii_cons (b : UInt8) (bs : Bytes) :
    lowerAscii (b :: bs) = lowerByte b :: lowerAscii bs := rfl

theorem lowerByte_of_le {b : UInt8} (h : 0x80 ≤ b.toNat) : lowerByte b = b := by
  refine if_neg fun hupper => ?_
  have := UInt8.le_iff_toNat_le.1 hupper.2
  change b.toNat ≤ 0x5A at this
  omega

theorem toNat_lowerByte_lt {b : UInt8} (h : b.toNat < 0x80) : (lowerByte b).toNat < 0x80 := by
  unfold lowerByte
  split
  · next hupper =>
    have := UInt8.le_iff_toNat_le.1 hupper.2
    change b.toNat ≤ 0x5A at this
    rw [UInt8.toNat_add]
    change (b.toNat + 0x20) % 256 < 0x80
    omega
  · exact h

namespace Text

theorem le_of_lead? {b n : Nat} {ranges : List (Nat × Nat)} (h : lead? b = some (ranges, n)) :
    ∀ r ∈ ranges, 0x80 ≤ r.1 := by
  simp only [lead?] at h
  split_ifs at h <;> cases h <;> simp

theorem continue?_lowerAscii {ranges : List (Nat × Nat)} (h : ∀ r ∈ ranges, 0x80 ≤ r.1) (n : Nat)
    (bs : Bytes) :
    continue? n ranges (lowerAscii bs) =
      ((continue? n ranges bs).1, lowerAscii (continue? n ranges bs).2) := by
  fun_induction continue? n ranges bs with
  | case1 n bs => rfl
  | case2 n r ranges => rfl
  | case3 n lo hi ranges b bs hb ih =>
    obtain ⟨hlo, hranges⟩ := List.forall_mem_cons.1 h
    have hsame : lowerByte b = b := lowerByte_of_le (by omega)
    rw [lowerAscii_cons, hsame, continue?, if_pos hb]
    exact ih hranges
  | case4 n lo hi ranges b bs hb =>
    have hlo := (List.forall_mem_cons.1 h).1
    have hout : ¬ (lo ≤ (lowerByte b).toNat ∧ (lowerByte b).toNat ≤ hi) := by
      by_cases hlow : b.toNat < 0x80
      · have := toNat_lowerByte_lt hlow
        omega
      · rwa [lowerByte_of_le (by omega)]
    rw [lowerAscii_cons, continue?, if_neg hout]

theorem decode?_lowerAscii (bs : Bytes) :
    (decode? (lowerAscii bs)).map Option.isSome = (decode? bs).map Option.isSome := by
  fun_induction decode? bs with
  | case1 => simp [lowerAscii, decode?]
  | case2 b bs hlead ih =>
    have hsame : lowerByte b = b := by
      refine lowerByte_of_le (Nat.le_of_not_lt fun hlow => ?_)
      simp [lead?, hlow] at hlead
    rw [lowerAscii_cons, hsame, decode?, hlead]
    simpa using ih
  | case3 b bs ranges n hlead ih =>
    rw [lowerAscii_cons]
    by_cases hlow : b.toNat < 0x80
    · obtain ⟨rfl, rfl⟩ : [] = ranges ∧ b.toNat = n := by simpa [lead?, hlow] using hlead
      have hlead' : lead? (lowerByte b).toNat = some ([], (lowerByte b).toNat) := by
        simp [lead?, toNat_lowerByte_lt hlow]
      rw [decode?, hlead']
      simpa [continue?] using ih
    · rw [lowerByte_of_le (by omega), decode?, hlead]
      dsimp only
      rw [continue?_lowerAscii (le_of_lead? hlead)]
      simpa using ih

theorem isUtf8_lowerAscii (bs : Bytes) : isUtf8 (lowerAscii bs) = isUtf8 bs := by
  have hmap := congrArg (List.all · id) (decode?_lowerAscii bs)
  simpa [isUtf8, List.all_map, Function.comp_def] using hmap

end Text
end ClassShape
