import Mathlib.Algebra.Group.Nat.Defs
import Mathlib.Data.List.Basic
import Mathlib.Data.List.Infix
import Mathlib.Data.List.TakeWhile

/-!
# Byte strings

`std::string` is a string of bytes, and the server never looks at an encoding: a
message body is whatever the client sent. So the model's text is `List UInt8`, a
position in a string is the suffix that starts there (`std::string::find`, here
`Lib.seek`, and the hand-written scanners only ever move forward), and a string literal
of the source is written `ascii "…"`.
-/

namespace EpollChat

/-- `std::string`. -/
abbrev Bytes := List UInt8

/-- `std::string::max_size()` of libstdc++ on a 64-bit target. -/
def stringMax : Nat := 2 ^ 62 - 1

/-- The bytes of an ASCII literal. -/
def ascii (s : String) : Bytes := s.toList.map fun c => UInt8.ofNat c.toNat

/-- `std::to_string` of an unsigned number. -/
def toDecimal (n : Nat) : Bytes := (Nat.toDigits 10 n).map fun c => UInt8.ofNat c.toNat

/-- What is left of a string that goes through a `char*` without its length: hiredis'
    `%s`, and `std::string(reply->str)`. -/
def cStr (s : Bytes) : Bytes := s.takeWhile (· != 0)

/-! ## The characters the scanners compare with -/

def quote : UInt8 := 34
def backslash : UInt8 := 92
def colon : UInt8 := 58
def comma : UInt8 := 44
def space : UInt8 := 32
def openBrace : UInt8 := 123
def closeBrace : UInt8 := 125
def openBracket : UInt8 := 91
def closeBracket : UInt8 := 93

/-- `std::isdigit` in the C locale. -/
def isDigit (b : UInt8) : Bool := 48 ≤ b && b ≤ 57

/-- The four characters the fast extractor skips: space, tab, CR, LF. -/
def isBlank (b : UInt8) : Bool := b == space || b == 9 || b == 13 || b == 10

/-- `"\"" + key + "\""`, the search key every extractor builds. -/
def quoted (key : Bytes) : Bytes := quote :: (key ++ [quote])

/-! ## Network byte order -/

/-- `htonl` of a 32-bit value, as the four bytes `append(&netLen, 4)` copies. -/
def be32 (n : Nat) : Bytes :=
  [UInt8.ofNat (n / 2 ^ 24), UInt8.ofNat (n / 2 ^ 16), UInt8.ofNat (n / 2 ^ 8), UInt8.ofNat n]

/-- `htons` of a 16-bit value, as the two bytes `append(&netType, 2)` copies. -/
def be16 (n : UInt16) : Bytes := [UInt8.ofNat (n.toNat / 2 ^ 8), UInt8.ofNat n.toNat]

/-- `ntohl` of the four bytes a `peek` read. -/
def ntohl (b : Bytes) : Nat :=
  (b.getD 0 0).toNat * 2 ^ 24 + (b.getD 1 0).toNat * 2 ^ 16 + (b.getD 2 0).toNat * 2 ^ 8
    + (b.getD 3 0).toNat

/-- `ntohs` of the two bytes a `peek` read. -/
def ntohs (b : Bytes) : UInt16 := UInt16.ofNat ((b.getD 0 0).toNat * 2 ^ 8 + (b.getD 1 0).toNat)

/-! ## What the proofs use of them -/

@[simp] theorem length_be32 (n : Nat) : (be32 n).length = 4 := rfl

@[simp] theorem length_be16 (n : UInt16) : (be16 n).length = 2 := rfl

theorem ntohl_be32 {n : Nat} (h : n < 2 ^ 32) : ntohl (be32 n) = n := by
  simp only [ntohl, be32, List.getD_cons_zero, List.getD_cons_succ, UInt8.toNat_ofNat']
  omega

theorem ntohs_be16 (n : UInt16) : ntohs (be16 n) = n := by
  apply UInt16.toNat_inj.mp
  have := n.toNat_lt
  simp only [ntohs, be16, List.getD_cons_zero, List.getD_cons_succ, UInt8.toNat_ofNat',
    UInt16.toNat_ofNat']
  omega

theorem cStr_eq_self_iff {s : Bytes} : cStr s = s ↔ 0 ∉ s := by
  rw [cStr, List.takeWhile_eq_self_iff]
  constructor
  · intro h hmem
    exact absurd (h 0 hmem) (by simp)
  · intro h b hb
    have hne : b ≠ 0 := fun h0 => h (h0 ▸ hb)
    simpa using hne

theorem zero_not_mem_cStr (s : Bytes) : 0 ∉ cStr s := by
  intro h
  exact absurd (List.mem_takeWhile_imp h) (by simp)

theorem isDigit_of_mem_toDecimal {n : Nat} {b : UInt8} (h : b ∈ toDecimal n) :
    isDigit b = true := by
  obtain ⟨c, hc, rfl⟩ := List.mem_map.mp h
  have hd := Nat.isDigit_of_mem_toDigits (by decide) (by decide) hc
  simp only [Char.isDigit, Bool.and_eq_true, decide_eq_true_eq] at hd
  have h₁ : 48 ≤ c.toNat := UInt32.le_iff_toNat_le.mp hd.1
  have h₂ : c.toNat ≤ 57 := UInt32.le_iff_toNat_le.mp hd.2
  simp only [isDigit, Bool.and_eq_true, decide_eq_true_eq, UInt8.le_iff_toNat_le,
    UInt8.toNat_ofNat', UInt8.reduceToNat]
  omega

theorem not_mem_toDecimal {b : UInt8} (hb : isDigit b = false) (n : Nat) : b ∉ toDecimal n := by
  intro h
  rw [isDigit_of_mem_toDecimal h] at hb
  exact absurd hb (by simp)

theorem toDecimal_ne_nil (n : Nat) : toDecimal n ≠ [] := by
  simp [toDecimal]

end EpollChat
