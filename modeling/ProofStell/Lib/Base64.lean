import Mathlib.Data.UInt
import Mathlib.Logic.Function.Basic
import Mathlib.Tactic.Common

/-! The standard base64 encoding with padding: three bytes become four digits. -/
namespace Base64

def alphabet : List Char :=
  "ABCDEFGHIJKLMNOPQRSTUVWXYZabcdefghijklmnopqrstuvwxyz0123456789+/".toList

def digit (n : Nat) : Char := alphabet.getD n '='

def digits : List UInt8 → List Char
  | [] => []
  | [a] => [digit (a.toNat/4),digit (a.toNat%4*16),'=','=']
  | [a,b] => [digit (a.toNat/4),digit (a.toNat%4*16+b.toNat/16),digit (b.toNat%16*4),'=']
  | a::b::c::rest => digit (a.toNat/4)::digit (a.toNat%4*16+b.toNat/16)::
      digit (b.toNat%16*4+c.toNat/64)::digit (c.toNat%64)::digits rest

def encode (bytes : List UInt8) : String := String.ofList (digits bytes)

def value (c : Char) : Nat := alphabet.idxOf c

/-- The bytes that a text made by `digits` stands for. -/
def bytes : List Char → List UInt8
  | a::b::c::d::rest =>
    let first := UInt8.ofNat (value a*4+value b/16)
    let second := UInt8.ofNat (value b%16*16+value c/4)
    if c = '=' then [first]
    else if d = '=' then [first,second]
    else first::second::UInt8.ofNat (value c%4*64+value d)::bytes rest
  | _ => []

theorem value_digit {n : Nat} (hn : n < 64) : value (digit n) = n := by
  have hall : ∀ a∈List.range 64, value (digit a) = a := by decide +kernel
  exact hall n (List.mem_range.mpr hn)

theorem digit_ne_padding {n : Nat} (hn : n < 64) : digit n ≠ '=' := by
  have hall : ∀ a∈List.range 64, digit a ≠ '=' := by decide +kernel
  exact hall n (List.mem_range.mpr hn)

theorem ofNat_eq {a : UInt8} {n : Nat} (h : n = a.toNat) : UInt8.ofNat n = a := by
  rw [h,UInt8.ofNat_toNat]

theorem bytes_digits (u : List UInt8) : bytes (digits u) = u := by
  induction u using digits.induct with
  | case1 => rfl
  | case2 a =>
    have ha := a.toNat_lt
    rw [digits,bytes,if_pos rfl,value_digit (by omega),value_digit (by omega)]
    rw [ofNat_eq (a := a) (by omega)]
  | case3 a b =>
    have ha := a.toNat_lt
    have hb := b.toNat_lt
    rw [digits,bytes,if_neg (digit_ne_padding (by omega)),if_pos rfl,value_digit (by omega),
      value_digit (by omega),value_digit (by omega)]
    rw [ofNat_eq (a := a) (by omega),ofNat_eq (a := b) (by omega)]
  | case4 a b c rest ih =>
    have ha := a.toNat_lt
    have hb := b.toNat_lt
    have hc := c.toNat_lt
    rw [digits,bytes,if_neg (digit_ne_padding (by omega)),if_neg (digit_ne_padding (by omega)),
      value_digit (by omega),value_digit (by omega),value_digit (by omega),
      value_digit (by omega),ih]
    rw [ofNat_eq (a := a) (by omega),ofNat_eq (a := b) (by omega),ofNat_eq (a := c) (by omega)]

theorem encode_injective : Function.Injective encode := by
  intro u v h
  have hdigits := String.ofList_injective h
  rw [← bytes_digits u,hdigits,bytes_digits]

example : encode [0x4d,0x61] = "TWE=" := by decide +kernel

end Base64
