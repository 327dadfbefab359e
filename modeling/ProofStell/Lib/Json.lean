import Mathlib.Data.UInt
import Mathlib.Tactic.Common

/-! JSON trees and the shape of derived record codecs: fields are found by name or by position,
an optional field may be absent, and `null` reads as an absent optional field. -/
namespace Json

/-- A number as its text denotes it; floats by their bit pattern. -/
inductive Number where
  | posInt (n : UInt64)
  | negInt (n : Int64)
  | float (bits : UInt64)
  deriving DecidableEq

inductive Value where
  | null
  | bool (b : Bool)
  | number (n : Number)
  | string (s : String)
  | array (items : List Value)
  | object (fields : List (String × Value))

abbrev Fields := List (String × Value)

def ofU64 (n : UInt64) : Value := .number (.posInt n)
def ofU32 (n : UInt32) : Value := ofU64 n.toUInt64
def ofU16 (n : UInt16) : Value := ofU64 n.toUInt64

/-- Only a negative number is written with a sign. -/
def ofI64 (n : Int64) : Value := .number (if 0 ≤ n then .posInt n.toUInt64 else .negInt n)

def ofOption {α : Type} (encode : α → Value) : Option α → Value
  | some a => encode a
  | none => .null

def asString : Value → Option String
  | .string s => some s
  | _ => none

def asU64 : Value → Option UInt64
  | .number (.posInt n) => some n
  | _ => none

def asU32 (v : Value) : Option UInt32 :=
  (asU64 v).bind fun n => if n.toNat<2^32 then some n.toUInt32 else none

def asU16 (v : Value) : Option UInt16 :=
  (asU64 v).bind fun n => if n.toNat<2^16 then some n.toUInt16 else none

def asI64 : Value → Option Int64
  | .number (.posInt n) => if n.toNat<2^63 then some n.toInt64 else none
  | .number (.negInt n) => some n
  | _ => none

/-- A derived record is read by name, or from an array in declaration order, which may stop short
of the last `defaulted` fields. -/
def asRecord (names : List String) (defaulted : Nat) : Value → Option Fields
  | .object fields => some fields
  | .array items =>
    if names.length-defaulted ≤ items.length ∧ items.length ≤ names.length then
      some (names.zip items)
    else none
  | _ => none

def asItems : Value → Option (List Value)
  | .array items => some items
  | _ => none

@[simp] theorem asString_string (s : String) : asString (.string s) = some s := rfl
@[simp] theorem asU64_ofU64 (n : UInt64) : asU64 (ofU64 n) = some n := rfl
@[simp] theorem asRecord_object (names : List String) (defaulted : Nat) (fields : Fields) :
    asRecord names defaulted (.object fields) = some fields := rfl

@[simp] theorem asU32_ofU32 (n : UInt32) : asU32 (ofU32 n) = some n := by
  have h : n.toUInt64.toNat<2^32 := by
    rw [UInt32.toNat_toUInt64]
    exact n.toNat_lt
  rw [asU32,ofU32,asU64_ofU64,Option.bind_some,if_pos h,UInt32.toUInt32_toUInt64]

@[simp] theorem asU16_ofU16 (n : UInt16) : asU16 (ofU16 n) = some n := by
  have h : n.toUInt64.toNat<2^16 := by
    rw [UInt16.toNat_toUInt64]
    exact n.toNat_lt
  rw [asU16,ofU16,asU64_ofU64,Option.bind_some,if_pos h,UInt16.toUInt16_toUInt64]

@[simp] theorem asI64_ofI64 (n : Int64) : asI64 (ofI64 n) = some n := by
  rw [ofI64]
  by_cases hn : 0 ≤ n
  · have hlt : n.toUInt64.toNat<2^63 := by
      rw [Int64.toNat_toUInt64_of_le hn]
      exact n.toNatClampNeg_lt
    rw [if_pos hn,asI64,if_pos hlt,Int64.toInt64_toUInt64]
  · rw [if_neg hn,asI64]

def named (name : String) (fields : Fields) : List Value :=
  (fields.filter fun f => f.1 = name).map Prod.snd

def required {α : Type} (name : String) (decode : Value → Option α) (fields : Fields) :
    Option α :=
  match named name fields with
  | [v] => decode v
  | _ => none

def optional {α : Type} (name : String) (decode : Value → Option α) (fields : Fields) :
    Option (Option α) :=
  match named name fields with
  | [] => some none
  | [.null] => some none
  | [v] => (decode v).map some
  | _ => none

theorem optional_ofOption {α : Type} {name : String} {fields : Fields} {encode : α → Value}
    {decode : Value → Option α} {o : Option α} (h : named name fields = [ofOption encode o])
    (hsome : ∀ a, encode a≠.null ∧ decode (encode a) = some a) :
    optional name decode fields = some o := by
  rw [optional,h]
  cases o with
  | none => rfl
  | some a =>
    obtain ⟨hne,hdecode⟩ := hsome a
    rw [ofOption]
    cases hv : encode a with
    | null => exact absurd hv hne
    | bool b | number n | string t | array items | object fields' =>
      rw [hv] at hdecode
      exact congrArg (Option.map some) hdecode

/-- How a written value reads as an optional field of arbitrary JSON. -/
def nonNull : Value → Option Value
  | .null => none
  | v => some v

theorem nonNull_eq_some {v : Value} : nonNull v = some v ↔ v≠.null := by
  cases v <;> simp [nonNull]

theorem optional_of_named {name : String} {fields : Fields} {v : Value}
    (h : named name fields = [v]) : optional name some fields = some (nonNull v) := by
  rw [optional,h]
  cases v <;> rfl

structure Text where
  toString : Value → String
  fromStr : String → Option Value

def quote (s : String) : String := "\""++s++"\""

mutual
/-- The compact text of a tree without floats, whose strings need no escapes. -/
def render : Value → String
  | .null => "null"
  | .bool b => toString b
  | .number (.posInt n) => toString n
  | .number (.negInt n) => toString n
  | .number (.float bits) => toString bits
  | .string s => quote s
  | .array items => "["++renderItems items++"]"
  | .object fields => "\x7b"++renderFields fields++"\x7d"

def renderItems : List Value → String
  | [] => ""
  | [v] => render v
  | v::vs => render v++","++renderItems vs

def renderFields : List (String × Value) → String
  | [] => ""
  | [(k,v)] => quote k++":"++render v
  | (k,v)::fields => quote k++":"++render v++","++renderFields fields
end

end Json
