import Mathlib.Algebra.Order.Ring.Nat
import Mathlib.Data.List.Basic

namespace IocpChatServer.Foundations.Wire

-- Base 128, low groups first, the top bit set on all bytes but the last. `more` bounds the
-- bytes after the first.
def groups : Nat → Nat → List UInt8
  | 0,value => [UInt8.ofNat value]
  | more + 1,value =>
    if value < 128 then [UInt8.ofNat value] else UInt8.ofNat (value % 128 + 128) :: groups more (value / 128)

def varint (value : Nat) : List UInt8 := groups value.log2 value

-- The kinds of field with a number below 16, whose key is one byte.
def key (number kind : Nat) : UInt8 := UInt8.ofNat (number * 8 + kind)

-- A number, a string or a submessage; the first two are left out when zero or empty.
def number (field value : Nat) : List UInt8 := if value = 0 then [] else key field 0 :: varint value

def submessage (field : Nat) (bytes : List UInt8) : List UInt8 := key field 2 :: varint bytes.length ++ bytes

def text (field : Nat) (bytes : List UInt8) : List UInt8 := if bytes = [] then [] else submessage field bytes

def varintSize (value : Nat) : Nat := value.log2 / 7 + 1

def numberSize (value : Nat) : Nat := if value = 0 then 0 else 1 + varintSize value

def submessageSize (length : Nat) : Nat := 1 + varintSize length + length

def textSize (length : Nat) : Nat := if length = 0 then 0 else submessageSize length

theorem log2_group (value : Nat) (large : 128 ≤ value) : value.log2 = (value / 128).log2 + 7 := by
  have high : value / 128 ≠ 0 := by omega
  have low : 2 ^ (value / 128).log2 ≤ value / 128 := Nat.log2_self_le high
  have next : value / 128 < 2 ^ ((value / 128).log2 + 1) := Nat.lt_log2_self
  have shift : 2 ^ ((value / 128).log2 + 7) = 2 ^ (value / 128).log2 * 128 := Nat.pow_add 2 _ 7
  rw [Nat.log2_eq_iff (by omega)]
  omega

theorem groups_size (more value : Nat) (enough : value.log2 ≤ 7 * more + 6) :
    (groups more value).length = varintSize value := by
  induction more generalizing value with
  | zero =>
    simp only [groups,varintSize,List.length_singleton]
    omega
  | succ more ih =>
    simp only [groups]
    split
    · rename_i small
      have short : value.log2 < 7 := by
        by_cases zero : value = 0
        · simp [zero]
        · exact (Nat.log2_lt zero).mpr small
      simp only [varintSize,List.length_singleton]
      omega
    · rename_i large
      have split := log2_group value (Nat.le_of_not_lt large)
      have rest := ih (value / 128) (by omega)
      simp only [List.length_cons,rest,varintSize]
      omega

@[simp] theorem varint_size (value : Nat) : (varint value).length = varintSize value := groups_size _ _ (by omega)

@[simp] theorem number_size (field value : Nat) : (number field value).length = numberSize value := by
  unfold number numberSize
  split
  · rfl
  · simp [Nat.add_comm]

@[simp] theorem submessage_size (field : Nat) (bytes : List UInt8) :
    (submessage field bytes).length = submessageSize bytes.length := by
  simp [submessage,submessageSize]
  omega

@[simp] theorem text_size (field : Nat) (bytes : List UInt8) : (text field bytes).length = textSize bytes.length := by
  unfold text textSize
  split
  · rename_i empty
    simp [empty]
  · rename_i some_
    simp [some_]

theorem submessageSize_long (length : Nat) : length + 2 ≤ submessageSize length := by
  unfold submessageSize varintSize
  omega

theorem textSize_long (length : Nat) : length ≤ textSize length := by
  have long := submessageSize_long length
  unfold textSize
  split
  · omega
  · omega

theorem submessages_size {Message : Type _} (field : Nat) (serialize : Message → List UInt8) (messages : List Message) :
    (messages.flatMap fun m => submessage field (serialize m)).length =
      (messages.map fun m => submessageSize (serialize m).length).sum := by
  simp [List.length_flatMap]

theorem submessageSizes_long (lengths : List Nat) : 2 * lengths.length ≤ (lengths.map submessageSize).sum := by
  induction lengths with
  | nil => simp
  | cons length rest ih =>
    have long := submessageSize_long length
    simp only [List.map_cons,List.sum_cons,List.length_cons]
    omega

end IocpChatServer.Foundations.Wire
