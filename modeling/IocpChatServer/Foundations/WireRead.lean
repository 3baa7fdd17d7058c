import IocpChatServer.Foundations.Reader
import IocpChatServer.Foundations.Wire

namespace IocpChatServer.Foundations.Wire
open Reader

def readGroups : Nat → List UInt8 → Option (Nat × List UInt8)
  | 0,_ => none
  | _ + 1,[] => none
  | more + 1,byte :: rest =>
    if byte.toNat < 128 then some (byte.toNat,rest)
    else (readGroups more rest).map fun read => (byte.toNat - 128 + 128 * read.1,read.2)

-- The bytes that stand for a number, the shortest or not.
inductive Groups : Nat → Nat → List UInt8 → Prop where
  | last {more : Nat} {byte : UInt8} : byte.toNat < 128 → Groups (more + 1) byte.toNat [byte]
  | next {more value : Nat} {byte : UInt8} {bytes : List UInt8} : 128 ≤ byte.toNat → Groups more value bytes →
      Groups (more + 1) (byte.toNat - 128 + 128 * value) (byte :: bytes)

variable {most value : Nat} {bytes front rest : List UInt8}

theorem Groups.read (written : Groups most value front) : readGroups most (front ++ rest) = some (value,rest) := by
  induction written with
  | last small => simp [readGroups,small]
  | next large _ ih => simp [readGroups,Nat.not_lt.mpr large,ih]

theorem readGroups_written (read : readGroups most bytes = some (value,rest)) :
    ∃ front, bytes = front ++ rest ∧ Groups most value front := by
  induction most generalizing bytes value with
  | zero => cases read
  | succ more ih =>
    cases bytes with
    | nil => cases read
    | cons byte behind =>
      simp only [readGroups] at read
      split at read
      · rename_i small
        cases read
        exact ⟨[byte],rfl,.last small⟩
      · rename_i large
        obtain ⟨⟨high,left⟩,further,equal⟩ := Option.map_eq_some_iff.mp read
        cases equal
        obtain ⟨front,rfl,written⟩ := ih further
        exact ⟨byte :: front,rfl,.next (Nat.le_of_not_lt large) written⟩

theorem readGroups_reads : Reads (readGroups most) (Groups most) := by
  intro input value rest
  constructor
  · exact readGroups_written
  · rintro ⟨front,rfl,written⟩
    exact written.read

theorem Groups.some_byte (written : Groups most value bytes) : bytes ≠ [] := by
  cases written <;> simp

theorem groups_written (more value : Nat) (enough : value.log2 ≤ 7 * more + 6) (room : value.log2 / 7 < most) :
    Groups most value (groups more value) := by
  induction more generalizing value most with
  | zero =>
    have small : value < 128 := Nat.lt_of_lt_of_le Nat.lt_log2_self (Nat.pow_le_pow_right (by decide) (by omega : value.log2 + 1 ≤ 7))
    obtain ⟨most,rfl⟩ : ∃ n, most = n + 1 := ⟨most - 1,by omega⟩
    have byte : (UInt8.ofNat value).toNat = value := UInt8.toNat_ofNat_of_lt' (Nat.lt_trans small (by decide))
    have written : Groups (most + 1) (UInt8.ofNat value).toNat [UInt8.ofNat value] := .last (by omega)
    rwa [byte] at written
  | succ more ih =>
    obtain ⟨most,rfl⟩ : ∃ n, most = n + 1 := ⟨most - 1,by omega⟩
    simp only [groups]
    split
    · rename_i small
      have byte : (UInt8.ofNat value).toNat = value := UInt8.toNat_ofNat_of_lt' (Nat.lt_trans small (by decide))
      have written : Groups (most + 1) (UInt8.ofNat value).toNat [UInt8.ofNat value] := .last (by omega)
      rwa [byte] at written
    · rename_i large
      have split := log2_group value (Nat.le_of_not_lt large)
      have high : Groups most (value / 128) (groups more (value / 128)) := ih _ (by omega) (by omega)
      have byte : (UInt8.ofNat (value % 128 + 128)).toNat = value % 128 + 128 := UInt8.toNat_ofNat_of_lt' (by
        have low := Nat.mod_lt value (by decide : 0 < 128)
        exact Nat.lt_of_lt_of_le (Nat.add_lt_add_right low 128) (by decide))
      have written := @Groups.next _ _ (UInt8.ofNat (value % 128 + 128)) _ (by omega) high
      have whole : (UInt8.ofNat (value % 128 + 128)).toNat - 128 + 128 * (value / 128) = value := by omega
      rwa [whole] at written

theorem varint_written (room : varintSize value ≤ most) : Groups most value (varint value) := groups_written _ _ (by omega) room

theorem varintSize_small (bits : Nat) (small : value < 2 ^ (bits + 1)) : varintSize value ≤ bits / 7 + 1 := by
  unfold varintSize
  by_cases zero : value = 0
  · simp [zero]
  · have log := (Nat.log2_lt zero).mpr small
    omega

end IocpChatServer.Foundations.Wire
