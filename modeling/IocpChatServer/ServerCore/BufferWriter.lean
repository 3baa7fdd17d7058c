import IocpChatServer.Foundations.Cursor
import IocpChatServer.ServerCore.RecvBuffer

namespace IocpChatServer.ServerCore
open Foundations Memory Cursor

-- A trivially copyable type: its values are their bytes.
structure DataType where
  Value : Type
  sizeof : UInt64
  bytes : Value → List BYTE
  value : List BYTE → Value
  bytes_length : ∀ v, (bytes v).length = sizeof.toNat
  value_bytes : ∀ v, value (bytes v) = v

def DataType.pointer (t : DataType) (v : t.Value) : Nat → BYTE := store (fun _ => 0) 0 (t.bytes v)

def DataType.array (n : UInt64) : DataType where
  Value := {bytes : List BYTE // bytes.length = n.toNat}
  sizeof := n
  bytes v := v.1
  value bytes := if same : bytes.length = n.toNat then ⟨bytes,same⟩ else ⟨List.replicate n.toNat 0,List.length_replicate⟩
  bytes_length v := v.2
  value_bytes v := dif_pos v.2

structure BufferWriter where
  buffer : Watched BYTE
  size : UInt32
  pos : UInt32

namespace BufferWriter

def make (buffer : Nat → BYTE) (size : UInt32) (pos : UInt32) : BufferWriter := {buffer := {cells := buffer},size := size,pos := pos}

def writeSize (b : BufferWriter) : UInt32 := b.pos
def freeSize (b : BufferWriter) : UInt32 := b.size - b.pos

def write (b : BufferWriter) (src : Nat → BYTE) (len : UInt32) : BufferWriter × Bool :=
  if b.freeSize < len then (b,false)
  else ({b with buffer := b.buffer.put b.pos.toNat (slice src 0 len.toNat),pos := b.pos + len},true)

-- sizeof is a size_t, which the uint32 parameter cuts.
def writeValue (b : BufferWriter) (t : DataType) (src : t.Value) : BufferWriter × Bool := b.write (t.pointer src) t.sizeof.toUInt32

-- The product is a size_t too. A pointer is an index into the buffer.
def reserve (b : BufferWriter) (t : DataType) (count : UInt16) : BufferWriter × Option Nat :=
  if b.freeSize.toUInt64 < t.sizeof * count.toUInt64 then (b,none)
  else ({b with pos := b.pos + (t.sizeof * count.toUInt64).toUInt32},some b.pos.toNat)

-- operator<<
def insert (b : BufferWriter) (t : DataType) (src : t.Value) : BufferWriter :=
  {b with buffer := b.buffer.put b.pos.toNat (t.bytes src),pos := b.pos + t.sizeof.toUInt32}

inductive Call where
  | write (src : Nat → BYTE) (len : UInt32)
  | writeValue (t : DataType) (src : t.Value)
  | reserve (t : DataType) (count : UInt16)
  | insert (t : DataType) (src : t.Value)

def after (b : BufferWriter) : Call → BufferWriter
  | .write src len => (b.write src len).1
  | .writeValue t src => (b.writeValue t src).1
  | .reserve t count => (b.reserve t count).1
  | .insert t src => b.insert t src

def Inside (b : BufferWriter) : Prop := Cursor.Inside b.size b.pos b.freeSize b.buffer.touched

variable {b : BufferWriter} {t : DataType}

theorem make_inside {buffer : Nat → BYTE} {size pos : UInt32} (within : pos ≤ size) : (make buffer size pos).Inside :=
  inside_of_within within fun _ member => absurd member List.not_mem_nil

theorem write_fits {src : Nat → BYTE} {len : UInt32} (within : b.pos ≤ b.size) (fits : b.pos.toNat + len.toNat ≤ b.size.toNat) :
    b.write src len = ({b with buffer := b.buffer.put b.pos.toNat (slice src 0 len.toNat),pos := b.pos + len},true) := by
  exact if_neg fun short => (short_iff within).1 short fits

theorem write_full {src : Nat → BYTE} {len : UInt32} (within : b.pos ≤ b.size) (full : ¬ b.pos.toNat + len.toNat ≤ b.size.toNat) :
    b.write src len = (b,false) := by
  exact if_pos ((short_iff within).2 full)

theorem write_inside {src : Nat → BYTE} {len : UInt32} (inside : b.Inside) : (b.write src len).1.Inside := by
  by_cases fits : b.pos.toNat + len.toNat ≤ b.size.toNat
  · rw [write_fits inside.within fits]
    simpa [Inside,freeSize,Watched.put] using Cursor.Inside.advance inside fits
  · rw [write_full inside.within fits]
    exact inside

theorem reserve_inside {count : UInt16} (inside : b.Inside) : (b.reserve t count).1.Inside := by
  unfold reserve
  split
  · exact inside
  · rename_i fits
    have least : (t.sizeof * count.toUInt64).toNat ≤ b.freeSize.toNat := by
      simpa only [UInt64.lt_iff_toNat_lt,UInt32.toNat_toUInt64,Nat.not_lt] using fits
    have free := inside.free
    have fits : b.pos.toNat + (t.sizeof * count.toUInt64).toUInt32.toNat ≤ b.size.toNat := by
      rw [cut_toNat least]
      omega
    have advanced := Cursor.Inside.advance inside fits
    exact ⟨advanced.within,advanced.free,inside.touches⟩

theorem insert_inside {src : t.Value} (inside : b.Inside) (fits : b.pos.toNat + t.sizeof.toNat ≤ b.size.toNat) :
    (b.insert t src).Inside := by
  have same : t.sizeof.toUInt32.toNat = t.sizeof.toNat := cut_toNat (Nat.le_trans (Nat.le_add_left _ _) fits)
  have advanced := Cursor.Inside.advance inside (same ▸ fits)
  simpa [Inside,freeSize,insert,Watched.put,t.bytes_length,same] using advanced

theorem insert_outside {src : t.Value} (inside : b.Inside) (full : ¬ b.pos.toNat + t.sizeof.toNat ≤ b.size.toNat) :
    ¬ (b.insert t src).Inside := by
  intro after
  have touched : (b.pos.toNat,t.sizeof.toNat) ∈ (b.insert t src).buffer.touched := by
    simp [insert,Watched.put,t.bytes_length]
  exact full (after.fits touched (UInt32.le_iff_toNat_le.1 inside.within))

end BufferWriter
end IocpChatServer.ServerCore
