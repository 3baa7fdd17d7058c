import IocpChatServer.Foundations.Known
import IocpChatServer.Foundations.TransitionSystem
import IocpChatServer.ServerCore.BufferWriter

namespace IocpChatServer.ServerCore.BufferFill
open Foundations Memory Cursor Known TransitionSystem

inductive Item where
  | value (t : DataType) (v : t.Value)
  | block (bytes : List BYTE)

def Item.bytes : Item → List BYTE
  | .value t v => t.bytes v
  | .block bytes => bytes

inductive Shape where
  | value (t : DataType)
  | block (len : UInt32)

def Item.shape : Item → Shape
  | .value t _ => .value t
  | .block bytes => .block (UInt32.ofNat bytes.length)

def Shape.len : Shape → UInt32
  | .value t => t.sizeof.toUInt32
  | .block len => len

-- What fills a buffer: the writer's calls, and assignments through the pointers that Reserve has returned. The values of a reservation are
-- those that its elements are meant to have in the end. A `fill` names the call whose pointer it goes through, and may be for an element, a
-- member of one or several of them.
inductive Action where
  | insert (t : DataType) (v : t.Value)
  | writeValue (t : DataType) (v : t.Value)
  | write (src : Nat → BYTE) (len : UInt32)
  | reserve (t : DataType) (count : UInt16) (values : List t.Value)
  | fill (call : Nat) (offset : Nat) (bytes : List BYTE)

-- The writer, and the pointer that each of its calls has returned, if it is one and not null.
structure Writing where
  writer : BufferWriter
  pointers : List (Option Nat) := []

def Writing.after (s : Writing) : Action → Option Writing
  | .insert t v => some ⟨s.writer.insert t v,s.pointers ++ [none]⟩
  | .writeValue t v => some ⟨(s.writer.writeValue t v).1,s.pointers ++ [none]⟩
  | .write src len => some ⟨(s.writer.write src len).1,s.pointers ++ [none]⟩
  | .reserve t count _ => some ⟨(s.writer.reserve t count).1,s.pointers ++ [(s.writer.reserve t count).2]⟩
  | .fill call offset bytes => match s.pointers[call]? with
    | some (some pointer) => some {s with writer := {s.writer with buffer := s.writer.buffer.put (pointer + offset) bytes}}
    | _ => none

-- What is meant: fields that know nothing of each other.
structure Field where
  reserved : Bool
  cells : List (Option BYTE)

def Field.written (bytes : List BYTE) : Field := ⟨false,bytes.map some⟩

def draft (fields : List Field) : Action → Option (List Field)
  | .insert t v => some (fields ++ [.written (t.bytes v)])
  | .writeValue t v => some (fields ++ [.written (t.bytes v)])
  | .write src len => some (fields ++ [.written (slice src 0 len.toNat)])
  | .reserve t count _ => some (fields ++ [⟨true,List.replicate (t.sizeof.toNat * count.toNat) none⟩])
  | .fill call offset bytes => match fields[call]? with
    | some ⟨true,cells⟩ =>
      if offset + bytes.length ≤ cells.length then some (fields.set call ⟨true,overwrite cells offset bytes⟩) else none
    | _ => none

def cellsOf (fields : List Field) : List (Option BYTE) := fields.flatMap Field.cells

def contents (actions : List Action) : List Item := actions.flatMap fun
  | .insert t v => [.value t v]
  | .writeValue t v => [.value t v]
  | .write src len => [.block (slice src 0 len.toNat)]
  | .reserve t _ values => values.map (.value t)
  | .fill _ _ _ => []

-- Each assignment keeps to what was reserved before it, and nothing of the values is missing in the end.
def Filled (actions : List Action) : Prop :=
  ∃ fields, execute draft [] actions = some fields ∧ cellsOf fields = ((contents actions).flatMap Item.bytes).map some

variable {size : UInt32} {s : Writing} {fields later : List Field} {action : Action} {actions : List Action} {bytes : List BYTE} {t : DataType}

@[simp] theorem cellsOf_append (one two : List Field) : cellsOf (one ++ two) = cellsOf one ++ cellsOf two := List.flatMap_append

@[simp] theorem cellsOf_written : cellsOf [Field.written bytes] = bytes.map some := by simp [cellsOf,Field.written]

def offsetOf (fields : List Field) (call : Nat) : Nat := ((fields.map fun field => field.cells.length).take call).sum

-- The memory holds the fields one behind the other, and the pointers are to the fields that are reserved.
structure Holds (size : UInt32) (s : Writing) (fields : List Field) : Prop where
  size : s.writer.size = size
  pos : s.writer.pos.toNat = (cellsOf fields).length
  sees : Sees s.writer.buffer.cells 0 (cellsOf fields)
  calls : s.pointers.length = fields.length
  pointers : ∀ call field, fields[call]? = some field → field.reserved = true → s.pointers[call]? = some (some (offsetOf fields call))

theorem offsetOf_length (one two : List Field) : offsetOf (one ++ two) one.length = (cellsOf one).length := by
  rw [offsetOf,List.map_append,List.take_left' (by simp),cellsOf,List.length_flatMap]

theorem offsetOf_append {call : Nat} (one two : List Field) (before : call < one.length) : offsetOf (one ++ two) call = offsetOf one call := by
  rw [offsetOf,List.map_append,List.take_append_of_le_length (by simpa using Nat.le_of_lt before),offsetOf]

theorem holds_make (buffer : Nat → BYTE) : Holds size {writer := .make buffer size 0} [] :=
  ⟨rfl,rfl,sees_nothing (n := 0),rfl,fun call field found => by simp at found⟩

theorem Holds.within (holds : Holds size s fields) (fits : (cellsOf fields).length ≤ size.toNat) : s.writer.pos ≤ s.writer.size := by
  rw [UInt32.le_iff_toNat_le,holds.pos,holds.size]
  exact fits

theorem Holds.append {writer : BufferWriter} {field : Field} {pointer : Option Nat} (holds : Holds size s fields)
    (size_ : writer.size = s.writer.size) (pos : writer.pos.toNat = s.writer.pos.toNat + field.cells.length)
    (before : Sees writer.buffer.cells 0 (cellsOf fields)) (here : Sees writer.buffer.cells (cellsOf fields).length field.cells)
    (points : field.reserved = true → pointer = some s.writer.pos.toNat) :
    Holds size ⟨writer,s.pointers ++ [pointer]⟩ (fields ++ [field]) where
  size := size_.trans holds.size
  pos := by simp only [pos,holds.pos,cellsOf,List.flatMap_append,List.flatMap_singleton,List.length_append]
  sees := by
    rw [cellsOf_append,sees_append,Nat.zero_add]
    exact ⟨before,by simpa [cellsOf] using here⟩
  calls := by simp [holds.calls]
  pointers call other found reserved := by
    by_cases old : call < fields.length
    · rw [List.getElem?_append_left old] at found
      rw [List.getElem?_append_left (holds.calls ▸ old),offsetOf_append _ _ old]
      exact holds.pointers call other found reserved
    · have last : call = fields.length := by
        have bound := (List.getElem?_eq_some_iff.1 found).1
        simp only [List.length_append,List.length_singleton] at bound
        omega
      subst last
      have same : field = other := by simpa using found
      subst same
      rw [← holds.calls,List.getElem?_concat_length,points reserved,holds.calls,offsetOf_length,holds.pos]

theorem Holds.store {len : UInt32} (holds : Holds size s fields) (same : len.toNat = bytes.length)
    (fits : (cellsOf fields).length + bytes.length ≤ size.toNat) :
    Holds size ⟨{s.writer with buffer := s.writer.buffer.put s.writer.pos.toNat bytes,pos := s.writer.pos + len},s.pointers ++ [none]⟩
      (fields ++ [.written bytes]) := by
  have room : s.writer.pos.toNat + len.toNat ≤ size.toNat := by
    rw [holds.pos,same]
    exact fits
  refine holds.append rfl ?_ ?_ ?_ fun reserved => nomatch reserved
  · simpa [Field.written,same] using advance_toNat room
  · exact sees_beside holds.sees (.inl (by rw [holds.pos,Nat.zero_add]))
  · rw [← holds.pos]
    exact sees_store

theorem Holds.reserve {count : UInt16} (holds : Holds size s fields)
    (fits : (cellsOf fields).length + t.sizeof.toNat * count.toNat ≤ size.toNat) :
    Holds size ⟨(s.writer.reserve t count).1,s.pointers ++ [(s.writer.reserve t count).2]⟩
      (fields ++ [⟨true,List.replicate (t.sizeof.toNat * count.toNat) none⟩]) := by
  have bound := size.toNat_lt
  have whole : (t.sizeof * count.toUInt64).toNat = t.sizeof.toNat * count.toNat := by
    rw [UInt64.toNat_mul,UInt16.toNat_toUInt64,Nat.mod_eq_of_lt (by omega)]
  have cut : (t.sizeof * count.toUInt64).toUInt32.toNat = t.sizeof.toNat * count.toNat := by
    rw [cut_toNat (show (t.sizeof * count.toUInt64).toNat ≤ size.toNat by omega),whole]
  have room : ¬ s.writer.freeSize.toUInt64 < t.sizeof * count.toUInt64 := by
    rw [UInt64.lt_iff_toNat_lt,UInt32.toNat_toUInt64,whole,BufferWriter.freeSize,free_toNat (holds.within (by omega)),holds.pos,holds.size]
    omega
  rw [BufferWriter.reserve,if_neg room]
  refine holds.append rfl ?_ holds.sees sees_nothing fun _ => rfl
  have within : s.writer.pos.toNat + (t.sizeof * count.toUInt64).toUInt32.toNat ≤ size.toNat := by
    rw [holds.pos,cut]
    exact fits
  rw [List.length_replicate,← cut]
  exact advance_toNat within

theorem field_between {call : Nat} {field : Field} (found : fields[call]? = some field) :
    ∃ before after, fields = before ++ field :: after ∧ before.length = call := by
  obtain ⟨bound,same⟩ := List.getElem?_eq_some_iff.1 found
  refine ⟨fields.take call,fields.drop (call + 1),?_,List.length_take_of_le (Nat.le_of_lt bound)⟩
  rw [← same,← List.drop_eq_getElem_cons bound,List.take_append_drop]

theorem Holds.fill {call offset : Nat} {cells : List (Option BYTE)} (holds : Holds size s fields) (found : fields[call]? = some ⟨true,cells⟩)
    (room : offset + bytes.length ≤ cells.length) :
    ∃ next, s.after (.fill call offset bytes) = some next ∧ Holds size next (fields.set call ⟨true,overwrite cells offset bytes⟩) := by
  have pointer := holds.pointers call _ found rfl
  obtain ⟨before,after,rfl,rfl⟩ := field_between found
  have same : (before ++ ⟨true,cells⟩ :: after).set before.length ⟨true,overwrite cells offset bytes⟩ =
      before ++ ⟨true,overwrite cells offset bytes⟩ :: after := by simp
  have lengths : (before ++ ⟨true,overwrite cells offset bytes⟩ :: after).map (fun field : Field => field.cells.length) =
      (before ++ ⟨true,cells⟩ :: after).map fun field => field.cells.length := by
    simp only [List.map_append,List.map_cons,overwrite_length room]
  have split : ∀ middle, cellsOf (before ++ ⟨true,middle⟩ :: after) = cellsOf before ++ (middle ++ cellsOf after) := fun middle => by
    simp [cellsOf]
  rw [offsetOf_length] at pointer
  let buffer := s.writer.buffer.put ((cellsOf before).length + offset) bytes
  refine ⟨{s with writer := {s.writer with buffer := buffer}},by simp only [Writing.after,pointer]; rfl,?_⟩
  rw [same]
  refine ⟨holds.size,?_,?_,?_,fun other field at_ reserved => ?_⟩
  · rw [cellsOf,List.length_flatMap,lengths,← List.length_flatMap]
    exact holds.pos
  · have sees := holds.sees
    rw [split,sees_append,sees_append,Nat.zero_add] at sees
    rw [split,sees_append,sees_append,Nat.zero_add,overwrite_length room]
    refine ⟨sees_beside sees.1 (.inl ?_),sees_overwrite sees.2.1 room,sees_beside sees.2.2 (.inr ?_)⟩
    · rw [Nat.zero_add]
      exact Nat.le_add_right _ _
    · omega
  · simpa using holds.calls
  · rw [offsetOf,lengths]
    by_cases here : other = before.length
    · subst here
      exact holds.pointers _ _ found rfl
    · refine holds.pointers other field ?_ reserved
      rw [← same,List.getElem?_set_ne (Ne.symm here)] at at_
      exact at_

theorem draft_grows (drafted : draft fields action = some later) : (cellsOf fields).length ≤ (cellsOf later).length := by
  cases action with
  | fill call offset bytes =>
    simp only [draft] at drafted
    split at drafted
    case h_1 cells found =>
      split at drafted
      case isTrue room =>
        cases drafted
        obtain ⟨before,after,rfl,rfl⟩ := field_between found
        simp [cellsOf,overwrite_length room]
      case isFalse => cases drafted
    case h_2 => cases drafted
  | _ =>
    cases drafted
    simp

theorem drafts_grow (drafted : execute draft fields actions = some later) : (cellsOf fields).length ≤ (cellsOf later).length := by
  induction actions generalizing fields with
  | nil =>
    cases drafted
    exact Nat.le_refl _
  | cons action actions ih =>
    obtain ⟨middle,first,rest⟩ := Option.bind_eq_some_iff.1 drafted
    exact Nat.le_trans (draft_grows first) (ih rest)

theorem pointer_slice (v : t.Value) : slice (t.pointer v) 0 t.sizeof.toNat = t.bytes v := by
  rw [← t.bytes_length v]
  exact slice_store

theorem Holds.after (holds : Holds size s fields) (drafted : draft fields action = some later) (fits : (cellsOf later).length ≤ size.toNat) :
    ∃ next, s.after action = some next ∧ Holds size next later := by
  have within := holds.within (Nat.le_trans (draft_grows drafted) fits)
  cases action with
  | insert t v =>
    cases drafted
    simp only [cellsOf_append,cellsOf_written,List.length_append,List.length_map] at fits
    refine ⟨_,rfl,holds.store ?_ fits⟩
    rw [t.bytes_length] at fits ⊢
    exact cut_toNat (Nat.le_trans (Nat.le_add_left _ _) fits)
  | writeValue t v =>
    cases drafted
    simp only [cellsOf_append,cellsOf_written,List.length_append,List.length_map,t.bytes_length] at fits
    have cut : t.sizeof.toUInt32.toNat = t.sizeof.toNat := cut_toNat (Nat.le_trans (Nat.le_add_left _ _) fits)
    have wrote : s.writer.writeValue t v = _ := BufferWriter.write_fits within (by rw [holds.pos,cut,holds.size]; exact fits)
    rw [cut,pointer_slice] at wrote
    simp only [Writing.after,wrote]
    refine ⟨_,rfl,holds.store (by rw [cut,t.bytes_length]) ?_⟩
    rw [t.bytes_length]
    exact fits
  | write src len =>
    cases drafted
    simp only [cellsOf_append,cellsOf_written,List.length_append,List.length_map,slice_length] at fits
    have wrote : s.writer.write src len = _ := BufferWriter.write_fits within (by rw [holds.pos,holds.size]; exact fits)
    simp only [Writing.after,wrote]
    refine ⟨_,rfl,holds.store slice_length.symm ?_⟩
    rw [slice_length]
    exact fits
  | reserve t count values =>
    cases drafted
    refine ⟨_,rfl,holds.reserve ?_⟩
    simpa [cellsOf] using fits
  | fill call offset bytes =>
    simp only [draft] at drafted
    split at drafted
    case h_1 cells found =>
      split at drafted
      case isTrue room =>
        cases drafted
        exact holds.fill found room
      case isFalse => cases drafted
    case h_2 => cases drafted

theorem Holds.run (holds : Holds size s fields) (drafted : execute draft fields actions = some later)
    (fits : (cellsOf later).length ≤ size.toNat) : ∃ next, execute Writing.after s actions = some next ∧ Holds size next later := by
  induction actions generalizing s fields with
  | nil =>
    cases drafted
    exact ⟨s,rfl,holds⟩
  | cons action actions ih =>
    obtain ⟨middle,first,rest⟩ := Option.bind_eq_some_iff.1 drafted
    obtain ⟨s',taken,holds'⟩ := holds.after first (Nat.le_trans (drafts_grow rest) fits)
    obtain ⟨next,done,final⟩ := ih holds' rest
    exact ⟨next,by rw [execute,taken]; exact done,final⟩

end IocpChatServer.ServerCore.BufferFill
