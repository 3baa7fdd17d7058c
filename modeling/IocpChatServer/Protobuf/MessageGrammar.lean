import IocpChatServer.Protobuf.WireGrammar

namespace IocpChatServer.Protobuf
open Foundations Wire Reader

variable {σ : Type} {switch : UInt32 → Option (FieldCase σ)} {depth : Nat} {msg next : σ}

inductive Field (switch : UInt32 → Option (FieldCase σ)) : Nat → σ → σ → List UInt8 → Prop where
  | varint {depth : Nat} {msg : σ} {tag : UInt32} {front body : List UInt8} {set : UInt64 → σ → σ} {value : UInt64} :
      Tag tag front → switch tag = some (.varint set) → Varint value body → Field switch depth msg (set value msg) (front ++ body)
  | string {depth : Nat} {msg : σ} {tag : UInt32} {front body : List UInt8} {set : List UInt8 → σ → σ} {inside : List UInt8} :
      Tag tag front → switch tag = some (.string set) → Delimited inside body → isStructurallyValidUTF8 inside = true →
      Field switch depth msg (set inside msg) (front ++ body)
  | message {depth : Nat} {msg next : σ} {tag : UInt32} {front body : List UInt8} {parse : Nat → List UInt8 → σ → Option σ}
      {inside : List UInt8} : Tag tag front → switch tag = some (.message parse) → Delimited inside body →
      parse depth inside msg = some next → Field switch (depth + 1) msg next (front ++ body)
  | unknown {depth : Nat} {msg : σ} {tag : UInt32} {front body : List UInt8} : Tag tag front → switch tag = none → ¬EndsParse tag →
      Unknown depth tag body → Field switch depth msg msg (front ++ body)

abbrev Fields (switch : UInt32 → Option (FieldCase σ)) (depth : Nat) : σ → σ → List UInt8 → Prop :=
  Records (Field switch depth)

theorem Field.some_byte {front : List UInt8} (field : Field switch depth msg next front) : front ≠ [] := by
  cases field with
  | varint written => simp [written.some_byte]
  | string written => simp [written.some_byte]
  | message written => simp [written.some_byte]
  | unknown written => simp [written.some_byte]

theorem parseField_field {ptr rest : List UInt8} (parsed : parseField switch depth msg ptr = some (next,rest)) :
    ∃ front, ptr = front ++ rest ∧ Field switch depth msg next front := by
  obtain ⟨⟨tag,behind⟩,read,round⟩ := Option.bind_eq_some_iff.mp parsed
  obtain ⟨front,rfl,written⟩ := (readTag_reads _ _ _).mp read
  split at round
  · rename_i field known
    cases field with
    | varint set =>
      obtain ⟨⟨value,left⟩,found,equal⟩ := Option.map_eq_some_iff.mp round
      cases equal
      obtain ⟨body,rfl,varint⟩ := (varintParse_reads _ _ _).mp found
      exact ⟨front ++ body,(List.append_assoc ..).symm,.varint written known varint⟩
    | string set =>
      obtain ⟨⟨inside,left⟩,found,equal⟩ := Option.map_eq_some_iff.mp round
      cases equal
      obtain ⟨found,valid⟩ := Option.filter_eq_some_iff.mp found
      obtain ⟨body,rfl,delimited⟩ := (readString_reads _ _ _).mp found
      exact ⟨front ++ body,(List.append_assoc ..).symm,.string written known delimited (of_decide_eq_true valid)⟩
    | message parse =>
      cases depth with
      | zero => cases round
      | succ depth =>
        obtain ⟨⟨inside,left⟩,found,more⟩ := Option.bind_eq_some_iff.mp round
        obtain ⟨sub,inner,equal⟩ := Option.map_eq_some_iff.mp more
        cases equal
        obtain ⟨body,rfl,delimited⟩ := (readString_reads _ _ _).mp found
        exact ⟨front ++ body,(List.append_assoc ..).symm,.message written known delimited inner⟩
  · rename_i nobody
    split at round
    · cases round
    · rename_i more
      obtain ⟨left,found,equal⟩ := Option.map_eq_some_iff.mp round
      cases equal
      obtain ⟨body,rfl,unknown⟩ := unknownFieldParse_exact.mp found
      exact ⟨front ++ body,(List.append_assoc ..).symm,.unknown written nobody more unknown⟩

theorem Field.parse {front : List UInt8} (field : Field switch depth msg next front) (rest : List UInt8) :
    parseField switch depth msg (front ++ rest) = some (next,rest) := by
  cases field with
  | varint written known value =>
    simp only [parseField,List.append_assoc,readTag_reads.front written,Option.bind_some,known,FieldCase.parse,
      varintParse_reads.front value,Option.map_some]
  | string written known delimited valid =>
    simp only [parseField,List.append_assoc,readTag_reads.front written,Option.bind_some,known,FieldCase.parse,
      readString_reads.front delimited,Option.filter_some,valid,decide_true,if_true,Option.map_some]
  | message written known delimited inner =>
    simp only [parseField,List.append_assoc,readTag_reads.front written,Option.bind_some,known,FieldCase.parse,
      readString_reads.front delimited,inner,Option.map_some]
  | unknown written nobody more unknown =>
    simp only [parseField,List.append_assoc,readTag_reads.front written,Option.bind_some,nobody,if_neg more,
      unknownFieldParse_exact.mpr ⟨_,rfl,unknown⟩,Option.map_some]

theorem parseField_reads (switch : UInt32 → Option (FieldCase σ)) (depth : Nat) (msg : σ) :
    Reads (parseField switch depth msg) (Field switch depth msg) := by
  intro ptr next rest
  constructor
  · exact parseField_field
  · rintro ⟨front,rfl,field⟩
    exact field.parse rest

theorem internalParse_exact {ptr : List UInt8} : internalParse switch depth ptr msg = some next ↔ Fields switch depth msg next ptr :=
  readAll_exact (parseField_reads switch depth) fun _ _ _ => Field.some_byte

theorem fields_front {last : σ} {front rest : List UInt8} (fields : Fields switch depth msg next front) :
    Fields switch depth msg last (front ++ rest) ↔ Fields switch depth next last rest :=
  records_front (parseField_reads switch depth) (fun _ _ _ => Field.some_byte) fields

theorem internalParse_append {front rest : List UInt8} (parsed : internalParse switch depth front msg = some next) :
    internalParse switch depth (front ++ rest) msg = internalParse switch depth rest next := by
  refine Option.ext fun last => ?_
  rw [internalParse_exact,internalParse_exact]
  exact fields_front (internalParse_exact.mp parsed)

theorem Unknown.more {tag : UInt32} {body : List UInt8} (unknown : Unknown depth tag body) : ¬EndsParse tag := by
  rintro (zero | ends)
  · cases unknown with
    | plain numbered => exact numbered (by rw [zero]; rfl)
    | group numbered => exact numbered (by rw [zero]; rfl)
  · cases unknown with
    | plain _ plain => cases plain <;> omega
    | group _ kind => omega

theorem internalParse_unknown {tag : UInt32} {front header body rest : List UInt8}
    (parsed : internalParse switch depth front msg = some next) (written : Tag tag header) (nobody : switch tag = none)
    (unknown : Unknown depth tag body) :
    internalParse switch depth (front ++ (header ++ body ++ rest)) msg = internalParse switch depth (front ++ rest) msg := by
  have skipped : internalParse switch depth (header ++ body) next = some next := by
    have field : Field switch depth next next (header ++ body) := .unknown written nobody unknown.more unknown
    exact internalParse_exact.mpr (List.append_nil (header ++ body) ▸ .record field .done)
  rw [internalParse_append parsed,internalParse_append parsed,internalParse_append skipped]

theorem fields_start {last : σ} {ptr : List UInt8} (fields : Fields switch depth msg last ptr) (some_byte : ptr ≠ []) :
    ∃ next rest, parseField switch depth msg ptr = some (next,rest) ∧ Fields switch depth next last rest := by
  cases fields with
  | done => exact absurd rfl some_byte
  | record field more => exact ⟨_,_,field.parse _,more⟩

-- What every case of a switch keeps, the parser keeps. Strings come verified.
def FieldCase.Keeps (Good : σ → Prop) : FieldCase σ → Prop
  | .varint set => ∀ value msg, Good msg → Good (set value msg)
  | .string set => ∀ str msg, isStructurallyValidUTF8 str = true → Good msg → Good (set str msg)
  | .message parse => ∀ depth ptr msg next, parse depth ptr msg = some next → Good msg → Good next

def Keeps (switch : UInt32 → Option (FieldCase σ)) (Good : σ → Prop) : Prop :=
  ∀ tag field, switch tag = some field → field.Keeps Good

variable {Good : σ → Prop}

theorem Keeps.field {front : List UInt8} (keeps : Keeps switch Good) (field : Field switch depth msg next front) (good : Good msg) :
    Good next := by
  cases field with
  | varint _ known => exact keeps _ _ known _ _ good
  | string _ known _ valid => exact keeps _ _ known _ _ valid good
  | message _ known _ inner => exact keeps _ _ known _ _ _ _ inner good
  | unknown => exact good

theorem Keeps.internalParse {ptr : List UInt8} (keeps : Keeps switch Good) (parsed : internalParse switch depth ptr msg = some next)
    (good : Good msg) : Good next := by
  have fields := internalParse_exact.mp parsed
  clear parsed
  induction fields with
  | done => exact good
  | record field _ ih => exact ih (keeps.field field good)

section Written
-- The fields the code writes, with a number below 16.
variable {number : Nat} {last : σ} {rest : List UInt8}

theorem key_tag {kind : Nat} (small : number < 16) (narrow : kind < 8) :
    Tag (UInt32.ofNat (number * 8 + kind)) [key number kind] := by
  have byte : (key number kind).toNat = number * 8 + kind := UInt8.toNat_ofNat_of_lt' (Nat.lt_of_lt_of_le
    (by omega : number * 8 + kind < 128) (by decide))
  exact ⟨_,.last (by omega),by rw [byte]⟩

theorem delimited_written {inside : List UInt8} (short : inside.length ≤ maxSize) :
    Delimited inside (varint inside.length ++ inside) := by
  have small : inside.length < 2 ^ 31 := by
    unfold maxSize at short
    omega
  exact ⟨_,rfl,varint_written (Nat.le_trans (varintSize_small 30 small) (by decide)),short⟩

theorem number_front {set : UInt64 → σ → σ} (small : number < 16) (known : switch (UInt32.ofNat (number * 8)) = some (.varint set))
    (value : UInt64) (unset : set 0 msg = msg) :
    Fields switch depth msg last (Wire.number number value.toNat ++ rest) ↔ Fields switch depth (set value msg) last rest := by
  unfold Wire.number
  split
  · rename_i zero
    have nothing : value = 0 := UInt64.toNat_inj.mp zero
    rw [nothing,unset,List.nil_append]
  · have written : Groups 10 value.toNat (varint value.toNat) :=
      varint_written (Nat.le_trans (varintSize_small 63 value.toNat_lt) (by decide))
    have field : Field switch depth msg (set value msg) ([key number 0] ++ varint value.toNat) :=
      .varint (key_tag small (by decide)) known ⟨_,written,UInt64.ofNat_toNat.symm⟩
    have row : Fields switch depth msg (set value msg) ([key number 0] ++ varint value.toNat) :=
      List.append_nil (_ ++ _) ▸ .record field .done
    exact fields_front row

theorem parseField_delimited {field : FieldCase σ} (small : number < 16)
    (known : switch (UInt32.ofNat (number * 8 + 2)) = some field) (inside : List UInt8) :
    parseField switch depth msg (submessage number inside ++ rest) =
      field.parse depth msg (varint inside.length ++ inside ++ rest) := by
  have shape : submessage number inside ++ rest = [key number 2] ++ (varint inside.length ++ inside ++ rest) := by
    simp only [submessage,List.cons_append,List.nil_append]
  rw [shape]
  have written : Tag (UInt32.ofNat (number * 8 + 2)) [key number 2] := key_tag small (by decide)
  simp only [parseField,readTag_reads.front written,Option.bind_some,known]

theorem submessage_some {inside : List UInt8} : submessage number inside ++ rest ≠ [] := by
  simp [submessage]

theorem submessage_front {parse : Nat → List UInt8 → σ → Option σ} (small : number < 16)
    (known : switch (UInt32.ofNat (number * 8 + 2)) = some (.message parse)) (inside : List UInt8) (short : inside.length ≤ maxSize) :
    Fields switch (depth + 1) msg last (submessage number inside ++ rest) ↔
      ∃ next, parse depth inside msg = some next ∧ Fields switch (depth + 1) next last rest := by
  have field : parseField switch (depth + 1) msg (submessage number inside ++ rest) =
      (parse depth inside msg).map fun msg => (msg,rest) := by
    rw [parseField_delimited small known]
    simp only [FieldCase.parse,readString_reads.front (delimited_written short),Option.bind_some]
  constructor
  · intro fields
    obtain ⟨next,left,parsed,more⟩ := fields_start fields submessage_some
    obtain ⟨sub,inner,equal⟩ := Option.map_eq_some_iff.mp (field.symm.trans parsed)
    cases equal
    exact ⟨_,inner,more⟩
  · rintro ⟨next,inner,more⟩
    obtain ⟨front,split,written⟩ := parseField_field (field.trans (congrArg _ inner))
    rw [split]
    exact .record written more

theorem string_front {set : List UInt8 → σ → σ} (small : number < 16)
    (known : switch (UInt32.ofNat (number * 8 + 2)) = some (.string set)) (inside : List UInt8) (short : inside.length ≤ maxSize) :
    Fields switch depth msg last (submessage number inside ++ rest) ↔
      isStructurallyValidUTF8 inside = true ∧ Fields switch depth (set inside msg) last rest := by
  have field : parseField switch depth msg (submessage number inside ++ rest) =
      if isStructurallyValidUTF8 inside = true then some (set inside msg,rest) else none := by
    rw [parseField_delimited small known]
    simp only [FieldCase.parse,readString_reads.front (delimited_written short),Option.filter_some,decide_eq_true_eq]
    split
    · rfl
    · rfl
  constructor
  · intro fields
    obtain ⟨next,left,parsed,more⟩ := fields_start fields submessage_some
    obtain ⟨valid,equal⟩ := Option.ite_none_right_eq_some.mp (field.symm.trans parsed)
    cases equal
    exact ⟨valid,more⟩
  · rintro ⟨valid,more⟩
    obtain ⟨front,split,written⟩ := parseField_field (field.trans (if_pos valid))
    rw [split]
    exact .record written more

theorem text_front {set : List UInt8 → σ → σ} (small : number < 16)
    (known : switch (UInt32.ofNat (number * 8 + 2)) = some (.string set)) (inside : List UInt8) (short : inside.length ≤ maxSize)
    (unset : set [] msg = msg) : Fields switch depth msg last (text number inside ++ rest) ↔
      isStructurallyValidUTF8 inside = true ∧ Fields switch depth (set inside msg) last rest := by
  unfold text
  split
  · rename_i empty
    have valid : isStructurallyValidUTF8 [] = true := rfl
    rw [empty,unset,List.nil_append]
    exact (and_iff_right valid).symm
  · exact string_front small known inside short

theorem fields_end : Fields switch depth msg last [] ↔ last = msg := by
  rw [← internalParse_exact]
  exact ⟨fun parsed => (Option.some.inj parsed).symm,fun same => same ▸ rfl⟩

end Written

end IocpChatServer.Protobuf
