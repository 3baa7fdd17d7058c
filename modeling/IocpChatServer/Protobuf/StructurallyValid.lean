import Mathlib.Data.List.Basic

namespace IocpChatServer.Protobuf

-- The rows of the state table. A byte that ends the scan has no next state: the callers only
-- ask whether the scan came to the end of the bytes.
def utf8acceptnonsurrogates : Nat → Nat → Option Nat
  | 0,c =>
    if c ≤ 0x7F then some 0
    else if 0xC2 ≤ c ∧ c ≤ 0xDF then some 1
    else if c = 0xE0 then some 2
    else if c = 0xED then some 7
    else if 0xE1 ≤ c ∧ c ≤ 0xEF then some 3
    else if c = 0xF0 then some 4
    else if 0xF1 ≤ c ∧ c ≤ 0xF3 then some 5
    else if c = 0xF4 then some 6
    else none
  | 1,c => if 0x80 ≤ c ∧ c ≤ 0xBF then some 0 else none
  | 2,c => if 0xA0 ≤ c ∧ c ≤ 0xBF then some 1 else none
  | 3,c => if 0x80 ≤ c ∧ c ≤ 0xBF then some 1 else none
  | 4,c => if 0x90 ≤ c ∧ c ≤ 0xBF then some 3 else none
  | 5,c => if 0x80 ≤ c ∧ c ≤ 0xBF then some 3 else none
  | 6,c => if 0x80 ≤ c ∧ c ≤ 0x8F then some 3 else none
  | 7,c => if 0x80 ≤ c ∧ c ≤ 0x9F then some 1 else if 0xA0 ≤ c ∧ c ≤ 0xBF then some 8 else none
  | _,_ => none

-- UTF8GenericScan from a state: kExitOK, with all the bytes consumed.
def utf8GenericScan : Nat → List UInt8 → Bool
  | state,[] => state == 0
  | state,c :: src =>
    match utf8acceptnonsurrogates state c.toNat with
    | some next => utf8GenericScan next src
    | none => false

-- UTF8GenericScanFastAscii starts the table behind the leading ASCII bytes.
def isStructurallyValidUTF8 (str : List UInt8) : Bool := utf8GenericScan 0 (str.dropWhile (·.toNat < 0x80))

variable {state : Nat} {str rest : List UInt8} {c : UInt8}

theorem scan_ascii (small : c.toNat < 0x80) : utf8GenericScan 0 (c :: str) = utf8GenericScan 0 str := by
  have row : utf8acceptnonsurrogates 0 c.toNat = some 0 := if_pos (by omega)
  simp only [utf8GenericScan,row]

theorem fastAscii_scan : isStructurallyValidUTF8 str = utf8GenericScan 0 str := by
  unfold isStructurallyValidUTF8
  induction str with
  | nil => rfl
  | cons c str ih =>
    by_cases small : c.toNat < 0x80
    · rw [List.dropWhile_cons_of_pos (by simpa using small),ih,scan_ascii small]
    · rw [List.dropWhile_cons_of_neg (by simpa using small)]

theorem valid_ascii {front : List UInt8} (small : ∀ c ∈ front, c.toNat < 0x80) :
    isStructurallyValidUTF8 (front ++ str) = isStructurallyValidUTF8 str := by
  rw [fastAscii_scan,fastAscii_scan]
  induction front with
  | nil => rfl
  | cons c front ih =>
    rw [List.cons_append,scan_ascii (small c List.mem_cons_self)]
    exact ih fun d member => small d (List.mem_cons_of_mem c member)

theorem scan_inside (inside : state ≠ 0) (scan : utf8GenericScan state str = true) :
    ∃ c src next, str = c :: src ∧ utf8acceptnonsurrogates state c.toNat = some next ∧ utf8GenericScan next src = true := by
  cases str with
  | nil => simp [utf8GenericScan,inside] at scan
  | cons c src =>
    simp only [utf8GenericScan] at scan
    split at scan
    · rename_i next row
      exact ⟨c,src,next,rfl,row,scan⟩
    · cases scan

theorem scan_range {low high next : Nat} (inside : state ≠ 0)
    (row : ∀ n, utf8acceptnonsurrogates state n = if low ≤ n ∧ n ≤ high then some next else none)
    (scan : utf8GenericScan state str = true) :
    ∃ c src, str = c :: src ∧ (low ≤ c.toNat ∧ c.toNat ≤ high) ∧ utf8GenericScan next src = true := by
  obtain ⟨c,src,after,rfl,taken,scan⟩ := scan_inside inside scan
  rw [row,Option.ite_none_right_eq_some,Option.some.injEq] at taken
  obtain ⟨range,rfl⟩ := taken
  exact ⟨c,src,rfl,range,scan⟩

def Continues (c : UInt8) : Prop := 0x80 ≤ c.toNat ∧ c.toNat ≤ 0xBF

theorem scan_one (scan : utf8GenericScan 1 str = true) :
    ∃ c src, str = c :: src ∧ Continues c ∧ utf8GenericScan 0 src = true :=
  scan_range (by decide) (fun _ => rfl) scan

theorem scan_three (scan : utf8GenericScan 3 str = true) :
    ∃ c d src, str = c :: d :: src ∧ Continues c ∧ Continues d ∧ utf8GenericScan 0 src = true := by
  obtain ⟨c,src,rfl,range,scan⟩ := scan_range (by decide) (fun _ => rfl) scan
  obtain ⟨d,src,rfl,more,scan⟩ := scan_one scan
  exact ⟨c,d,src,rfl,range,more,scan⟩

structure Two (b c : UInt8) : Prop where
  first : 0xC2 ≤ b.toNat ∧ b.toNat ≤ 0xDF
  second : Continues c

structure Three (b c d : UInt8) : Prop where
  first : 0xE0 ≤ b.toNat ∧ b.toNat ≤ 0xEF
  second : Continues c
  third : Continues d
  shortest : b.toNat = 0xE0 → 0xA0 ≤ c.toNat
  surrogate : b.toNat = 0xED → c.toNat ≤ 0x9F

structure Four (b c d e : UInt8) : Prop where
  first : 0xF0 ≤ b.toNat ∧ b.toNat ≤ 0xF4
  second : Continues c
  third : Continues d
  fourth : Continues e
  shortest : b.toNat = 0xF0 → 0x90 ≤ c.toNat
  last : b.toNat = 0xF4 → c.toNat ≤ 0x8F

theorem scan_start (b : UInt8) (scan : utf8GenericScan 0 (b :: str) = true) :
    b.toNat < 0x80 ∧ utf8GenericScan 0 str = true ∨
    (∃ c src, str = c :: src ∧ Two b c ∧ utf8GenericScan 0 src = true) ∨
    (∃ c d src, str = c :: d :: src ∧ Three b c d ∧ utf8GenericScan 0 src = true) ∨
    (∃ c d e src, str = c :: d :: e :: src ∧ Four b c d e ∧ utf8GenericScan 0 src = true) := by
  simp only [utf8GenericScan] at scan
  split at scan
  case h_2 => cases scan
  rename_i next row
  simp only [utf8acceptnonsurrogates] at row
  split at row
  · rename_i small
    cases row
    exact .inl ⟨by omega,scan⟩
  split at row
  · rename_i range
    cases row
    obtain ⟨c,src,rfl,second,scan⟩ := scan_one scan
    exact .inr (.inl ⟨c,src,rfl,⟨range,second⟩,scan⟩)
  split at row
  · rename_i first
    cases row
    obtain ⟨c,src,rfl,range,scan⟩ := scan_range (by decide) (fun _ => rfl) scan
    obtain ⟨d,src,rfl,third,scan⟩ := scan_one scan
    exact .inr (.inr (.inl ⟨c,d,src,rfl,⟨by omega,⟨by omega,range.2⟩,third,fun _ => range.1,by omega⟩,scan⟩))
  split at row
  · rename_i first
    cases row
    obtain ⟨c,src,next,rfl,row,scan⟩ := scan_inside (by decide) scan
    simp only [utf8acceptnonsurrogates] at row
    split at row
    · rename_i range
      cases row
      obtain ⟨d,src,rfl,third,scan⟩ := scan_one scan
      exact .inr (.inr (.inl ⟨c,d,src,rfl,⟨by omega,⟨range.1,by omega⟩,third,by omega,fun _ => range.2⟩,scan⟩))
    · -- A surrogate is refused at its last byte.
      split at row
      · cases row
        obtain ⟨d,src,next,rfl,row,_⟩ := scan_inside (by decide) scan
        cases row
      · cases row
  split at row
  · rename_i first
    cases row
    obtain ⟨c,d,src,rfl,second,third,scan⟩ := scan_three scan
    exact .inr (.inr (.inl ⟨c,d,src,rfl,⟨by omega,second,third,by omega,by omega⟩,scan⟩))
  split at row
  · rename_i first
    cases row
    obtain ⟨c,src,rfl,range,scan⟩ := scan_range (by decide) (fun _ => rfl) scan
    obtain ⟨d,e,src,rfl,third,fourth,scan⟩ := scan_three scan
    exact .inr (.inr (.inr ⟨c,d,e,src,rfl,⟨by omega,⟨by omega,range.2⟩,third,fourth,fun _ => range.1,by omega⟩,scan⟩))
  split at row
  · rename_i first
    cases row
    obtain ⟨c,src,rfl,range,scan⟩ := scan_range (by decide) (fun _ => rfl) scan
    obtain ⟨d,e,src,rfl,third,fourth,scan⟩ := scan_three scan
    exact .inr (.inr (.inr ⟨c,d,e,src,rfl,⟨by omega,range,third,fourth,by omega,by omega⟩,scan⟩))
  split at row
  · rename_i first
    cases row
    obtain ⟨c,src,rfl,range,scan⟩ := scan_range (by decide) (fun _ => rfl) scan
    obtain ⟨d,e,src,rfl,third,fourth,scan⟩ := scan_three scan
    exact .inr (.inr (.inr ⟨c,d,e,src,rfl,⟨by omega,⟨range.1,by omega⟩,third,fourth,by omega,fun _ => range.2⟩,scan⟩))
  · cases row

theorem scan_two {b : UInt8} (two : Two b c) : utf8GenericScan 0 (b :: c :: str) = utf8GenericScan 0 str := by
  obtain ⟨first,low,high⟩ := two
  have row : utf8acceptnonsurrogates 0 b.toNat = some 1 := by
    simp only [utf8acceptnonsurrogates]
    rw [if_neg (by omega),if_pos first]
  have next : utf8acceptnonsurrogates 1 c.toNat = some 0 := if_pos ⟨low,high⟩
  simp only [utf8GenericScan,row,next]

theorem scan_continue (continues : Continues c) : utf8GenericScan 1 (c :: str) = utf8GenericScan 0 str := by
  have row : utf8acceptnonsurrogates 1 c.toNat = some 0 := if_pos continues
  simp only [utf8GenericScan,row]

theorem scan_three_continue (continues : Continues c) : utf8GenericScan 3 (c :: str) = utf8GenericScan 1 str := by
  have row : utf8acceptnonsurrogates 3 c.toNat = some 1 := if_pos continues
  simp only [utf8GenericScan,row]

theorem three_row {b d : UInt8} (three : Three b c d) :
    (utf8acceptnonsurrogates 0 b.toNat).bind (utf8acceptnonsurrogates · c.toNat) = some 1 := by
  obtain ⟨first,⟨low,high⟩,_,shortest,surrogate⟩ := three
  by_cases least : b.toNat = 0xE0
  · rw [least]
    exact if_pos ⟨shortest least,high⟩
  by_cases lead : b.toNat = 0xED
  · rw [lead]
    exact if_pos ⟨low,surrogate lead⟩
  · have row : utf8acceptnonsurrogates 0 b.toNat = some 3 := by
      simp only [utf8acceptnonsurrogates]
      rw [if_neg (by omega),if_neg (by omega),if_neg least,if_neg lead,if_pos (by omega)]
    rw [row]
    exact if_pos ⟨low,high⟩

theorem four_row {b d e : UInt8} (four : Four b c d e) :
    (utf8acceptnonsurrogates 0 b.toNat).bind (utf8acceptnonsurrogates · c.toNat) = some 3 := by
  obtain ⟨first,⟨low,high⟩,_,_,shortest,last⟩ := four
  by_cases least : b.toNat = 0xF0
  · rw [least]
    exact if_pos ⟨shortest least,high⟩
  by_cases most : b.toNat = 0xF4
  · rw [most]
    exact if_pos ⟨low,last most⟩
  · have row : utf8acceptnonsurrogates 0 b.toNat = some 5 := by
      simp only [utf8acceptnonsurrogates]
      rw [if_neg (by omega),if_neg (by omega),if_neg (by omega),if_neg (by omega),if_neg (by omega),if_neg least,
        if_pos (by omega)]
    rw [row]
    exact if_pos ⟨low,high⟩

theorem scan_rows {b : UInt8} {next : Nat}
    (rows : (utf8acceptnonsurrogates 0 b.toNat).bind (utf8acceptnonsurrogates · c.toNat) = some next) :
    utf8GenericScan 0 (b :: c :: str) = utf8GenericScan next str := by
  obtain ⟨state,lead,row⟩ := Option.bind_eq_some_iff.mp rows
  simp only [utf8GenericScan,lead,row]

theorem byte_of {n : Nat} (small : n < 256) : (UInt8.ofNat n).toNat = n := UInt8.toNat_ofNat_of_lt' small

theorem encoded_shape (ch : Char) :
    (∃ b, String.utf8EncodeChar ch = [b] ∧ b.toNat < 0x80) ∨ (∃ b c, String.utf8EncodeChar ch = [b,c] ∧ Two b c) ∨
    (∃ b c d, String.utf8EncodeChar ch = [b,c,d] ∧ Three b c d) ∨
    (∃ b c d e, String.utf8EncodeChar ch = [b,c,d,e] ∧ Four b c d e) := by
  have value : ch.val.toNat < 0xD800 ∨ 0xDFFF < ch.val.toNat ∧ ch.val.toNat < 0x110000 := ch.valid
  simp only [String.utf8EncodeChar]
  split
  · rename_i small
    exact .inl ⟨_,rfl,by rw [byte_of (by omega)]; omega⟩
  split
  · rename_i small
    refine .inr (.inl ⟨_,_,rfl,?_,?_,?_⟩)
    all_goals rw [byte_of (by omega)]
    all_goals omega
  split
  · refine .inr (.inr (.inl ⟨_,_,_,rfl,?_,⟨?_,?_⟩,⟨?_,?_⟩,?_,?_⟩))
    all_goals repeat rw [byte_of (by omega)]
    all_goals omega
  · refine .inr (.inr (.inr ⟨_,_,_,_,rfl,?_,⟨?_,?_⟩,⟨?_,?_⟩,⟨?_,?_⟩,?_,?_⟩))
    all_goals repeat rw [byte_of (by omega)]
    all_goals omega

theorem byte_at {n : Nat} (b : UInt8) (equal : n = b.toNat) : UInt8.ofNat n = b := by rw [equal,UInt8.ofNat_toNat]

theorem encoded_at {n : Nat} (valid : n.isValidChar) : String.utf8EncodeChar (Char.ofNatAux n valid) =
    if n ≤ 0x7F then [UInt8.ofNat n]
    else if n ≤ 0x7FF then [UInt8.ofNat (n / 64 % 0x20 + 0xC0),UInt8.ofNat (n % 0x40 + 0x80)]
    else if n ≤ 0xFFFF then
      [UInt8.ofNat (n / 4096 % 0x10 + 0xE0),UInt8.ofNat (n / 64 % 0x40 + 0x80),UInt8.ofNat (n % 0x40 + 0x80)]
    else [UInt8.ofNat (n / 262144 % 0x08 + 0xF0),UInt8.ofNat (n / 4096 % 0x40 + 0x80),UInt8.ofNat (n / 64 % 0x40 + 0x80),
      UInt8.ofNat (n % 0x40 + 0x80)] := rfl

theorem one_encoded (b : UInt8) (small : b.toNat < 0x80) : ∃ ch, String.utf8EncodeChar ch = [b] := by
  have valid : b.toNat.isValidChar := .inl (by omega)
  refine ⟨_,(encoded_at valid).trans ?_⟩
  rw [if_pos (by omega),byte_at b rfl]

theorem two_encoded {b : UInt8} (two : Two b c) : ∃ ch, String.utf8EncodeChar ch = [b,c] := by
  obtain ⟨first,low,high⟩ := two
  obtain ⟨n,value⟩ : ∃ n, n = (b.toNat - 0xC0) * 64 + (c.toNat - 0x80) := ⟨_,rfl⟩
  have valid : n.isValidChar := .inl (by omega)
  refine ⟨_,(encoded_at valid).trans ?_⟩
  rw [if_neg (by omega),if_pos (by omega),byte_at b (by omega),byte_at c (by omega)]

theorem three_encoded {b d : UInt8} (three : Three b c d) : ∃ ch, String.utf8EncodeChar ch = [b,c,d] := by
  obtain ⟨first,⟨_,_⟩,⟨_,_⟩,shortest,surrogate⟩ := three
  obtain ⟨n,value⟩ : ∃ n, n = (b.toNat - 0xE0) * 4096 + (c.toNat - 0x80) * 64 + (d.toNat - 0x80) := ⟨_,rfl⟩
  have valid : n.isValidChar := by
    unfold Nat.isValidChar
    omega
  refine ⟨_,(encoded_at valid).trans ?_⟩
  rw [if_neg (by omega),if_neg (by omega),if_pos (by omega),byte_at b (by omega),byte_at c (by omega),byte_at d (by omega)]

theorem four_encoded {b d e : UInt8} (four : Four b c d e) : ∃ ch, String.utf8EncodeChar ch = [b,c,d,e] := by
  obtain ⟨first,⟨_,_⟩,⟨_,_⟩,⟨_,_⟩,shortest,last⟩ := four
  obtain ⟨n,value⟩ : ∃ n, n = (b.toNat - 0xF0) * 262144 + (c.toNat - 0x80) * 4096 + (d.toNat - 0x80) * 64 + (e.toNat - 0x80) :=
    ⟨_,rfl⟩
  have valid : n.isValidChar := .inr (by omega)
  refine ⟨_,(encoded_at valid).trans ?_⟩
  rw [if_neg (by omega),if_neg (by omega),if_neg (by omega),byte_at b (by omega),byte_at c (by omega),byte_at d (by omega),
    byte_at e (by omega)]

theorem scan_encoded (ch : Char) : utf8GenericScan 0 (String.utf8EncodeChar ch ++ str) = utf8GenericScan 0 str := by
  rcases encoded_shape ch with ⟨b,bytes,small⟩ | ⟨b,c,bytes,two⟩ | ⟨b,c,d,bytes,three⟩ | ⟨b,c,d,e,bytes,four⟩
  · rw [bytes]
    exact scan_ascii small
  · rw [bytes]
    exact scan_two two
  · rw [bytes]
    exact (scan_rows (three_row three)).trans (scan_continue three.third)
  · rw [bytes]
    exact (scan_rows (four_row four)).trans ((scan_three_continue four.third).trans (scan_continue four.fourth))

theorem scan_character (b : UInt8) (scan : utf8GenericScan 0 (b :: str) = true) :
    ∃ ch src, b :: str = String.utf8EncodeChar ch ++ src ∧ utf8GenericScan 0 src = true := by
  rcases scan_start b scan with ⟨small,scan⟩ | ⟨c,src,rfl,two,scan⟩ | ⟨c,d,src,rfl,three,scan⟩ | ⟨c,d,e,src,rfl,four,scan⟩
  · obtain ⟨ch,bytes⟩ := one_encoded b small
    exact ⟨ch,str,by rw [bytes]; rfl,scan⟩
  · obtain ⟨ch,bytes⟩ := two_encoded two
    exact ⟨ch,src,by rw [bytes]; rfl,scan⟩
  · obtain ⟨ch,bytes⟩ := three_encoded three
    exact ⟨ch,src,by rw [bytes]; rfl,scan⟩
  · obtain ⟨ch,bytes⟩ := four_encoded four
    exact ⟨ch,src,by rw [bytes]; rfl,scan⟩

theorem scan_characters (scan : utf8GenericScan 0 str = true) : ∃ chars : List Char, str = chars.flatMap String.utf8EncodeChar := by
  induction length : str.length using Nat.strongRecOn generalizing str with
  | ind n ih =>
    cases str with
    | nil => exact ⟨[],rfl⟩
    | cons b str =>
      obtain ⟨ch,src,bytes,scan⟩ := scan_character b scan
      have longer : 0 < (String.utf8EncodeChar ch).length := List.length_pos_iff.mpr String.utf8EncodeChar_ne_nil
      have lengths : (b :: str).length = (String.utf8EncodeChar ch).length + src.length := by rw [bytes,List.length_append]
      obtain ⟨chars,rfl⟩ := ih src.length (by omega) scan rfl
      exact ⟨ch :: chars,bytes⟩

theorem scan_text (chars : List Char) : utf8GenericScan 0 (chars.flatMap String.utf8EncodeChar) = true := by
  induction chars with
  | nil => rfl
  | cons ch chars ih => rw [List.flatMap_cons,scan_encoded,ih]

theorem structurallyValid_exact (str : List UInt8) :
    isStructurallyValidUTF8 str = true ↔ ∃ chars : List Char, str = chars.flatMap String.utf8EncodeChar := by
  rw [fastAscii_scan]
  constructor
  · exact scan_characters
  · rintro ⟨chars,rfl⟩
    exact scan_text chars

end IocpChatServer.Protobuf
