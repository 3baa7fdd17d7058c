import IocpChatServer.DummyClient.ClientApp
import IocpChatServer.Protobuf.StructurallyValid

namespace IocpChatServer.DummyClient
open GameServer Protobuf

abbrev Key := Nat

-- `buf` and `line` of main.
structure Console where
  buf : Bytes := []
  line : Bytes := []
  deriving DecidableEq, Repr

def isEnter (ch : Key) : Bool := ch = 13 ∨ ch = 10

-- A round of the loop in PumpInput: `submitted`, `buf` and `out`.
def pumpKey : Bool × Console → Key → Bool × Console
  | (submitted,c),ch =>
    if isEnter ch then (true,⟨[],c.buf⟩)
    else if ch = 8 then (submitted,{c with buf := c.buf.dropLast})
    else if 32 ≤ ch ∧ ch ≤ 126 then (submitted,{c with buf := c.buf ++ [UInt8.ofNat ch]})
    else (submitted,c)

def Console.pumpInput (c : Console) (keys : List Key) : Bool × Console := keys.foldl pumpKey (false,c)

-- A round of the loop in main, with the keys that are there: the line that is handled.
def Console.round (c : Console) (keys : List Key) : Option Bytes × Console :=
  let (submitted,c) := c.pumpInput keys
  if submitted then (if c.line ≠ [] then some c.line else none,{c with line := []}) else (none,c)

def Console.rounds (c : Console) : List (List Key) → List Bytes × Console
  | [] => ([],c)
  | keys :: rest =>
    let (handled,c) := c.round keys
    let (more,c) := c.rounds rest
    (handled.toList ++ more,c)

-- What is typed, whenever it is read: the lines that Enter ends, and what there is of the next.
def editKey : List Bytes × Bytes → Key → List Bytes × Bytes
  | (lines,buf),ch =>
    if isEnter ch then (lines ++ [buf],[])
    else if ch = 8 then (lines,buf.dropLast)
    else if 32 ≤ ch ∧ ch ≤ 126 then (lines,buf ++ [UInt8.ofNat ch])
    else (lines,buf)

def edit (buf : Bytes) (keys : List Key) : List Bytes × Bytes := keys.foldl editKey ([],buf)

def spoken (lines : List Bytes) : List Bytes := lines.filter (· ≠ [])

-- No round finds an Enter behind a line that is not empty.
def Unhurried (buf : Bytes) : List (List Key) → Prop
  | [] => True
  | keys :: rest => (∀ line ∈ (edit buf keys).1.dropLast, line = []) ∧ Unhurried (edit buf keys).2 rest

instance : (buf : Bytes) → (rounds : List (List Key)) → Decidable (Unhurried buf rounds)
  | _,[] => .isTrue trivial
  | buf,keys :: rest =>
    have := instDecidableUnhurried (edit buf keys).2 rest
    inferInstanceAs (Decidable ((∀ line ∈ (edit buf keys).1.dropLast, line = []) ∧ Unhurried (edit buf keys).2 rest))

section
variable {buf : Bytes} {keys : List Key} {lines : List Bytes}

theorem editKey_lines (lines : List Bytes) (buf : Bytes) (ch : Key) :
    editKey (lines,buf) ch = (lines ++ (editKey ([],buf) ch).1,(editKey ([],buf) ch).2) := by
  simp only [editKey]
  split
  · simp
  · split
    · simp
    · split <;> simp

theorem foldl_editKey (lines : List Bytes) (buf : Bytes) (keys : List Key) :
    keys.foldl editKey (lines,buf) = (lines ++ (edit buf keys).1,(edit buf keys).2) := by
  induction keys generalizing lines buf with
  | nil => simp [edit]
  | cons ch rest ih =>
    have whole : edit buf (ch :: rest) = _ := ih (editKey ([],buf) ch).1 (editKey ([],buf) ch).2
    rw [List.foldl_cons,editKey_lines,ih,whole,List.append_assoc]

theorem edit_append (buf : Bytes) (one two : List Key) :
    edit buf (one ++ two) = ((edit buf one).1 ++ (edit (edit buf one).2 two).1,(edit (edit buf one).2 two).2) := by
  rw [edit,List.foldl_append,← edit,foldl_editKey]

-- PumpInput keeps the last of the lines.
theorem pumpInput_edit (c : Console) (keys : List Key) :
    c.pumpInput keys = (!(edit c.buf keys).1.isEmpty,⟨(edit c.buf keys).2,(edit c.buf keys).1.getLast?.getD c.line⟩) := by
  induction keys using List.reverseRecOn with
  | nil => rfl
  | append_singleton rest ch ih =>
    rw [Console.pumpInput,List.foldl_append,← Console.pumpInput,ih,edit_append,List.foldl_cons,List.foldl_nil]
    generalize edit c.buf rest = before
    obtain ⟨lines,buf⟩ := before
    simp only [pumpKey,edit,List.foldl_cons,List.foldl_nil,editKey]
    split
    · simp
    · split
      · simp
      · split <;> simp

theorem round_edit (buf : Bytes) (keys : List Key) :
    Console.round ⟨buf,[]⟩ keys = ((edit buf keys).1.getLast?.filter (· ≠ []),⟨(edit buf keys).2,[]⟩) := by
  rw [Console.round,pumpInput_edit]
  generalize edit buf keys = typed
  obtain ⟨lines,rest⟩ := typed
  cases last : lines.getLast? with
  | none => simp [List.getLast?_eq_none_iff.mp last]
  | some line =>
    have some_ : lines.isEmpty = false := by
      cases lines with
      | nil => cases last
      | cons => rfl
    by_cases empty : line = [] <;> simp [some_,empty,Option.filter]

-- Of the lines a round finds it handles the last, if it is not empty.
theorem last_spoken (lines : List Bytes) : (lines.getLast?.filter (· ≠ [])).toList.Sublist (spoken lines) ∧
    ((lines.getLast?.filter (· ≠ [])).toList = spoken lines ↔ ∀ line ∈ lines.dropLast, line = []) := by
  cases lines using List.reverseRecOn with
  | nil => simp [spoken]
  | append_singleton front line =>
    have last : ((front ++ [line]).getLast?.filter (· ≠ [])).toList = spoken [line] := by
      by_cases empty : line = [] <;> simp [spoken,empty,Option.filter]
    have split : spoken (front ++ [line]) = spoken front ++ spoken [line] := List.filter_append ..
    rw [last,split,List.dropLast_concat]
    refine ⟨List.sublist_append_right _ _,?_⟩
    rw [List.self_eq_append_left,spoken,List.filter_eq_nil_iff]
    simp

theorem parts_equal {α : Type} {one two some_ other : List α} (first : one.Sublist some_) (second : two.Sublist other) :
    one ++ two = some_ ++ other ↔ one = some_ ∧ two = other := by
  constructor
  · intro same
    have lengths := congrArg List.length same
    simp only [List.length_append] at lengths
    have short := first.length_le
    have shortToo := second.length_le
    exact ⟨first.eq_of_length (by omega),second.eq_of_length (by omega)⟩
  · rintro ⟨rfl,rfl⟩
    rfl

theorem rounds_edit (buf : Bytes) (rounds : List (List Key)) :
    (Console.rounds ⟨buf,[]⟩ rounds).2 = ⟨(edit buf rounds.flatten).2,[]⟩ ∧
    (Console.rounds ⟨buf,[]⟩ rounds).1.Sublist (spoken (edit buf rounds.flatten).1) ∧
    ((Console.rounds ⟨buf,[]⟩ rounds).1 = spoken (edit buf rounds.flatten).1 ↔ Unhurried buf rounds) := by
  induction rounds generalizing buf with
  | nil => simp [Console.rounds,edit,spoken,Unhurried]
  | cons keys rest ih =>
    obtain ⟨left,part,exact_⟩ := ih (edit buf keys).2
    obtain ⟨lastPart,lastExact⟩ := last_spoken (edit buf keys).1
    have split : spoken (edit buf (keys ++ rest.flatten)).1 =
      spoken (edit buf keys).1 ++ spoken (edit (edit buf keys).2 rest.flatten).1 := by
      rw [edit_append]
      exact List.filter_append ..
    simp only [Console.rounds,round_edit,List.flatten_cons,split]
    refine ⟨?_,lastPart.append part,?_⟩
    · rw [left,edit_append]
    · rw [parts_equal lastPart part,lastExact,exact_]
      rfl

def Printable (line : Bytes) : Prop := ∀ c ∈ line, 32 ≤ c.toNat ∧ c.toNat ≤ 126

theorem editKey_printable {ch : Key} (before : (∀ line ∈ lines, Printable line) ∧ Printable buf) :
    (∀ line ∈ (editKey (lines,buf) ch).1, Printable line) ∧ Printable (editKey (lines,buf) ch).2 := by
  obtain ⟨done,there⟩ := before
  simp only [editKey]
  split
  · refine ⟨fun line member => ?_,fun c none => absurd none List.not_mem_nil⟩
    rcases List.mem_append.mp member with old | new
    · exact done line old
    · rw [List.mem_singleton.mp new]
      exact there
  · split
    · exact ⟨done,fun c member => there c (List.dropLast_subset _ member)⟩
    · split
      · rename_i shown
        refine ⟨done,fun c member => ?_⟩
        rcases List.mem_append.mp member with old | new
        · exact there c old
        · have same : ch % 256 = ch := Nat.mod_eq_of_lt (Nat.lt_of_le_of_lt shown.2 (by decide))
          rw [List.mem_singleton.mp new,UInt8.toNat_ofNat',same]
          exact shown
      · exact ⟨done,there⟩

theorem edit_printable (keys : List Key) (here : Printable buf) :
    (∀ line ∈ (edit buf keys).1, Printable line) ∧ Printable (edit buf keys).2 := by
  induction keys using List.reverseRecOn with
  | nil => exact ⟨fun line none => absurd none List.not_mem_nil,here⟩
  | append_singleton rest ch ih =>
    have step := @editKey_printable _ _ ch ih
    rwa [edit,List.foldl_append,← edit,List.foldl_cons,List.foldl_nil]

end

-- However the keys come in, what is handled are lines as they were typed and in their order, and
-- none twice. All that are not empty are handled exactly if no round of the loop finds an Enter
-- behind one: then it keeps only the last. They are text for Protobuf.
theorem console_lines (rounds : List (List Key)) :
    (Console.rounds {} rounds).1.Sublist (spoken (edit [] rounds.flatten).1) ∧
    ((Console.rounds {} rounds).1 = spoken (edit [] rounds.flatten).1 ↔ Unhurried [] rounds) ∧
    (Console.rounds {} rounds).2 = ⟨(edit [] rounds.flatten).2,[]⟩ ∧
    ∀ line ∈ (Console.rounds {} rounds).1, isStructurallyValidUTF8 line = true := by
  obtain ⟨left,part,exact_⟩ := rounds_edit [] rounds
  refine ⟨part,exact_,left,fun line member => ?_⟩
  have typed := (List.mem_filter.mp (part.subset member)).1
  have shown := (edit_printable rounds.flatten fun c none => absurd none List.not_mem_nil).1 line typed
  have text := @valid_ascii [] line fun c there => Nat.lt_of_le_of_lt (shown c there).2 (by decide)
  rw [List.append_nil] at text
  rw [text]
  rfl

-- Two lines at once: the first is gone.
example : (Console.rounds {} [[104,105,13,104],[111,13]]).1 = [ascii "hi",ascii "ho"] ∧
    (Console.rounds {} [[104,105,13,104,111,13]]).1 = [ascii "ho"] := by decide

end IocpChatServer.DummyClient
