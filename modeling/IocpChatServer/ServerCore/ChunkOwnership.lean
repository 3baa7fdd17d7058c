import IocpChatServer.ServerCore.SendBufferManager

namespace IocpChatServer.ServerCore.SendBufferManager
open Foundations Counted

def Position.temporary : Position → Option Nat
  | .assign _ _ chunk | .release chunk _ | .push chunk _ => some chunk
  | .outside | .pop _ _ | .reset _ _ | .check _ | .openChunk _ => none

def Position.carries : Position → Prop
  | .assign _ _ _ | .push _ _ => True
  | .outside | .pop _ _ | .reset _ _ | .check _ | .openChunk _ | .release _ _ => False

@[simp] theorem After.position_temporary (after : After) : after.position.temporary = none := by cases after <;> rfl

namespace Manager
variable {Thread : Type _} (s : Manager Thread)

def Holds : Holder Thread → Nat → Prop
  | .pool,chunk => chunk ∈ s.pool
  | .current t,chunk => s.current t = some chunk
  | .temporary t,chunk => (s.position t).temporary = some chunk
  | .buffer number,chunk => s.Live number ∧ (s.buffer number).owner = chunk

-- Where a chunk is at home: in the pool, with a thread, or between the two. A chunk whose
-- thread has taken another one is at home nowhere until its last SendBuffer is gone.
def Settled : Holder Thread → Prop
  | .pool | .current _ => True
  | .temporary t => (s.position t).carries
  | .buffer _ => False

def Home (holder : Holder Thread) (chunk : Nat) : Prop := s.Holds holder chunk ∧ s.Settled holder

structure Owned : Prop where
  exact_ : Exact s.holders s.Holds
  made : ∀ holder chunk, s.Holds holder chunk → chunk < s.made
  nodup : s.pool.Nodup
  sole : ∀ one two chunk, s.Home one chunk → s.Home two chunk → one = two
  alone : ∀ home chunk number, s.Home home chunk → s.Live number → (s.buffer number).owner = chunk → ∃ t, home = .current t

variable {s} {next : Manager Thread}

theorem Owned.stays (owned : s.Owned) (exact_ : Exact next.holders next.Holds)
    (made : ∀ holder chunk, next.Holds holder chunk → chunk < next.made) (nodup : next.pool.Nodup)
    (homes : ∀ holder chunk, next.Home holder chunk → s.Home holder chunk)
    (rows : ∀ number, next.Live number → s.Live number ∧ (next.buffer number).owner = (s.buffer number).owner) : next.Owned where
  exact_ := exact_
  made := made
  nodup := nodup
  sole one two chunk home homeToo := owned.sole one two chunk (homes _ _ home) (homes _ _ homeToo)
  alone home chunk number there live owner := by
    obtain ⟨was,same⟩ := rows number live
    exact owned.alone home chunk number (homes _ _ there) was (same ▸ owner)

-- A chunk with a new home has none besides, and a home that is no thread's own chunk is for
-- chunks without SendBuffers.
theorem Owned.settles (owned : s.Owned) (exact_ : Exact next.holders next.Holds)
    (made : ∀ holder chunk, next.Holds holder chunk → chunk < next.made) (nodup : next.pool.Nodup) (new : Holder Thread) (chunk : Nat)
    (homes : ∀ holder held, next.Home holder held → s.Home holder held ∧ held ≠ chunk ∨ holder = new ∧ held = chunk)
    (rows : ∀ number, next.Live number → s.Live number ∧ (next.buffer number).owner = (s.buffer number).owner)
    (bare : (∃ t, new = .current t) ∨ ∀ number, s.Live number → (s.buffer number).owner ≠ chunk) : next.Owned where
  exact_ := exact_
  made := made
  nodup := nodup
  sole one two held there thereToo := by
    rcases homes one held there with ⟨home,other⟩ | ⟨rfl,same⟩ <;> rcases homes two held thereToo with ⟨homeToo,otherToo⟩ | ⟨rfl,sameToo⟩
    · exact owned.sole one two held home homeToo
    · exact absurd sameToo other
    · exact absurd same otherToo
    · rfl
  alone home held number there live owner := by
    obtain ⟨was,same⟩ := rows number live
    rcases homes home held there with ⟨old,_⟩ | ⟨rfl,here⟩
    · exact owned.alone home held number old was (same ▸ owner)
    · rcases bare with current | bare
      · exact current
      · exact absurd (same.symm.trans (owner.trans here)) (bare number was)

theorem Owned.passes (owned : s.Owned) (exact_ : Exact next.holders next.Holds)
    (made : ∀ holder chunk, next.Holds holder chunk → chunk < next.made) (nodup : next.pool.Nodup)
    (old new : Holder Thread) (chunk : Nat) (home : s.Home old chunk)
    (homes : ∀ holder held, next.Home holder held → s.Home holder held ∧ ¬ (holder = old ∧ held = chunk) ∨ holder = new ∧ held = chunk)
    (rows : ∀ number, next.Live number → s.Live number ∧ (next.buffer number).owner = (s.buffer number).owner)
    (bare : (∃ t, new = .current t) ∨ ∀ t, old ≠ .current t) : next.Owned := by
  refine owned.settles exact_ made nodup new chunk (fun holder held there => ?_) rows (bare.imp_right fun away number live owner => ?_)
  · refine (homes holder held there).imp_left fun ⟨there,apart⟩ => ⟨there,?_⟩
    intro same
    subst same
    exact apart ⟨owned.sole _ _ _ there home,rfl⟩
  · obtain ⟨t,same⟩ := owned.alone old chunk number home live owner
    exact away t same

theorem Owned.same (owned : s.Owned) (holds : ∀ holder held, next.Holds holder held ↔ s.Holds holder held)
    (settled : ∀ holder, next.Settled holder → s.Settled holder) (holders : next.holders = s.holders) (made : next.made = s.made)
    (pool : next.pool = s.pool)
    (rows : ∀ number, next.Live number → s.Live number ∧ (next.buffer number).owner = (s.buffer number).owner) : next.Owned :=
  owned.stays (holders ▸ owned.exact_.congr holds) (fun holder held there => made ▸ owned.made holder held ((holds holder held).mp there))
    (pool ▸ owned.nodup) (fun holder held there => ⟨(holds holder held).mp there.1,settled holder there.2⟩) rows

variable [DecidableEq Thread] {t : Thread} {position : Position} {after : After} {first : Bool} {size chunk number : Nat}

theorem goto_holds (position : Position) (holder : Holder Thread) (chunk : Nat) :
    (s.goto t position).Holds holder chunk ↔
      s.Holds holder chunk ∧ holder ≠ .temporary t ∨ holder = .temporary t ∧ position.temporary = some chunk := by
  cases holder with
  | temporary u =>
    by_cases same : u = t
    · subst same
      simp [Holds,goto]
    · simp [Holds,goto,same]
  | pool | current _ | buffer _ => simp [Holds,goto,Live]

theorem goto_settled {holder : Holder Thread} (other : holder ≠ .temporary t) : (s.goto t position).Settled holder ↔ s.Settled holder := by
  cases holder with
  | temporary u =>
    have apart : u ≠ t := fun same => other (same ▸ rfl)
    simp [Settled,goto,apart]
  | pool | current _ | buffer _ => simp [Settled]

theorem mem_dropLast {pool : List Nat} {chunk held : Nat} (last : pool.getLast? = some chunk) (nodup : pool.Nodup) :
    held ∈ pool.dropLast ↔ held ∈ pool ∧ held ≠ chunk := by
  have whole : pool.dropLast ++ [chunk] = pool := List.dropLast_append_getLast? chunk last
  rw [← whole] at nodup
  have absent : chunk ∉ pool.dropLast := fun member => (List.nodup_append.mp nodup).2.2 chunk member chunk (by simp) rfl
  constructor
  · exact fun member => ⟨List.dropLast_subset _ member,fun same => absent (same ▸ member)⟩
  · intro given
    obtain ⟨member,other⟩ := given
    rw [← whole] at member
    simpa [other] using member

theorem pop_owned (owned : s.Owned) (at_ : s.position t = .pop first size) : (s.pop t first size).Owned := by
  have empty : (s.position t).temporary = none := by rw [at_,Position.temporary]
  have free (held : Nat) : ¬ s.Holds (.temporary t) held := by simp [Holds,empty]
  unfold pop
  split
  · rename_i chunk last
    have pooled : s.Holds .pool chunk := List.mem_of_getLast? last
    have moved (holder : Holder Thread) (held : Nat) :
        (({s with
          pool := s.pool.dropLast
          holders := hold (release s.holders chunk .pool) chunk (.temporary t)} : Manager Thread).goto t (.assign first size chunk)).Holds
          holder held ↔ s.Holds holder held ∧ ¬ (holder = .pool ∧ held = chunk) ∨ holder = .temporary t ∧ held = chunk := by
      rw [goto_holds]
      cases holder with
      | pool => simpa [Holds] using mem_dropLast last owned.nodup
      | current _ | buffer _ => simp [Holds,Live]
      | temporary u =>
        by_cases same : u = t
        · subst same
          simp [free,Position.temporary,eq_comm]
        · simp [Holds,same]
    refine owned.passes (owned.exact_.transfer (fun holds => absurd holds (free chunk)) moved) (fun holder held holds => ?_)
      (owned.nodup.sublist (List.dropLast_sublist _)) .pool (.temporary t) chunk ⟨pooled,trivial⟩ (fun holder held there => ?_)
      (fun number live => ⟨live,rfl⟩) (.inr (by simp))
    · rcases (moved holder held).mp holds with ⟨was,_⟩ | ⟨_,rfl⟩
      · exact owned.made holder held was
      · exact owned.made .pool _ pooled
    · obtain ⟨holds,settled⟩ := there
      refine ((moved holder held).mp holds).imp_left fun ⟨was,apart⟩ => ⟨⟨was,?_⟩,apart⟩
      exact (goto_settled fun same => free held (same ▸ was)).mp settled
  · have moved (holder : Holder Thread) (held : Nat) :
        (({s with
          made := s.made + 1
          chunk := Function.update s.chunk s.made .fresh
          holders := hold s.holders s.made (.temporary t)} : Manager Thread).goto t (.assign first size s.made)).Holds
          holder held ↔ s.Holds holder held ∨ holder = .temporary t ∧ held = s.made := by
      rw [goto_holds]
      cases holder with
      | pool | current _ | buffer _ => simp [Holds,Live]
      | temporary u =>
        by_cases same : u = t
        · subst same
          simp [free,Position.temporary,eq_comm]
        · simp [Holds,same]
    have unmade (holder : Holder Thread) {held : Nat} (holds : s.Holds holder held) : held ≠ s.made := Nat.ne_of_lt (owned.made holder held holds)
    refine owned.settles (owned.exact_.hold (free _) moved) (fun holder held holds => ?_) owned.nodup (.temporary t) s.made
      (fun holder held there => ?_) (fun number live => ⟨live,rfl⟩) (.inr fun number live owner => unmade (.buffer number) ⟨live,rfl⟩ owner)
    · rcases (moved holder held).mp holds with was | ⟨_,rfl⟩
      · exact Nat.lt_succ_of_lt (owned.made holder held was)
      · exact Nat.lt_succ_self _
    · obtain ⟨holds,settled⟩ := there
      refine ((moved holder held).mp holds).imp_left fun was => ⟨⟨was,?_⟩,unmade holder was⟩
      exact (goto_settled fun same => free held (same ▸ was)).mp settled

theorem assign_owned (owned : s.Owned) (at_ : s.position t = .assign first size chunk) : (s.assign t first size chunk).Owned := by
  have carried : s.Home (.temporary t) chunk := by simp [Home,Holds,Settled,at_,Position.temporary,Position.carries]
  have only {held : Nat} (holds : s.Holds (.temporary t) held) : held = chunk := by
    simpa [Holds,at_,Position.temporary,eq_comm] using holds
  have away (held : Nat) (current : s.Holds (.current t) held) : held ≠ chunk := by
    intro same
    subst same
    cases owned.sole _ _ _ ⟨current,trivial⟩ carried
  have made (holder : Holder Thread) (held : Nat) (holds : s.Holds holder held) := owned.made holder held holds
  unfold assign
  split
  · rename_i none
    have moved (holder : Holder Thread) (held : Nat) :
        (({s with
          holders := hold (release s.holders chunk (.temporary t)) chunk (.current t)
          current := Function.update s.current t (some chunk)} : Manager Thread).goto t (.reset first size)).Holds
          holder held ↔ s.Holds holder held ∧ ¬ (holder = .temporary t ∧ held = chunk) ∨ holder = .current t ∧ held = chunk := by
      rw [goto_holds]
      cases holder with
      | pool | buffer _ => simp [Holds,Live]
      | current u =>
        by_cases same : u = t
        · subst same
          simp [Holds,none,eq_comm]
        · simp [Holds,same]
      | temporary u =>
        by_cases same : u = t
        · subst same
          simpa [Position.temporary] using only
        · simp [Holds,same]
    refine owned.passes (owned.exact_.transfer (fun holds => absurd rfl (away chunk holds)) moved) (fun holder held holds => ?_) owned.nodup
      (.temporary t) (.current t) chunk carried (fun holder held there => ?_) (fun number live => ⟨live,rfl⟩) (.inl ⟨t,rfl⟩)
    · rcases (moved holder held).mp holds with ⟨was,_⟩ | ⟨_,rfl⟩
      · exact made holder held was
      · exact made _ _ carried.1
    · obtain ⟨holds,settled⟩ := there
      refine ((moved holder held).mp holds).imp_left fun ⟨was,apart⟩ => ⟨⟨was,?_⟩,apart⟩
      refine (goto_settled fun same => ?_).mp settled
      subst same
      exact apart ⟨rfl,only was⟩
  · rename_i old some_
    have current : s.Holds (.current t) old := some_
    have other : old ≠ chunk := away old current
    have moved (holder : Holder Thread) (held : Nat) :
        (({s with
          holders := hold (release (hold (release s.holders chunk (.temporary t)) chunk (.current t)) old (.current t)) old (.temporary t)
          current := Function.update s.current t (some chunk)} : Manager Thread).goto t (.release old (.reset first size))).Holds
          holder held ↔ (s.Holds holder held ∧ ¬ (holder = .temporary t ∧ held = chunk) ∨ holder = .current t ∧ held = chunk) ∧
            ¬ (holder = .current t ∧ held = old) ∨ holder = .temporary t ∧ held = old := by
      rw [goto_holds]
      cases holder with
      | pool | buffer _ => simp [Holds,Live]
      | current u =>
        by_cases same : u = t
        · subst same
          simp only [Holds,some_]
          grind
        · simp [Holds,same]
      | temporary u =>
        by_cases same : u = t
        · subst same
          simp only [Position.temporary]
          grind
        · simp [Holds,same]
    have taken : Exact (hold (release s.holders chunk (.temporary t)) chunk (.current t)) _ :=
      owned.exact_.transfer (fun holds => absurd rfl (away chunk holds)) fun _ _ => Iff.rfl
    refine owned.passes (taken.transfer (fun holds => ?_) moved) (fun holder held holds => ?_) owned.nodup (.temporary t) (.current t) chunk
      carried (fun holder held there => ?_) (fun number live => ⟨live,rfl⟩) (.inl ⟨t,rfl⟩)
    · rcases holds with ⟨was,_⟩ | ⟨same,_⟩
      · exact absurd (only was) other
      · cases same
    · rcases (moved holder held).mp holds with ⟨⟨was,_⟩ | ⟨_,rfl⟩,_⟩ | ⟨_,rfl⟩
      · exact made holder held was
      · exact made _ _ carried.1
      · exact made _ _ current
    · obtain ⟨holds,settled⟩ := there
      rcases (moved holder held).mp holds with ⟨⟨was,apart⟩ | new,_⟩ | ⟨rfl,rfl⟩
      · refine .inl ⟨⟨was,(goto_settled fun same => ?_).mp settled⟩,apart⟩
        subst same
        exact apart ⟨rfl,only was⟩
      · exact .inr new
      · simp [Settled,goto,Position.carries] at settled

theorem endTemporary_owned (owned : s.Owned) (at_ : s.position t = .release chunk after) : (s.endTemporary t chunk after).Owned := by
  have given : s.Holds (.temporary t) chunk := by simp [Holds,at_,Position.temporary]
  have only {held : Nat} (holds : s.Holds (.temporary t) held) : held = chunk := by
    simpa [Holds,at_,Position.temporary,eq_comm] using holds
  have made (holder : Holder Thread) (held : Nat) (holds : s.Holds holder held) := owned.made holder held holds
  have ended : Exact (release s.holders chunk (.temporary t)) _ := owned.exact_.release fun _ _ => Iff.rfl
  simp only [endTemporary]
  split
  · rename_i last
    -- Nobody else has the chunk, so the pool is the only home it can get.
    have moved (holder : Holder Thread) (held : Nat) :
        (({s with holders := hold (release s.holders chunk (.temporary t)) chunk (.temporary t)} : Manager Thread).goto t
          (.push chunk after)).Holds holder held ↔ s.Holds holder held := by
      rw [goto_holds]
      cases holder with
      | pool | current _ | buffer _ => simp [Holds,Live]
      | temporary u =>
        by_cases same : u = t
        · subst same
          simp [Holds,at_,Position.temporary]
        · simp [Holds,same]
    have sole (holder : Holder Thread) (holds : s.Holds holder chunk) : holder = .temporary t := by
      by_contra other
      exact ended.unheld last holder ⟨holds,fun same => other same.1⟩
    refine owned.settles (owned.exact_.transfer (fun _ => rfl) fun holder held => ?_) (fun holder held holds => made holder held ((moved holder held).mp holds))
      owned.nodup (.temporary t) chunk (fun holder held there => ?_) (fun number live => ⟨live,rfl⟩) (.inr fun number live owner => ?_)
    · rw [moved]
      grind
    · obtain ⟨holds,settled⟩ := there
      have was := (moved holder held).mp holds
      by_cases same : holder = .temporary t
      · subst same
        exact .inr ⟨rfl,only was⟩
      · refine .inl ⟨⟨was,(goto_settled same).mp settled⟩,?_⟩
        intro same
        subst same
        exact same (sole holder was)
    · cases sole (.buffer number) ⟨live,owner⟩
  · have moved (holder : Holder Thread) (held : Nat) :
        (({s with holders := release s.holders chunk (.temporary t)} : Manager Thread).goto t after.position).Holds holder held ↔
          s.Holds holder held ∧ ¬ (holder = .temporary t ∧ held = chunk) := by
      rw [goto_holds]
      cases holder with
      | pool | current _ | buffer _ => simp [Holds,Live]
      | temporary u =>
        by_cases same : u = t
        · subst same
          simpa using only
        · simp [Holds,same]
    refine owned.stays (owned.exact_.release moved) (fun holder held holds => made holder held ((moved holder held).mp holds).1) owned.nodup
      (fun holder held there => ?_) (fun number live => ⟨live,rfl⟩)
    obtain ⟨holds,settled⟩ := there
    obtain ⟨was,apart⟩ := (moved holder held).mp holds
    refine ⟨was,(goto_settled fun same => ?_).mp settled⟩
    subst same
    exact apart ⟨rfl,only was⟩

theorem push_owned (owned : s.Owned) (at_ : s.position t = .push chunk after) :
    (({s with
      pool := s.pool ++ [chunk]
      holders := hold s.holders chunk .pool} : Manager Thread).goto t (.release chunk after)).Owned := by
  have carried : s.Home (.temporary t) chunk := by simp [Home,Holds,Settled,at_,Position.temporary,Position.carries]
  have absent : ¬ s.Holds .pool chunk := by
    intro pooled
    cases owned.sole _ _ _ ⟨pooled,trivial⟩ carried
  have moved (holder : Holder Thread) (held : Nat) :
      (({s with
        pool := s.pool ++ [chunk]
        holders := hold s.holders chunk .pool} : Manager Thread).goto t (.release chunk after)).Holds holder held ↔
        s.Holds holder held ∨ holder = .pool ∧ held = chunk := by
    rw [goto_holds]
    cases holder with
    | pool | current _ | buffer _ => simp [Holds,Live]
    | temporary u =>
      by_cases same : u = t
      · subst same
        simp [Holds,at_,Position.temporary]
      · simp [Holds,same]
  refine owned.passes (owned.exact_.hold absent moved) (fun holder held holds => ?_) ?_ (.temporary t) .pool chunk carried
    (fun holder held there => ?_) (fun number live => ⟨live,rfl⟩) (.inr (by simp))
  · rcases (moved holder held).mp holds with was | ⟨_,rfl⟩
    · exact owned.made holder held was
    · exact owned.made _ _ carried.1
  · exact List.nodup_append.mpr ⟨owned.nodup,List.nodup_singleton chunk,fun held member other single same =>
      absent (List.mem_singleton.mp single ▸ same ▸ member)⟩
  · obtain ⟨holds,settled⟩ := there
    refine ((moved holder held).mp holds).imp_left fun was => ?_
    have other : holder ≠ .temporary t := by
      intro same
      subst same
      simp [Settled,goto,Position.carries] at settled
    exact ⟨⟨was,(goto_settled other).mp settled⟩,fun same => other same.1⟩

theorem opened_owned (owned : s.Owned) (current : s.current t = some chunk) (outside : next.position t = .outside)
    (moved : ∀ holder held, next.Holds holder held ↔ s.Holds holder held ∨ holder = .buffer s.bufferCount ∧ held = chunk)
    (holders : next.holders = hold s.holders chunk (.buffer s.bufferCount)) (made : next.made = s.made) (pool : next.pool = s.pool)
    (positions : ∀ u, u ≠ t → next.position u = s.position u) : next.Owned := by
  have home : s.Home (.current t) chunk := ⟨current,trivial⟩
  have homes (holder : Holder Thread) (held : Nat) (there : next.Home holder held) : s.Home holder held := by
    obtain ⟨holds,settled⟩ := there
    rcases (moved holder held).mp holds with was | ⟨rfl,_⟩
    · refine ⟨was,?_⟩
      cases holder with
      | temporary u =>
        by_cases same : u = t
        · subst same
          simp [Settled,outside,Position.carries] at settled
        · simpa [Settled,positions u same] using settled
      | pool | current _ | buffer _ => exact settled
    · exact settled.elim
  refine ⟨holders ▸ owned.exact_.hold (fun ⟨live,_⟩ => absurd live.1 (Nat.lt_irrefl _)) moved,fun holder held holds => ?_,pool ▸ owned.nodup,
    fun one two held home homeToo => owned.sole one two held (homes _ _ home) (homes _ _ homeToo),fun holder held number there live owner => ?_⟩
  · rw [made]
    rcases (moved holder held).mp holds with was | ⟨_,rfl⟩
    · exact owned.made holder held was
    · exact owned.made _ _ home.1
  · rcases (moved (.buffer number) held).mp ⟨live,owner⟩ with ⟨was,same⟩ | ⟨_,rfl⟩
    · exact owned.alone holder held number (homes _ _ there) was same
    · exact ⟨t,owned.sole _ _ _ (homes _ _ there) home⟩

theorem goto_owned (owned : s.Owned) (free : (s.position t).temporary = none) (freeToo : position.temporary = none) :
    (s.goto t position).Owned := by
  refine owned.same (fun holder held => ?_) (fun holder settled => ?_) rfl rfl rfl fun number live => ⟨live,rfl⟩
  · rw [goto_holds]
    by_cases same : holder = .temporary t
    · subst same
      simp [Holds,free,freeToo]
    · simp [same]
  · by_cases same : holder = .temporary t
    · subst same
      simp only [Settled,goto,Function.update_self] at settled
      cases position <;> simp_all [Position.carries,Position.temporary]
    · exact (goto_settled same).mp settled

theorem dropped_owned (owned : s.Owned) (outside : s.position t = .outside) (live : s.Live number)
    (last : (s.buffer number).references = 1) : (s.drop t number).Owned := by
  have free (held : Nat) : ¬ s.Holds (.temporary t) held := by simp [Holds,outside,Position.temporary]
  have kept : s.Holds (.buffer number) (s.buffer number).owner := ⟨live,rfl⟩
  simp only [drop,last,if_true]
  have moved (holder : Holder Thread) (held : Nat) :
      (({s with
        buffer := Function.update s.buffer number {s.buffer number with references := 1 - 1}
        holders := hold (release s.holders (s.buffer number).owner (.buffer number)) (s.buffer number).owner (.temporary t)} : Manager Thread).goto t
          (.release (s.buffer number).owner .outside)).Holds holder held ↔
        s.Holds holder held ∧ ¬ (holder = .buffer number ∧ held = (s.buffer number).owner) ∨
          holder = .temporary t ∧ held = (s.buffer number).owner := by
    rw [goto_holds]
    cases holder with
    | pool | current _ => simp [Holds]
    | temporary u =>
      by_cases same : u = t
      · subst same
        simp [free,Position.temporary,eq_comm]
      · simp [Holds,same]
    | buffer other =>
      by_cases same : other = number
      · subst same
        have gone : (s.buffer other).owner = held → held = (s.buffer other).owner := Eq.symm
        simpa [Holds,Live] using fun _ _ => gone
      · simp [Holds,Live,same]
  refine owned.stays (owned.exact_.transfer (fun holds => absurd holds (free _)) moved) (fun holder held holds => ?_) owned.nodup
    (fun holder held there => ?_) fun other live => ?_
  · rcases (moved holder held).mp holds with ⟨was,_⟩ | ⟨_,rfl⟩
    · exact owned.made holder held was
    · exact owned.made _ _ kept
  · obtain ⟨holds,settled⟩ := there
    rcases (moved holder held).mp holds with ⟨was,_⟩ | ⟨rfl,_⟩
    · exact ⟨was,(goto_settled fun same => free held (same ▸ was)).mp settled⟩
    · simp [Settled,goto,Position.carries] at settled
  · by_cases same : other = number
    · subst same
      simp [Live,goto] at live
    · simpa [Live,goto,same] using live

end Manager
end IocpChatServer.ServerCore.SendBufferManager
