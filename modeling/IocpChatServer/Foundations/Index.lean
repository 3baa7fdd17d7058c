import Mathlib.Algebra.Order.Ring.Nat
import Mathlib.Data.List.Nodup
import IocpChatServer.Foundations.Table

namespace IocpChatServer.Foundations.Index
open Std Table
variable {Name Object : Type _} [Ord Name] {names : TreeMap Name UInt64}
  {objects : TreeMap UInt64 Object} {nameOf : Object → Name} {idOf : Object → UInt64} {name : Name} {id : UInt64}
  {o : Object}

-- Objects found by a number and, through a second map, by a name: the two maps and the
-- objects say the same.
structure Paired (names : TreeMap Name UInt64) (objects : TreeMap UInt64 Object) (nameOf : Object → Name)
    (idOf : Object → UInt64) : Prop where
  keyed : ∀ (id : UInt64) (o : Object), objects[id]? = some o → idOf o = id ∧ names[nameOf o]? = some id
  named : ∀ name id, names[name]? = some id → ∃ o, objects[id]? = some o ∧ nameOf o = name
  size : names.size = objects.size

-- The numbers come from a counter that starts at 1; `accepted` are the objects that were ever
-- registered, in order.
structure Indexed (names : TreeMap Name UInt64) (objects : TreeMap UInt64 Object) (nameOf : Object → Name)
    (idOf : Object → UInt64) (counter : UInt64) (accepted : List Object) : Prop
    extends Paired names objects nameOf idOf where
  counter : counter = UInt64.ofNat (accepted.length + 1)
  issued : accepted.map idOf = (List.range accepted.length).map fun i => UInt64.ofNat (i + 1)
  known : ∀ (id : UInt64) (o : Object), objects[id]? = some o → o ∈ accepted

variable {counter : UInt64} {accepted : List Object}

theorem Paired.exact (paired : Paired names objects nameOf idOf) (name : Name) (id : UInt64) :
    names[name]? = some id ↔ ∃ o, objects[id]? = some o ∧ nameOf o = name ∧ idOf o = id := by
  constructor
  · intro known
    obtain ⟨o,found,same⟩ := paired.named name id known
    exact ⟨o,found,same,(paired.keyed id o found).1⟩
  · intro given
    obtain ⟨o,found,rfl,_⟩ := given
    exact (paired.keyed id o found).2

theorem Paired.congr {nameOf' : Object → Name} {idOf' : Object → UInt64} (paired : Paired names objects nameOf idOf)
    (same : ∀ (id : UInt64) (o : Object), objects[id]? = some o → nameOf' o = nameOf o ∧ idOf' o = idOf o) :
    Paired names objects nameOf' idOf' where
  keyed id o found := by
    rw [(same id o found).1,(same id o found).2]
    exact paired.keyed id o found
  named name id known := by
    obtain ⟨o,found,here⟩ := paired.named name id known
    exact ⟨o,found,(same id o found).1.trans here⟩
  size := paired.size

theorem numbers_nodup {n : Nat} (few : n < 2^64) : ((List.range n).map fun i => UInt64.ofNat (i + 1)).Nodup := by
  refine (List.nodup_range).map_on fun i inside j insideToo same => ?_
  have bound := List.mem_range.mp inside
  have boundToo := List.mem_range.mp insideToo
  have values := congrArg UInt64.toNat same
  rw [UInt64.toNat_ofNat',UInt64.toNat_ofNat'] at values
  omega

theorem Indexed.ids_nodup (indexed : Indexed names objects nameOf idOf counter accepted) (few : accepted.length < 2^64) :
    (accepted.map idOf).Nodup := by
  rw [indexed.issued]
  exact numbers_nodup few

theorem Indexed.congr {nameOf' : Object → Name} {idOf' : Object → UInt64}
    (indexed : Indexed names objects nameOf idOf counter accepted)
    (same : ∀ o ∈ accepted, nameOf' o = nameOf o ∧ idOf' o = idOf o) :
    Indexed names objects nameOf' idOf' counter accepted where
  toPaired := indexed.toPaired.congr fun id o found => same o (indexed.known id o found)
  counter := indexed.counter
  issued := by
    rw [← indexed.issued]
    exact List.map_congr_left fun o member => (same o member).2
  known := indexed.known

theorem Indexed.fresh (indexed : Indexed names objects nameOf idOf counter accepted) (few : accepted.length + 1 < 2^64) :
    counter ∉ objects := by
  intro listed
  obtain ⟨o,found⟩ := Option.isSome_iff_exists.mp (TreeMap.mem_iff_isSome_getElem?.mp listed)
  have given : counter ∈ accepted.map idOf :=
    List.mem_map.mpr ⟨o,indexed.known _ _ found,(indexed.keyed _ _ found).1⟩
  have distinct := @numbers_nodup (accepted.length + 1) few
  rw [List.range_succ,List.map_append,← indexed.issued,List.map_singleton,← indexed.counter] at distinct
  exact (List.nodup_append.mp distinct).2.2 counter given counter (by simp) rfl

theorem Indexed.same (indexed : Indexed names objects nameOf idOf counter accepted) (few : accepted.length < 2^64)
    (member : o ∈ accepted) {other : Object} (found : objects[idOf o]? = some other) : other = o :=
  List.inj_on_of_nodup_map (indexed.ids_nodup few) (indexed.known _ _ found) member (indexed.keyed _ _ found).1

variable [TransOrd Name]

theorem empty_paired : Paired {} {} nameOf idOf where
  keyed := by simp
  named := by simp
  size := rfl

theorem empty_indexed : Indexed {} {} nameOf idOf 1 [] where
  toPaired := empty_paired
  counter := rfl
  issued := rfl
  known := by simp

variable [LawfulEqOrd Name]

theorem Paired.insert (paired : Paired names objects nameOf idOf) (free : nameOf o ∉ names) (fresh : idOf o ∉ objects) :
    Paired (names.insert (nameOf o) (idOf o)) (objects.insert (idOf o) o) nameOf idOf where
  keyed id other found := by
    rcases insert_exact.mp found with ⟨here,rfl⟩ | ⟨_,found⟩
    · exact ⟨here,insert_exact.mpr (.inl ⟨rfl,here⟩)⟩
    · obtain ⟨keyed,known⟩ := paired.keyed id other found
      refine ⟨keyed,insert_exact.mpr (.inr ⟨fun same => free ?_,known⟩)⟩
      rw [same]
      exact TreeMap.mem_iff_isSome_getElem?.mpr (by simp [known])
  named name id known := by
    rcases insert_exact.mp known with ⟨here,rfl⟩ | ⟨_,known⟩
    · exact ⟨o,insert_exact.mpr (.inl ⟨rfl,rfl⟩),here⟩
    · obtain ⟨other,found,here⟩ := paired.named name id known
      refine ⟨other,insert_exact.mpr (.inr ⟨fun same => fresh ?_,found⟩),here⟩
      rw [same]
      exact TreeMap.mem_iff_isSome_getElem?.mpr (by simp [found])
  size := by simp [TreeMap.size_insert,free,fresh,paired.size]

theorem Paired.erase (paired : Paired names objects nameOf idOf) (found : objects[id]? = some o) :
    Paired (names.erase (nameOf o)) (objects.erase id) nameOf idOf where
  keyed key other known := by
    obtain ⟨apart,known⟩ := erase_exact.mp known
    obtain ⟨keyed,named⟩ := paired.keyed key other known
    refine ⟨keyed,erase_exact.mpr ⟨fun same => apart ?_,named⟩⟩
    rw [← same,(paired.keyed id o found).2] at named
    exact Option.some.inj named
  named name key known := by
    obtain ⟨apart,known⟩ := erase_exact.mp known
    obtain ⟨other,there,here⟩ := paired.named name key known
    refine ⟨other,erase_exact.mpr ⟨fun same => apart ?_,there⟩,here⟩
    rw [← same,found] at there
    rw [← here,Option.some.inj there]
  size := by
    have listed : id ∈ objects := TreeMap.mem_iff_isSome_getElem?.mpr (by simp [found])
    have named : nameOf o ∈ names := TreeMap.mem_iff_isSome_getElem?.mpr (by simp [(paired.keyed id o found).2])
    simp [TreeMap.size_erase,listed,named,paired.size]

theorem Indexed.add (indexed : Indexed names objects nameOf idOf counter accepted) (few : accepted.length + 1 < 2^64)
    (free : nameOf o ∉ names) (numbered : idOf o = counter) :
    Indexed (names.insert (nameOf o) counter) (objects.insert counter o) nameOf idOf (counter + 1) (accepted ++ [o]) where
  toPaired := by
    have fresh := indexed.fresh few
    rw [← numbered] at fresh ⊢
    exact indexed.toPaired.insert free fresh
  counter := by
    rw [indexed.counter,List.length_append,List.length_singleton,UInt64.ofNat_add (accepted.length + 1)]
    rfl
  issued := by
    rw [List.length_append,List.length_singleton,List.range_succ,List.map_append,List.map_append,indexed.issued,
      List.map_singleton,List.map_singleton,numbered,indexed.counter]
  known id other found := by
    rcases insert_exact.mp found with ⟨_,rfl⟩ | ⟨_,found⟩
    · simp
    · exact List.mem_append_left _ (indexed.known id other found)

theorem Indexed.remove (indexed : Indexed names objects nameOf idOf counter accepted) (few : accepted.length < 2^64)
    (member : o ∈ accepted) (listed : idOf o ∈ objects) :
    Indexed (names.erase (nameOf o)) (objects.erase (idOf o)) nameOf idOf counter accepted where
  toPaired := by
    obtain ⟨other,found⟩ := Option.isSome_iff_exists.mp (TreeMap.mem_iff_isSome_getElem?.mp listed)
    rw [indexed.same few member found] at found
    exact indexed.toPaired.erase found
  counter := indexed.counter
  issued := indexed.issued
  known id other found := indexed.known id other (erase_exact.mp found).2

end IocpChatServer.Foundations.Index
