import Mathlib.Data.Set.Function
import Octopus.Library.Pointwise

/-!
# Key-value stores and the caches over them

Writes are collected in batches and reach the store in the order in which they were
collected.  A cache holds the most recently used entries.  A content-addressed store keeps
each value under its digest and loses nothing as long as digests do not collide.
-/

namespace Library

open List

structure Store {Key : Type} (Value : Key → Type) where
  lookup : (key : Key) → Option (Value key)

inductive Write {Key : Type} (Value : Key → Type) where
  | put (key : Key) (value : Value key)
  | delete (key : Key)

namespace Write

variable {Key : Type} {Value : Key → Type}

def key : Write Value → Key
  | put key _ => key
  | delete key => key

end Write

namespace Store

variable {Key : Type} [DecidableEq Key] {Value : Key → Type}

def empty : Store Value where
  lookup _ := none

def apply (store : Store Value) : Write Value → Store Value
  | .put key value => ⟨Function.update store.lookup key (some value)⟩
  | .delete key => ⟨Function.update store.lookup key none⟩

def commit (store : Store Value) (batch : List (Write Value)) : Store Value :=
  batch.foldl apply store

variable {store : Store Value} {key : Key} {value : Value key} {batch : List (Write Value)}

section

variable (store : Store Value)

@[simp]
theorem commit_nil : store.commit [] = store :=
  rfl

@[simp]
theorem commit_cons (write : Write Value) (batch : List (Write Value)) :
    store.commit (write :: batch) = (store.apply write).commit batch :=
  rfl

theorem commit_append (front back : List (Write Value)) :
    store.commit (front ++ back) = (store.commit front).commit back := by
  rw [commit, commit, commit, foldl_append]

end

theorem lookup_apply_of_ne (write : Write Value) (other : write.key ≠ key) :
    (store.apply write).lookup key = store.lookup key := by
  cases write with
  | put | delete => exact Function.update_of_ne (Ne.symm other) _ _

@[simp]
theorem lookup_put_self : (store.apply (.put key value)).lookup key = some value :=
  Function.update_self ..

theorem lookup_commit_of_untouched (untouched : ∀ write ∈ batch, write.key ≠ key) :
    (store.commit batch).lookup key = store.lookup key := by
  induction batch generalizing store with
  | nil => rfl
  | cons write _ tail =>
    rw [commit_cons, tail (fun later mem => untouched later (mem_cons_of_mem _ mem))]
    exact lookup_apply_of_ne write (untouched write mem_cons_self)

theorem lookup_commit_of_put_last (front back : List (Write Value))
    (last : ∀ write ∈ back, write.key ≠ key) :
    (store.commit (front ++ .put key value :: back)).lookup key = some value := by
  rw [commit, foldl_append, foldl_cons]
  exact (lookup_commit_of_untouched last).trans lookup_put_self

theorem lookup_of_lookup_commit_deletes {keys : List Key}
    (found : (store.commit (keys.map .delete)).lookup key = some value) :
    store.lookup key = some value := by
  induction keys generalizing store with
  | nil => exact found
  | cons deleted _ tail =>
    have kept := tail found
    by_cases same : deleted = key
    · subst same
      simp [apply] at kept
    · rwa [lookup_apply_of_ne (.delete deleted) same] at kept

end Store

structure RecentCache (Key Value : Type) where
  limit : Nat
  entries : List (Key × Value) := []

namespace RecentCache

variable {Key Value : Type} [DecidableEq Key] {cache : RecentCache Key Value} {fetch : Option Value}
  {value : Value}

def get (cache : RecentCache Key Value) (key : Key) : Option Value × RecentCache Key Value :=
  match cache.entries.lookup key with
  | none => (none, cache)
  | some value =>
    (some value,
      { cache with entries := (key, value) :: cache.entries.filter fun entry => entry.1 ≠ key })

def add (cache : RecentCache Key Value) (key : Key) (value : Value) : RecentCache Key Value :=
  { cache with
    entries := ((key, value) :: cache.entries.filter fun entry => entry.1 ≠ key).take cache.limit }

/-- Look an entry up in the cache, or else where the cache takes its entries
from, and keep what was found. -/
def getOrFetch (cache : RecentCache Key Value) (key : Key) (fetch : Option Value) :
    Option Value × RecentCache Key Value :=
  match cache.get key with
  | (some value, cache) => (some value, cache)
  | (none, cache) =>
    match fetch with
    | some value => (some value, cache.add key value)
    | none => (none, cache)

theorem getOrFetch_fst (cache : RecentCache Key Value) (key : Key) (fetch : Option Value) :
    (cache.getOrFetch key fetch).1 = (cache.entries.lookup key).or fetch := by
  rcases cached : cache.entries.lookup key with _ | value
  · rcases fetch with _ | value
    · simp [getOrFetch, get, cached]
    · simp [getOrFetch, get, cached]
  · simp [getOrFetch, get, cached]

theorem getOrFetch_of_cached {key : Key} (cached : cache.entries.lookup key = some value)
    (fetch : Option Value) : (cache.getOrFetch key fetch).1 = some value ∧
      (cache.getOrFetch key fetch).2.entries.lookup key = some value := by
  simp [getOrFetch, get, cached]

theorem lookup_of_getOrFetch {key : Key} (room : 0 < cache.limit)
    (found : (cache.getOrFetch key fetch).1 = some value) :
    (cache.getOrFetch key fetch).2.entries.lookup key = some value := by
  rcases cached : cache.entries.lookup key with _ | known
  · rcases fetch with _ | fetched
    · simp only [getOrFetch, get, cached, reduceCtorEq] at found
    · simp only [getOrFetch, get, cached, Option.some.injEq] at found
      subst found
      rcases Nat.exists_eq_succ_of_ne_zero (Nat.pos_iff_ne_zero.mp room) with ⟨_, limit⟩
      simp [getOrFetch, get, cached, add, limit]
  · rw [(getOrFetch_of_cached cached fetch).1] at found
    rw [(getOrFetch_of_cached cached fetch).2, found]

def Holds (cache : RecentCache Key Value) (relation : Key → Value → Prop) : Prop :=
  ∀ entry ∈ cache.entries, relation entry.1 entry.2

/-- What is looked up or fetched satisfies the relation of the entries, and so do the entries
afterwards. -/
theorem Holds.getOrFetch {relation : Key → Value → Prop} (holds : cache.Holds relation)
    {key : Key} (fetched : ∀ value, fetch = some value → relation key value) :
    (∀ value, (cache.getOrFetch key fetch).1 = some value → relation key value) ∧
      (cache.getOrFetch key fetch).2.Holds relation := by
  have kept : ∀ value, relation key value → ∀ entry ∈
      (key, value) :: cache.entries.filter (fun entry => entry.1 ≠ key),
        relation entry.1 entry.2 := by
    intro value related entry mem
    rcases mem_cons.mp mem with rfl | earlier
    · exact related
    · exact holds entry (mem_of_mem_filter earlier)
  rcases cached : cache.entries.lookup key with _ | known
  · rcases fetch with _ | value
    · simpa [RecentCache.getOrFetch, get, cached] using holds
    have related := fetched value rfl
    refine ⟨?_, ?_⟩
    · intro other found
      simp only [RecentCache.getOrFetch, get, cached, Option.some.injEq] at found
      exact found ▸ related
    · intro entry mem
      simp only [RecentCache.getOrFetch, get, cached] at mem
      exact kept value related entry (mem_of_mem_take mem)
  · have related : relation key known := by
      rcases lookup_eq_some_iff.mp cached with ⟨_, _, split, -⟩
      exact holds (key, known) (by simp [split])
    refine ⟨?_, ?_⟩
    · intro other found
      simp only [RecentCache.getOrFetch, get, cached, Option.some.injEq] at found
      exact found ▸ related
    · intro entry mem
      simp only [RecentCache.getOrFetch, get, cached] at mem
      exact kept known related entry mem

end RecentCache

structure Addressed {Key Value : Type} (digest : Value → Key) (values : Set Value)
    (store : Key → Option Value) : Prop where
  mem : ∀ key value, store key = some value → value ∈ values
  digest_eq : ∀ key value, store key = some value → digest value = key

def keepAll {Key Value : Type} [DecidableEq Key] (digest : Value → Key) (written : List Value)
    (store : Key → Option Value) : Key → Option Value :=
  written.foldl (fun store value => Function.update store (digest value) (some value)) store

namespace Addressed

variable {Key Value : Type} [DecidableEq Key] {digest : Value → Key} {values : Set Value}
  {store : Key → Option Value} {wrote : Value} (addressed : Addressed digest values store)
include addressed

theorem update (known : wrote ∈ values) :
    Addressed digest values (Function.update store (digest wrote) (some wrote)) := by
  refine ⟨?_, ?_⟩ <;> intro key value found <;>
    rcases update_eq_some found with ⟨rfl, rfl⟩ | ⟨-, found⟩
  · exact known
  · exact addressed.mem key value found
  · rfl
  · exact addressed.digest_eq key value found

theorem kept {wrote : List Value} (known : ∀ value ∈ wrote, value ∈ values) :
    Addressed digest values (keepAll digest wrote store) := by
  induction wrote generalizing store with
  | nil => exact addressed
  | cons first _ ih =>
    apply ih (addressed.update (known first mem_cons_self))
    exact fun value mem => known value (mem_cons_of_mem _ mem)

variable (unique : Set.InjOn digest values)
include unique

theorem lookup_update (known : wrote ∈ values) {key : Key} {value : Value}
    (found : store key = some value) :
    Function.update store (digest wrote) (some wrote) key = some value := by
  by_cases same : key = digest wrote
  · subst same
    have agree := unique (addressed.mem _ _ found) known (addressed.digest_eq _ _ found)
    rw [Function.update_self, agree]
  · rwa [Function.update_of_ne same]

theorem lookup_keepAll {wrote : List Value} (known : ∀ value ∈ wrote, value ∈ values) :
    (∀ key value, store key = some value → keepAll digest wrote store key = some value) ∧
      ∀ value ∈ wrote, keepAll digest wrote store (digest value) = some value := by
  induction wrote generalizing store with
  | nil => exact ⟨fun _ _ found => found, fun _ mem => absurd mem (by simp)⟩
  | cons first _ ih =>
    have head := known first mem_cons_self
    rcases ih (addressed.update head)
      (fun value mem => known value (mem_cons_of_mem _ mem)) with ⟨kept, stored⟩
    refine ⟨?_, ?_⟩
    · intro key value found
      exact kept key value (addressed.lookup_update unique head found)
    · intro value mem
      rcases mem_cons.mp mem with rfl | later
      · exact kept _ _ (Function.update_self ..)
      · exact stored value later

end Addressed

/-- What the later store holds in place of an entry of the earlier one, or
beyond it, is kept under its digest. -/
def Grown {Key Value : Type} (digest : Value → Key) (before after : Key → Option Value) : Prop :=
  ∀ key, after key = before key ∨ ∃ value, after key = some value ∧ digest value = key

def held {Key Value : Type} (before after : Key → Option Value) : Set Value :=
  { value | ∃ key, before key = some value ∨ after key = some value }

namespace Grown

variable {Key Value : Type} {digest : Value → Key} {old mid new : Key → Option Value}
  (store : Key → Option Value)

theorem refl : Grown digest store store :=
  fun _ => .inl rfl

theorem trans (first : Grown digest old mid) (second : Grown digest mid new) :
    Grown digest old new := by
  intro key
  rcases second key with same | stored
  · rw [same]
    exact first key
  · exact .inr stored

theorem update [DecidableEq Key] (value : Value) :
    Grown digest store (Function.update store (digest value) (some value)) := by
  intro key
  by_cases same : key = digest value
  · exact .inr ⟨value, by rw [same, Function.update_self], same.symm⟩
  · exact .inl (Function.update_of_ne same _ _)

variable (grown : Grown digest old new)
include grown

theorem digest_eq (addressed : ∀ key value, old key = some value → digest value = key) :
    ∀ key value, new key = some value → digest value = key := by
  intro key value found
  rcases grown key with same | ⟨_, there, addressedThere⟩
  · exact addressed key value (same ▸ found)
  · rw [there, Option.some.injEq] at found
    exact found ▸ addressedThere

theorem lookup (addressed : ∀ key value, old key = some value → digest value = key)
    (unique : Set.InjOn digest (held old new)) {key : Key} {value : Value}
    (found : old key = some value) : new key = some value := by
  rcases grown key with same | ⟨stored, there, addressedThere⟩
  · rw [same, found]
  have agree : stored = value := by
    apply unique
    · exact ⟨key, .inr there⟩
    · exact ⟨key, .inl found⟩
    · rw [addressedThere, addressed key value found]
  rw [there, agree]

end Grown

end Library
