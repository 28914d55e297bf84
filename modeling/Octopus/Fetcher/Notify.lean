import Mathlib.Data.List.AList
import Octopus.Entity.Basic

/-!
# Announcements to the transaction fetcher

Every hash that `notify` handles is counted for its origin in one of two maps, and which
one depends only on whether the hash was queued before.  An announcement over the limit is
cut to the excess instead of to the room left.
-/

namespace Octopus

def maxTxAnnounces : Nat := 4096

structure TxAnnounce where
  origin : String
  hashes : List Hash

/-- The three stages; `none` is a map entry that is missing or nil. -/
structure TxFetcher where
  waitlist : Hash → Option (Finset String) := fun _ => none
  waittime : AList (fun _ : Hash => Nat) := ∅
  waitslots : String → Option (Finset Hash) := fun _ => none
  announces : String → Option (Finset Hash) := fun _ => none
  announced : Hash → Option (Finset String) := fun _ => none
  alternates : Hash → Option (Finset String) := fun _ => none

/-- The two calls at the end of the arm.  Neither writes `waitslots` or `announces`: one sets a
timer, the other moves origins from `announced` to `alternates`. -/
inductive FetcherCall where
  | rescheduleWait
  | scheduleFetches (peer : String)

/-- `slots[peer][hash] = struct{}{}`, in a new map where there is none. -/
def addSlot (slots : String → Option (Finset Hash)) (peer : String) (hash : Hash) :
    String → Option (Finset Hash) :=
  Function.update slots peer (some (insert hash ((slots peer).getD ∅)))

namespace TxFetcher

def used (fetcher : TxFetcher) (peer : String) : Nat :=
  ((fetcher.waitslots peer).getD ∅).card + ((fetcher.announces peer).getD ∅).card

def kept (fetcher : TxFetcher) (ann : TxAnnounce) : List Hash :=
  let want := fetcher.used ann.origin + ann.hashes.length
  if maxTxAnnounces ≤ fetcher.used ann.origin then []
  else if maxTxAnnounces < want then ann.hashes.take (want - maxTxAnnounces)
  else ann.hashes

/-- One round of the loop over the hashes, at the time the clock shows then. -/
def handle (clock : Hash → Nat) (origin : String) (fetcher : TxFetcher) (hash : Hash) :
    TxFetcher :=
  match fetcher.alternates hash with
  | some origins => { fetcher with
      alternates := Function.update fetcher.alternates hash (some (insert origin origins))
      announces := addSlot fetcher.announces origin hash }
  | none =>
    match fetcher.announced hash with
    | some origins => { fetcher with
        announced := Function.update fetcher.announced hash (some (insert origin origins))
        announces := addSlot fetcher.announces origin hash }
    | none =>
      match fetcher.waitlist hash with
      | some origins => { fetcher with
          waitlist := Function.update fetcher.waitlist hash (some (insert origin origins))
          waitslots := addSlot fetcher.waitslots origin hash }
      | none => { fetcher with
          waitlist := Function.update fetcher.waitlist hash (some {origin})
          waittime := fetcher.waittime.insert hash (clock hash)
          waitslots := addSlot fetcher.waitslots origin hash }

def notify (clock : Hash → Nat) (fetcher : TxFetcher) (ann : TxAnnounce) :
    TxFetcher × List FetcherCall :=
  if maxTxAnnounces ≤ fetcher.used ann.origin then (fetcher, [])
  else
    let after := (fetcher.kept ann).foldl (handle clock ann.origin) fetcher
    (after,
      (if fetcher.waittime.keys = [] ∧ after.waittime.keys ≠ [] then [.rescheduleWait] else []) ++
      (if fetcher.announces ann.origin = none ∧ 0 < ((after.announces ann.origin).getD ∅).card then
        [.scheduleFetches ann.origin] else []))

def queued (fetcher : TxFetcher) (hash : Hash) : Bool :=
  (fetcher.alternates hash).isSome || (fetcher.announced hash).isSome

def fresh (fetcher : TxFetcher) (peer : String) (hashes : List Hash) : Nat :=
  ((hashes.filter fun hash => !fetcher.queued hash).toFinset \
    (fetcher.waitslots peer).getD ∅).card +
  ((hashes.filter fetcher.queued).toFinset \ (fetcher.announces peer).getD ∅).card

variable {fetcher : TxFetcher} (clock : Hash → Nat) (origin : String) (hashes : List Hash)

theorem handle_spec (hash : Hash) : (handle clock origin fetcher hash).queued = fetcher.queued ∧
    ((handle clock origin fetcher hash).waitslots, (handle clock origin fetcher hash).announces) =
      if fetcher.queued hash then (fetcher.waitslots, addSlot fetcher.announces origin hash)
      else (addSlot fetcher.waitslots origin hash, fetcher.announces) := by
  rcases fetching : fetcher.alternates hash with _ | _ <;>
    rcases waiting : fetcher.announced hash with _ | _ <;>
    rcases known : fetcher.waitlist hash with _ | _ <;>
    simp only [handle, known] <;>
    refine ⟨funext fun other => ?_, by simp [queued, fetching, waiting]⟩ <;>
    rcases eq_or_ne other hash with rfl | different <;> simp [queued, *]

theorem foldl_handle (peer : String) :
    (((hashes.foldl (handle clock peer) fetcher).waitslots peer).getD ∅ =
      (hashes.filter fun hash => !fetcher.queued hash).toFinset ∪
        (fetcher.waitslots peer).getD ∅) ∧
    ((hashes.foldl (handle clock peer) fetcher).announces peer).getD ∅ =
      (hashes.filter fetcher.queued).toFinset ∪ (fetcher.announces peer).getD ∅ := by
  induction hashes generalizing fetcher with
  | nil => simp
  | cons hash _ ih =>
    rcases handle_spec clock peer hash with ⟨stages, slots⟩
    rw [List.foldl_cons, ih.1, ih.2, stages]
    cases past : fetcher.queued hash <;> simp_all [addSlot]

theorem used_foldl_handle : (hashes.foldl (handle clock origin) fetcher).used origin =
    fetcher.used origin + fetcher.fresh origin hashes := by
  rw [used, (foldl_handle clock hashes origin).1, (foldl_handle clock hashes origin).2,
    ← Finset.card_sdiff_add_card, ← Finset.card_sdiff_add_card, used, fresh]
  omega

theorem fresh_le_length : fetcher.fresh origin hashes ≤ hashes.length := by
  rw [fresh, List.length_eq_length_filter_add fetcher.queued, Nat.add_comm]
  exact Nat.add_le_add ((Finset.card_le_card Finset.sdiff_subset).trans (List.toFinset_card_le _))
    ((Finset.card_le_card Finset.sdiff_subset).trans (List.toFinset_card_le _))

theorem notify_of_room (ann : TxAnnounce) (room : fetcher.used ann.origin < maxTxAnnounces) :
    (fetcher.notify clock ann).1 = (fetcher.kept ann).foldl (handle clock ann.origin) fetcher := by
  rw [notify, if_neg (Nat.not_le.mpr room)]

/-- The cap holds and what fits is handled, unless the announcement is over the limit and either
shorter than twice the room left or left with too many new hashes by the cut. -/
theorem notify_capped_iff (fetcher : TxFetcher) (ann : TxAnnounce)
    (within : fetcher.used ann.origin ≤ maxTxAnnounces) :
    (fetcher.notify clock ann).1.used ann.origin ≤ maxTxAnnounces ∧
        ann.hashes.take (maxTxAnnounces - fetcher.used ann.origin) <+: fetcher.kept ann ↔
      fetcher.used ann.origin + ann.hashes.length ≤ maxTxAnnounces ∨
      fetcher.used ann.origin = maxTxAnnounces ∨
      2 * (maxTxAnnounces - fetcher.used ann.origin) ≤ ann.hashes.length ∧
        fetcher.fresh ann.origin
            (ann.hashes.take (fetcher.used ann.origin + ann.hashes.length - maxTxAnnounces)) ≤
          maxTxAnnounces - fetcher.used ann.origin := by
  rcases within.eq_or_lt with full | room
  · simp [notify, full]
  rw [notify_of_room clock ann room, used_foldl_handle, kept, if_neg (Nat.not_le.mpr room)]
  by_cases fits : fetcher.used ann.origin + ann.hashes.length ≤ maxTxAnnounces
  · have new := @fresh_le_length fetcher ann.origin ann.hashes
    simp only [fits, if_neg (Nat.not_lt.mpr fits), List.take_prefix, true_or, and_true, iff_true]
    omega
  · simp only [fits, if_pos (Nat.lt_of_not_le fits), List.take_isPrefix_take, false_or]
    omega

def firstHashes (count : Nat) : List Hash :=
  (List.range count).map (BitVec.ofNat 256)

/-- An announcement of twice the limit meets the cap. -/
theorem doubled_announcement_capped :
    (notify (fun _ => 0) {} ⟨"a", firstHashes 8192⟩).1.used "a" ≤ maxTxAnnounces ∧
      (firstHashes 8192).take maxTxAnnounces <+: kept {} ⟨"a", firstHashes 8192⟩ := by
  have length : (firstHashes 8192).length = 2 * maxTxAnnounces := by
    rw [firstHashes, List.length_map, List.length_range]
    rfl
  generalize firstHashes 8192 = hashes at length
  refine (notify_capped_iff (fun _ => 0) {} ⟨"a", hashes⟩ (Nat.zero_le _)).mpr
    (.inr (.inr ⟨length.ge, Nat.le_trans (fresh_le_length ..) ?_⟩))
  rw [List.length_take, length]
  exact (show min (0 + 2 * maxTxAnnounces - maxTxAnnounces) _ ≤ maxTxAnnounces - 0 by omega)

theorem firstHashes_nodup {count : Nat} (small : count ≤ 2 ^ 256) : (firstHashes count).Nodup := by
  refine List.nodup_range.map_on fun left leftSmall right rightSmall same => ?_
  rw [List.mem_range] at leftSmall rightSmall
  have values := congrArg BitVec.toNat same
  rw [BitVec.toNat_ofNat, BitVec.toNat_ofNat] at values
  rwa [Nat.mod_eq_of_lt (by omega), Nat.mod_eq_of_lt (by omega)] at values

theorem kept_empty (excess : maxTxAnnounces < hashes.length) :
    kept {} ⟨origin, hashes⟩ = hashes.take (hashes.length - maxTxAnnounces) := by
  have nothing : used {} origin = 0 := rfl
  have room : ¬maxTxAnnounces ≤ 0 := by decide
  simp only [kept, nothing, Nat.zero_add, if_pos excess, if_neg room]

theorem fresh_empty (distinct : hashes.Nodup) : fresh {} origin hashes = hashes.length := by
  simp [fresh, queued, List.toFinset_card_of_nodup distinct]

/-- Of 5000 new hashes 4096 are dropped, and after 8193 the peer has one too many. -/
theorem announcements_cut_to_excess :
    ((kept {} ⟨"a", firstHashes 5000⟩).length = 904 ∧
      ¬(firstHashes 5000).take maxTxAnnounces <+: kept {} ⟨"a", firstHashes 5000⟩) ∧
    (notify (fun _ => 0) {} ⟨"a", firstHashes 8193⟩).1.used "a" = maxTxAnnounces + 1 := by
  have length (count : Nat) : (firstHashes count).length = count := by simp [firstHashes]
  have distinct : (firstHashes 8193).Nodup := firstHashes_nodup (by decide)
  refine ⟨?_, ?_⟩
  · rw [kept_empty _ _ (by rw [length]; decide), List.take_isPrefix_take, List.length_take, length]
    decide
  · rw [notify_of_room _ _ (by decide), used_foldl_handle, kept_empty _ _ (by rw [length]; decide),
      fresh_empty _ _ distinct.take, List.length_take, length]
    rfl

end TxFetcher

end Octopus
