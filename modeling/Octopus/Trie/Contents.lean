import Octopus.Trie.Expansion

/-!
# A trie is a map

A trie over a committed root answers like a finite map.  A call that needs a node that is
not there fails with a missing-node error and changes nothing.
-/

namespace Octopus

open Library RadixTree

abbrev Contents := Bytes → Option Bytes

inductive TrieCall where
  | tryGet (key : Bytes)
  | tryUpdate (key value : Bytes)
  | tryDelete (key : Bytes)

/-- A call on a map: the answer and the map it leaves.  An update with an
empty value deletes the key. -/
def Contents.call (contents : Contents) : TrieCall → Option Bytes × Contents
  | .tryGet key => (contents key, contents)
  | .tryUpdate key value =>
    (none, Function.update contents key (if value = [] then none else some value))
  | .tryDelete key => (none, Function.update contents key none)

def Contents.run : Contents → List TrieCall → List (Option Bytes)
  | _, [] => []
  | contents, call :: calls => (contents.call call).1 :: (contents.call call).2.run calls

namespace Trie

def call (trie : Trie) (available : Resolver) :
    TrieCall → Except TrieError (Option Bytes) × Trie
  | .tryGet key => trie.tryGet available key
  | .tryUpdate key value =>
    let (result, trie) := trie.tryUpdate available key value
    (result.map fun _ => none, trie)
  | .tryDelete key =>
    let (result, trie) := trie.tryDelete available key
    (result.map fun _ => none, trie)

def run : Trie → List (Resolver × TrieCall) → List (Except TrieError (Option Bytes))
  | _, [] => []
  | trie, (available, call) :: calls =>
    (trie.call available call).1 :: (trie.call available call).2.run calls

end Trie

/-- Every call returns what the map gives, or fails for a missing node and leaves the map. -/
inductive Follows (complete : Resolver) :
    Contents → List (Resolver × TrieCall) → List (Except TrieError (Option Bytes)) → Prop
  | nil (contents : Contents) : Follows complete contents [] []
  | returned {contents : Contents} {available : Resolver} {call : TrieCall}
      {calls : List (Resolver × TrieCall)} {results : List (Except TrieError (Option Bytes))}
      (rest : Follows complete (contents.call call).2 calls results) :
      Follows complete contents ((available, call) :: calls)
        (.ok (contents.call call).1 :: results)
  | missing {contents : Contents} {available : Resolver} {call : TrieCall}
      {calls : List (Resolver × TrieCall)} {results : List (Except TrieError (Option Bytes))}
      {owner hash : Hash} {path : List Nibble} (unavailable : available hash = none)
      (committed : complete hash ≠ none) (rest : Follows complete contents calls results) :
      Follows complete contents ((available, call) :: calls)
        (.error (.missingNode owner hash path) :: results)

def Tree.contents (tree : Tree) : Contents :=
  fun key => tree.get (keybytesToHex key)

noncomputable def Tree.call (tree : Tree) : TrieCall → Tree
  | .tryGet _ => tree
  | .tryUpdate key value =>
    if value = [] then tree.delete (keybytesToHex key)
    else tree.insert (keybytesToHex key) value
  | .tryDelete key => tree.delete (keybytesToHex key)

/-- The trees of a trie: the canonical form, over keys of whole bytes, and
without empty values. -/
structure Tree.Proper (tree : Tree) : Prop where
  canonical : tree.Canonical isTerminator false
  whole : ∀ hex value, tree.get hex = some value → ∃ key, hex = keybytesToHex key
  nonempty : ∀ hex value, tree.get hex = some value → value ≠ []

def anyFlag : FlagRule :=
  fun _ _ => True

/-- A root that has been committed: its nodes are in the database, with flags
that meet the given rules. -/
structure Committed (complete : Resolver) (inner own : FlagRule) (root : Hash) (tree : Tree) :
    Prop where
  proper : tree.Proper
  empty : root = 0 ∨ root = emptyRoot → tree = .empty
  expands : ¬ (root = 0 ∨ root = emptyRoot) → Expands complete inner own (.hashNode root) tree

structure Trie.Holds (complete : Resolver) (inner own : FlagRule) (trie : Trie) (tree : Tree) :
    Prop where
  expands : Expands complete inner own trie.root tree
  proper : tree.Proper

namespace Tree

variable {tree : Tree} (proper : tree.Proper)
include proper

theorem contents_insert (key value : Bytes) :
    contents (tree.insert (keybytesToHex key) value) =
      Function.update tree.contents key (some value) := by
  funext other
  rw [contents, get_insert proper.canonical (readsKey_keybytesToHex key)]
  by_cases same : other = key
  · simp [same]
  · simp [same, keybytesToHex_injective.eq_iff, contents]

theorem contents_delete (key : Bytes) :
    contents (tree.delete (keybytesToHex key)) = Function.update tree.contents key none := by
  funext other
  rw [contents, get_delete proper.canonical (readsKey_keybytesToHex key)]
  by_cases same : other = key
  · simp [same]
  · simp [same, keybytesToHex_injective.eq_iff, contents]

omit proper in
theorem proper_empty : Proper .empty where
  canonical := trivial
  whole _ _ found := nomatch found
  nonempty _ _ found := nomatch found

theorem proper_insert (key : Bytes) {value : Bytes} (nonempty : value ≠ []) :
    Proper (tree.insert (keybytesToHex key) value) where
  canonical := canonical_insert proper.canonical (readsKey_keybytesToHex key) value
  whole hex other found := by
    rw [get_insert proper.canonical (readsKey_keybytesToHex key)] at found
    split at found
    · exact ⟨key, by assumption⟩
    · exact proper.whole hex other found
  nonempty hex other found := by
    rw [get_insert proper.canonical (readsKey_keybytesToHex key)] at found
    split at found
    · cases found
      exact nonempty
    · exact proper.nonempty hex other found

theorem proper_delete (key : Bytes) : Proper (tree.delete (keybytesToHex key)) where
  canonical := canonical_delete proper.canonical (readsKey_keybytesToHex key)
  whole hex other found := by
    rw [get_delete proper.canonical (readsKey_keybytesToHex key)] at found
    split at found
    · cases found
    · exact proper.whole hex other found
  nonempty hex other found := by
    rw [get_delete proper.canonical (readsKey_keybytesToHex key)] at found
    split at found
    · cases found
    · exact proper.nonempty hex other found

theorem proper_call (call : TrieCall) : (tree.call call).Proper := by
  cases call with
  | tryGet => exact proper
  | tryUpdate key value =>
    by_cases deleted : value = []
    · simpa [Tree.call, deleted] using proper_delete proper key
    · simpa [Tree.call, deleted] using proper_insert proper key deleted
  | tryDelete key => exact proper_delete proper key

theorem eq_of_contents_eq {other : Tree} (otherProper : other.Proper)
    (same : tree.contents = other.contents) : tree = other := by
  have found : ∀ (first second : Tree), first.Proper → first.contents = second.contents →
      ∀ hex value, first.get hex = some value → second.get hex = some value := by
    intro first second firstProper agree hex value got
    rcases firstProper.whole hex value got with ⟨key, rfl⟩
    have atKey := congrFun agree key
    simp only [contents] at atKey
    rw [← atKey]
    exact got
  apply proper.canonical.ext otherProper.canonical
  intro hex
  apply Option.ext
  intro value
  exact ⟨found tree other proper same hex value, found other tree otherProper same.symm hex value⟩

theorem contents_call (call : TrieCall) :
    (tree.call call).contents = (tree.contents.call call).2 := by
  cases call with
  | tryGet => rfl
  | tryUpdate _ value =>
    by_cases deleted : value = []
    · simp [Tree.call, Contents.call, deleted, contents_delete proper]
    · simp [Tree.call, Contents.call, deleted, contents_insert proper]
  | tryDelete key => exact contents_delete proper key

end Tree

namespace Trie.Holds

variable {complete available : Resolver} {inner own : FlagRule} {trie : Trie} {tree : Tree}

def Answers (complete available : Resolver) (inner own : FlagRule) (tree : Tree)
    (call : TrieCall) : Except TrieError (Option Bytes) × Trie → Prop
  | (.ok answer, trie) =>
    answer = (tree.contents.call call).1 ∧ Holds complete inner own trie (tree.call call)
  | (.error (.missingNode _ hash _), trie) =>
    (available hash = none ∧ complete hash ≠ none) ∧ Holds complete inner own trie tree
  | (.error (.fault _), _) => False

variable (holds : Holds complete inner own trie tree)
include holds

theorem settle (call : TrieCall) {after : Tree} (silent : (tree.contents.call call).1 = none)
    (changed : tree.call call = after) {res : Except TrieError (Bool × Node)}
    (yields : Yields complete available (Expands.Updates complete inner own tree after) res) :
    Answers complete available inner own tree call
      (((trie.settle res).1.map fun _ => none), (trie.settle res).2) := by
  cases res with
  | error error =>
    cases error with
    | missingNode => exact ⟨yields, holds.expands, holds.proper⟩
    | fault => exact absurd yields id
  | ok =>
    refine ⟨silent.symm, ?_, Tree.proper_call holds.proper call⟩
    rw [changed]
    exact yields.1

variable (fresh : ∀ tree, inner newFlag tree) (ownFresh : ∀ tree, own newFlag tree)
include fresh ownFresh

theorem call (within : available.Within complete) (call : TrieCall) :
    Answers complete available inner own tree call (trie.call available call) := by
  have reads := readsKey_keybytesToHex
  have enough : ∀ key, 2 * (keybytesToHex key).length + trie.root.rank <
      depth (keybytesToHex key) := by
    have small := trie.root.rank_le
    simp only [depth]
    omega
  have deletes : ∀ key, Yields complete available
      (Expands.Updates complete inner own tree (tree.delete (keybytesToHex key)))
      (Node.delete available trie.owner (depth (keybytesToHex key)) trie.root []
        (keybytesToHex key)) :=
    fun key => holds.expands.delete fresh ownFresh within trie.owner holds.proper.canonical
      (reads key)
      (enough key)
  cases call with
  | tryGet key =>
    have yields : Yields complete available (fun res : Option Bytes × Node × Bool =>
          res.1 = tree.contents key ∧ Expands complete inner own res.2.1 tree)
        (Node.tryGet available trie.owner (depth (keybytesToHex key)) trie.root []
          (keybytesToHex key)) :=
      holds.expands.tryGet within trie.owner holds.proper.canonical (reads key) (enough key)
    simp only [Trie.call, Trie.tryGet]
    cases res : Node.tryGet available trie.owner (depth (keybytesToHex key)) trie.root []
        (keybytesToHex key) with
    | error error =>
      rw [res] at yields
      cases error with
      | missingNode => exact ⟨yields, holds⟩
      | fault => exact absurd yields id
    | ok found =>
      rw [res] at yields
      rcases found with ⟨value, _, didResolve⟩
      refine ⟨yields.1, ?_⟩
      cases didResolve with
      | true => exact ⟨yields.2, holds.proper⟩
      | false => exact holds
  | tryUpdate key value =>
    by_cases deleted : value = []
    · have settled := holds.settle (.tryUpdate key value) rfl
        (by simp [Tree.call, deleted]) (deletes key)
      simpa [Trie.call, Trie.tryUpdate, deleted] using settled
    have inserts : Yields complete available
        (Expands.Updates complete inner own tree (tree.insert (keybytesToHex key) value))
        (Node.insert available trie.owner (depth (keybytesToHex key)) trie.root []
          (keybytesToHex key) (.valueNode value)) :=
      holds.expands.insert fresh ownFresh within trie.owner holds.proper.canonical (reads key)
        (enough key) value
    have settled := holds.settle (.tryUpdate key value) rfl (by simp [Tree.call, deleted]) inserts
    simpa [Trie.call, Trie.tryUpdate, deleted] using settled
  | tryDelete key => exact holds.settle (.tryDelete key) rfl rfl (deletes key)

theorem run (calls : List (Resolver × TrieCall)) (within : ∀ step ∈ calls, step.1.Within complete) :
    Follows complete tree.contents calls (trie.run calls) := by
  induction calls generalizing trie tree with
  | nil => exact .nil _
  | cons step _ ih =>
    rcases step with ⟨available, call⟩
    simp only [List.mem_cons, forall_eq_or_imp] at within
    have answers := holds.call fresh ownFresh within.1 call
    simp only [Trie.run]
    generalize trie.call available call = outcome at answers
    rcases outcome with ⟨res, _⟩
    cases res with
    | ok =>
      rcases answers with ⟨rfl, stillHolds⟩
      have rest := ih stillHolds within.2
      rw [Tree.contents_call holds.proper] at rest
      exact .returned rest
    | error error =>
      cases error with
      | missingNode =>
        rcases answers with ⟨⟨unavailable, committed⟩, stillHolds⟩
        exact .missing unavailable committed (ih stillHolds within.2)
      | fault => exact absurd answers id

end Trie.Holds

theorem Follows.eq_run {complete : Resolver} {contents : Contents}
    {calls : List (Resolver × TrieCall)} {results : List (Except TrieError (Option Bytes))}
    (follows : Follows complete contents calls results)
    (available : ∀ step ∈ calls, step.1 = complete) :
    results = (contents.run (calls.map Prod.snd)).map .ok := by
  induction follows with
  | nil => rfl
  | returned _ ih =>
    simp only [List.mem_cons, forall_eq_or_imp] at available
    simp [Contents.run, ih available.2]
  | missing unavailable committed _ _ =>
    simp only [List.mem_cons, forall_eq_or_imp] at available
    rw [available.1] at unavailable
    exact absurd unavailable committed

namespace Trie

variable {complete opening : Resolver} {owner root : Hash} {trie : Trie} {tree : Tree}

theorem holds_newTrie {inner own : FlagRule} (committed : Committed complete inner own root tree)
    (within : opening.Within complete) (opened : newTrie opening owner root = .ok trie) :
    trie.Holds complete inner own tree := by
  by_cases isEmpty : root = 0 ∨ root = emptyRoot
  · simp only [newTrie, isEmpty, if_true, Except.ok.injEq] at opened
    rw [committed.empty isEmpty, ← opened]
    exact ⟨.nil, Tree.proper_empty⟩
  simp only [newTrie, if_neg isEmpty] at opened
  cases committed.expands isEmpty with
  | @hash _ _ _ _ _ found _ below =>
    cases looked : opening root with
    | none =>
      simp only [resolveHash, looked] at opened
      cases opened
    | some rootnode =>
      have same := within root rootnode looked
      rw [found] at same
      cases same
      simp only [resolveHash, looked] at opened
      cases opened
      exact ⟨below, committed.proper⟩

/-- A trie over a committed root answers every sequence of reads, updates and deletions as a map
does, whatever nodes the database has at each call, or fails with a missing-node error and
keeps its contents.  If the database has all nodes of the root, no call fails. -/
theorem run_follows_map (committed : Committed complete anyFlag anyFlag root tree)
    (openedWithin : opening.Within complete) (opened : newTrie opening owner root = .ok trie)
    (calls : List (Resolver × TrieCall)) (within : ∀ step ∈ calls, step.1.Within complete) :
    Follows complete tree.contents calls (trie.run calls) ∧ ((∀ step ∈ calls, step.1 = complete) →
        trie.run calls = (tree.contents.run (calls.map Prod.snd)).map .ok) := by
  have follows := (holds_newTrie committed openedWithin opened).run (fun _ => trivial)
    (fun _ => trivial) calls within
  exact ⟨follows, follows.eq_run⟩

def sampleTree : Tree :=
  .branch (RadixTree.pair 0 (.path [5, 16] (.leaf [7])) 1 (.path [5, 16] (.leaf [8])))

def sampleLeaf : Node :=
  .shortNode [5, 16] (.valueNode [7]) ⟨some 2, false⟩

def sampleRoot : Node :=
  .fullNode
    (Function.update (Function.update (fun _ => .nil) 0 (.hashNode 2)) 1
      (.shortNode [5, 16] (.valueNode [8]) ⟨none, false⟩))
    ⟨some 1, false⟩

def sampleRootOnly : Resolver :=
  fun hash => if hash = 1 then some sampleRoot else none

def sampleNodes : Resolver :=
  fun hash => if hash = 2 then some sampleLeaf else sampleRootOnly hash

theorem proper_sampleTree : sampleTree.Proper := by
  exact Tree.proper_insert (Tree.proper_insert Tree.proper_empty [0x05] (by simp)) [0x15] (by simp)

theorem committed_sampleTree : Committed sampleNodes anyFlag anyFlag 1 sampleTree where
  proper := proper_sampleTree
  empty isEmpty := absurd isEmpty (by decide)
  expands := by
    intro _
    have leafExpands : Expands sampleNodes anyFlag anyFlag (.hashNode 2)
        (.path [5, 16] (.leaf [7])) :=
      .hash trivial rfl trivial (.short trivial (.value [7]))
    refine .hash trivial rfl trivial (.full trivial ?_)
    exact Expands.update 1 (Expands.update 0 (fun _ => .nil) leafExpands)
      (.short trivial (.value [8]))

theorem sampleRootOnly_within : sampleRootOnly.Within sampleNodes := by
  intro hash _ found
  by_cases isLeaf : hash = 2
  · subst isLeaf
    cases found
  · exact (if_neg isLeaf).trans found

def sampleCalls : List (Resolver × TrieCall) :=
  [(sampleRootOnly, .tryUpdate [0x05] [9]), (sampleNodes, .tryGet [0x05]),
    (sampleNodes, .tryDelete [0x15]), (sampleNodes, .tryGet [0x15])]

theorem sample_run_follows_map :
    ∃ trie, newTrie sampleNodes 0 1 = .ok trie ∧
      trie.run sampleCalls = [.error (.missingNode 0 2 [0]), .ok (some [7]), .ok none, .ok none] ∧
      Follows sampleNodes sampleTree.contents sampleCalls (trie.run sampleCalls) := by
  refine ⟨_, rfl, rfl, ?_⟩
  apply (run_follows_map committed_sampleTree (fun _ _ found => found) rfl sampleCalls _).1
  simp only [sampleCalls, List.mem_cons, List.not_mem_nil, or_false, forall_eq_or_imp, forall_eq]
  exact ⟨sampleRootOnly_within, fun _ _ found => found, fun _ _ found => found,
    fun _ _ found => found⟩

end Trie

end Octopus
