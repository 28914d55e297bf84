import Octopus.Rlp.Decode
import Octopus.Trie.Contents

/-!
# Hashing a trie

A node is hashed through its collapsed form, in which every child is the hash of its
encoding, or the child itself if that is shorter.  The cached hashes are those of the
trees that the nodes stand for; a forced hash is kept at the root only.
-/

namespace Octopus

open Library Octopus.Tree

/-- A node in collapsed form, for which the source uses several types. -/
inductive RawNode where
  | nil
  | valueNode (value : Bytes)
  | hashNode (hash : Hash)
  | shortNode (key : Bytes) (val : RawNode)
  | fullNode (children : Nibble → RawNode)

namespace RawNode

def encode : RawNode → Bytes
  | nil => Rlp.emptyString
  | valueNode value => Rlp.writeBytes value
  | hashNode hash => Rlp.writeBytes (wordBytes hash)
  | shortNode key val => Rlp.list (Rlp.writeBytes key ++ encode val)
  | fullNode children =>
    Rlp.list ((List.finRange 17).flatMap fun nibble => encode (children nibble))

def asHash : RawNode → Option Hash
  | hashNode hash => some hash
  | _ => none

@[simp]
theorem asHash_eq_some {raw : RawNode} {hash : Hash} :
    raw.asHash = some hash ↔ raw = hashNode hash := by
  cases raw <;> simp [asHash]

/-- A child of a collapsed full node; `nilValueNode` stands for no child. -/
def orNilValueNode (nibble : Nibble) : RawNode → RawNode
  | nil => if nibble = terminator then nil else valueNode []
  | child => child

end RawNode

section

variable [Crypto]

def RawNode.toHash (force : Bool) (collapsed : RawNode) : RawNode :=
  if collapsed.encode.length < 32 ∧ force = false then collapsed
  else .hashNode (Crypto.keccak256 collapsed.encode)

/-- `hasher.hash`: the hash or the collapsed node, and the node with its hash cached.  Values
and hash nodes are returned as they are, and so is the last child of a full node. -/
def Node.hash : Node → Bool → RawNode × Node
  | .nil, _ => (.nil, .nil)
  | .valueNode value, _ => (.valueNode value, .valueNode value)
  | .hashNode hash, _ => (.hashNode hash, .hashNode hash)
  | .shortNode key val flags, force =>
    match flags.hash with
    | some hash => (.hashNode hash, .shortNode key val flags)
    | none =>
      let hashed := RawNode.toHash force (.shortNode (hexToCompact key) (val.hash false).1)
      (hashed, .shortNode key (val.hash false).2 { flags with hash := hashed.asHash })
  | .fullNode children flags, force =>
    match flags.hash with
    | some hash => (.hashNode hash, .fullNode children flags)
    | none =>
      let hashed := RawNode.toHash force
        (.fullNode fun nibble => ((children nibble).hash false).1.orNilValueNode nibble)
      (hashed,
        .fullNode (fun nibble => ((children nibble).hash false).2)
          { flags with hash := hashed.asHash })

def Trie.hash (trie : Trie) : Except TrieError Hash × Trie :=
  if trie.root.isNil then (.ok emptyRoot, trie)
  else
    match trie.root.hash true with
    | (.hashNode hash, cached) => (.ok hash, { trie with root := cached, unhashed := 0 })
    | (_, cached) =>
      (.error (.fault (.panic "interface conversion")),
        { trie with root := cached, unhashed := 0 })

/-- What stands for a tree in the node above it, or for a root if it is
forced. -/
def Tree.reference : Tree → Bool → RawNode
  | .empty, _ => .nil
  | .leaf value, _ => .valueNode value
  | .path label child, force =>
    RawNode.toHash force (.shortNode (hexToCompact label) (reference child false))
  | .branch children, force =>
    RawNode.toHash force
      (.fullNode fun nibble => (reference (children nibble) false).orNilValueNode nibble)

def CachesHash (force : Bool) : FlagRule :=
  fun flags tree => ∀ hash, flags.hash = some hash → tree.reference force = .hashNode hash

theorem cachesHash_newFlag (force : Bool) (tree : Tree) : CachesHash force newFlag tree :=
  fun _ cached => nomatch cached

theorem Expands.hash_eq {complete : Resolver} {force : Bool} {node : Node} {tree : Tree}
    (expands : Expands complete (CachesHash false) (CachesHash force) node tree) :
    (node.hash force).1 = tree.reference force ∧
      Expands complete (CachesHash false) (CachesHash force) (node.hash force).2 tree := by
  generalize ruled : CachesHash force = own at expands
  induction expands generalizing force with
  | nil => exact ⟨rfl, .nil⟩
  | value value => exact ⟨rfl, .value value⟩
  | hash flagged found loaded below _ =>
    subst ruled
    exact ⟨(flagged _ rfl).symm, .hash flagged found loaded below⟩
  | @short _ _ _ flags _ flagged below ih =>
    subst ruled
    rcases ih rfl with ⟨hashed, cached⟩
    cases known : flags.hash with
    | some hash =>
      simp only [Node.hash, known]
      exact ⟨(flagged _ known).symm, .short flagged below⟩
    | none =>
      simp only [Node.hash, known, hashed]
      refine ⟨rfl, .short ?_ cached⟩
      intro hash isHash
      exact RawNode.asHash_eq_some.mp isHash
  | @full _ _ flags _ flagged below ih =>
    subst ruled
    cases known : flags.hash with
    | some hash =>
      simp only [Node.hash, known]
      exact ⟨(flagged _ known).symm, .full flagged below⟩
    | none =>
      simp only [Node.hash, known, fun nibble => (ih nibble rfl).1]
      refine ⟨rfl, .full ?_ fun nibble => (ih nibble rfl).2⟩
      intro hash isHash
      exact RawNode.asHash_eq_some.mp isHash

def Tree.collapsed : Tree → RawNode
  | .empty => .nil
  | .leaf value => .valueNode value
  | .path label child => .shortNode (hexToCompact label) (reference child false)
  | .branch children =>
    .fullNode fun nibble => (reference (children nibble) false).orNilValueNode nibble

def Tree.root : Tree → Hash
  | .empty => emptyRoot
  | tree => Crypto.keccak256 tree.collapsed.encode

theorem Tree.reference_force {tree : Tree} (canon : tree.Canonical isTerminator false)
    (here : tree ≠ .empty) : tree.reference true = .hashNode tree.root := by
  cases tree with
  | empty => exact absurd rfl here
  | leaf => cases canon
  | path | branch => simp [reference, RawNode.toHash, root, collapsed]

namespace Trie

variable {complete otherComplete : Resolver} {trie other : Trie} {tree : Tree}

theorem Holds.hash (holds : trie.Holds complete (CachesHash false) (CachesHash true) tree) :
    trie.hash.1 = .ok tree.root ∧
      trie.hash.2.Holds complete (CachesHash false) (CachesHash true) tree := by
  have isNil := holds.expands.nil_iff
  by_cases missing : trie.root = .nil
  · have emptied := isNil.mp missing
    subst emptied
    simp only [Trie.hash, missing, Node.isNil]
    exact ⟨rfl, holds⟩
  have here : tree ≠ .empty := fun isEmpty => missing (isNil.mpr isEmpty)
  rcases holds.expands.hash_eq with ⟨hashed, cached⟩
  rw [reference_force holds.proper.canonical here] at hashed
  have outcome : trie.root.hash true = (.hashNode tree.root, (trie.root.hash true).2) :=
    Prod.ext hashed rfl
  have notNil : trie.root.isNil = false := by
    rw [← Bool.not_eq_true, Node.isNil_iff]
    exact missing
  rw [Trie.hash, outcome]
  simp only [notNil]
  exact ⟨rfl, cached, holds.proper⟩

/-- The tries reached from an opened one by calls that find their nodes and by hashing. -/
inductive Reachable (complete : Resolver) : Trie → Contents → Prop
  | opened {owner root : Hash} {trie : Trie} {tree : Tree}
      (committed : Committed complete (CachesHash false) (CachesHash true) root tree)
      (opened : newTrie complete owner root = .ok trie) : Reachable complete trie tree.contents
  | called {trie : Trie} {contents : Contents} (before : Reachable complete trie contents)
      (call : TrieCall) :
      Reachable complete (trie.call complete call).2 (contents.call call).2
  | hashed {trie : Trie} {contents : Contents} (before : Reachable complete trie contents) :
      Reachable complete trie.hash.2 contents

theorem Reachable.holds {contents : Contents} (reachable : Reachable complete trie contents) :
    ∃ tree : Tree, tree.contents = contents ∧
      trie.Holds complete (CachesHash false) (CachesHash true) tree := by
  induction reachable with
  | opened committed opened =>
    exact ⟨_, rfl, holds_newTrie committed (fun _ _ found => found) opened⟩
  | @called trie _ _ call ih =>
    rcases ih with ⟨tree, rfl, holds⟩
    have answers := holds.call (cachesHash_newFlag false) (cachesHash_newFlag true)
      (fun _ _ found => found) call
    generalize trie.call complete call = outcome at answers
    rcases outcome with ⟨result, _⟩
    cases result with
    | ok => exact ⟨_, contents_call holds.proper call, answers.2⟩
    | error error =>
      cases error with
      | missingNode => exact absurd answers.1.1 answers.1.2
      | fault => exact absurd answers id
  | hashed _ ih =>
    rcases ih with ⟨tree, same, holds⟩
    exact ⟨tree, same, holds.hash.2⟩

/-- The hash of a trie depends on its contents alone, not on the calls that led to them or on
the hashes cached on the way.  Every reachable trie is canonical, and one without contents
has the empty root. -/
theorem hash_eq_of_contents {contents : Contents} (reachable : Reachable complete trie contents)
    (otherReachable : Reachable otherComplete other contents) :
    (∃ root, trie.hash.1 = .ok root ∧ other.hash.1 = .ok root) ∧
      (∃ tree : Tree, Expands complete anyFlag anyFlag trie.root tree ∧
        tree.Canonical isTerminator false) ∧ trie.root.Minimal ∧
      (contents = (fun _ => none) → trie.hash.1 = .ok emptyRoot) := by
  rcases reachable.holds with ⟨tree, same, holds⟩
  rcases otherReachable.holds with ⟨otherTree, otherSame, otherHolds⟩
  have unique : tree = otherTree :=
    eq_of_contents_eq holds.proper otherHolds.proper (same.trans otherSame.symm)
  subst unique
  refine ⟨⟨tree.root, holds.hash.1, otherHolds.hash.1⟩, ⟨tree, ?_, holds.proper.canonical⟩,
    holds.expands.minimal holds.proper.canonical, ?_⟩
  · exact holds.expands.mono (fun _ _ _ => trivial) (fun _ _ _ => trivial)
  · intro nothing
    have emptied : tree = .empty :=
      eq_of_contents_eq holds.proper proper_empty (same.trans nothing)
    rw [holds.hash.1, emptied]
    rfl

end Trie

end

namespace Trie

def sampleEmpty : Trie where
  root := .nil
  owner := 0
  unhashed := 0

def sampleNoNodes : Resolver :=
  fun _ => none

def sampleHashed [Crypto] : Trie :=
  ((sampleEmpty.call sampleNoNodes (.tryUpdate [0x05] [7])).2.hash.2.call sampleNoNodes
    (.tryUpdate [0x15] [8])).2

def sampleDetour : Trie :=
  ((((sampleEmpty.call sampleNoNodes (.tryUpdate [0x15] [8])).2.call sampleNoNodes
    (.tryUpdate [0x25] [9])).2.call sampleNoNodes (.tryDelete [0x25])).2.call sampleNoNodes
    (.tryUpdate [0x05] [7])).2

section

variable [Crypto]

theorem reachable_sampleEmpty : Reachable sampleNoNodes sampleEmpty (contents .empty) := by
  have committed : Committed sampleNoNodes (CachesHash false) (CachesHash true) emptyRoot .empty :=
    ⟨proper_empty, fun _ => rfl, fun absent => absurd (.inr rfl) absent⟩
  exact .opened committed rfl

theorem reachable_sampleHashed :
    Reachable sampleNoNodes sampleHashed
      (((contents .empty).call (.tryUpdate [0x05] [7])).2.call (.tryUpdate [0x15] [8])).2 :=
  ((reachable_sampleEmpty.called (.tryUpdate [0x05] [7])).hashed).called (.tryUpdate [0x15] [8])

end

theorem sample_hash_eq_of_contents :
    letI := sampleCrypto
    ∃ root, sampleHashed.hash.1 = .ok root ∧ sampleDetour.hash.1 = .ok root := by
  let crypto := sampleCrypto
  have second := (((reachable_sampleEmpty.called (.tryUpdate [0x15] [8])).called
    (.tryUpdate [0x25] [9])).called (.tryDelete [0x25])).called (.tryUpdate [0x05] [7])
  have sameContents : ((((contents .empty).call (.tryUpdate [0x15] [8])).2.call
      (.tryUpdate [0x25] [9])).2.call (.tryDelete [0x25])).2.call (.tryUpdate [0x05] [7]) =
      ((contents .empty).call (.tryUpdate [0x05] [7])).2.call (.tryUpdate [0x15] [8]) := by
    simp only [Contents.call, Prod.mk.injEq, true_and]
    funext key
    simp only [Function.update_apply]
    split_ifs <;> simp_all [contents, RadixTree.get]
  rw [sameContents] at second
  exact (hash_eq_of_contents reachable_sampleHashed second).1

end Trie

end Octopus
