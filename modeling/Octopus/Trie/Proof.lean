import Octopus.Library.Store
import Octopus.Rlp.Numbers
import Octopus.Trie.Decode

/-!
# Merkle proofs

A proof has the encodings of the nodes on the way to the key, each under its hash.  If the
hash has no collisions among the nodes of the trie and the entries of the proof, the
verifier takes the way of the trie whatever else the proof has.  So a root commits to the
contents of a trie.
-/

namespace Octopus

open Library Octopus.Tree Crypto RadixTree List

variable {tree node : Tree} {trees : List Tree} {key : List Nibble} {fuel : Nat} {ended : Bool}

abbrev ProofDb := Hash → Option Bytes

/-- The loop of `Prove` that collects the nodes on the way to a key. -/
def Node.nodesTo (resolver : Resolver) (owner : Hash) :
    Nat → Node → List Nibble → Except TrieError (List Node)
  | _, _, [] => .ok []
  | 0, _, _ :: _ => .error (.fault .outOfFuel)
  | _ + 1, .nil, _ :: _ => .ok []
  | fuel + 1, .shortNode label child flags, nibble :: rest =>
    if label <+: nibble :: rest then do
      let nodes ← nodesTo resolver owner fuel child ((nibble :: rest).drop label.length)
      .ok (.shortNode label child flags :: nodes)
    else .ok [.shortNode label child flags]
  | fuel + 1, .fullNode children flags, nibble :: rest => do
      let nodes ← nodesTo resolver owner fuel (children nibble) rest
      .ok (.fullNode children flags :: nodes)
  | fuel + 1, .hashNode hash, nibble :: rest => do
      let node ← resolveHash resolver owner hash []
      nodesTo resolver owner fuel node (nibble :: rest)
  | _ + 1, .valueNode _, _ :: _ => .error (.fault (.panic "invalid node"))

/-- `get`: the rest of the key and the node it leads to; resolved nodes are
passed if they are to be skipped. -/
def Node.get (skipResolved : Bool) : Node → List Nibble → Except Fault (List Nibble × Node)
  | .shortNode label child _, key =>
    if label <+: key then
      if skipResolved then child.get skipResolved (key.drop label.length)
      else .ok (key.drop label.length, child)
    else .ok ([], .nil)
  | .fullNode _ _, [] => .error (.panic "index out of range")
  | .fullNode children _, nibble :: rest =>
    if skipResolved then (children nibble).get skipResolved rest
    else .ok (rest, children nibble)
  | .hashNode hash, key => .ok (key, .hashNode hash)
  | .nil, key => .ok (key, .nil)
  | .valueNode value, _ => .ok ([], .valueNode value)

/-- The errors of `VerifyProof`, with the number of the entry, and the ways in
which it does not return. -/
inductive ProofError where
  | missing (index : Nat) (hash : Hash)
  | bad (index : Nat) (error : DecodeError)
  | fault (fault : Fault)
  deriving DecidableEq

def verifyFrom (proofDb : ProofDb) : Nat → Nat → Hash → List Nibble →
    Except ProofError (Option Bytes)
  | 0, _, _, _ => .error (.fault .outOfFuel)
  | fuel + 1, index, wantHash, key =>
    match proofDb wantHash with
    | none => .error (.missing index wantHash)
    | some buf =>
      match decodeNode (some wantHash) buf with
      | .error error => .error (.bad index error)
      | .ok node =>
        match node.get true key with
        | .error fault => .error (.fault fault)
        | .ok (_, .nil) => .ok none
        | .ok (keyrest, .hashNode cld) => verifyFrom proofDb fuel (index + 1) cld keyrest
        | .ok (_, .valueNode value) => .ok (some value)
        -- no case of the switch: the loop goes on as it was
        | .ok (_, _) => verifyFrom proofDb fuel (index + 1) wantHash key

/-- `VerifyProof`; entries may lead to one another without end, so the rounds
are bounded. -/
def verifyProof (fuel : Nat) (rootHash : Hash) (key : Bytes) (proofDb : ProofDb) :
    Except ProofError (Option Bytes) :=
  verifyFrom proofDb fuel 0 rootHash (keybytesToHex key)

section Proving

variable [Crypto]

/-- `proofHash`: the collapsed node, and its hash or the node itself. -/
def Node.proofHash : Node → RawNode × RawNode
  | .shortNode key val _ =>
    let collapsed := .shortNode (hexToCompact key) (val.hash false).1
    (collapsed, collapsed.toHash false)
  | .fullNode children _ =>
    let collapsed :=
      .fullNode fun nibble => ((children nibble).hash false).1.orNilValueNode nibble
    (collapsed, collapsed.toHash false)
  | .hashNode hash => (.hashNode hash, .hashNode hash)
  | .valueNode value => (.valueNode value, .valueNode value)
  | .nil => (.nil, .nil)

def proofEntry (index : Nat) (node : RawNode × RawNode) : Option (Hash × Bytes) :=
  match node.2.asHash with
  | some hash => some (hash, node.1.encode)
  | none => if index = 0 then some (Crypto.keccak256 node.1.encode, node.1.encode) else none

def ProofDb.put (proofDb : ProofDb) (entry : Hash × Bytes) : ProofDb :=
  Function.update proofDb entry.1 (some entry.2)

def Trie.prove (trie : Trie) (resolver : Resolver) (key : Bytes) (fromLevel : Nat)
    (proofDb : ProofDb) : Except TrieError ProofDb := do
  let k := keybytesToHex key
  let nodes ← trie.root.nodesTo resolver trie.owner (depth k) k
  let entries := ((nodes.map Node.proofHash).zipIdx.drop fromLevel).filterMap fun (node, index) =>
    proofEntry index node
  .ok (entries.foldl ProofDb.put proofDb)

end Proving

namespace Tree

def trail : Tree → List Nibble → List Tree
  | .path label child, key =>
    .path label child ::
      match RadixTree.strip label key with
      | some rest => trail child rest
      | none => []
  | .branch children, nibble :: rest => .branch children :: trail (children nibble) rest
  | _, _ => []

def HasNode (node : Tree) : Tree → Prop
  | .path label child => node = .path label child ∨ HasNode node child
  | .branch children => node = .branch children ∨ ∃ nibble, HasNode node (children nibble)
  | _ => False

theorem hasNode_pair {left right : Tree} {first second nibble : Nibble}
    (has : HasNode node (RadixTree.pair first left second right nibble)) :
    HasNode node left ∨ HasNode node right := by
  unfold RadixTree.pair at has
  by_cases isSecond : nibble = second
  · rw [isSecond, Function.update_self] at has
    exact .inr has
  rw [Function.update_of_ne isSecond] at has
  by_cases isFirst : nibble = first
  · rw [isFirst, Function.update_self] at has
    exact .inl has
  · rw [Function.update_of_ne isFirst] at has
    exact absurd has id

theorem isNode_of_hasNode (has : HasNode node tree) : node.IsNode := by
  induction tree with
  | empty | leaf => exact absurd has id
  | path _ _ ih =>
    rcases has with rfl | below
    · trivial
    · exact ih below
  | branch _ ih =>
    rcases has with rfl | ⟨nibble, below⟩
    · trivial
    · exact ih nibble below

theorem trail_of_ended (canon : tree.Canonical isTerminator true) (key : List Nibble) :
    tree.trail key = [] := by
  rcases leaf_of_ended canon with rfl | ⟨_, rfl⟩
  · rfl
  · rfl

theorem hasNode_self (isNode : tree.IsNode) : HasNode tree tree := by
  cases tree with
  | empty | leaf => exact absurd isNode id
  | path | branch => exact .inl rfl

theorem trail_eq_cons (isNode : tree.IsNode) (reads : readsKey false key) :
    ∃ below, tree.trail key = tree :: below := by
  cases tree with
  | empty | leaf => exact absurd isNode id
  | path => exact ⟨_, rfl⟩
  | branch =>
    cases key with
    | nil => cases reads
    | cons => exact ⟨_, rfl⟩

theorem hasNode_of_mem_trail (onWay : node ∈ tree.trail key) : HasNode node tree := by
  induction tree generalizing key with
  | empty | leaf => simp [trail] at onWay
  | path label _ ih =>
    simp only [trail, mem_cons] at onWay
    rcases onWay with rfl | below
    · exact .inl rfl
    cases stripped : strip label key with
    | none => simp [stripped] at below
    | some =>
      simp only [stripped] at below
      exact .inr (ih below)
  | branch _ ih =>
    cases key with
    | nil => simp [trail] at onWay
    | cons nibble _ =>
      simp only [trail, mem_cons] at onWay
      rcases onWay with rfl | below
      · exact .inl rfl
      · exact .inr ⟨nibble, ih nibble below⟩

end Tree

section

variable [Crypto]

def Tree.encodings (tree : Tree) : Set Bytes :=
  { encoding | ∃ node, Tree.HasNode node tree ∧ encoding = node.collapsed.encode }

theorem Expands.nodesTo {complete : Resolver} {own : FlagRule} {node : Node}
    (expands : Expands complete (CachesHash false) own node tree) (owner : Hash)
    (canon : tree.Canonical isTerminator ended) (reads : readsKey ended key)
    (enough : 2 * key.length + node.rank < fuel) :
    ∃ nodes, node.nodesTo complete owner fuel key = .ok nodes ∧
      nodes.map Node.proofHash = (tree.trail key).map fun passed =>
        (passed.collapsed, passed.reference false) := by
  induction expands generalizing ended fuel key with
  | nil =>
    cases fuel with
    | zero => omega
    | succ => cases key <;> exact ⟨[], rfl, by simp [trail]⟩
  | value =>
    cases canon
    cases nil_of_after_true reads
    exact ⟨[], by simp [Node.nodesTo], by simp [trail]⟩
  | @short _ label child flags _ _ below ih =>
    rcases canon with ⟨nonempty, _, _, start, canon⟩
    cases fuel with
    | zero => omega
    | succ =>
      cases key with
      | nil =>
        cases reads
        exact absurd (nil_of_after_true start) nonempty
      | cons nibble keyRest =>
        have hashed := (below.hash_eq).1
        by_cases front : label <+: nibble :: keyRest
        · rcases front with ⟨rest, split⟩
          rw [← split] at reads enough
          have remaining := after_below start reads
          rcases ih canon remaining
            (Expands.enough_below nonempty enough child) with ⟨nodes, collected, hashes⟩
          refine ⟨.shortNode label child flags :: nodes, ?_, ?_⟩
          · simp only [Node.nodesTo, ← split, prefix_append, drop_left, collected]
            rfl
          · simp only [map_cons, hashes, trail, ← split]
            simp [Node.proofHash, hashed, collapsed, reference]
        · refine ⟨[.shortNode label child flags], by simp [Node.nodesTo, front], ?_⟩
          simp [trail, strip_of_not_isPrefix front, Node.proofHash, hashed, collapsed, reference]
  | @full _ children flags _ _ below ih =>
    rcases canon with ⟨rfl, _, canon⟩
    cases fuel with
    | zero => omega
    | succ fuel =>
      cases key with
      | nil => cases reads
      | cons nibble _ =>
        have hashed := fun nibble => ((below nibble).hash_eq).1
        have small := (children nibble).rank_le
        simp only [length_cons] at enough
        rcases ih nibble (canon nibble) reads (show _ < fuel by omega) with
          ⟨nodes, collected, hashes⟩
        refine ⟨.fullNode children flags :: nodes, ?_, ?_⟩
        · simp only [Node.nodesTo, collected]
          rfl
        · simp only [map_cons, hashes, trail]
          simp [Node.proofHash, hashed, collapsed, reference]
  | @hash _ _ _ _ _ found loaded _ ih =>
    have unranked := loaded.rank_eq
    simp only [Node.rank] at enough
    cases fuel with
    | zero => omega
    | succ fuel =>
      cases key with
      | nil =>
        cases reads
        exact ⟨[], by simp [Node.nodesTo], by simp [trail_of_ended canon]⟩
      | cons =>
        rcases ih canon reads (show _ < fuel by omega) with ⟨nodes, collected, hashes⟩
        refine ⟨nodes, ?_, hashes⟩
        simp only [Node.nodesTo, resolveHash, found]
        exact collected

/-- From a node on the way, the rest of the key leads to the answer. -/
structure Tree.Continues (tree : Tree) (key : List Nibble) (limit : Nat) (next : Tree)
    (keyrest : List Nibble) : Prop where
  isNode : next.IsNode
  canonical : next.Canonical isTerminator false
  sliced : next.Sliced
  reads : readsKey false keyrest
  shorter : keyrest.length < limit
  referred : next.reference false = .hashNode (Crypto.keccak256 next.collapsed.encode)
  get_eq : next.get keyrest = tree.get key
  onWay : ∀ node ∈ next.trail keyrest, node ∈ tree.trail key
  inside : ∀ node, Tree.HasNode node next → Tree.HasNode node tree

/-- `get` finds the answer, or a hash node from which the rest of the key leads to it. -/
inductive Tree.Leads (tree : Tree) (key : List Nibble) (limit : Nat) :
    List Nibble → Node → Prop
  | absent {keyrest : List Nibble} (missing : tree.get key = none) :
      Tree.Leads tree key limit keyrest .nil
  | found {keyrest : List Nibble} {value : Bytes} (found : tree.get key = some value) :
      Tree.Leads tree key limit keyrest (.valueNode value)
  | hashed {keyrest : List Nibble} {next : Tree}
      (continues : tree.Continues key limit next keyrest) :
      Tree.Leads tree key limit keyrest (.hashNode (Crypto.keccak256 next.collapsed.encode))

namespace Tree

variable {tree child : Tree} {key rest keyrest : List Nibble} {limit more : Nat} {node : Node}
  {ended : Bool}

theorem Leads.lift (leads : child.Leads rest limit keyrest node)
    (get_eq : child.get rest = tree.get key)
    (onWay : ∀ node ∈ child.trail rest, node ∈ tree.trail key)
    (inside : ∀ node, HasNode node child → HasNode node tree) (atMost : limit ≤ more) :
    tree.Leads key more keyrest node := by
  cases leads with
  | absent missing => exact .absent (get_eq ▸ missing)
  | found found => exact .found (get_eq ▸ found)
  | hashed continues =>
    exact .hashed { continues with
        shorter := Nat.lt_of_lt_of_le continues.shorter atMost
        get_eq := continues.get_eq.trans get_eq
        onWay := fun node passed => onWay node (continues.onWay node passed)
        inside := fun node has => inside node (continues.inside node has) }

theorem get_link (canon : tree.Canonical isTerminator ended) (sliced : tree.Sliced)
    (reads : readsKey ended key) (decoded : tree.IsNode → ∃ keyrest node,
      (tree.decoded none).get true key = .ok (keyrest, node) ∧
        tree.Leads key key.length keyrest node) :
    ∃ keyrest node, tree.link.get true key = .ok (keyrest, node) ∧
      tree.Leads key (key.length + 1) keyrest node := by
  have ofNode : tree.IsNode → ended = false → ∃ keyrest node,
      tree.link.get true key = .ok (keyrest, node) ∧
        tree.Leads key (key.length + 1) keyrest node := by
    intro isNode started
    subst started
    rcases reference_cases isNode with hashed | ⟨same, _⟩
    · refine ⟨key, .hashNode (keccak256 tree.collapsed.encode), ?_, ?_⟩
      · simp [link, hashed, RawNode.linked, Node.get]
      · exact .hashed ⟨isNode, canon, sliced, reads, Nat.lt_succ_self _, hashed, rfl,
          fun _ passed => passed, fun _ has => has⟩
    · rw [link_of_embedded isNode same]
      rcases decoded isNode with ⟨keyrest, node, got, leads⟩
      exact ⟨keyrest, node, got, leads.lift rfl (fun _ passed => passed) (fun _ has => has)
        (Nat.le_succ _)⟩
  cases tree with
  | empty => exact ⟨key, .nil, rfl, .absent rfl⟩
  | leaf value =>
    cases canon
    cases nil_of_after_true reads
    exact ⟨[], .valueNode value, rfl, .found rfl⟩
  | path =>
    cases ended with
    | false => exact ofNode trivial rfl
    | true => exact absurd trivial (not_isNode_of_ended canon)
  | branch => exact ofNode trivial canon.1

theorem get_decoded (canon : tree.Canonical isTerminator ended) (sliced : tree.Sliced)
    (reads : readsKey ended key) (isNode : tree.IsNode) (hash : Option Hash) :
    ∃ keyrest node, (tree.decoded hash).get true key = .ok (keyrest, node) ∧
      tree.Leads key key.length keyrest node := by
  induction tree generalizing ended key hash with
  | empty | leaf => exact absurd isNode id
  | path label _ ih =>
    rcases canon with ⟨nonempty, _, _, start, canon⟩
    by_cases front : label <+: key
    · rcases front with ⟨rest, rfl⟩
      have remaining := after_below start reads
      rcases get_link canon sliced.2 remaining
        (fun childNode => ih canon sliced.2 remaining childNode none) with
        ⟨keyrest, node, got, leads⟩
      refine ⟨keyrest, node, ?_, ?_⟩
      · simp only [decoded, Node.get, prefix_append, drop_left]
        exact got
      · have positive := length_pos_of_ne_nil nonempty
        apply leads.lift
        · simp [RadixTree.get]
        · intro passed onWay
          simp [trail, onWay]
        · exact fun _ has => .inr has
        · simp only [length_append]
          omega
    · refine ⟨[], .nil, by simp [decoded, Node.get, front], .absent ?_⟩
      simp [RadixTree.get, strip_of_not_isPrefix front]
  | branch _ ih =>
    rcases canon with ⟨rfl, _, canon⟩
    cases key with
    | nil => cases reads
    | cons nibble _ =>
      rcases get_link (canon nibble) (sliced nibble) reads
        (fun childNode => ih nibble (canon nibble) (sliced nibble) reads childNode none)
        with ⟨keyrest, node, got, leads⟩
      refine ⟨keyrest, node, ?_, ?_⟩
      · exact got
      · apply leads.lift
        · rfl
        · intro passed onWay
          simp [trail, onWay]
        · exact fun _ has => .inr ⟨nibble, has⟩
        · simp

variable {proofDb : ProofDb}

section

variable (canon : tree.Canonical isTerminator false) (sliced : tree.Sliced)
  (isNode : tree.IsNode) (reads : readsKey false key)
include canon sliced isNode reads

theorem verifyFrom_node
    (stored : proofDb (keccak256 tree.collapsed.encode) = some tree.collapsed.encode) :
    (∀ fuel index, verifyFrom proofDb (fuel + 1) index
        (keccak256 tree.collapsed.encode) key = .ok (tree.get key)) ∨
      ∃ next keyrest, tree.Continues key key.length next keyrest ∧
        ∀ fuel index, verifyFrom proofDb (fuel + 1) index
            (keccak256 tree.collapsed.encode) key =
          verifyFrom proofDb fuel (index + 1) (keccak256 next.collapsed.encode)
            keyrest := by
  rcases get_decoded canon sliced reads isNode
    (some (keccak256 tree.collapsed.encode)) with ⟨keyrest, node, got, leads⟩
  have decodes := decodeNode_collapsed canon sliced isNode (some (keccak256 tree.collapsed.encode))
  cases leads with
  | absent missing =>
    left
    simp [verifyFrom, stored, decodes, got, missing]
  | found found =>
    left
    simp [verifyFrom, stored, decodes, got, found]
  | @hashed next continues =>
    right
    refine ⟨next, keyrest, continues, ?_⟩
    simp [verifyFrom, stored, decodes, got]

theorem verifyFrom_sound {base : Tree}
    (addressed : ∀ hash encoding, proofDb hash = some encoding → keccak256 encoding = hash)
    (unique : Set.InjOn keccak256
      (base.encodings ∪ { encoding | ∃ hash, proofDb hash = some encoding }))
    (inside : ∀ node, HasNode node tree → HasNode node base) {index : Nat} {answer : Option Bytes}
    (accepted : verifyFrom proofDb fuel index (keccak256 tree.collapsed.encode) key =
      .ok answer) : answer = tree.get key := by
  induction fuel generalizing tree key index with
  | zero => cases accepted
  | succ _ ih =>
    cases looked : proofDb (keccak256 tree.collapsed.encode) with
    | none =>
      simp only [verifyFrom, looked] at accepted
      cases accepted
    | some encoding =>
      -- the entry is the encoding of the node: both have the hash that was asked for
      have same : encoding = tree.collapsed.encode :=
        unique (.inr ⟨_, looked⟩) (.inl ⟨tree, inside tree (hasNode_self isNode), rfl⟩)
          (addressed _ _ looked)
      rw [same] at looked
      rcases verifyFrom_node canon sliced isNode reads looked with
        answers | ⟨next, keyrest, continues, goesOn⟩
      · rw [answers] at accepted
        exact (Except.ok.inj accepted).symm
      · rw [goesOn] at accepted
        rw [← continues.get_eq]
        exact ih continues.canonical continues.sliced continues.isNode continues.reads
          (fun node has => inside node (continues.inside node has)) accepted

theorem verifyFrom_complete
    (stored : proofDb (keccak256 tree.collapsed.encode) = some tree.collapsed.encode)
    (provided : ∀ node ∈ tree.trail key,
      node.reference false = .hashNode (keccak256 node.collapsed.encode) →
        proofDb (keccak256 node.collapsed.encode) = some node.collapsed.encode)
    (enough : key.length < fuel) (index : Nat) :
    verifyFrom proofDb fuel index (keccak256 tree.collapsed.encode) key = .ok (tree.get key) := by
  induction fuel generalizing tree key index with
  | zero => omega
  | succ fuel ih =>
    rcases verifyFrom_node canon sliced isNode reads stored with
      answers | ⟨next, keyrest, continues, goesOn⟩
    · exact answers fuel index
    have shorter := continues.shorter
    have first : next ∈ next.trail keyrest := by
      rcases trail_eq_cons continues.isNode continues.reads with ⟨_, split⟩
      simp [split]
    rw [goesOn, ← continues.get_eq]
    apply ih continues.canonical continues.sliced continues.isNode continues.reads
    · exact provided next (continues.onWay next first) continues.referred
    · exact fun node passed => provided node (continues.onWay node passed)
    · omega

end

/-- The encodings that a proof has for the nodes on the way: those that are not
embedded, and the root. -/
def proofEncodings (trees : List Tree) : List Bytes :=
  trees.zipIdx.filterMap fun (node, index) =>
    if node.collapsed.encode.length < 32 ∧ index ≠ 0 then none else some node.collapsed.encode

theorem proofEntry_node (isNode : tree.IsNode) (index : Nat) :
    proofEntry index (tree.collapsed, tree.reference false) =
      (if tree.collapsed.encode.length < 32 ∧ index ≠ 0 then none
        else some tree.collapsed.encode).map fun encoding =>
          (keccak256 encoding, encoding) := by
  rw [reference_of_isNode isNode, RawNode.toHash]
  by_cases short : tree.collapsed.encode.length < 32
  · have unhashed : tree.collapsed.asHash = none := by
      cases tree with
      | empty | leaf => exact absurd isNode id
      | path | branch => rfl
    by_cases root : index = 0
    · simp [proofEntry, short, unhashed]
    · simp [proofEntry, short, unhashed]
  · simp [proofEntry, short, RawNode.asHash]

theorem entries_eq (nodes : ∀ node ∈ trees, node.IsNode) :
    ((trees.map fun passed => (passed.collapsed, passed.reference false)).zipIdx.filterMap
        fun (node, index) => proofEntry index node) =
      (proofEncodings trees).map fun encoding => (keccak256 encoding, encoding) := by
  rw [proofEncodings, map_filterMap, zipIdx_map, filterMap_map]
  apply filterMap_congr
  rintro ⟨node, index⟩ numbered
  exact proofEntry_node (nodes node (fst_mem_of_mem_zipIdx numbered)) index

theorem mem_proofEncodings {encoding : Bytes} (wrote : encoding ∈ proofEncodings trees) :
    ∃ node ∈ trees, encoding = node.collapsed.encode := by
  rcases mem_filterMap.mp wrote with ⟨⟨node, _⟩, numbered, kept⟩
  refine ⟨node, fst_mem_of_mem_zipIdx numbered, ?_⟩
  simp only at kept
  split at kept
  · cases kept
  · exact (Option.some.inj kept).symm

theorem mem_proofEncodings_of_hashed {node : Tree} (passed : node ∈ trees) (isNode : node.IsNode)
    (hashed : node.reference false = .hashNode (keccak256 node.collapsed.encode)) :
    node.collapsed.encode ∈ proofEncodings trees := by
  rcases mem_iff_getElem?.mp passed with ⟨index, at_index⟩
  refine mem_filterMap.mpr ⟨(node, index), mk_mem_zipIdx_iff_getElem?.mpr at_index, ?_⟩
  have long : ¬ node.collapsed.encode.length < 32 := by
    intro short
    rw [reference_of_isNode isNode, RawNode.toHash, if_pos ⟨short, rfl⟩] at hashed
    cases node with
    | empty | leaf => exact absurd isNode id
    | path | branch => cases hashed
  simp [long]

theorem mem_proofEncodings_head (tree : Tree) (trees : List Tree) :
    tree.collapsed.encode ∈ proofEncodings (tree :: trees) := by
  simp [proofEncodings]

end Tree

namespace Trie

variable {complete : Resolver} {trie : Trie} {tree : Tree} {contents : Contents}

theorem Holds.prove (holds : trie.Holds complete (CachesHash false) (CachesHash true) tree)
    (key : Bytes) (proofDb : ProofDb) :
    trie.prove complete key 0 proofDb =
      .ok (keepAll keccak256 (proofEncodings (tree.trail (keybytesToHex key)))
        proofDb) := by
  have small := trie.root.rank_le
  rcases holds.expands.nodesTo trie.owner holds.proper.canonical (readsKey_keybytesToHex key)
    (show _ < depth (keybytesToHex key) by simp only [depth]; omega) with
    ⟨nodes, collected, hashes⟩
  have nodesOnWay : ∀ node ∈ tree.trail (keybytesToHex key), node.IsNode :=
    fun node onWay => isNode_of_hasNode (hasNode_of_mem_trail onWay)
  simp only [Trie.prove, collected, hashes, drop_zero, entries_eq nodesOnWay, bind, Except.bind,
    foldl_map]
  rfl

end Trie

def Contents.Sliced (contents : Contents) : Prop :=
  ∀ key value, contents key = some value → key.length < maxAlloc ∧ value.length < maxAlloc

def Contents.encodings (contents : Contents) : Set Bytes :=
  { encoding | ∃ tree : Tree, tree.Proper ∧ tree.contents = contents ∧ encoding ∈ tree.encodings }

def CollisionFree (inputs : Set Bytes) : Prop :=
  Set.InjOn Crypto.keccak256 inputs

def ProofDb.entries (proofDb : ProofDb) : Set Bytes :=
  { encoding | ∃ hash, proofDb hash = some encoding }

def ProofDb.Addressed (proofDb : ProofDb) : Prop :=
  ∀ hash encoding, proofDb hash = some encoding → Crypto.keccak256 encoding = hash

omit [Crypto] in
theorem Tree.sliced_of_get (canon : tree.Canonical isTerminator ended)
    (fits : ∀ hex value, tree.get hex = some value →
      hex.length ≤ 2 * maxAlloc ∧ value ≠ [] ∧ value.length < maxAlloc) : tree.Sliced := by
  induction tree generalizing ended with
  | empty => trivial
  | leaf value => exact (fits [] value rfl).2
  | path label child ih =>
    rcases canon with ⟨_, stem, _, _, canon⟩
    have below : ∀ hex value, child.get hex = some value →
        (RadixTree.path label child).get (label ++ hex) = some value := by
      simp [RadixTree.get]
    rcases exists_get canon stem.ne_empty with ⟨key, value, found⟩
    refine ⟨?_, ih canon ?_⟩
    · have whole := (fits _ _ (below key value found)).1
      simp only [length_append] at whole
      omega
    · intro hex value found
      rcases fits _ _ (below hex value found) with ⟨whole, rest⟩
      simp only [length_append] at whole
      exact ⟨by omega, rest⟩
  | branch _ ih =>
    rcases canon with ⟨_, _, canon⟩
    intro nibble
    apply ih nibble (canon nibble)
    intro hex value found
    rcases fits (nibble :: hex) value found with ⟨whole, rest⟩
    simp only [length_cons] at whole
    exact ⟨by omega, rest⟩

theorem Contents.encodings_contents (proper : tree.Proper) :
    tree.contents.encodings = tree.encodings := by
  ext encoding
  constructor
  · rintro ⟨other, otherProper, same, encodes⟩
    rwa [eq_of_contents_eq otherProper proper same] at encodes
  · exact fun encodes => ⟨tree, proper, rfl, encodes⟩

omit [Crypto] in
theorem Contents.Sliced.tryUpdate {contents : Contents} (sliced : contents.Sliced)
    {key value : Bytes} (keySmall : key.length < maxAlloc) (valueSmall : value.length < maxAlloc) :
    (contents.call (.tryUpdate key value)).2.Sliced := by
  intro other found here
  by_cases same : other = key
  · subst same
    simp only [Contents.call, Function.update_self] at here
    split_ifs at here
    cases here
    exact ⟨keySmall, valueSmall⟩
  · simp only [Contents.call, Function.update_of_ne same] at here
    exact sliced other found here

omit [Crypto] in
theorem Tree.Proper.sliced (proper : tree.Proper) (sliced : tree.contents.Sliced) :
    tree.Sliced := by
  apply sliced_of_get proper.canonical
  intro hex value found
  rcases proper.whole hex value found with ⟨key, rfl⟩
  rcases sliced key value found with ⟨_, valueSmall⟩
  refine ⟨?_, proper.nonempty _ _ found, valueSmall⟩
  have two : ∀ byte : Byte, (byteNibbles byte).length = 2 := fun _ => rfl
  simp only [keybytesToHex, length_append, length_flatMap, two, map_const',
    sum_replicate, length_cons, length_nil, smul_eq_mul]
  omega

namespace Trie

variable {complete : Resolver} {trie : Trie} {contents : Contents}

/-- The proof that `Prove` writes verifies against the hash of the trie and gives the value of
the key, or its absence; and whatever proof is given, with each entry under its hash, an
answer that verifies is that of the trie. -/
theorem verifyProof_prove_and_sound (reachable : Reachable complete trie contents)
    (present : contents ≠ fun _ => none) (sliced : contents.Sliced) (key : Bytes) :
    ∃ root, trie.hash.1 = .ok root ∧ (CollisionFree contents.encodings →
        ∃ proof, trie.prove complete key 0 (fun _ => none) = .ok proof ∧
          ∃ fuel, ∀ more, verifyProof (fuel + more) root key proof = .ok (contents key)) ∧
      ∀ proof : ProofDb, proof.Addressed → CollisionFree (contents.encodings ∪ proof.entries) →
        ∀ fuel answer, verifyProof fuel root key proof = .ok answer → answer = contents key := by
  rcases reachable.holds with ⟨tree, rfl, holds⟩
  have slicedTree := holds.proper.sliced sliced
  have isNode : tree.IsNode := by
    cases tree with
    | empty => exact absurd rfl present
    | leaf => exact absurd holds.proper.canonical (by simp [RadixTree.Canonical])
    | path | branch => trivial
  have root : tree.root = Crypto.keccak256 tree.collapsed.encode := by
    cases tree with
    | empty => exact absurd isNode id
    | leaf | path | branch => rfl
  have own : tree.encodings ⊆ tree.contents.encodings :=
    (Contents.encodings_contents holds.proper).ge
  have reads := readsKey_keybytesToHex key
  refine ⟨tree.root, holds.hash.1, ?_, ?_⟩
  · intro unique
    have onTree : ∀ encoding ∈ proofEncodings (tree.trail (keybytesToHex key)),
        encoding ∈ tree.encodings := by
      intro encoding written
      rcases mem_proofEncodings written with ⟨node, onWay, rfl⟩
      exact ⟨node, hasNode_of_mem_trail onWay, rfl⟩
    have nothing : Addressed Crypto.keccak256 tree.encodings fun _ => none :=
      ⟨fun _ _ found => (nomatch found), fun _ _ found => (nomatch found)⟩
    have stored := (nothing.lookup_keepAll (unique.mono own) onTree).2
    refine ⟨_, holds.prove key _, (keybytesToHex key).length + 1, ?_⟩
    intro more
    rw [root]
    apply verifyFrom_complete holds.proper.canonical slicedTree isNode reads
    · apply stored
      rcases trail_eq_cons isNode reads with ⟨below, split⟩
      rw [split]
      exact mem_proofEncodings_head tree below
    · intro node onWay hashed
      exact stored _ (mem_proofEncodings_of_hashed onWay
        (isNode_of_hasNode (hasNode_of_mem_trail onWay)) hashed)
    · omega
  · intro proof addressed unique fuel answer accepted
    rw [root] at accepted
    exact verifyFrom_sound holds.proper.canonical slicedTree isNode reads addressed
      (unique.mono (Set.union_subset_union_left _ own)) (fun _ has => has) accepted

end Trie

end

/-- A hash that numbers the strings, and tells those of up to 31 bytes apart. -/
@[reducible]
def numberingCrypto : Crypto :=
  { sampleCrypto with keccak256 := fun bytes => BitVec.ofNat 256 (Bytes.toNat (1 :: bytes)) }

theorem numbering_toNat {bytes : Bytes} (short : bytes.length ≤ 31) :
    (numberingCrypto.keccak256 bytes).toNat = Bytes.toNat (1 :: bytes) := by
  have below := Bytes.toNat_lt (1 :: bytes)
  have power : 256 ^ (1 :: bytes).length ≤ 256 ^ 32 :=
    Nat.pow_le_pow_right (by decide) (by rw [length_cons]; omega)
  change (BitVec.ofNat 256 _).toNat = _
  rw [BitVec.toNat_ofNat, Nat.mod_eq_of_lt (by omega)]

theorem numbering_collisionFree {inputs : Set Bytes} (short : ∀ input ∈ inputs, input.length ≤ 31) :
    @CollisionFree numberingCrypto inputs := by
  intro first isFirst second isSecond same
  have numbers := congrArg BitVec.toNat same
  rw [numbering_toNat (short first isFirst), numbering_toNat (short second isSecond)] at numbers
  have spelled := congrArg Rlp.digits numbers
  rw [Rlp.digits_toNat (by simp [Bytes.Canonical]), Rlp.digits_toNat (by simp [Bytes.Canonical])]
    at spelled
  exact (cons.inj spelled).2

namespace Trie

def samplePair : Tree :=
  RadixTree.insert (RadixTree.insert .empty (keybytesToHex [0x05]) [7]) (keybytesToHex [0x15]) [8]

theorem short_samplePair {node : Tree} (has : HasNode node samplePair) :
    (@RawNode.encode (@Tree.collapsed numberingCrypto node)).length ≤ 31 := by
  rcases has with rfl | ⟨nibble, below⟩
  · decide +kernel
  · rcases hasNode_pair below with (rfl | none) | (rfl | none)
    · decide +kernel
    · exact absurd none id
    · decide +kernel
    · exact absurd none id

def samplePairContents : Contents :=
  (((contents .empty).call (.tryUpdate [0x05] [7])).2.call (.tryUpdate [0x15] [8])).2

theorem contents_samplePair : contents samplePair = samplePairContents := by
  rw [samplePair, contents_insert (proper_insert proper_empty [0x05] (by simp)),
    contents_insert proper_empty]
  rfl

theorem encodings_samplePairContents :
    letI := numberingCrypto
    ∀ encoding ∈ samplePairContents.encodings, encoding.length ≤ 31 := by
  let crypto := numberingCrypto
  have proper : samplePair.Proper :=
    proper_insert (proper_insert proper_empty [0x05] (by simp)) [0x15] (by simp)
  rw [← contents_samplePair, Contents.encodings_contents proper]
  rintro _ ⟨node, has, rfl⟩
  exact short_samplePair has

theorem sliced_empty : (contents .empty).Sliced :=
  fun _ _ found => nomatch found

theorem samplePairContents_sliced : samplePairContents.Sliced :=
  (sliced_empty.tryUpdate (by decide) (by decide)).tryUpdate (by decide) (by decide)

def sampleProof : ProofDb :=
  keepAll numberingCrypto.keccak256
    [[0xc2, 0x35, 9], [0xd5, 0xc2, 0x35, 7, 0xc2, 0x35, 8] ++ replicate 15 0x80] fun _ => none

theorem sampleProof_addressed : Addressed numberingCrypto.keccak256
    { entry | entry.length ≤ 31 } sampleProof := by
  have nothing : Addressed numberingCrypto.keccak256 { entry | entry.length ≤ 31 } fun _ => none :=
    ⟨fun _ _ found => (nomatch found), fun _ _ found => (nomatch found)⟩
  apply nothing.kept
  simp

theorem sample_verifyProof_prove_and_sound :
    letI := numberingCrypto
    ∃ root, sampleHashed.hash.1 = .ok root ∧
      (∃ proof, sampleHashed.prove sampleNoNodes [0x15] 0 (fun _ => none) = .ok proof ∧
        ∃ fuel, verifyProof fuel root [0x15] proof = .ok (some [8])) ∧
      ∀ fuel answer, verifyProof fuel root [0x25] sampleProof = .ok answer → answer = none := by
  let crypto := numberingCrypto
  have present : samplePairContents ≠ fun _ => none :=
    fun nothing => nomatch congrFun nothing [0x05]
  rcases verifyProof_prove_and_sound reachable_sampleHashed present samplePairContents_sliced
    [0x15] with ⟨root, hashed, complete, -⟩
  rcases verifyProof_prove_and_sound reachable_sampleHashed present samplePairContents_sliced
    [0x25] with ⟨other, otherHashed, -, sound⟩
  cases hashed.symm.trans otherHashed
  rcases complete (numbering_collisionFree encodings_samplePairContents) with
    ⟨proof, proved, fuel, verifies⟩
  refine ⟨root, hashed, ⟨proof, proved, fuel, verifies 0⟩, ?_⟩
  apply sound sampleProof sampleProof_addressed.digest_eq
  apply numbering_collisionFree
  rintro entry (isNode | ⟨_, found⟩)
  · exact encodings_samplePairContents entry isNode
  · exact sampleProof_addressed.mem _ _ found

end Trie

variable [Crypto]

/-- The hash tells the encodings apart, and from the empty trie. -/
structure Unambiguous (encodings : Set Bytes) : Prop where
  collisionFree : CollisionFree encodings
  nonempty : ∀ encoding ∈ encodings, Crypto.keccak256 encoding ≠ emptyRoot

theorem Unambiguous.mono {fewer encodings : Set Bytes} (free : Unambiguous encodings)
    (within : fewer ⊆ encodings) : Unambiguous fewer :=
  ⟨free.collisionFree.mono within, fun encoding mem => free.nonempty encoding (within mem)⟩

namespace Tree

variable {tree other : Tree} {hash : Hash} {encoding : Bytes}

open Classical in
noncomputable def nodeDb (tree : Tree) : ProofDb := fun hash =>
  if found : ∃ encoding ∈ tree.encodings, Crypto.keccak256 encoding = hash then some found.choose
  else none

theorem mem_of_nodeDb (found : tree.nodeDb hash = some encoding) :
    encoding ∈ tree.encodings ∧ Crypto.keccak256 encoding = hash := by
  rw [nodeDb] at found
  split_ifs at found with here
  cases found
  exact here.choose_spec

theorem nodeDb_of_mem (free : CollisionFree tree.encodings) (mem : encoding ∈ tree.encodings) :
    tree.nodeDb (Crypto.keccak256 encoding) = some encoding := by
  have here : ∃ other ∈ tree.encodings, Crypto.keccak256 other = Crypto.keccak256 encoding :=
    ⟨encoding, mem, rfl⟩
  rw [nodeDb, dif_pos here, free here.choose_spec.1 mem here.choose_spec.2]

theorem Proper.hashed (proper : tree.Proper) (here : tree ≠ .empty) :
    tree.IsNode ∧ tree.root = Crypto.keccak256 tree.collapsed.encode := by
  cases tree with
  | empty => exact absurd rfl here
  | leaf => exact absurd proper.canonical (by simp [RadixTree.Canonical])
  | path | branch => exact ⟨trivial, rfl⟩

theorem eq_of_root_eq (proper : tree.Proper) (otherProper : other.Proper) (sliced : tree.Sliced)
    (otherSliced : other.Sliced) (free : Unambiguous (tree.encodings ∪ other.encodings))
    (same : tree.root = other.root) : tree = other := by
  have apart : ∀ tree : Tree, tree.Proper → Unambiguous tree.encodings → tree ≠ .empty →
      tree.root ≠ emptyRoot := by
    intro tree proper free here
    rcases proper.hashed here with ⟨isNode, root⟩
    rw [root]
    exact free.nonempty _ ⟨tree, hasNode_self isNode, rfl⟩
  by_cases here : tree = .empty
  · by_contra differ
    subst here
    exact apart other otherProper (free.mono Set.subset_union_right) (Ne.symm differ) same.symm
  by_cases otherHere : other = .empty
  · subst otherHere
    exact absurd same (apart tree proper (free.mono Set.subset_union_left) here)
  rcases proper.hashed here with ⟨isNode, root⟩
  rcases otherProper.hashed otherHere with ⟨otherNode, otherRoot⟩
  rw [root, otherRoot] at same
  apply eq_of_contents_eq proper otherProper
  funext key
  have stored : ∀ node, HasNode node tree →
      tree.nodeDb (Crypto.keccak256 node.collapsed.encode) = some node.collapsed.encode :=
    fun node has => nodeDb_of_mem (free.mono Set.subset_union_left).collisionFree ⟨node, has, rfl⟩
  have answers := verifyFrom_complete proper.canonical sliced isNode (readsKey_keybytesToHex key)
    (stored tree (hasNode_self isNode))
    (fun node onWay _ => stored node (hasNode_of_mem_trail onWay)) (Nat.lt_succ_self _) 0
  rw [same] at answers
  refine verifyFrom_sound otherProper.canonical otherSliced otherNode (readsKey_keybytesToHex key)
    (fun _ _ found => (mem_of_nodeDb found).2) (free.collisionFree.mono ?_) (fun _ has => has)
    answers
  rintro encoding (isOther | ⟨_, found⟩)
  · exact .inr isOther
  · exact .inl (mem_of_nodeDb found).1

end Tree

namespace Trie

/-- Two tries have the same hash exactly if they have the same contents. -/
theorem hash_eq_iff_contents {complete otherComplete : Resolver} {trie other : Trie}
    {contents otherContents : Contents} (reachable : Reachable complete trie contents)
    (otherReachable : Reachable otherComplete other otherContents) (sliced : contents.Sliced)
    (otherSliced : otherContents.Sliced)
    (free : Unambiguous (contents.encodings ∪ otherContents.encodings)) :
    trie.hash.1 = other.hash.1 ↔ contents = otherContents := by
  rcases reachable.holds with ⟨tree, rfl, holds⟩
  rcases otherReachable.holds with ⟨otherTree, rfl, otherHolds⟩
  rw [holds.hash.1, otherHolds.hash.1, Except.ok.injEq]
  constructor
  · intro same
    rw [Tree.eq_of_root_eq holds.proper otherHolds.proper (holds.proper.sliced sliced)
      (otherHolds.proper.sliced otherSliced) (by
        rwa [Contents.encodings_contents holds.proper,
          Contents.encodings_contents otherHolds.proper] at free) same]
  · intro same
    rw [Tree.eq_of_contents_eq holds.proper otherHolds.proper same]

omit [Crypto] in
theorem numbering_ne_emptyRoot {bytes : Bytes} (short : bytes.length ≤ 31) :
    numberingCrypto.keccak256 bytes ≠ emptyRoot := by
  intro same
  have number := numbering_toNat short
  have below := Bytes.toNat_lt bytes
  have power : 256 ^ bytes.length ≤ 256 ^ 31 := Nat.pow_le_pow_right (by decide) short
  have root : 2 * 256 ^ 31 ≤ emptyRoot.toNat := by decide
  rw [same, Bytes.toNat_cons, show (1 : Byte).toNat = 1 from rfl] at number
  omega

def sampleSingle : Trie :=
  (sampleEmpty.call sampleNoNodes (.tryUpdate [0x05] [7])).2

omit [Crypto] in
theorem sample_hash_ne :
    letI := numberingCrypto
    sampleSingle.hash.1 ≠ sampleHashed.hash.1 := by
  let crypto := numberingCrypto
  have single : ∀ encoding ∈ ((Tree.contents .empty).call (.tryUpdate [0x05] [7])).2.encodings,
      encoding.length ≤ 31 := by
    have inserted : ((Tree.contents .empty).call (.tryUpdate [0x05] [7])).2 =
        Tree.contents (.insert .empty (keybytesToHex [0x05]) [7]) :=
      (Tree.contents_insert Tree.proper_empty [0x05] [7]).symm
    rw [inserted, Contents.encodings_contents (Tree.proper_insert Tree.proper_empty _ (by simp))]
    rintro _ ⟨node, rfl | below, rfl⟩
    · decide +kernel
    · exact absurd below id
  have short : ∀ encoding ∈ ((Tree.contents .empty).call (.tryUpdate [0x05] [7])).2.encodings ∪
      samplePairContents.encodings, encoding.length ≤ 31 :=
    fun encoding mem => mem.elim (single encoding) (encodings_samplePairContents encoding)
  intro same
  have equal := (hash_eq_iff_contents (reachable_sampleEmpty.called (.tryUpdate [0x05] [7]))
    reachable_sampleHashed (sliced_empty.tryUpdate (by decide) (by decide)) samplePairContents_sliced
    ⟨numbering_collisionFree short, fun encoding mem =>
      numbering_ne_emptyRoot (short encoding mem)⟩).mp same
  cases congrFun equal [0x15]

end Trie

end Octopus
