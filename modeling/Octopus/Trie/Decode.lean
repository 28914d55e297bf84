import Mathlib.Algebra.Group.Action.Defs
import Mathlib.Algebra.Order.BigOperators.Group.List
import Octopus.Rlp.Decode
import Octopus.Trie.Hasher

/-!
# Decoding trie nodes

The decoded node of a tree has its hashed subtrees behind hash nodes.  A buffer is as long
as the largest allocation allows, which keeps all sizes of an encoding in range.
-/

namespace Octopus

open Library Rlp Octopus.Tree RawNode List

variable {tree : Tree} {trees : Nibble → Tree} {nibble : Nibble}

inductive DecodeFault where
  | unexpectedEOF
  | decodeError (error : Rlp.SplitError)
  | invalidListElements (count : Nat)
  | invalidValueNode (error : Rlp.SplitError)
  | oversizedEmbeddedNode (size : Nat)
  | invalidStringSize (size : Nat)
  | split (error : Rlp.SplitError)
  deriving DecidableEq

open DecodeFault

inductive DecodeContext where
  | short
  | full
  | val
  | child (index : Nibble)
  deriving DecidableEq

/-- The errors of `decodeNode`; the stack is that of a `decodeError`, and empty
for other errors. -/
structure DecodeError where
  what : DecodeFault
  stack : List DecodeContext
  deriving DecidableEq

def DecodeFault.bare (fault : DecodeFault) : DecodeError where
  what := fault
  stack := []

def wrapError {Value : Type} (context : DecodeContext) :
    Except DecodeError Value → Except DecodeError Value
  | .ok value => .ok value
  | .error error => .error { error with stack := error.stack ++ [context] }

def liftSplit {Value : Type} (fault : Rlp.SplitError → DecodeFault) :
    Except Rlp.SplitError Value → Except DecodeError Value
  | .ok value => .ok value
  | .error error => .error (fault error).bare

section Decoding

variable (embedded : Bytes → Except DecodeError Node)

def decodeRef (buffer : Bytes) : Except DecodeError (Node × Bytes) := do
  let (kind, val, rest) ← liftSplit .split (Rlp.split buffer)
  if kind = .list then
    let size := buffer.length - rest.length
    if size > 32 then .error (oversizedEmbeddedNode size).bare
    else do
      let node ← embedded buffer
      .ok (node, rest)
  else if kind = .string ∧ val.length = 0 then .ok (.nil, rest)
  else if kind = .string ∧ val.length = 32 then .ok (.hashNode val.toWord, rest)
  else .error (invalidStringSize val.length).bare

def decodeShort (hash : Option Hash) (elems : Bytes) : Except DecodeError Node := do
  let (kbuf, rest) ← liftSplit .split (Rlp.splitString elems)
  let key := compactToHex kbuf
  if hasTerm key then do
    let (val, _) ← liftSplit .invalidValueNode (Rlp.splitString rest)
    .ok (.shortNode key (.valueNode val) ⟨hash, false⟩)
  else do
    let (child, _) ← wrapError .val (decodeRef embedded rest)
    .ok (.shortNode key child ⟨hash, false⟩)

def decodeChildren : List Nibble → (Nibble → Node) → Bytes →
    Except DecodeError ((Nibble → Node) × Bytes)
  | [], children, elems => .ok (children, elems)
  | nibble :: nibbles, children, elems => do
      let (child, rest) ← wrapError (.child nibble) (decodeRef embedded elems)
      decodeChildren nibbles (Function.update children nibble child) rest

def childNibbles : List Nibble :=
  (List.finRange 17).take 16

def decodeFull (hash : Option Hash) (elems : Bytes) : Except DecodeError Node := do
  let (children, rest) ← decodeChildren embedded childNibbles (fun _ => .nil) elems
  let (val, _) ← liftSplit .split (Rlp.splitString rest)
  .ok (.fullNode
    (if val.length > 0 then Function.update children terminator (.valueNode val) else children)
    ⟨hash, false⟩)

def decodeElements (hash : Option Hash) (buffer : Bytes) : Except DecodeError Node :=
  if buffer.length = 0 then .error unexpectedEOF.bare
  else do
    let (elems, _) ← liftSplit .decodeError (Rlp.splitList buffer)
    -- an error in the elements counts as none
    match (Rlp.countValues elems).toOption.getD 0 with
    | 2 => wrapError .short (decodeShort embedded hash elems)
    | 17 => wrapError .full (decodeFull embedded hash elems)
    | count => .error (invalidListElements count).bare

end Decoding

def decodeWithin : Nat → Option Hash → Bytes → Except DecodeError Node
  | 0, _, _ => .error unexpectedEOF.bare
  | rounds + 1, hash, buffer => decodeElements (decodeWithin rounds none) hash buffer

/-- `decodeNode`; an embedded node is shorter than its buffer, which bounds the recursion. -/
def decodeNode (hash : Option Hash) (buffer : Bytes) : Except DecodeError Node :=
  decodeWithin (buffer.length + 1) hash buffer

theorem finRange_eq_childNibbles : finRange 17 = childNibbles ++ [terminator] := by
  decide

theorem mem_childNibbles : nibble ∈ childNibbles ↔ nibble ≠ terminator := by
  revert nibble
  decide

theorem isTerminator_of_mem (isChild : nibble ∈ childNibbles) : isTerminator nibble = false :=
  beq_eq_false_iff_ne.mpr (mem_childNibbles.mp isChild)

def Tree.Sliced : Tree → Prop
  | .empty => True
  | .leaf value => value ≠ [] ∧ value.length < maxAlloc
  | .path label child => label.length ≤ 2 * maxAlloc ∧ Tree.Sliced child
  | .branch children => ∀ nibble, Tree.Sliced (children nibble)

theorem length_decodeNibbles_le (nibbles : List Nibble) :
    (decodeNibbles nibbles).length ≤ nibbles.length := by
  induction nibbles using decodeNibbles.induct with
  | case1 =>
    simp only [decodeNibbles, length_cons]
    omega
  | case2 => simp [decodeNibbles]

theorem length_hexToCompact_le (hex : List Nibble) :
    (hexToCompact hex).length ≤ hex.length + 1 := by
  have short : (if hasTerm hex then hex.dropLast else hex).length ≤ hex.length := by split <;> simp
  rw [hexToCompact]
  generalize (if hasTerm hex then hex.dropLast else hex) = body at short
  cases body with
  | nil => simp
  | cons first rest =>
    have packed := length_decodeNibbles_le rest
    have all := length_decodeNibbles_le (first :: rest)
    simp only [length_cons] at short all ⊢
    split <;> simp only [length_cons] <;> omega

theorem length_hexToCompact_lt {hex : List Nibble} (small : hex.length ≤ 2 * maxAlloc) :
    (hexToCompact hex).length < 2 ^ 64 := by
  have := length_hexToCompact_le hex
  simp only [maxAlloc] at small
  omega

@[simp]
theorem RawNode.encode_orNilValueNode (nibble : Nibble) (raw : RawNode) :
    (raw.orNilValueNode nibble).encode = raw.encode := by
  cases raw with
  | nil =>
    simp only [orNilValueNode]
    split <;> rfl
  | _ => rfl

variable [Crypto]

namespace Tree

def payload : Tree → Bytes
  | .path label child => Rlp.writeBytes (hexToCompact label) ++ (reference child false).encode
  | .branch children =>
    (List.finRange 17).flatMap fun nibble => (reference (children nibble) false).encode
  | _ => []

def IsNode : Tree → Prop
  | .path _ _ => True
  | .branch _ => True
  | _ => False

section

variable (isNode : tree.IsNode)
include isNode

theorem encode_collapsed : tree.collapsed.encode = list tree.payload := by
  cases tree with
  | empty | leaf => exact absurd isNode id
  | path => rfl
  | branch => simp [collapsed, encode, payload]

theorem reference_of_isNode : tree.reference false = toHash false tree.collapsed := by
  cases tree with
  | empty | leaf => exact absurd isNode id
  | path | branch => rfl

theorem reference_cases :
    (tree.reference false = .hashNode (Crypto.keccak256 tree.collapsed.encode)) ∨
      (tree.reference false = tree.collapsed ∧ tree.collapsed.encode.length < 32) := by
  rw [reference_of_isNode isNode, toHash]
  by_cases short : tree.collapsed.encode.length < 32 ∧ false = false
  · rw [if_pos short]
    exact .inr ⟨rfl, short.1⟩
  · rw [if_neg short]
    exact .inl rfl

end

variable (sliced : tree.Sliced)
include sliced

theorem length_reference_le : (tree.reference false).encode.length ≤ maxAlloc + 41 := by
  have node : tree.IsNode → (tree.reference false).encode.length ≤ 41 := by
    intro isNode
    rcases reference_cases isNode with hashed | ⟨same, _⟩
    · rw [hashed]
      simpa [encode] using length_writeBytes_le (wordBytes (Crypto.keccak256 tree.collapsed.encode))
    · rw [same]
      omega
  cases tree with
  | empty => simp [reference, encode, emptyString]
  | leaf value =>
    have wrote := length_writeBytes_le value
    have small := sliced.2
    simp only [reference, encode]
    omega
  | path | branch => exact (node trivial).trans (by omega)

theorem length_payload_lt : tree.payload.length < 2 ^ 64 := by
  cases tree with
  | empty | leaf => simp [payload]
  | path label _ =>
    have wrote := length_writeBytes_le (hexToCompact label)
    have compact := length_hexToCompact_le label
    have below := length_reference_le sliced.2
    have labelSmall := sliced.1
    simp only [payload, length_append, maxAlloc] at *
    omega
  | branch children =>
    have each : ∀ size ∈ (finRange 17).map fun nibble =>
        (reference (children nibble) false).encode.length, size ≤ maxAlloc + 41 := by
      intro size isSize
      rcases mem_map.mp isSize with ⟨nibble, _, rfl⟩
      exact length_reference_le (sliced nibble)
    have total := sum_le_card_nsmul _ _ each
    simp only [length_map, length_finRange, smul_eq_mul, maxAlloc] at total
    simp only [payload, length_flatMap]
    omega

theorem isValue_reference : Rlp.IsValue (tree.reference false).encode := by
  have node : tree.IsNode → Rlp.IsValue (tree.reference false).encode := by
    intro isNode
    rcases reference_cases isNode with hashed | ⟨same, _⟩
    · rw [hashed]
      exact isValue_writeBytes (by simp)
    · rw [same, encode_collapsed isNode]
      exact isValue_list (length_payload_lt sliced)
  cases tree with
  | empty => exact isValue_writeBytes (show ([] : Bytes).length < 2 ^ 64 by simp)
  | leaf =>
    apply isValue_writeBytes
    have small := sliced.2
    simp only [maxAlloc] at small
    omega
  | path | branch => exact node trivial

end Tree

def RawNode.linked : RawNode → Node → Node
  | hashNode hash, _ => .hashNode hash
  | _, node => node

/-- The node that is decoded from the encoding of a tree: subtrees that are
referred to by hash are hash nodes. -/
def Tree.decoded : Tree → Option Hash → Node
  | .empty, _ => .nil
  | .leaf value, _ => .valueNode value
  | .path label child, hash =>
    .shortNode label ((reference child false).linked (decoded child none)) ⟨hash, false⟩
  | .branch children, hash =>
    .fullNode
      (fun nibble => (reference (children nibble) false).linked (decoded (children nibble) none))
      ⟨hash, false⟩

def Tree.link (tree : Tree) : Node :=
  (tree.reference false).linked (tree.decoded none)

def Tree.DecodedBy (tree : Tree) (embedded : Bytes → Except DecodeError Node) : Prop :=
  ∀ rest, embedded (tree.collapsed.encode ++ rest) = .ok (tree.decoded none)

namespace Tree

variable {tree : Tree} {embedded : Bytes → Except DecodeError Node}

theorem splitString_reference (canon : tree.Canonical isTerminator true)
    (sliced : tree.Sliced) (rest : Bytes) :
    ∃ val, splitString ((tree.reference false).encode ++ rest) = .ok (val, rest) ∧
      ((tree = .empty ∧ val = []) ∨ (tree = .leaf val ∧ val ≠ [])) := by
  cases tree with
  | empty =>
    exact ⟨[], splitString_writeBytes (show ([] : Bytes).length < 2 ^ 64 by simp) rest,
      .inl ⟨rfl, rfl⟩⟩
  | leaf value =>
    have small : value.length < 2 ^ 64 := sliced.2.trans (by simp [maxAlloc])
    exact ⟨value, splitString_writeBytes small rest, .inr ⟨rfl, sliced.1⟩⟩
  | path =>
    rcases canon with ⟨nonempty, _, _, start, _⟩
    exact absurd (RadixTree.nil_of_after_true start) nonempty
  | branch => cases canon.1

theorem link_of_embedded (isNode : tree.IsNode) (same : tree.reference false = tree.collapsed) :
    tree.link = tree.decoded none := by
  rw [link, same]
  cases tree with
  | empty | leaf => exact absurd isNode id
  | path | branch => rfl

theorem decodeRef_reference (canon : tree.Canonical isTerminator false) (sliced : tree.Sliced)
    (decodes : tree.IsNode → tree.collapsed.encode.length < 32 → tree.DecodedBy embedded)
    (rest : Bytes) :
    decodeRef embedded ((tree.reference false).encode ++ rest) = .ok (tree.link, rest) := by
  have node : tree.IsNode →
      decodeRef embedded ((tree.reference false).encode ++ rest) = .ok (tree.link, rest) := by
    intro isNode
    rcases reference_cases isNode with hashed | ⟨same, short⟩
    · have wide : (wordBytes (Crypto.keccak256 tree.collapsed.encode)).length = 32 := by simp
      have kind := stringKind_of_length (show _ ≠ 1 by rw [wide]; omega)
      simp only [hashed, encode, decodeRef, split_writeBytes (show _ < 2 ^ 64 by
        rw [wide]; omega), liftSplit, bind, Except.bind, kind, link, RawNode.linked]
      simp
    have linked := link_of_embedded isNode same
    have decoded := decodes isNode short rest
    have size : ¬ (tree.collapsed.encode ++ rest).length - rest.length > 32 := by
      simp only [length_append]
      omega
    have splits : Rlp.split (tree.collapsed.encode ++ rest) = .ok (.list, tree.payload, rest) := by
      rw [encode_collapsed isNode]
      exact split_list (length_payload_lt sliced) rest
    simp only [same, decodeRef, splits, liftSplit, bind, Except.bind, if_true, if_neg size,
      decoded, linked]
  cases tree with
  | empty =>
    have splits : Rlp.split (emptyString ++ rest) = .ok (.string, [], rest) :=
      split_writeBytes (show ([] : Bytes).length < 2 ^ 64 by simp) rest
    simp [decodeRef, reference, encode, splits, liftSplit, bind, Except.bind,
      link, RawNode.linked, decoded]
  | leaf => cases canon
  | path | branch => exact node trivial

theorem decodeChildren_flatMap {nibbles : List Nibble} (decodes : ∀ nibble ∈ nibbles, ∀ rest,
      decodeRef embedded (((trees nibble).reference false).encode ++ rest) =
        .ok ((trees nibble).link, rest)) (children : Nibble → Node) (rest : Bytes) :
    decodeChildren embedded nibbles children
        ((nibbles.flatMap fun nibble => ((trees nibble).reference false).encode) ++ rest) =
      .ok (fun nibble => if nibble ∈ nibbles then (trees nibble).link else children nibble,
        rest) := by
  induction nibbles generalizing children with
  | nil => simp [decodeChildren]
  | cons nibble nibbles ih =>
    simp only [List.mem_cons, forall_eq_or_imp] at decodes
    simp only [List.flatMap_cons, List.append_assoc, decodeChildren, decodes.1, wrapError, bind,
      Except.bind, ih decodes.2, Except.ok.injEq, Prod.mk.injEq, and_true]
    funext other
    by_cases later : other ∈ nibbles
    · simp [later]
    · by_cases same : other = nibble
      · subst same
        simp
      · simp [same]

theorem decodeFull_payload (canon : (RadixTree.branch trees).Canonical isTerminator false)
    (sliced : Sliced (.branch trees)) (decodes : ∀ nibble, (trees nibble).IsNode →
      (trees nibble).collapsed.encode.length < 32 → (trees nibble).DecodedBy embedded)
    (hash : Option Hash) :
    decodeFull embedded hash (payload (.branch trees)) = .ok (decoded (.branch trees) hash) := by
  rcases canon with ⟨_, _, canon⟩
  have below : ∀ nibble ∈ childNibbles, ∀ rest,
      decodeRef embedded (((trees nibble).reference false).encode ++ rest) =
        .ok ((trees nibble).link, rest) := by
    intro nibble isChild rest
    have canonicalChild := canon nibble
    rw [isTerminator_of_mem isChild] at canonicalChild
    exact decodeRef_reference canonicalChild (sliced nibble) (decodes nibble) rest
  rcases splitString_reference (canon terminator) (sliced terminator) [] with ⟨val, isVal, outcome⟩
  rw [List.append_nil] at isVal
  simp only [decodeFull, payload, finRange_eq_childNibbles, List.flatMap_append,
    List.flatMap_singleton, decodeChildren_flatMap below, isVal, liftSplit, bind, Except.bind,
    decoded, Except.ok.injEq, Node.fullNode.injEq, and_true]
  funext nibble
  by_cases last : nibble = terminator
  · subst last
    rcases outcome with ⟨isEmpty, rfl⟩ | ⟨isLeaf, nonempty⟩
    · simp [mem_childNibbles, isEmpty, reference, RawNode.linked, decoded]
    · simp [isLeaf, List.length_pos_of_ne_nil nonempty, reference, RawNode.linked, decoded]
  · split <;> simp [mem_childNibbles, last, link]

theorem decodeShort_payload {label : List Nibble} {child : Tree}
    (canon : (RadixTree.path label child).Canonical isTerminator false)
    (sliced : Sliced (.path label child))
    (decodes : child.IsNode → child.collapsed.encode.length < 32 → child.DecodedBy embedded)
    (hash : Option Hash) :
    decodeShort embedded hash (payload (.path label child)) =
      .ok (decoded (.path label child) hash) := by
  rcases canon with ⟨_, stem, between, start, canon⟩
  have compact := length_hexToCompact_lt sliced.1
  have term : hasTerm label = between := by
    rcases parts_of_after start with ⟨_, small, rfl⟩
    exact hasTerm_parts small between
  simp only [decodeShort, payload, splitString_writeBytes compact, liftSplit, bind,
    Except.bind, compactToHex_hexToCompact start, term]
  cases between with
  | true =>
    rcases splitString_reference canon sliced.2 [] with ⟨_, isVal, outcome⟩
    rcases outcome with ⟨isEmpty, _⟩ | ⟨rfl, _⟩
    · exact absurd isEmpty stem.ne_empty
    · rw [List.append_nil] at isVal
      simp only [isVal]
      rfl
  | false =>
    have decoded := decodeRef_reference canon sliced.2 decodes []
    rw [List.append_nil] at decoded
    simp only [decoded, Bool.false_eq_true]
    rfl

theorem count_payload (isNode : tree.IsNode) (sliced : tree.Sliced) :
    countValues tree.payload = .ok (match tree with | .path _ _ => 2 | _ => 17) := by
  cases tree with
  | empty | leaf => exact absurd isNode id
  | path label child =>
    have compact := length_hexToCompact_lt sliced.1
    have counted : countValues
        ([writeBytes (hexToCompact label), (reference child false).encode].flatMap id) = .ok 2 := by
      apply countValues_flatMap
      simp only [List.mem_cons, not_mem_nil, or_false, forall_eq_or_imp, forall_eq]
      exact ⟨isValue_writeBytes compact, isValue_reference sliced.2⟩
    simpa [payload] using counted
  | branch children =>
    have counted : countValues (payload (.branch children)) = .ok (finRange 17).length :=
      countValues_flatMap fun nibble _ => isValue_reference (sliced nibble)
    simpa using counted

theorem length_payload_child (trees : Nibble → Tree) (nibble : Nibble) :
    ((trees nibble).reference false).encode.length ≤ (payload (.branch trees)).length := by
  have isPart : ((trees nibble).reference false).encode.length ∈
      (finRange 17).map fun nibble => ((trees nibble).reference false).encode.length :=
    mem_map.mpr ⟨nibble, mem_finRange nibble, rfl⟩
  simpa only [payload, length_flatMap] using single_le_sum (by simp) _ isPart

theorem length_payload_lt_encode (isNode : tree.IsNode) :
    tree.payload.length < tree.collapsed.encode.length := by
  rw [encode_collapsed isNode, list, length_append, puthead]
  split <;> simp

theorem length_embedded_lt {parent : Tree} (isNode : tree.IsNode)
    (short : tree.collapsed.encode.length < 32)
    (part : (tree.reference false).encode.length ≤ parent.payload.length)
    (parentNode : parent.IsNode) :
    tree.collapsed.encode.length < parent.collapsed.encode.length := by
  have around := length_payload_lt_encode parentNode
  rcases reference_cases isNode with hashed | ⟨same, _⟩
  · have wide : 32 ≤ (tree.reference false).encode.length := by
      rw [hashed, encode]
      rcases writeBytes_spells (show (wordBytes
        (Crypto.keccak256 tree.collapsed.encode)).length < 2 ^ 64 by simp) with
        ⟨header, wrote, _⟩
      rw [wrote, length_append, length_wordBytes]
      omega
    omega
  · rw [same] at part
    omega

omit [Crypto] in
theorem not_isNode_of_ended (canon : tree.Canonical isTerminator true) : ¬ tree.IsNode := by
  rcases RadixTree.leaf_of_ended canon with rfl | ⟨_, rfl⟩
  · exact id
  · exact id

theorem decodeElements_collapsed (sliced : tree.Sliced) (isNode : tree.IsNode)
    (hash : Option Hash) (rest : Bytes) :
    decodeElements embedded hash (tree.collapsed.encode ++ rest) =
      match tree with
      | .path _ _ => wrapError .short (decodeShort embedded hash tree.payload)
      | _ => wrapError .full (decodeFull embedded hash tree.payload) := by
  have here : ¬ (tree.collapsed.encode ++ rest).length = 0 := by
    have := length_payload_lt_encode isNode
    rw [length_append]
    omega
  have elements : splitList (tree.collapsed.encode ++ rest) = .ok (tree.payload, rest) := by
    rw [encode_collapsed isNode]
    exact splitList_list (length_payload_lt sliced) rest
  simp only [decodeElements, if_neg here, elements, liftSplit, bind, Except.bind,
    count_payload isNode sliced]
  cases tree with
  | empty | leaf => exact absurd isNode id
  | path | branch => rfl

variable (canon : tree.Canonical isTerminator false)
include canon

theorem decodeWithin_collapsed (sliced : tree.Sliced) (isNode : tree.IsNode) {rounds : Nat}
    (enough : tree.collapsed.encode.length < rounds) (hash : Option Hash) (rest : Bytes) :
    decodeWithin rounds hash (tree.collapsed.encode ++ rest) = .ok (tree.decoded hash) := by
  induction tree generalizing rounds hash rest with
  | empty | leaf => exact absurd isNode id
  | path label child ih =>
    cases rounds with
    | zero => omega
    | succ rounds =>
      have decodes : IsNode child → (collapsed child).encode.length < 32 →
          DecodedBy child (decodeWithin rounds none) := by
        intro childNode short rest
        have inner := length_embedded_lt childNode short
          (show _ ≤ (payload (.path label child)).length by simp [payload]) trivial
        rcases canon with ⟨_, _, between, _, childCanonical⟩
        cases between with
        | true => exact absurd childNode (not_isNode_of_ended childCanonical)
        | false => exact ih childCanonical sliced.2 childNode (by omega) none rest
      rw [decodeWithin, decodeElements_collapsed sliced isNode]
      simp [decodeShort_payload canon sliced decodes, wrapError]
  | branch children ih =>
    cases rounds with
    | zero => omega
    | succ rounds =>
      have decodes : ∀ nibble, IsNode (children nibble) →
          (collapsed (children nibble)).encode.length < 32 →
          DecodedBy (children nibble) (decodeWithin rounds none) := by
        intro nibble childNode short rest
        have inner := length_embedded_lt childNode short
          (length_payload_child children nibble) trivial
        have childCanonical := canon.2.2 nibble
        generalize isTerminator nibble = last at childCanonical
        cases last with
        | true => exact absurd childNode (not_isNode_of_ended childCanonical)
        | false => exact ih nibble childCanonical (sliced nibble) childNode (by omega) none rest
      rw [decodeWithin, decodeElements_collapsed sliced isNode]
      simp [decodeFull_payload canon sliced decodes, wrapError]

theorem decodeNode_collapsed (sliced : tree.Sliced) (isNode : tree.IsNode) (hash : Option Hash) :
    decodeNode hash tree.collapsed.encode = .ok (tree.decoded hash) := by
  have decoded := decodeWithin_collapsed canon sliced isNode
    (Nat.lt_succ_self tree.collapsed.encode.length) hash []
  rwa [List.append_nil] at decoded

end Tree

end Octopus
