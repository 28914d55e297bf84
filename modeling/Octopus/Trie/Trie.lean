import Octopus.Trie.Encoding

/-!
# Trie operations

A short node leads along several nibbles to one child, a full node has a child for each
nibble, and a hash node stands for a node that has not been loaded.  The recursion follows
nodes that come from the database, so its depth is bounded (`depth`).  The tracer of a trie
is never set, so its calls are left out.
-/

namespace Octopus

structure NodeFlag where
  hash : Option Hash
  dirty : Bool
  deriving DecidableEq

def newFlag : NodeFlag where
  hash := none
  dirty := true

/-- `node`; the interface value `nil` is a node of its own. -/
inductive Node where
  | nil
  | valueNode (value : Bytes)
  | hashNode (hash : Hash)
  | shortNode (key : List Nibble) (val : Node) (flags : NodeFlag)
  | fullNode (children : Nibble → Node) (flags : NodeFlag)

namespace Node

def isNil : Node → Bool
  | nil => true
  | _ => false

def cache : Node → Option Hash × Bool
  | shortNode _ _ flags => (flags.hash, flags.dirty)
  | fullNode _ flags => (flags.hash, flags.dirty)
  | _ => (none, true)

@[simp]
theorem isNil_iff (node : Node) : node.isNil = true ↔ node = nil := by
  cases node <;> simp [isNil]

end Node

/-- `MissingNodeError` with owner, hash and path, and the ways in which a call does not return. -/
inductive TrieError where
  | missingNode (owner nodeHash : Hash) (path : List Nibble)
  | fault (fault : Fault)
  deriving DecidableEq

abbrev Resolver := Hash → Option Node

/-- A bound for the descent along a key: at most one hash node before each
entry of the key, and before the value. -/
def depth (key : List Nibble) : Nat :=
  2 * key.length + 2

def resolveHash (resolver : Resolver) (owner hash : Hash) (path : List Nibble) :
    Except TrieError Node :=
  match resolver hash with
  | some node => .ok node
  | none => .error (.missingNode owner hash path)

namespace Node

variable (resolver : Resolver) (owner : Hash)

/-- `tryGet`: the value, the node with what has been loaded, and whether
something has been loaded.  The key is given in two parts, what has been read
of it and what has not. -/
def tryGet : Nat → Node → List Nibble → List Nibble → Except TrieError (Option Bytes × Node × Bool)
  | 0, _, _, _ => .error (.fault .outOfFuel)
  | _ + 1, nil, _, _ => .ok (none, nil, false)
  | _ + 1, valueNode value, _, _ => .ok (some value, valueNode value, false)
  | fuel + 1, shortNode label child flags, done, key =>
    if label <+: key then do
      let (value, newnode, didResolve) ←
        tryGet fuel child (done ++ label) (key.drop label.length)
      if didResolve then .ok (value, shortNode label newnode flags, true)
      else .ok (value, shortNode label child flags, false)
    else .ok (none, shortNode label child flags, false)
  | _ + 1, fullNode _ _, _, [] => .error (.fault (.panic "index out of range"))
  | fuel + 1, fullNode children flags, done, nibble :: key => do
      let (value, newnode, didResolve) ← tryGet fuel (children nibble) (done ++ [nibble]) key
      if didResolve then .ok (value, fullNode (Function.update children nibble newnode) flags, true)
      else .ok (value, fullNode children flags, false)
  | fuel + 1, hashNode hash, done, key => do
      let child ← resolveHash resolver owner hash done
      let (value, newnode, _) ← tryGet fuel child done key
      .ok (value, newnode, true)

def replace : Node → Node → Except TrieError (Bool × Node)
  | valueNode old, valueNode new => .ok (old != new, valueNode new)
  | valueNode _, _ => .error (.fault (.panic "interface conversion"))
  | _, value => .ok (true, value)

/-- `insert`: whether the node changes, and the new node. -/
def insert : Nat → Node → List Nibble → List Nibble → Node → Except TrieError (Bool × Node)
  | 0, _, _, _, _ => .error (.fault .outOfFuel)
  | _ + 1, node, _, [], value => replace node value
  | fuel + 1, shortNode label child flags, done, nibble :: rest, value =>
    let key := nibble :: rest
    let matchlen := prefixLen key label
    if matchlen = label.length then do
      let (dirty, nn) ← insert fuel child (done ++ key.take matchlen) (key.drop matchlen) value
      if dirty then .ok (true, shortNode label nn newFlag)
      else .ok (false, shortNode label child flags)
    else
      match label[matchlen]?, key[matchlen]? with
      | some labelNibble, some keyNibble => do
          let (_, left) ←
            insert fuel nil (done ++ label.take (matchlen + 1)) (label.drop (matchlen + 1)) child
          let (_, right) ←
            insert fuel nil (done ++ key.take (matchlen + 1)) (key.drop (matchlen + 1)) value
          let branch :=
            fullNode
              (Function.update (Function.update (fun _ => nil) labelNibble left) keyNibble right)
              newFlag
          if matchlen = 0 then .ok (true, branch)
          else .ok (true, shortNode (key.take matchlen) branch newFlag)
      | _, _ => .error (.fault (.panic "index out of range"))
  | fuel + 1, fullNode children flags, done, nibble :: rest, value => do
      let (dirty, nn) ← insert fuel (children nibble) (done ++ [nibble]) rest value
      if dirty then .ok (true, fullNode (Function.update children nibble nn) newFlag)
      else .ok (false, fullNode children flags)
  | _ + 1, nil, _, nibble :: rest, value => .ok (true, shortNode (nibble :: rest) value newFlag)
  | fuel + 1, hashNode hash, done, nibble :: rest, value => do
      let rn ← resolveHash resolver owner hash done
      let (dirty, nn) ← insert fuel rn done (nibble :: rest) value
      if dirty then .ok (true, nn) else .ok (false, rn)
  | _ + 1, valueNode _, _, _ :: _, _ => .error (.fault (.panic "invalid node"))

/-- The loop of `delete` over the children: the position of the only child
that is not `nil`. -/
def onlyChild (children : Nibble → Node) : Option Nibble :=
  match (List.finRange 17).filter fun nibble => !(children nibble).isNil with
  | [pos] => some pos
  | _ => none

def resolve (node : Node) (path : List Nibble) : Except TrieError Node :=
  match node with
  | hashNode hash => resolveHash resolver owner hash path
  | _ => .ok node

/-- The end of `delete` at a full node that has lost a child: a full node with
one child left becomes a short node. -/
def reduce (children : Nibble → Node) (done : List Nibble) : Except TrieError (Bool × Node) :=
  match onlyChild children with
  | none => .ok (true, fullNode children newFlag)
  | some pos =>
    if pos = terminator then .ok (true, shortNode [pos] (children pos) newFlag)
    else do
      match ← resolve resolver owner (children pos) done with
      | shortNode label child _ => .ok (true, shortNode (pos :: label) child newFlag)
      | _ => .ok (true, shortNode [pos] (children pos) newFlag)

def join (label : List Nibble) : Node → Node
  | shortNode childLabel grandchild _ => shortNode (label ++ childLabel) grandchild newFlag
  | child => shortNode label child newFlag

/-- `delete`: whether the node changes, and the new node. -/
def delete : Nat → Node → List Nibble → List Nibble → Except TrieError (Bool × Node)
  | 0, _, _, _ => .error (.fault .outOfFuel)
  | fuel + 1, shortNode label child flags, done, key =>
    let matchlen := prefixLen key label
    if matchlen < label.length then .ok (false, shortNode label child flags)
    else if matchlen = key.length then .ok (true, nil)
    else do
      let (dirty, nn) ← delete fuel child (done ++ key.take label.length) (key.drop label.length)
      if dirty then .ok (true, join label nn) else .ok (false, shortNode label child flags)
  | _ + 1, fullNode _ _, _, [] => .error (.fault (.panic "index out of range"))
  | fuel + 1, fullNode children flags, done, nibble :: key => do
      let (dirty, nn) ← delete fuel (children nibble) (done ++ [nibble]) key
      if dirty then
        if nn.isNil then reduce resolver owner (Function.update children nibble nn) done
        else .ok (true, fullNode (Function.update children nibble nn) newFlag)
      else .ok (false, fullNode children flags)
  | _ + 1, valueNode _, _, _ => .ok (true, nil)
  | _ + 1, nil, _, _ => .ok (false, nil)
  | fuel + 1, hashNode hash, done, key => do
      let rn ← resolveHash resolver owner hash done
      let (dirty, nn) ← delete fuel rn done key
      if dirty then .ok (true, nn) else .ok (false, rn)

end Node

/-- `Trie`, without the database it is opened over. -/
structure Trie where
  root : Node
  owner : Hash
  unhashed : Nat

namespace Trie

/-- `newTrie`; the zero hash and `emptyRoot` open an empty trie. -/
def newTrie (resolver : Resolver) (owner root : Hash) : Except TrieError Trie :=
  if root = 0 ∨ root = emptyRoot then .ok { root := .nil, owner := owner, unhashed := 0 }
  else do
    let rootnode ← resolveHash resolver owner root []
    .ok { root := rootnode, owner := owner, unhashed := 0 }

variable (trie : Trie) (resolver : Resolver)

def tryGet (key : Bytes) : Except TrieError (Option Bytes) × Trie :=
  let k := keybytesToHex key
  match Node.tryGet resolver trie.owner (depth k) trie.root [] k with
  | .error error => (.error error, trie)
  | .ok (value, newroot, didResolve) =>
    (.ok value, if didResolve then { trie with root := newroot } else trie)

def settle (result : Except TrieError (Bool × Node)) : Except TrieError Unit × Trie :=
  let counted := { trie with unhashed := trie.unhashed + 1 }
  match result with
  | .error error => (.error error, counted)
  | .ok (_, n) => (.ok (), { counted with root := n })

def tryDelete (key : Bytes) : Except TrieError Unit × Trie :=
  let k := keybytesToHex key
  trie.settle (Node.delete resolver trie.owner (depth k) trie.root [] k)

def tryUpdate (key value : Bytes) : Except TrieError Unit × Trie :=
  let k := keybytesToHex key
  if value ≠ [] then
    trie.settle (Node.insert resolver trie.owner (depth k) trie.root [] k (.valueNode value))
  else trie.settle (Node.delete resolver trie.owner (depth k) trie.root [] k)

end Trie

end Octopus
