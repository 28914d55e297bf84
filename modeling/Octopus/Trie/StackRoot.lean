import Octopus.Trie.Hasher

/-!
# Stack tries

Once a key has passed a subtree, the subtree is replaced by its hash, or by its encoding if
that is shorter.  Writing nodes to a database on the way is left out.  The subtree that the
next key belongs to is never one of those, as long as the keys come in order and none runs
through the end of another.
-/

namespace Octopus

/-- `StackTrie`, by the type of the node; `nil` is the null pointer. -/
inductive StackTrie where
  | nil
  | emptyNode
  | branchNode (children : Nibble → StackTrie)
  | extNode (key : List Nibble) (child : StackTrie)
  | leafNode (key : List Nibble) (val : Bytes)
  | hashedNode (val : Bytes)

namespace StackTrie

def isNil : StackTrie → Bool
  | nil => true
  | _ => false

/-- What the parent of a hashed node writes for it: a short encoding as it is,
a hash as a string. -/
def embed (val : Bytes) : Bytes :=
  if val.length < 32 then val else Rlp.writeBytes val

variable [Crypto]

def digest (encoded : Bytes) : Bytes :=
  if encoded.length < 32 then encoded else wordBytes (Crypto.keccak256 encoded)

/-- `hashRec`: the value of the node once it is hashed.  It is not called for
the null pointer. -/
def hashRec : StackTrie → Bytes
  | nil => []
  | hashedNode val => val
  | emptyNode => wordBytes emptyRoot
  | branchNode children =>
    digest (Rlp.list ((List.finRange 17).flatMap fun nibble =>
      if (children nibble).isNil then Rlp.emptyString else embed (children nibble).hashRec))
  | extNode key child =>
    digest (Rlp.list (Rlp.writeBytes (hexToCompactInPlace key) ++ embed child.hashRec))
  | leafNode key val =>
    digest (Rlp.list
      (Rlp.writeBytes (hexToCompactInPlace (key ++ [terminator])) ++ Rlp.writeBytes val))

def hash (st : StackTrie) : StackTrie :=
  hashedNode st.hashRec

def getDiffIndex : List Nibble → List Nibble → Except Fault Nat
  | [], _ => .ok 0
  | _ :: _, [] => .error (.panic "index out of range")
  | own :: label, nibble :: key =>
    if own = nibble then do .ok ((← getDiffIndex label key) + 1) else .ok 0

def elder (children : Nibble → StackTrie) (idx : Nibble) : Option Nibble :=
  ((List.finRange 17).filter fun nibble => nibble < idx && !(children nibble).isNil).getLast?

def hashElder (children : Nibble → StackTrie) (idx : Nibble) : Nibble → StackTrie :=
  match elder children idx with
  | some nibble => Function.update children nibble (children nibble).hash
  | none => children

def split (common : List Nibble) (origIdx : Nibble) (n : StackTrie) (newIdx : Nibble)
    (o : StackTrie) : StackTrie :=
  let p := branchNode (Function.update (Function.update (fun _ => nil) origIdx n) newIdx o)
  if common = [] then p else extNode common p

def insert : StackTrie → List Nibble → Bytes → Except Fault StackTrie
  | branchNode _, [], _ => .error (.panic "index out of range")
  | branchNode children, idx :: key, value =>
    if idx = terminator then .error (.panic "index out of range")
    else
      let hashed := hashElder children idx
      if (children idx).isNil then
        .ok (branchNode (Function.update hashed idx (leafNode key value)))
      else do
        let child ← (children idx).insert key value
        .ok (branchNode (Function.update hashed idx child))
  | extNode label child, key, value => do
      let diffidx ← getDiffIndex label key
      if diffidx = label.length then do
        let child ← child.insert (key.drop diffidx) value
        .ok (extNode label child)
      else
        match label[diffidx]?, key[diffidx]? with
        | some origIdx, some newIdx =>
          let n := if diffidx < label.length - 1 then extNode (label.drop (diffidx + 1)) child
            else child
          .ok (split (label.take diffidx) origIdx n.hash newIdx
            (leafNode (key.drop (diffidx + 1)) value))
        | _, _ => .error (.panic "index out of range")
  | leafNode label val, key, value => do
      let diffidx ← getDiffIndex label key
      if diffidx ≥ label.length then .error (.panic "Trying to insert into existing key")
      else
        match label[diffidx]?, key[diffidx]? with
        | some origIdx, some newIdx =>
          .ok (split (label.take diffidx) origIdx (leafNode (label.drop (diffidx + 1)) val).hash
            newIdx (leafNode (key.drop (diffidx + 1)) value))
        | _, _ => .error (.panic "index out of range")
  | emptyNode, key, value => .ok (leafNode key value)
  | hashedNode _, _, _ => .error (.panic "trying to insert into hash")
  | nil, _, _ => .error nilDereference

def tryUpdate (st : StackTrie) (key value : Bytes) : Except Fault StackTrie :=
  if value = [] then .error (.panic "deletion not supported")
  else st.insert (keybytesToHex key).dropLast value

def root (st : StackTrie) : Hash :=
  if st.hashRec.length = 32 then Bytes.toWord st.hashRec else Crypto.keccak256 st.hashRec

def update (st : StackTrie) (pairs : List (Bytes × Bytes)) : Except Fault StackTrie :=
  pairs.foldlM (fun st pair => st.tryUpdate pair.1 pair.2) st

end StackTrie

open Library RadixTree RawNode List StackTrie

variable {children : Nibble → StackTrie} {nibble other own idx : Nibble} {force : Bool}
  {right : StackTrie} {key label rest : List Nibble}

def Below : List Nibble → List Nibble → Prop
  | own :: key, other :: rest => (own = other ∧ Below key rest) ∨ (own < other ∧ other ≠ terminator)
  | _, _ => False

theorem below_append (label key rest : List Nibble) :
    Below (label ++ key) (label ++ rest) ↔ Below key rest := by
  induction label with
  | nil => rfl
  | cons _ _ ih => simp [Below, ih]

theorem Below.fork {first second : List Nibble}
    (below : Below (first ++ [terminator]) (second ++ [terminator])) :
    ∃ common own label other key, own < other ∧ first = common ++ own :: label ∧
      second = common ++ other :: key := by
  induction first generalizing second with
  | nil =>
    cases second with
    | nil => simp [Below] at below
    | cons nibble _ =>
      rcases below with ⟨_, below⟩ | ⟨less, _⟩
      · exact absurd below id
      · exact absurd less (Fin.not_lt.mpr (Fin.le_last nibble))
  | cons own first ih =>
    cases second with
    | nil =>
      rcases below with ⟨_, below⟩ | ⟨_, ends⟩
      · cases first <;> exact absurd below id
      · exact absurd rfl ends
    | cons other second =>
      rcases below with ⟨rfl, below⟩ | ⟨less, _⟩
      · rcases ih below with ⟨common, left, label, right, key, less, rfl, rfl⟩
        exact ⟨own :: common, left, label, right, key, less, rfl, rfl⟩
      · exact ⟨[], own, first, other, second, less, rfl, rfl⟩

theorem ne_terminator_of_lt (less : own < other) : own ≠ terminator :=
  ne_of_lt (lt_of_lt_of_le less (Fin.le_last other))

theorem ne_terminator_of_readsKey {common : List Nibble} (here : rest ≠ [])
    (reads : readsKey false (common ++ nibble :: rest)) : nibble ≠ terminator := by
  rintro rfl
  exact here (nil_of_after_true (after_before reads).2)

theorem attach_terminated (key : List Nibble) (tree : Tree) :
    attach (key ++ [terminator]) tree = .path (key ++ [terminator]) tree := by
  cases key <;> rfl

theorem unterminated (here : rest ≠ []) (split : key ++ [terminator] = label ++ rest) :
    ∃ keyRest, rest = keyRest ++ [terminator] ∧ key = label ++ keyRest := by
  have lastCut := dropLast_append_getLast here
  rw [← lastCut, ← append_assoc] at split
  rcases append_inj' split rfl with ⟨same, ending⟩
  refine ⟨rest.dropLast, ?_, same⟩
  rw [← ending] at lastCut
  exact lastCut.symm

def Tree.Inner : Tree → Prop
  | .path _ _ => True
  | .branch _ => True
  | _ => False

namespace StackTrie

def Open : StackTrie → Prop
  | leafNode _ _ => True
  | extNode _ child => child.Open
  | branchNode children =>
    ∃ last, (∀ other, last < other → children other = nil) ∧ (children last).Open
  | _ => False

theorem Open.ne_nil {st : StackTrie} (opened : st.Open) : st ≠ .nil := by
  rintro rfl
  exact opened

theorem elder_some (found : elder children idx = some nibble) :
    nibble < idx ∧ children nibble ≠ .nil := by
  have listed := mem_of_getLast? found
  simp only [mem_filter, mem_finRange, true_and, Bool.and_eq_true, decide_eq_true_eq] at listed
  refine ⟨listed.1, ?_⟩
  intro missing
  simp [missing, isNil] at listed

theorem getDiffIndex_append (label rest : List Nibble) :
    getDiffIndex label (label ++ rest) = .ok label.length := by
  induction label with
  | nil => rfl
  | cons _ _ ih =>
    simp only [cons_append, getDiffIndex, ih]
    rfl

theorem getDiffIndex_fork (differ : own ≠ other) (common label key : List Nibble) :
    getDiffIndex (common ++ own :: label) (common ++ other :: key) = .ok common.length := by
  induction common with
  | nil => simp [getDiffIndex, differ]
  | cons _ _ ih =>
    simp only [cons_append, getDiffIndex, ih]
    rfl

theorem open_split (less : own < other) (common : List Nibble) (left : StackTrie)
    (opened : right.Open) : (split common own left other right).Open := by
  have branch : (branchNode (Function.update
      (Function.update (fun _ => StackTrie.nil) own left) other right)).Open := by
    refine ⟨other, ?_, by simpa using opened⟩
    intro nibble later
    simp [ne_of_gt later, ne_of_gt (less.trans later)]
  cases common with
  | nil | cons => exact branch

variable [Crypto]

inductive Represents : StackTrie → Tree → Prop
  | nil : Represents .nil .empty
  | leaf (key : List Nibble) (val : Bytes) :
      Represents (.leafNode key val) (.path (key ++ [terminator]) (.leaf val))
  | ext {key : List Nibble} {child : StackTrie} {tree : Tree} (nonempty : key ≠ [])
      (present : child ≠ .nil) (below : Represents child tree) :
      Represents (.extNode key child) (.path key tree)
  | branch {children : Nibble → StackTrie} {trees : Nibble → Tree}
      (ends : trees terminator = .empty)
      (below : ∀ nibble, Represents (children nibble) (trees nibble)) :
      Represents (.branchNode children) (.branch trees)
  | hashed {tree : Tree} (inner : tree.Inner) :
      Represents (.hashedNode (digest tree.collapsed.encode)) tree

variable {st : StackTrie} {tree : Tree}

theorem Represents.inner (represents : Represents st tree) (here : st ≠ .nil) : tree.Inner := by
  cases represents with
  | nil => exact absurd rfl here
  | hashed inner => exact inner
  | _ => trivial

theorem Represents.nil_iff (represents : Represents st tree) : st = .nil ↔ tree = .empty := by
  cases represents with
  | hashed inner =>
    simp only [reduceCtorEq, false_iff]
    rintro rfl
    exact inner
  | _ => simp

theorem reference_inner (inner : tree.Inner) :
    tree.reference force = toHash force tree.collapsed := by
  cases tree with
  | empty | leaf => exact absurd inner id
  | path | branch => rfl

theorem orNilValueNode_reference (inner : tree.Inner) (nibble : Nibble) :
    (tree.reference force).orNilValueNode nibble = tree.reference force := by
  cases tree with
  | empty | leaf => exact absurd inner id
  | path | branch =>
    simp only [Tree.reference, toHash]
    split <;> rfl

theorem embed_digest (inner : tree.Inner) :
    embed (digest tree.collapsed.encode) = (tree.reference false).encode := by
  rw [reference_inner inner]
  by_cases short : tree.collapsed.encode.length < 32
  · simp [embed, digest, toHash, short]
  · simp [embed, digest, toHash, short, RawNode.encode]

theorem Represents.hashRec_eq (represents : Represents st tree) (here : st ≠ .nil) :
    st.hashRec = digest tree.collapsed.encode := by
  induction represents with
  | nil => exact absurd rfl here
  | hashed => rfl
  | leaf => simp [hashRec, Tree.collapsed, RawNode.encode, Tree.reference, hexToCompactInPlace_eq]
  | ext nonempty childPresent below ih =>
    have inner := below.inner childPresent
    rw [hashRec, hexToCompactInPlace_eq nonempty, ih childPresent, embed_digest inner]
    rfl
  | @branch children _ _ below ih =>
    simp only [hashRec, Tree.collapsed]
    congr 2
    apply flatMap_congr
    intro nibble _
    by_cases missing : children nibble = .nil
    · have emptied := (below nibble).nil_iff.mp missing
      simp only [missing, isNil, emptied, Tree.reference, orNilValueNode, if_true]
      split <;> rfl
    have inner := (below nibble).inner missing
    have notNil : (children nibble).isNil = false := by
      cases isKind : children nibble with
      | nil => exact absurd isKind missing
      | _ => rfl
    simp only [notNil, ih nibble missing, embed_digest inner, orNilValueNode_reference inner]
    rfl

theorem Represents.hash (represents : Represents st tree) (here : st ≠ .nil) :
    Represents st.hash tree := by
  rw [StackTrie.hash, represents.hashRec_eq here]
  exact .hashed (represents.inner here)

theorem Represents.split {left : StackTrie} {first second : Tree} (ownNibble : own ≠ terminator)
    (otherNibble : other ≠ terminator) (common : List Nibble)
    (leftRepresents : Represents left first) (rightRepresents : Represents right second) :
    Represents (split common own left other right)
      (attach common (.branch (pair own first other second))) := by
  have below : ∀ nibble, Represents
      (Function.update (Function.update (fun _ => StackTrie.nil) own left) other right nibble)
      (pair own first other second nibble) := by
    intro nibble
    by_cases isOther : nibble = other
    · subst isOther
      simpa [pair] using rightRepresents
    · by_cases isOwn : nibble = own
      · subst isOwn
        simpa [pair, isOther] using leftRepresents
      · simpa [pair, isOther, isOwn] using Represents.nil
  have branch : Represents _ (.branch (pair own first other second)) :=
    .branch (by simp [pair, Ne.symm ownNibble, Ne.symm otherNibble]) below
  cases common with
  | nil => exact branch
  | cons => exact .ext (by simp) (by simp) branch

def Inserts (st : StackTrie) (tree : Tree) (key : List Nibble) (value : Bytes) : Prop :=
  ∃ after, st.insert key value = .ok after ∧
    Represents after (tree.insert (key ++ [terminator]) value) ∧ after.Open

theorem inserts_leaf (val value : Bytes) (nibbles : readsKey false (key ++ [terminator]))
    (below : Below (label ++ [terminator]) (key ++ [terminator])) :
    Inserts (.leafNode label val) (.path (label ++ [terminator]) (.leaf val)) key value := by
  rcases below.fork with ⟨common, own, labelRest, other, keyRest, less, rfl, rfl⟩
  have differ := ne_of_lt less
  rw [append_assoc, cons_append] at nibbles
  have otherNibble := ne_terminator_of_readsKey (by simp) nibbles
  refine ⟨split common own (leafNode labelRest val).hash other (leafNode keyRest value),
    ?_, ?_, open_split less common _ trivial⟩
  · simp only [insert, getDiffIndex_fork differ, bind, Except.bind]
    simp
  · rw [append_assoc, append_assoc, cons_append, cons_append,
      insert_fork differ, attach_terminated, attach_terminated]
    exact .split (ne_terminator_of_lt less) otherNibble common
      ((Represents.leaf labelRest val).hash (by simp)) (.leaf keyRest value)

theorem insert_ext_fork (differ : own ≠ other) (common labelRest keyRest : List Nibble)
    (child : StackTrie) (value : Bytes) :
    (extNode (common ++ own :: labelRest) child).insert (common ++ other :: keyRest) value =
      .ok (split common own
        (if labelRest = [] then child else extNode labelRest child).hash other
        (leafNode keyRest value)) := by
  simp only [insert, getDiffIndex_fork differ, bind, Except.bind]
  cases labelRest with
  | nil => simp
  | cons => simp

theorem insert_ext_through (label key : List Nibble) (child : StackTrie) (value : Bytes) :
    (extNode label child).insert (label ++ key) value =
      (child.insert key value).map (extNode label) := by
  simp only [insert, getDiffIndex_append, bind, Except.bind, drop_left]
  cases child.insert key value <;> rfl

theorem Represents.attach (represents : Represents st tree) (here : st ≠ .nil)
    (label : List Nibble) :
    Represents (if label = [] then st else extNode label st) (attach label tree) ∧
      (if label = [] then st else extNode label st) ≠ .nil := by
  cases label with
  | nil => exact ⟨represents, here⟩
  | cons => exact ⟨.ext (by simp) here represents, by simp⟩

theorem hashElder_of_not_lt (later : ¬ nibble < idx) :
    hashElder children idx nibble = children nibble := by
  simp only [hashElder]
  cases found : elder children idx with
  | none => rfl
  | some pos =>
    have differ : nibble ≠ pos := by
      rintro rfl
      exact later (elder_some found).1
    simp [differ]

theorem Represents.hashElder {trees : Nibble → Tree}
    (below : ∀ nibble, Represents (children nibble) (trees nibble)) (idx nibble : Nibble) :
    Represents (StackTrie.hashElder children idx nibble) (trees nibble) := by
  simp only [StackTrie.hashElder]
  cases found : elder children idx with
  | none => exact below nibble
  | some pos =>
    by_cases same : nibble = pos
    · subst same
      simpa using (below nibble).hash (elder_some found).2
    · simpa [same] using below nibble

theorem Represents.insert (represents : Represents st tree) (opened : st.Open)
    (canon : tree.Canonical isTerminator false) (nibbles : readsKey false (key ++ [terminator]))
    (below : ∀ hex val, tree.get hex = some val → Below hex (key ++ [terminator])) (value : Bytes) :
    Inserts st tree key value := by
  induction represents generalizing key with
  | nil | hashed => exact absurd opened id
  | leaf _ val =>
    apply inserts_leaf val value nibbles
    exact below _ val (by simp [RadixTree.get])
  | @ext label child tree nonempty here childRepresents ih =>
    rcases canon with ⟨_, stem, between, start, canon⟩
    have isBranch : ∃ trees, tree = .branch trees := by
      have inner := childRepresents.inner here
      cases tree with
      | empty | leaf => exact absurd inner id
      | path => exact absurd stem id
      | branch trees => exact ⟨trees, rfl⟩
    have notEnded : between = false := by
      rcases isBranch with ⟨trees, rfl⟩
      exact canon.1
    subst notEnded
    have belowChild : ∀ hex val, tree.get hex = some val →
        Below (label ++ hex) (key ++ [terminator]) :=
      fun hex val found => below (label ++ hex) val (by simpa [RadixTree.get] using found)
    rcases reads_cases start nibbles with
      ⟨rest, met, remaining⟩ | ⟨common, _, labelRest, _, _, differ, rfl, split⟩
    · have unread : rest ≠ [] := by
        rintro rfl
        cases remaining
      rcases unterminated unread met with ⟨keyRest, rfl, rfl⟩
      have belowRest : ∀ hex val, tree.get hex = some val →
          Below hex (keyRest ++ [terminator]) := by
        intro hex val found
        rw [← below_append label, ← append_assoc]
        exact belowChild hex val found
      rcases ih opened canon remaining belowRest with ⟨after, inserted, represents, stillOpen⟩
      refine ⟨extNode label after, ?_, ?_, stillOpen⟩
      · rw [insert_ext_through, inserted]
        rfl
      · rw [append_assoc, insert_through nonempty]
        exact .ext nonempty stillOpen.ne_nil represents
    · rcases exists_get canon stem.ne_empty with ⟨hex, val, found⟩
      have parts := belowChild hex val found
      rw [split, append_assoc, cons_append, below_append] at parts
      rcases parts with ⟨same, _⟩ | ⟨less, otherNibble⟩
      · exact absurd same differ
      rcases unterminated (by simp) split with ⟨otherRest, cut, rfl⟩
      cases otherRest with
      | nil =>
        cases cut
        exact absurd rfl otherNibble
      | cons _ otherRest =>
        cases cut
        rcases childRepresents.attach here labelRest with ⟨upper, upperPresent⟩
        refine ⟨_, insert_ext_fork differ common labelRest otherRest child value, ?_,
          open_split less common _ trivial⟩
        rw [append_assoc, cons_append, insert_fork differ, attach_terminated]
        exact .split (ne_terminator_of_lt less) otherNibble common
          (upper.hash upperPresent) (.leaf otherRest value)
  | @branch children trees ends childRepresents ih =>
    rcases opened with ⟨last, later, lastOpen⟩
    have lastPresent : trees last ≠ .empty :=
      fun isEmpty => lastOpen.ne_nil ((childRepresents last).nil_iff.mpr isEmpty)
    rcases exists_get (canon.2.2 last) lastPresent with ⟨hex, val, found⟩
    have parts := below (last :: hex) val found
    cases key with
    | nil =>
      rcases parts with ⟨same, _⟩ | ⟨_, ending⟩
      · exact absurd (same ▸ ends) lastPresent
      · exact absurd rfl ending
    | cons idx key =>
      have idxNibble : idx ≠ terminator := by
        rcases parts with ⟨same, _⟩ | ⟨_, nibble⟩
        · rintro rfl
          exact lastPresent (same ▸ ends)
        · exact nibble
      have notBefore : last ≤ idx := by
        rcases parts with ⟨same, _⟩ | ⟨less, _⟩
        · exact le_of_eq same
        · exact le_of_lt less
      have behind : ∀ child other, idx < other →
          Function.update (StackTrie.hashElder children idx) idx child other = .nil := by
        intro child other beyond
        rw [Function.update_of_ne (ne_of_gt beyond), hashElder_of_not_lt (not_lt_of_gt beyond)]
        exact later other (lt_of_le_of_lt notBefore beyond)
      have goesOn : isTerminator idx = false := beq_eq_false_iff_ne.mpr idxNibble
      have childNibbles := (after_cons nibbles).2
      rw [goesOn] at childNibbles
      have assembled : ∀ child subtree, Represents child subtree → Represents
            (.branchNode (Function.update (StackTrie.hashElder children idx) idx child))
            (.branch (Function.update trees idx subtree)) := by
        intro child subtree represents
        refine .branch ?_ ?_
        · rw [Function.update_of_ne (Ne.symm idxNibble)]
          exact ends
        · intro nibble
          by_cases same : nibble = idx
          · subst same
            simpa using represents
          · simpa [same] using Represents.hashElder childRepresents idx nibble
      by_cases missing : children idx = .nil
      · have emptied := (childRepresents idx).nil_iff.mp missing
        refine ⟨.branchNode (Function.update (StackTrie.hashElder children idx) idx
          (.leafNode key value)), ?_, ?_, idx, behind _, by simp [Open]⟩
        · simp [insert, idxNibble, missing, isNil]
        · have inserted : (RadixTree.empty : Tree).insert (key ++ [terminator]) value =
              .path (key ++ [terminator]) (.leaf value) := by
            cases key <;> rfl
          rw [cons_append, RadixTree.insert, emptied, inserted]
          exact assembled _ _ (.leaf key value)
      · have isLast : last = idx := by
          apply le_antisymm notBefore
          by_contra beyond
          exact missing (later idx (lt_of_not_ge beyond))
        subst isLast
        have belowChild : ∀ hex val, (trees last).get hex = some val →
            Below hex (key ++ [terminator]) := by
          intro hex val found
          rcases below (last :: hex) val found with ⟨_, parts⟩ | ⟨less, _⟩
          · exact parts
          · exact absurd less (lt_irrefl last)
        have childCanonical := canon.2.2 last
        rw [goesOn] at childCanonical
        rcases ih last lastOpen childCanonical childNibbles belowChild with
          ⟨after, inserted, represents, stillOpen⟩
        have notNil : (children last).isNil = false := by
          cases isKind : children last with
          | nil => exact absurd isKind missing
          | _ => rfl
        refine ⟨.branchNode (Function.update (StackTrie.hashElder children last) last after),
          ?_, ?_, last, behind _, by simpa using stillOpen⟩
        · simp only [insert, idxNibble, if_false, notNil, inserted]
          rfl
        · exact assembled _ _ represents

def Stands (st : StackTrie) (tree : Tree) : Prop :=
  (st = .emptyNode ∧ tree = .empty) ∨ (Represents st tree ∧ st.Open)

theorem Stands.tryUpdate (stands : Stands st tree) (proper : tree.Proper) {key value : Bytes}
    (nonempty : value ≠ [])
    (below : ∀ hex val, tree.get hex = some val → Below hex (keybytesToHex key)) :
    ∃ after, st.tryUpdate key value = .ok after ∧
      Stands after (tree.insert (keybytesToHex key) value) := by
  have reads := readsKey_keybytesToHex key
  have terminated : ∃ body, keybytesToHex key = body ++ [terminator] := ⟨_, rfl⟩
  rcases terminated with ⟨body, terminated⟩
  simp only [StackTrie.tryUpdate, nonempty]
  rw [terminated] at below reads ⊢
  rw [dropLast_concat]
  rcases stands with ⟨rfl, rfl⟩ | ⟨represents, opened⟩
  · refine ⟨.leafNode body value, rfl, .inr ⟨?_, trivial⟩⟩
    have inserted : (RadixTree.empty : Tree).insert (body ++ [terminator]) value =
        .path (body ++ [terminator]) (.leaf value) := by
      cases body <;> rfl
    rw [inserted]
    exact .leaf body value
  · rcases represents.insert opened proper.canonical reads below value with
      ⟨after, inserted, represents, stillOpen⟩
    exact ⟨after, inserted, .inr ⟨represents, stillOpen⟩⟩

theorem Stands.root_eq (stands : Stands st tree) : st.root = tree.root := by
  rcases stands with ⟨rfl, rfl⟩ | ⟨represents, opened⟩
  · simp [root, hashRec, Tree.root]
  have hashed := represents.hashRec_eq opened.ne_nil
  have rooted : tree.root = Crypto.keccak256 tree.collapsed.encode := by
    have inner := represents.inner opened.ne_nil
    cases tree with
    | empty | leaf => exact absurd inner id
    | path | branch => rfl
  rw [root, hashed, rooted]
  by_cases short : tree.collapsed.encode.length < 32
  · have notHash : tree.collapsed.encode.length ≠ 32 := by omega
    simp [digest, short, notHash]
  · simp [digest, short]

end StackTrie

def Precedes : Bytes → Bytes → Prop
  | own :: key, other :: rest => own < other ∨ (own = other ∧ Precedes key rest)
  | _, _ => False

namespace Precedes

variable {first second : Bytes} (precedes : Precedes first second)
include precedes

theorem lt : first < second := by
  induction first generalizing second with
  | nil => exact absurd precedes id
  | cons _ _ ih =>
    cases second with
    | nil => exact absurd precedes id
    | cons =>
      rw [cons_lt_cons_iff]
      exact precedes.imp id fun same => ⟨same.1, ih same.2⟩

theorem not_isPrefix : ¬ first <+: second ∧ ¬ second <+: first := by
  induction first generalizing second with
  | nil => exact absurd precedes id
  | cons own _ ih =>
    cases second with
    | nil => exact absurd precedes id
    | cons other _ =>
      simp only [cons_prefix_cons]
      rcases precedes with less | ⟨rfl, precedes⟩
      · have differ : own ≠ other := by
          rintro rfl
          exact absurd less (BitVec.lt_irrefl own)
        exact ⟨fun both => differ both.1, fun both => differ both.1.symm⟩
      · exact ⟨fun both => (ih precedes).1 both.2, fun both => (ih precedes).2 both.2⟩

omit precedes in
theorem of_lt (less : first < second) (sameLength : first.length = second.length) :
    Precedes first second := by
  induction first generalizing second with
  | nil =>
    cases second with
    | nil => exact absurd less (List.lt_irrefl [])
    | cons => cases sameLength
  | cons _ _ ih =>
    cases second with
    | nil => cases sameLength
    | cons =>
      rw [cons_lt_cons_iff] at less
      simp only [length_cons, Nat.add_right_cancel_iff] at sameLength
      exact less.imp id fun same => ⟨same.1, ih same.2 sameLength⟩

theorem below : Below (keybytesToHex first) (keybytesToHex second) := by
  induction first generalizing second with
  | nil => exact absurd precedes id
  | cons own _ ih =>
    cases second with
    | nil => exact absurd precedes id
    | cons other _ =>
      have cut : ∀ (byte : Byte) (rest : Bytes),
          keybytesToHex (byte :: rest) = byteNibbles byte ++ keybytesToHex rest := by
        simp [keybytesToHex]
      rw [cut, cut]
      rcases precedes with less | ⟨rfl, precedes⟩
      · rw [BitVec.lt_def] at less
        have highNibble : ¬ other.toNat / 16 = 16 := by omega
        have lowNibble : ¬ other.toNat % 16 = 16 := by omega
        have parts : own.toNat / 16 < other.toNat / 16 ∨
            own.toNat / 16 = other.toNat / 16 ∧ own.toNat % 16 < other.toNat % 16 := by
          omega
        simp only [byteNibbles, cons_append, Below, Fin.ext_iff, ne_eq]
        rcases parts with high | ⟨sameHigh, low⟩
        · exact .inr ⟨high, highNibble⟩
        · exact .inl ⟨sameHigh, .inr ⟨low, lowNibble⟩⟩
      · rw [below_append]
        exact ih precedes

end Precedes

end Octopus
