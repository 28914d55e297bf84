import Octopus.Trie.Trie

/-!
# Tries as radix trees

A node stands for the radix tree that is left when every hash node is replaced by the node
the database has for it.  The operations on nodes compute those on the trees, or fail for
a node that is not available.  What the flags may say about a tree is a parameter, for the
root another one than below, because only the root is hashed whatever its size.
-/

namespace Octopus

open Library RadixTree Node List

variable {children : Nibble → Node} {pos : Nibble} {node : Node} {label : List Nibble}

abbrev Tree := RadixTree Nibble Bytes

variable {trees : Nibble → Tree}

abbrev FlagRule := NodeFlag → Tree → Prop

def Node.Loaded : Node → Prop
  | .shortNode _ _ _ => True
  | .fullNode _ _ => True
  | _ => False

/-- A node stands for a tree, over a complete database.  The flags meet the rule `own` at the
node itself and the rule `inner` below it. -/
inductive Expands (complete : Resolver) (inner : FlagRule) : FlagRule → Node → Tree → Prop
  | nil {own : FlagRule} : Expands complete inner own .nil .empty
  | value {own : FlagRule} (value : Bytes) :
      Expands complete inner own (.valueNode value) (.leaf value)
  | short {own : FlagRule} {label : List Nibble} {child : Node} {flags : NodeFlag} {tree : Tree}
      (flagged : own flags (.path label tree)) (below : Expands complete inner inner child tree) :
      Expands complete inner own (.shortNode label child flags) (.path label tree)
  | full {own : FlagRule} {children : Nibble → Node} {flags : NodeFlag} {trees : Nibble → Tree}
      (flagged : own flags (.branch trees))
      (below : ∀ nibble, Expands complete inner inner (children nibble) (trees nibble)) :
      Expands complete inner own (.fullNode children flags) (.branch trees)
  | hash {own : FlagRule} {hash : Hash} {node : Node} {tree : Tree}
      (flagged : own ⟨some hash, false⟩ tree) (found : complete hash = some node)
      (loaded : node.Loaded) (below : Expands complete inner own node tree) :
      Expands complete inner own (.hashNode hash) tree

def Resolver.Within (available complete : Resolver) : Prop :=
  ∀ hash node, available hash = some node → complete hash = some node

/-- An operation returns something with a property, or fails for a node that is not available. -/
def Yields {Value : Type} (complete available : Resolver) (property : Value → Prop) :
    Except TrieError Value → Prop
  | .ok value => property value
  | .error (.missingNode _ hash _) => available hash = none ∧ complete hash ≠ none
  | .error (.fault _) => False

section Yields

variable {First Second : Type} {complete available : Resolver}

theorem Yields.bind {property : First → Prop} {res : Except TrieError First}
    {next : First → Except TrieError Second} {goal : Second → Prop}
    (first : Yields complete available property res)
    (second : ∀ value, property value → Yields complete available goal (next value)) :
    Yields complete available goal (res >>= next) := by
  cases res with
  | ok value => exact second value first
  | error error =>
    cases error with
    | missingNode => exact first
    | fault => exact absurd first id

theorem yields_resolveHash (within : available.Within complete) {hash : Hash}
    (found : complete hash = some node) (owner : Hash) (path : List Nibble) :
    Yields complete available (fun resolved => resolved = node)
      (resolveHash available owner hash path) := by
  cases looked : available hash with
  | none => simp [resolveHash, looked, Yields, found]
  | some resolved =>
    have same := within hash resolved looked
    rw [found] at same
    simpa [resolveHash, looked, Yields] using same.symm

end Yields

def Node.rank : Node → Nat
  | .hashNode _ => 1
  | _ => 0

theorem Node.rank_le (node : Node) : node.rank ≤ 1 := by
  cases node <;> simp [rank]

@[simp]
theorem Node.rank_join (label : List Nibble) (node : Node) : (node.join label).rank = 0 := by
  cases node <;> rfl

theorem Node.Loaded.rank_eq (loaded : node.Loaded) : node.rank = 0 := by
  cases node with
  | hashNode => exact absurd loaded id
  | _ => rfl

namespace Expands

variable {complete available : Resolver} {inner own : FlagRule} {node : Node} {tree : Tree}
  {ended : Bool} {fuel : Nat} {done key : List Nibble}

theorem mono {otherInner otherOwn : FlagRule} (expands : Expands complete inner own node tree)
    (relaxed : ∀ flags tree, inner flags tree → otherInner flags tree)
    (ownRelaxed : ∀ flags tree, own flags tree → otherOwn flags tree) :
    Expands complete otherInner otherOwn node tree := by
  induction expands generalizing otherOwn with
  | nil => exact .nil
  | value value => exact .value value
  | short flagged _ ih => exact .short (ownRelaxed _ _ flagged) (ih relaxed)
  | full flagged _ ih => exact .full (ownRelaxed _ _ flagged) fun nibble => ih nibble relaxed
  | hash flagged found loaded _ ih =>
    exact .hash (ownRelaxed _ _ flagged) found loaded (ih ownRelaxed)

theorem enough_below {rest : List Nibble} {fuel : Nat} (nonempty : label ≠ [])
    (enough : 2 * (label ++ rest).length < fuel + 1) (child : Node) :
    2 * rest.length + child.rank < fuel := by
  have positive := length_pos_of_ne_nil nonempty
  have small := child.rank_le
  simp only [length_append] at enough
  omega

theorem tryGet (expands : Expands complete inner own node tree)
    (within : available.Within complete) (owner : Hash)
    (canon : tree.Canonical isTerminator ended) (reads : readsKey ended key)
    (enough : 2 * key.length + node.rank < fuel) :
    Yields complete available
      (fun (res : Option Bytes × Node × Bool) =>
        res.1 = tree.get key ∧ Expands complete inner own res.2.1 tree)
      (Node.tryGet available owner fuel node done key) := by
  induction expands generalizing ended fuel done key with
  | nil =>
    cases fuel with
    | zero => omega
    | succ => exact ⟨rfl, .nil⟩
  | value value =>
    cases fuel with
    | zero => omega
    | succ =>
      cases canon
      cases nil_of_after_true reads
      exact ⟨rfl, .value value⟩
  | @short _ label child _ _ flagged below ih =>
    cases fuel with
    | zero => omega
    | succ =>
      simp only [Node.tryGet]
      by_cases front : label <+: key
      · rw [if_pos front]
        rcases canon with ⟨nonempty, _, _, start, canon⟩
        rcases front with ⟨rest, rfl⟩
        have remaining := after_below start reads
        simp only [drop_left]
        apply (ih canon remaining (enough_below nonempty enough child)).bind
        rintro ⟨value, newnode, didResolve⟩ ⟨rfl, newExpands⟩
        cases didResolve with
        | false => exact ⟨by simp [RadixTree.get], .short flagged below⟩
        | true => exact ⟨by simp [RadixTree.get], .short flagged newExpands⟩
      · rw [if_neg front]
        refine ⟨?_, .short flagged below⟩
        simp [RadixTree.get, strip_of_not_isPrefix front]
  | @full _ children _ _ flagged below ih =>
    cases fuel with
    | zero => omega
    | succ =>
      rcases canon with ⟨rfl, _, canon⟩
      cases key with
      | nil => cases reads
      | cons nibble _ =>
        have small := (children nibble).rank_le
        simp only [length_cons] at enough
        apply (ih nibble (canon nibble) reads (by omega)).bind
        rintro ⟨value, newnode, didResolve⟩ ⟨rfl, newExpands⟩
        cases didResolve with
        | false => exact ⟨rfl, .full flagged below⟩
        | true =>
          refine ⟨rfl, .full flagged ?_⟩
          intro other
          by_cases same : other = nibble
          · subst same
            simpa using newExpands
          · simpa [same] using below other
  | @hash _ _ _ _ _ found loaded _ ih =>
    cases fuel with
    | zero => omega
    | succ =>
      have unranked := loaded.rank_eq
      simp only [rank] at enough
      apply (yields_resolveHash within found owner done).bind
      rintro _ rfl
      apply (ih canon reads (by omega)).bind
      rintro ⟨value, newnode, didResolve⟩ ⟨rfl, newExpands⟩
      exact ⟨rfl, newExpands⟩

theorem update (nibble : Nibble)
    (below : ∀ nibble, Expands complete inner inner (children nibble) (trees nibble))
    (changed : Expands complete inner inner node tree) (other : Nibble) :
    Expands complete inner inner (Function.update children nibble node other)
      (Function.update trees nibble tree other) := by
  by_cases same : other = nibble
  · subst same
    simpa using changed
  · simpa [same] using below other

def attached : List Nibble → Node → Node
  | [], child => child
  | nibble :: rest, child => .shortNode (nibble :: rest) child newFlag

variable (owner : Hash)

theorem insert_nil (fuel : Nat) (done key : List Nibble) (child : Node) :
    Node.insert available owner (fuel + 1) .nil done key child =
      .ok (true, attached key child) := by
  cases key with
  | nil => cases child <;> rfl
  | cons => rfl

theorem attach (fresh : ∀ tree, inner newFlag tree) (label : List Nibble)
    (expands : Expands complete inner inner node tree) :
    Expands complete inner inner (attached label node) (RadixTree.attach label tree) := by
  cases label with
  | nil => exact expands
  | cons => exact .short (fresh _) expands

/-- `insert` and `delete` return a node for the new tree, or report the old one unchanged. -/
def Updates (complete : Resolver) (inner own : FlagRule) (before after : Tree)
    (result : Bool × Node) : Prop :=
  Expands complete inner own result.2 after ∧ (result.1 = false → after = before) ∧
    (result.1 = true → result.2.rank = 0)

theorem replace (value : Bytes) (expands : Expands complete inner own node tree) :
    Yields complete available (Updates complete inner own tree (.leaf value))
      (Node.replace node (.valueNode value)) := by
  cases expands with
  | value =>
    refine ⟨.value value, ?_, fun _ => rfl⟩
    intro same
    simp only [bne_eq_false_iff_eq] at same
    rw [same]
  | _ => exact ⟨.value value, by simp, fun _ => rfl⟩

theorem insert_fork (fuel : Nat) (done common labelRest keyRest : List Nibble)
    {first second : Nibble} (differ : first ≠ second) (child value : Node) (flags : NodeFlag) :
    Node.insert available owner (fuel + 2)
        (.shortNode (common ++ first :: labelRest) child flags) done
        (common ++ second :: keyRest) value =
      .ok (true, attached common
        (.fullNode
          (Function.update (Function.update (fun _ => .nil) first (attached labelRest child))
            second (attached keyRest value)) newFlag)) := by
  have matchlen : prefixLen (common ++ second :: keyRest) (common ++ first :: labelRest) =
      common.length := by
    rw [prefixLen_meet, meet_fork differ]
  cases common with
  | nil =>
    simp only [nil_append] at matchlen ⊢
    simp [Node.insert, matchlen, insert_nil]
    rfl
  | cons _ common =>
    simp only [cons_append] at matchlen ⊢
    simp [Node.insert, matchlen, insert_nil]
    rfl

theorem insert_through (fuel : Nat) (done : List Nibble) (nonempty : label ≠ [])
    (rest : List Nibble) (child value : Node) (flags : NodeFlag) :
    Node.insert available owner (fuel + 1) (.shortNode label child flags) done
        (label ++ rest) value =
      (do
        let (dirty, nn) ← Node.insert available owner fuel child (done ++ label) rest value
        if dirty then .ok (true, .shortNode label nn newFlag)
        else .ok (false, .shortNode label child flags)) := by
  have matchlen : prefixLen (label ++ rest) label = label.length := by
    rw [prefixLen_meet, meet_append]
  cases label with
  | nil => exact absurd rfl nonempty
  | cons =>
    simp only [cons_append] at matchlen ⊢
    simp [Node.insert, matchlen]

section

variable (expands : Expands complete inner own node tree)
include expands

theorem insert (fresh : ∀ tree, inner newFlag tree) (ownFresh : ∀ tree, own newFlag tree)
    (within : available.Within complete) (owner : Hash)
    (canon : tree.Canonical isTerminator ended) (reads : readsKey ended key)
    (enough : 2 * key.length + node.rank < fuel) (value : Bytes) :
    Yields complete available (Updates complete inner own tree (tree.insert key value))
      (Node.insert available owner fuel node done key (.valueNode value)) := by
  induction expands generalizing ended fuel done key with
  | nil =>
    cases fuel with
    | zero => omega
    | succ =>
      cases key with
      | nil => exact Expands.nil.replace value
      | cons => exact ⟨.short (ownFresh _) (.value value), by simp, fun _ => rfl⟩
  | value old =>
    cases fuel with
    | zero => omega
    | succ =>
      cases canon
      cases nil_of_after_true reads
      exact (Expands.value old).replace value
  | @short _ label child _ _ flagged below ih =>
    rcases canon with ⟨nonempty, _, _, start, canon⟩
    rcases reads_cases start reads with
      ⟨_, rfl, remaining⟩ | ⟨common, first, labelRest, second, keyRest, differ, rfl, rfl⟩
    · rw [RadixTree.insert_through nonempty]
      cases fuel with
      | zero => omega
      | succ fuel =>
        rw [insert_through owner fuel done nonempty]
        apply (ih fresh canon remaining (enough_below nonempty enough child)).bind
        rintro ⟨dirty, nn⟩ ⟨newExpands, unchanged, _⟩
        cases dirty with
        | true => exact ⟨.short (ownFresh _) newExpands, by simp, fun _ => rfl⟩
        | false =>
          rw [unchanged rfl]
          exact ⟨.short flagged below, by simp, by simp⟩
    · have long : 2 ≤ fuel := by
        simp only [length_append, length_cons] at enough
        omega
      rcases Nat.exists_eq_add_of_le' long with ⟨fuel, rfl⟩
      rw [RadixTree.insert_fork differ, insert_fork owner fuel done _ _ _ differ]
      have children := update second (update first (fun _ => .nil) (below.attach fresh labelRest))
        ((Expands.value value).attach fresh keyRest)
      cases common with
      | nil => exact ⟨.full (ownFresh _) children, by simp, fun _ => rfl⟩
      | cons => exact ⟨.short (ownFresh _) (.full (fresh _) children), by simp, fun _ => rfl⟩
  | @full _ children _ _ flagged below ih =>
    rcases canon with ⟨rfl, _, canon⟩
    cases fuel with
    | zero => omega
    | succ =>
      cases key with
      | nil => cases reads
      | cons nibble _ =>
        have small := (children nibble).rank_le
        simp only [length_cons] at enough
        simp only [RadixTree.insert]
        apply (ih nibble fresh (canon nibble) reads (by omega)).bind
        rintro ⟨dirty, nn⟩ ⟨newExpands, unchanged, _⟩
        cases dirty with
        | true => exact ⟨.full (ownFresh _) (update nibble below newExpands), by simp, fun _ => rfl⟩
        | false =>
          rw [unchanged rfl, Function.update_eq_self]
          exact ⟨.full flagged below, by simp, by simp⟩
  | @hash _ hash _ tree flagged found loaded below ih =>
    have unranked := loaded.rank_eq
    simp only [rank] at enough
    cases fuel with
    | zero => omega
    | succ =>
      cases key with
      | nil =>
        have replaced : tree.insert [] value = .leaf value := by cases tree <;> rfl
        rw [replaced]
        exact (Expands.hash flagged found loaded below).replace value
      | cons =>
        apply (yields_resolveHash within found owner done).bind
        rintro _ rfl
        apply (ih ownFresh canon reads (by omega)).bind
        rintro ⟨dirty, nn⟩ ⟨newExpands, unchanged, unhashed⟩
        cases dirty with
        | true => exact ⟨newExpands, by simp, unhashed⟩
        | false =>
          rw [unchanged rfl]
          exact ⟨below, by simp, by simp⟩

theorem nil_iff : node = .nil ↔ tree = .empty := by
  induction expands with
  | hash _ _ loaded _ ih =>
    simp only [reduceCtorEq, false_iff]
    intro isEmpty
    rw [ih.mpr isEmpty] at loaded
    exact loaded
  | _ => simp

end

theorem onlyChild_some (only : onlyChild children = some pos) :
    children pos ≠ .nil ∧ ∀ other, other ≠ pos → children other = .nil := by
  have listed : ∀ nibble, nibble ∈ (finRange 17).filter (fun nibble => !(children nibble).isNil) ↔
        children nibble ≠ .nil := by
    simp [← Bool.not_eq_true]
  simp only [onlyChild] at only
  split at only
  · rename_i pos filtered
    cases only
    rw [filtered] at listed
    simp only [mem_singleton] at listed
    refine ⟨(listed pos).mp rfl, ?_⟩
    intro other differ
    by_contra here
    exact differ ((listed other).mpr here)
  · cases only

theorem onlyChild_none (several : onlyChild children = none) (here : children pos ≠ .nil) :
    ∃ other, pos ≠ other ∧ children other ≠ .nil := by
  by_contra alone
  have alone : ∀ other, children other ≠ .nil → other = pos := by
    intro other second
    by_contra differ
    exact alone ⟨other, Ne.symm differ, second⟩
  have filtered : (finRange 17).filter (fun nibble => !(children nibble).isNil) = [pos] := by
    have nodup := (nodup_finRange 17).filter (fun nibble => !(children nibble).isNil)
    apply perm_singleton.mp
    apply (perm_ext_iff_of_nodup nodup (nodup_singleton pos)).mpr
    intro nibble
    have listed : (!(children nibble).isNil) = true ↔ children nibble ≠ .nil := by
      simp [← Bool.not_eq_true]
    simp only [mem_filter, mem_finRange, true_and, listed, mem_singleton]
    exact ⟨alone nibble, fun same => same ▸ here⟩
  simp [onlyChild, filtered] at several

section

variable (ownFresh : ∀ tree, own newFlag tree) (within : available.Within complete) (owner : Hash)
  (before : Tree)
include ownFresh within

theorem merge (pos : Nibble) (expands : Expands complete inner inner node tree) :
    Yields complete available (Updates complete inner own before (prepend [pos] tree)) (do
        match ← resolve available owner node done with
        | .shortNode label child _ => .ok (true, .shortNode (pos :: label) child newFlag)
        | _ => .ok (true, .shortNode [pos] node newFlag)) := by
  cases expands with
  | nil => exact ⟨.short (ownFresh _) .nil, by simp, fun _ => rfl⟩
  | value value => exact ⟨.short (ownFresh _) (.value value), by simp, fun _ => rfl⟩
  | short _ below => exact ⟨.short (ownFresh _) below, by simp, fun _ => rfl⟩
  | full flagged below => exact ⟨.short (ownFresh _) (.full flagged below), by simp, fun _ => rfl⟩
  | hash flagged found loaded below =>
    apply (yields_resolveHash within found owner done).bind
    rintro _ rfl
    cases below with
    | nil | value | hash => exact absurd loaded id
    | short _ below => exact ⟨.short (ownFresh _) below, by simp, fun _ => rfl⟩
    | full childFlagged below =>
      refine ⟨.short (ownFresh _) ?_, by simp, fun _ => rfl⟩
      exact .hash flagged found loaded (.full childFlagged below)

theorem reduce
    (below : ∀ nibble, Expands complete inner inner (children nibble) (trees nibble))
    (canon : ∀ nibble, (trees nibble).Canonical isTerminator (isTerminator nibble))
    (here : trees pos ≠ .empty) :
    Yields complete available (Updates complete inner own before (contract trees))
      (Node.reduce available owner children done) := by
  have nonempty : ∀ nibble, children nibble ≠ .nil ↔ trees nibble ≠ .empty :=
    fun nibble => not_congr (below nibble).nil_iff
  cases only : onlyChild children with
  | none =>
    rcases onlyChild_none only ((nonempty pos).mpr here) with ⟨other, differ, second⟩
    rw [contract_many differ here ((nonempty other).mp second)]
    simp only [Node.reduce, only]
    exact ⟨.full (ownFresh _) below, by simp, fun _ => rfl⟩
  | some left =>
    rcases onlyChild_some only with ⟨first, alone⟩
    have emptied : ∀ other, other ≠ left → trees other = .empty :=
      fun other differ => (below other).nil_iff.mp (alone other differ)
    rw [contract_only ((nonempty left).mp first) emptied]
    simp only [Node.reduce, only]
    by_cases ends : left = terminator
    · rw [if_pos ends]
      have ended : (trees left).Canonical isTerminator true := by
        simpa [ends, isTerminator] using canon left
      rcases leaf_of_ended ended with missing | ⟨_, same⟩
      · exact absurd missing ((nonempty left).mp first)
      · have below := below left
        rw [same] at below ⊢
        exact ⟨.short (ownFresh _) below, by simp, fun _ => rfl⟩
    · rw [if_neg ends]
      exact (below left).merge ownFresh within owner before left

end

theorem delete_apart (fuel : Nat) (apart : strip label key = none) (child : Node)
    (flags : NodeFlag) :
    Node.delete available owner (fuel + 1) (.shortNode label child flags) done key =
      .ok (false, .shortNode label child flags) := by
  have shorter : prefixLen key label < label.length := by
    have met := describes_meet label key
    rw [prefixLen_meet]
    cases outcome : meet label key with
    | through =>
      simp only [outcome, RadixTree.Meeting.Describes] at met
      simp [met] at apart
    | fork =>
      simp only [outcome] at met
      simp [met.2.1]
    | within =>
      simp only [outcome] at met
      rcases met with ⟨_, rest, rfl⟩
      simp
  simp [Node.delete, shorter]

theorem delete_whole (fuel : Nat) (label : List Nibble) (child : Node) (flags : NodeFlag) :
    Node.delete available owner (fuel + 1) (.shortNode label child flags) done label =
      .ok (true, .nil) := by
  have whole : prefixLen label label = label.length := by
    have met := meet_append label []
    rw [append_nil] at met
    rw [prefixLen_meet, met]
  simp [Node.delete, whole]

theorem delete_through (fuel : Nat) (label : List Nibble) (nibble : Nibble) (rest : List Nibble)
    (child : Node) (flags : NodeFlag) :
    Node.delete available owner (fuel + 1) (.shortNode label child flags) done
        (label ++ nibble :: rest) =
      (do
        let (dirty, nn) ← Node.delete available owner fuel child (done ++ label) (nibble :: rest)
        if dirty then .ok (true, nn.join label)
        else .ok (false, .shortNode label child flags)) := by
  have matchlen : prefixLen (label ++ nibble :: rest) label = label.length := by
    rw [prefixLen_meet, meet_append]
  simp [Node.delete, matchlen]

theorem join (ownFresh : ∀ tree, own newFlag tree) (label : List Nibble)
    (loaded : node.rank = 0) (expands : Expands complete inner inner node tree) :
    Expands complete inner own (node.join label) (prepend label tree) := by
  cases expands with
  | hash => cases loaded
  | short _ below => exact .short (ownFresh _) below
  | nil => exact .short (ownFresh _) .nil
  | value value => exact .short (ownFresh _) (.value value)
  | full flagged below => exact .short (ownFresh _) (.full flagged below)

theorem delete (expands : Expands complete inner own node tree)
    (fresh : ∀ tree, inner newFlag tree) (ownFresh : ∀ tree, own newFlag tree)
    (within : available.Within complete) (owner : Hash)
    (canon : tree.Canonical isTerminator ended) (reads : readsKey ended key)
    (enough : 2 * key.length + node.rank < fuel) :
    Yields complete available (Updates complete inner own tree (tree.delete key))
      (Node.delete available owner fuel node done key) := by
  induction expands generalizing ended fuel done key with
  | nil =>
    cases fuel with
    | zero => omega
    | succ => exact ⟨.nil, by simp [RadixTree.delete], by simp⟩
  | value =>
    cases fuel with
    | zero => omega
    | succ =>
      cases canon
      cases nil_of_after_true reads
      exact ⟨.nil, by simp, fun _ => rfl⟩
  | @short _ label child _ _ flagged below ih =>
    cases fuel with
    | zero => omega
    | succ fuel =>
      cases stripped : strip label key with
      | none =>
        rw [delete_apart owner fuel stripped]
        simp only [RadixTree.delete, stripped]
        exact ⟨.short flagged below, by simp, by simp⟩
      | some rest =>
        rw [RadixTree.delete, stripped]
        rw [strip_eq_some] at stripped
        subst stripped
        cases rest with
        | nil =>
          rw [append_nil, delete_whole]
          exact ⟨.nil, by simp, fun _ => rfl⟩
        | cons =>
          rcases canon with ⟨nonempty, stem, _, start, canon⟩
          have remaining := after_below start reads
          rw [delete_through]
          apply (ih fresh canon remaining (enough_below nonempty enough child)).bind
          rintro ⟨dirty, nn⟩ ⟨newExpands, unchanged, unhashed⟩
          cases dirty with
          | true =>
            exact ⟨newExpands.join ownFresh label (unhashed rfl), by simp,
              fun _ => rank_join label nn⟩
          | false =>
            simp only
            rw [unchanged rfl, prepend_of_stem stem]
            exact ⟨.short flagged below, by simp, by simp⟩
  | @full _ children _ trees flagged below ih =>
    rcases canon with ⟨rfl, two, canon⟩
    cases fuel with
    | zero => omega
    | succ =>
      cases key with
      | nil => cases reads
      | cons nibble rest =>
        have small := (children nibble).rank_le
        simp only [length_cons] at enough
        simp only [Node.delete, RadixTree.delete]
        apply (ih nibble fresh (canon nibble) reads (by omega)).bind
        rintro ⟨dirty, nn⟩ ⟨newExpands, unchanged, _⟩
        have changed := update nibble below newExpands
        rcases exists_present_update two nibble ((trees nibble).delete rest) with
          ⟨other, differ, here⟩
        cases dirty with
        | true =>
          cases removed : nn.isNil with
          | true =>
            exact reduce ownFresh within owner _ changed (canonical_update canon
                (canonical_delete (canon nibble) reads)) here
          | false =>
            have left : Function.update trees nibble ((trees nibble).delete rest) nibble ≠
                .empty := by
              rw [Function.update_self, ne_eq, ← newExpands.nil_iff, ← isNil_iff]
              simp [removed]
            rw [contract_many (Ne.symm differ) left here]
            exact ⟨.full (ownFresh _) changed, by simp, fun _ => rfl⟩
        | false =>
          rcases two with ⟨_, _, apart, left, right⟩
          rw [unchanged rfl, Function.update_eq_self, contract_many apart left right]
          exact ⟨.full flagged below, by simp, by simp⟩
  | @hash _ _ _ _ _ found loaded below ih =>
    have unranked := loaded.rank_eq
    simp only [rank] at enough
    cases fuel with
    | zero => omega
    | succ =>
      apply (yields_resolveHash within found owner done).bind
      rintro _ rfl
      apply (ih ownFresh canon reads (by omega)).bind
      rintro ⟨dirty, nn⟩ ⟨newExpands, unchanged, unhashed⟩
      cases dirty with
      | true => exact ⟨newExpands, by simp, unhashed⟩
      | false =>
        rw [unchanged rfl]
        exact ⟨below, by simp, by simp⟩

end Expands

/-- A short node has a child that is not a short node, and a full node at least two children. -/
def Node.Minimal : Node → Prop
  | .shortNode _ val _ =>
    val ≠ .nil ∧ (∀ key below flags, val ≠ .shortNode key below flags) ∧ val.Minimal
  | .fullNode children _ =>
    (∃ first second, first ≠ second ∧ children first ≠ .nil ∧ children second ≠ .nil) ∧
      ∀ nibble, (children nibble).Minimal
  | _ => True

theorem Expands.minimal {complete : Resolver} {inner own : FlagRule} {tree : Tree} {ended : Bool}
    (expands : Expands complete inner own node tree)
    (canon : tree.Canonical isTerminator ended) : node.Minimal := by
  induction expands generalizing ended with
  | nil | value | hash => trivial
  | short _ below ih =>
    rcases canon with ⟨_, stem, _, _, canon⟩
    refine ⟨fun isNil => stem.ne_empty (below.nil_iff.mp isNil), ?_, ih canon⟩
    rintro key grandchild flags rfl
    cases below
    exact stem
  | full _ below ih =>
    rcases canon with ⟨_, ⟨first, second, differ, left, right⟩, canon⟩
    refine ⟨⟨first, second, differ, ?_, ?_⟩, fun nibble => ih nibble (canon nibble)⟩
    · exact fun isNil => left ((below first).nil_iff.mp isNil)
    · exact fun isNil => right ((below second).nil_iff.mp isNil)

end Octopus
