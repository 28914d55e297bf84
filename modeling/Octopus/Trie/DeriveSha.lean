import Octopus.Trie.StackRoot

/-!
# Roots of lists

`DeriveSha` feeds a stack trie the encoded items under their encoded indices, in the order
of the keys: the index `0` has the key `0x80` and comes after the indices of one byte.
-/

namespace Octopus

open Library Rlp List

variable {pairs : List (Bytes × Bytes)} {second first num index len : Nat}

def Rlp.appendUint64 (number : Nat) : Bytes :=
  if number = 0 then [0x80]
  else if number < 128 then [BitVec.ofNat 8 number]
  else (0x80 + BitVec.ofNat 8 (intsize number)) :: putint number

structure DerivableList where
  len : Nat
  encodeIndex : Nat → Bytes
  bound : len < 2 ^ 63

namespace DerivableList

/-- The indices in the order of the three loops of `DeriveSha`. -/
def indices (len : Nat) : List Nat :=
  List.range' 1 (min (len - 1) 0x7f) ++ (if 0 < len then [0] else []) ++
    List.range' 0x80 (len - 0x80)

variable (list : DerivableList)

def updates : List (Bytes × Bytes) :=
  (indices list.len).map fun index => (appendUint64 index, list.encodeIndex index)

def deriveSha [Crypto] : Except Fault Hash :=
  (StackTrie.emptyNode.update list.updates).map StackTrie.root

end DerivableList

theorem precedes_bigEndian {width : Nat} (first second : BitVec width) (count : Nat)
    (less : first.toNat % 256 ^ count < second.toNat % 256 ^ count) :
    Precedes (bigEndian first count) (bigEndian second count) := by
  induction count with
  | zero => simp [Nat.mod_one] at less
  | succ count ih =>
    have power : 2 ^ (8 * count) = 256 ^ count := by rw [Nat.pow_mul]
    have digits : ∀ num, num % 256 ^ (count + 1) =
        num / 256 ^ count % 256 * 256 ^ count + num % 256 ^ count := by
      intro num
      rw [Nat.pow_succ, Nat.mod_mul, Nat.mul_comm, Nat.add_comm]
    have head : ∀ value : BitVec width, ((value >>> (8 * count)).setWidth 8 : Byte).toNat =
        value.toNat / 256 ^ count % 256 := by
      intro value
      rw [BitVec.toNat_setWidth, BitVec.toNat_ushiftRight, Nat.shiftRight_eq_div_pow, power]
    rw [digits, digits] at less
    rw [bigEndian_succ, bigEndian_succ]
    rcases Nat.lt_trichotomy (first.toNat / 256 ^ count % 256)
      (second.toNat / 256 ^ count % 256) with smaller | same | greater
    · exact .inl (by rw [BitVec.lt_def, head, head]; exact smaller)
    · refine .inr ⟨BitVec.eq_of_toNat_eq (by rw [head, head, same]), ih ?_⟩
      rw [same] at less
      omega
    · have scaled := Nat.mul_le_mul_right (256 ^ count) (Nat.succ_le_of_lt greater)
      rw [Nat.succ_mul] at scaled
      omega

theorem intsize_bounds (num : Nat) : 1 ≤ intsize num ∧ intsize num ≤ 8 := by
  simp only [intsize]
  split_ifs <;> omega

theorem lt_pow_intsize (small : num < 2 ^ 64) : num < 256 ^ intsize num := by
  simp only [intsize]
  split_ifs <;> norm_num at * <;> omega

theorem pow_le_of_lt_intsize (several : 1 < intsize num) : 256 ^ (intsize num - 1) ≤ num := by
  simp only [intsize] at several ⊢
  split_ifs at several ⊢ <;> norm_num at * <;> omega

theorem intsize_mono (less : first ≤ second) (small : second < 2 ^ 64) :
    intsize first ≤ intsize second := by
  by_contra longer
  have bounds := intsize_bounds second
  have fits := lt_pow_intsize small
  have needs := pow_le_of_lt_intsize (show 1 < intsize first by omega)
  have power := Nat.pow_le_pow_right (show 0 < 256 by omega)
    (show intsize second ≤ intsize first - 1 by omega)
  omega

theorem toNat_tag (num : Nat) :
    ((0x80 : Byte) + BitVec.ofNat 8 (intsize num)).toNat = 128 + intsize num := by
  have bounds := intsize_bounds num
  change (128 + intsize num % 256) % 256 = _
  omega

theorem precedes_appendUint64 (large : 128 ≤ first) (less : first < second)
    (small : second < 2 ^ 64) : Precedes (appendUint64 first) (appendUint64 second) := by
  have sizes := intsize_mono (Nat.le_of_lt less) small
  simp only [appendUint64, show ¬ first = 0 by omega, show ¬ second = 0 by omega,
    show ¬ first < 128 by omega, show ¬ second < 128 by omega]
  rcases Nat.lt_or_eq_of_le sizes with shorter | same
  · refine .inl ?_
    rw [BitVec.lt_def, toNat_tag, toNat_tag]
    omega
  refine .inr ⟨by rw [same], ?_⟩
  rw [putint, putint, same]
  apply precedes_bigEndian
  have firstSmall : first < 256 ^ intsize second := same ▸ lt_pow_intsize (by omega)
  have secondSmall := lt_pow_intsize small
  rw [BitVec.toNat_ofNat, BitVec.toNat_ofNat, Nat.mod_eq_of_lt (show first < 2 ^ 64 by omega),
    Nat.mod_eq_of_lt small, Nat.mod_eq_of_lt firstSmall, Nat.mod_eq_of_lt secondSmall]
  exact less

theorem appendUint64_small (positive : 0 < index) (small : index < 128) :
    appendUint64 index = [BitVec.ofNat 8 index] := by
  simp [appendUint64, small, Nat.ne_of_gt positive]

theorem precedes_small (positive : 0 < first) (small : first < 128)
    (later : second = 0 ∨ first < second) :
    Precedes (appendUint64 first) (appendUint64 second) := by
  have tag : (BitVec.ofNat 8 first : Byte).toNat = first := by
    rw [BitVec.toNat_ofNat]
    omega
  rw [appendUint64_small positive small]
  simp only [appendUint64]
  split_ifs with isZero isSmall
  · refine .inl ?_
    rw [BitVec.lt_def, tag]
    exact small
  · refine .inl ?_
    rw [BitVec.lt_def, tag, BitVec.toNat_ofNat]
    omega
  · refine .inl ?_
    rw [BitVec.lt_def, tag, toNat_tag]
    omega

theorem precedes_zero (large : 128 ≤ second) : Precedes (appendUint64 0) (appendUint64 second) := by
  have bounds := intsize_bounds second
  simp only [appendUint64, show ¬ second = 0 by omega, show ¬ second < 128 by omega]
  refine .inl ?_
  rw [BitVec.lt_def, toNat_tag]
  change 128 < _
  omega

namespace DerivableList

theorem mem_indices :
    index ∈ indices len ↔ ((1 ≤ index ∧ index < len ∧ index < 128) ∨ (0 < len ∧ index = 0)) ∨
        (128 ≤ index ∧ index < len) := by
  simp only [indices, mem_append]
  split_ifs <;> simp <;> omega

theorem indices_perm (len : Nat) : (indices len).Perm (range len) := by
  have distinct : (indices len).Nodup := by
    rw [indices, nodup_append, nodup_append]
    refine ⟨⟨nodup_range', ?_, ?_⟩, nodup_range', ?_⟩
    · split_ifs <;> simp
    · intro first isFirst second isSecond
      simp only [mem_range'_1] at isFirst
      split_ifs at isSecond <;> simp at isSecond
      omega
    · intro first isFirst second isSecond
      simp only [mem_range'_1] at isFirst isSecond
      split_ifs at isFirst <;> simp at isFirst <;> omega
  apply (perm_ext_iff_of_nodup distinct nodup_range).mpr
  intro _
  rw [mem_indices, mem_range]
  omega

theorem pairwise_indices (bound : len < 2 ^ 63) :
    ((indices len).map appendUint64).Pairwise Precedes := by
  rw [pairwise_map, indices, pairwise_append, pairwise_append]
  refine ⟨⟨?_, ?_, ?_⟩, ?_, ?_⟩
  · refine (pairwise_lt_range' 1).imp_of_mem ?_
    intro first second isFirst _ less
    simp only [mem_range'_1] at isFirst
    exact precedes_small (by omega) (by omega) (.inr less)
  · split_ifs <;> simp
  · intro first isFirst second isSecond
    simp only [mem_range'_1] at isFirst
    split_ifs at isSecond <;> simp at isSecond
    exact precedes_small (by omega) (by omega) (.inl isSecond)
  · refine (pairwise_lt_range' 1).imp_of_mem ?_
    intro first second isFirst isSecond less
    simp only [mem_range'_1] at isFirst isSecond
    exact precedes_appendUint64 (by omega) less (by omega)
  · intro first isFirst second isSecond
    simp only [mem_append, mem_range'_1] at isFirst isSecond
    rcases isFirst with isFirst | isFirst
    · exact precedes_small (by omega) (by omega) (.inr (by omega))
    · split_ifs at isFirst <;> simp at isFirst
      subst isFirst
      exact precedes_zero (by omega)

end DerivableList

def pairContents (pairs : List (Bytes × Bytes)) : Contents :=
  pairs.foldl (fun contents pair => (contents.call (.tryUpdate pair.1 pair.2)).2) fun _ => none

variable [Crypto]

theorem StackTrie.Stands.update {st : StackTrie} {tree : Tree} (stands : st.Stands tree)
    (proper : tree.Proper) (ordered : (pairs.map Prod.fst).Pairwise Precedes)
    (nonempty : ∀ pair ∈ pairs, pair.2 ≠ [])
    (below : ∀ pair ∈ pairs, ∀ hex val, tree.get hex = some val →
      Below hex (keybytesToHex pair.1)) :
    ∃ after, ∃ afterTree : Tree, st.update pairs = .ok after ∧ after.Stands afterTree ∧
      afterTree.Proper ∧
      afterTree.contents =
        pairs.foldl (fun contents pair => (contents.call (.tryUpdate pair.1 pair.2)).2)
          tree.contents := by
  induction pairs generalizing st tree with
  | nil => exact ⟨st, tree, rfl, stands, proper, rfl⟩
  | cons pair pairs ih =>
    rcases pair with ⟨key, value⟩
    simp only [map_cons, pairwise_cons, mem_map] at ordered
    simp only [mem_cons, forall_eq_or_imp] at nonempty below
    rcases stands.tryUpdate proper nonempty.1 below.1 with ⟨_, updated, nextStands⟩
    have nextProper := Tree.proper_insert proper key nonempty.1
    have nextBelow : ∀ pair ∈ pairs, ∀ hex val,
        (tree.insert (keybytesToHex key) value).get hex = some val →
          Below hex (keybytesToHex pair.1) := by
      intro pair listed hex val found
      rw [RadixTree.get_insert proper.canonical (readsKey_keybytesToHex key)] at found
      split at found
      · rename_i same
        rw [same]
        exact (ordered.1 pair.1 ⟨pair, listed, rfl⟩).below
      · exact below.2 pair listed hex val found
    rcases ih nextStands nextProper ordered.2 nonempty.2 nextBelow with
      ⟨after, afterTree, ran, afterStands, afterProper, contents⟩
    refine ⟨after, afterTree, ?_, afterStands, afterProper, ?_⟩
    · simp only [StackTrie.update, foldlM_cons, updated] at ran ⊢
      exact ran
    · rw [contents, Tree.contents_insert proper]
      simp [Contents.call, nonempty.1]

/-- For pairs in order, none of whose keys is an initial segment of another, the root is that of
any trie that holds the pairs. -/
theorem StackTrie.root_eq_hash (ordered : (pairs.map Prod.fst).Pairwise Precedes)
    (nonempty : ∀ pair ∈ pairs, pair.2 ≠ []) :
    ∃ st, StackTrie.emptyNode.update pairs = .ok st ∧
      ∀ complete trie, Trie.Reachable complete trie (pairContents pairs) →
        trie.hash.1 = .ok st.root := by
  have start : StackTrie.emptyNode.Stands .empty := .inl ⟨rfl, rfl⟩
  rcases start.update Tree.proper_empty ordered nonempty (fun _ _ _ _ found => nomatch found) with
    ⟨st, tree, ran, stands, proper, contents⟩
  refine ⟨st, ran, ?_⟩
  intro complete trie reachable
  rcases reachable.holds with ⟨held, same, holds⟩
  have unique : held = tree :=
    Tree.eq_of_contents_eq holds.proper proper (same.trans contents.symm)
  rw [holds.hash.1, stands.root_eq, unique]

/-- A stack trie computes the root of a trie of the same pairs, for keys of one length in
increasing order.  `DeriveSha` gives it every index once, under increasing keys of which
none is an initial segment of another. -/
theorem stackTrie_root_and_deriveSha_keys :
    (∀ (pairs : List (Bytes × Bytes)) (size : Nat), (pairs.map Prod.fst).Pairwise (· < ·) →
      (∀ pair ∈ pairs, pair.1.length = size ∧ pair.2 ≠ []) →
      ∃ st, StackTrie.emptyNode.update pairs = .ok st ∧
        ∀ complete trie, Trie.Reachable complete trie (pairContents pairs) →
          trie.hash.1 = .ok st.root) ∧
    ∀ list : DerivableList, (∃ order : List Nat, order.Perm (List.range list.len) ∧
        list.updates = order.map fun index => (appendUint64 index, list.encodeIndex index)) ∧
      (list.updates.map Prod.fst).Pairwise fun first second =>
        first < second ∧ ¬ first <+: second ∧ ¬ second <+: first := by
  refine ⟨?_, fun list => ⟨⟨_, DerivableList.indices_perm list.len, rfl⟩, ?_⟩⟩
  · intro pairs size increasing sized
    apply StackTrie.root_eq_hash _ fun pair listed => (sized pair listed).2
    refine increasing.imp_of_mem ?_
    intro first second isFirst isSecond less
    rcases List.mem_map.mp isFirst with ⟨firstPair, firstListed, rfl⟩
    rcases List.mem_map.mp isSecond with ⟨secondPair, secondListed, rfl⟩
    exact .of_lt less ((sized firstPair firstListed).1.trans (sized secondPair secondListed).1.symm)
  · have ordered := DerivableList.pairwise_indices list.bound
    rw [DerivableList.updates, List.map_map]
    exact ordered.imp fun precedes => ⟨precedes.lt, precedes.not_isPrefix⟩

omit [Crypto] in
theorem sample_stackTrie_root :
    letI := sampleCrypto
    ∃ st, StackTrie.emptyNode.update [([0x05], [7]), ([0x15], [8])] = .ok st ∧
      Trie.sampleHashed.hash.1 = .ok st.root := by
  let crypto := sampleCrypto
  rcases stackTrie_root_and_deriveSha_keys.1 [([0x05], [7]), ([0x15], [8])] 1 (by decide)
    (by decide) with ⟨st, ran, agrees⟩
  exact ⟨st, ran, agrees _ _ Trie.reachable_sampleHashed⟩

/-- `DeriveSha` of a list of non-empty items is the hash of a trie that holds them by index. -/
theorem DerivableList.deriveSha_eq_hash (list : DerivableList)
    (nonempty : ∀ index < list.len, list.encodeIndex index ≠ []) :
    ∃ root, list.deriveSha = .ok root ∧
      ∀ complete trie, Trie.Reachable complete trie (pairContents list.updates) →
        trie.hash.1 = .ok root := by
  have ordered : (list.updates.map Prod.fst).Pairwise Precedes := by
    rw [DerivableList.updates, map_map]
    exact DerivableList.pairwise_indices list.bound
  have here : ∀ pair ∈ list.updates, pair.2 ≠ [] := by
    intro pair listed
    rcases mem_map.mp listed with ⟨index, isIndex, rfl⟩
    have inRange := (DerivableList.indices_perm list.len).mem_iff.mp isIndex
    exact nonempty index (mem_range.mp inRange)
  rcases StackTrie.root_eq_hash ordered here with ⟨st, ran, agrees⟩
  refine ⟨st.root, ?_, agrees⟩
  rw [DerivableList.deriveSha, ran]
  rfl

def Trie.filled (complete : Resolver) (trie : Trie) (pairs : List (Bytes × Bytes)) : Trie :=
  pairs.foldl (fun trie pair => (trie.call complete (.tryUpdate pair.1 pair.2)).2) trie

theorem Trie.Reachable.filled {complete : Resolver} {trie : Trie}
    (reachable : Reachable complete trie fun _ => none) (pairs : List (Bytes × Bytes)) :
    Reachable complete (trie.filled complete pairs) (pairContents pairs) := by
  unfold Trie.filled pairContents
  generalize (fun _ => none : Contents) = contents at reachable ⊢
  induction pairs generalizing trie contents with
  | nil => exact reachable
  | cons pair _ ih => exact ih _ (reachable.called (.tryUpdate pair.1 pair.2))

def sampleItems : DerivableList where
  len := 129
  encodeIndex index := [BitVec.ofNat 8 index]
  bound := by decide

omit [Crypto] in
/-- The keys are `0x80` for the index zero, the index below 128, and two bytes from there on. -/
theorem sample_deriveSha :
    letI := sampleCrypto
    ∃ root, sampleItems.deriveSha = .ok root ∧
      (Trie.sampleEmpty.filled Trie.sampleNoNodes sampleItems.updates).hash.1 = .ok root := by
  let crypto := sampleCrypto
  rcases DerivableList.deriveSha_eq_hash sampleItems (by simp [sampleItems]) with
    ⟨root, ran, agrees⟩
  exact ⟨root, ran, agrees _ _ (Trie.reachable_sampleEmpty.filled _)⟩

end Octopus
