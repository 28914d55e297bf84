import Mathlib.Data.List.Basic

/-!
# Radix trees

A path of symbols without branching is one edge of the tree.  A key ends with its first
final symbol, so no key is a proper initial segment of another, and values stand at the
ends of the tree only.  A canonical tree is determined by the values it stores
(`Canonical.ext`), and insertion and deletion keep the form.
-/

namespace Library

open List Option

variable {ended stop between : Bool}

inductive RadixTree (Symbol Value : Type) where
  | empty
  | leaf (value : Value)
  | path (label : List Symbol) (child : RadixTree Symbol Value)
  | branch (children : Symbol → RadixTree Symbol Value)

namespace RadixTree

variable {Symbol Value : Type} {tree : RadixTree Symbol Value}
  {children : Symbol → RadixTree Symbol Value} {symbol other own second first : Symbol}
  {key label rest front : List Symbol}

section Labels

variable [DecidableEq Symbol]

def strip : List Symbol → List Symbol → Option (List Symbol)
  | [], key => some key
  | _ :: _, [] => none
  | symbol :: label, head :: key => if symbol = head then strip label key else none

@[simp]
theorem strip_eq_some : strip label key = some rest ↔ key = label ++ rest := by
  induction label generalizing key with
  | nil => simp [strip]
  | cons symbol _ ih =>
    cases key with
    | nil => simp [strip]
    | cons head _ =>
      by_cases same : symbol = head
      · simp [strip, same, ih]
      · simp [strip, same, Ne.symm same]

@[simp]
theorem strip_append (label rest : List Symbol) : strip label (label ++ rest) = some rest := by
  simp

@[simp]
theorem strip_self (label : List Symbol) : strip label label = some [] := by
  simp

theorem strip_append_left (first second key : List Symbol) :
    strip (first ++ second) key = (strip first key).bind (strip second) := by
  cases stripped : strip first key with
  | none =>
    cases joined : strip (first ++ second) key with
    | none => rfl
    | some =>
      rw [strip_eq_some, append_assoc, ← strip_eq_some, stripped] at joined
      cases joined
  | some =>
    rw [strip_eq_some] at stripped
    subst stripped
    apply ext
    simp

/-- The label is read off the key, or they part at a symbol, or the key ends within the label. -/
inductive Meeting (Symbol : Type) where
  | through (rest : List Symbol)
  | fork (common : List Symbol) (own : Symbol) (label : List Symbol) (other : Symbol)
      (key : List Symbol)
  | within

def Meeting.cons (symbol : Symbol) : Meeting Symbol → Meeting Symbol
  | through rest => through rest
  | fork common own label other key => fork (symbol :: common) own label other key
  | within => within

def meet : List Symbol → List Symbol → Meeting Symbol
  | [], key => .through key
  | _ :: _, [] => .within
  | symbol :: label, head :: key =>
    if symbol = head then (meet label key).cons symbol else .fork [] symbol label head key

def Meeting.Describes (label key : List Symbol) : Meeting Symbol → Prop
  | through rest => key = label ++ rest
  | fork common own labelRest other keyRest =>
    own ≠ other ∧ label = common ++ own :: labelRest ∧ key = common ++ other :: keyRest
  | within => ∃ symbol rest, label = key ++ symbol :: rest

theorem describes_meet (label key : List Symbol) : (meet label key).Describes label key := by
  induction label generalizing key with
  | nil => simp [meet, Meeting.Describes]
  | cons symbol label ih =>
    cases key with
    | nil => simp [meet, Meeting.Describes]
    | cons head key =>
      by_cases same : symbol = head
      · have described := ih key
        simp only [meet, same]
        cases outcome : meet label key <;>
          simpa [outcome, Meeting.Describes, Meeting.cons] using described
      · simp [meet, same, Meeting.Describes]

theorem meet_append (label rest : List Symbol) : meet label (label ++ rest) = .through rest := by
  induction label with
  | nil => rfl
  | cons _ _ ih => simp [meet, ih, Meeting.cons]

theorem meet_fork (differ : own ≠ other) (common label key : List Symbol) :
    meet (common ++ own :: label) (common ++ other :: key) = .fork common own label other key := by
  induction common with
  | nil => simp [meet, differ]
  | cons _ _ ih => simp [meet, ih, Meeting.cons]

end Labels

section Operations

variable [DecidableEq Symbol]

def get : RadixTree Symbol Value → List Symbol → Option Value
  | empty, _ => none
  | leaf value, [] => some value
  | leaf _, _ :: _ => none
  | path label child, key => (strip label key).bind fun rest => child.get rest
  | branch _, [] => none
  | branch children, symbol :: rest => (children symbol).get rest

def attach : List Symbol → RadixTree Symbol Value → RadixTree Symbol Value
  | [], tree => tree
  | symbol :: label, tree => path (symbol :: label) tree

def pair (first : Symbol) (left : RadixTree Symbol Value) (second : Symbol)
    (right : RadixTree Symbol Value) : Symbol → RadixTree Symbol Value :=
  Function.update (Function.update (fun _ => empty) first left) second right

def insert : RadixTree Symbol Value → List Symbol → Value → RadixTree Symbol Value
  | _, [], value => leaf value
  | empty, symbol :: key, value => path (symbol :: key) (leaf value)
  | leaf old, _ :: _, _ => leaf old
  | path label child, symbol :: key, value =>
    match meet label (symbol :: key) with
    | .through rest => path label (child.insert rest value)
    | .fork common own labelRest other keyRest =>
      attach common
        (branch (pair own (attach labelRest child) other (attach keyRest (leaf value))))
    | .within => path label child
  | branch children, symbol :: key, value =>
    branch (Function.update children symbol ((children symbol).insert key value))

def prepend (front : List Symbol) : RadixTree Symbol Value → RadixTree Symbol Value
  | path label child => path (front ++ label) child
  | tree => path front tree

open Classical in
noncomputable def contract (children : Symbol → RadixTree Symbol Value) : RadixTree Symbol Value :=
  if only : ∃ symbol, children symbol ≠ empty ∧ ∀ other, other ≠ symbol → children other = empty
  then prepend [only.choose] (children only.choose)
  else branch children

noncomputable def delete : RadixTree Symbol Value → List Symbol → RadixTree Symbol Value
  | empty, _ => empty
  | leaf _, [] => empty
  | leaf value, _ :: _ => leaf value
  | path label child, key =>
    match strip label key with
    | none => path label child
    | some [] => empty
    | some (symbol :: rest) => prepend label (child.delete (symbol :: rest))
  | branch children, [] => branch children
  | branch children, symbol :: rest =>
    contract (Function.update children symbol ((children symbol).delete rest))

attribute [grind =] strip meet Meeting.cons Meeting.Describes get attach pair insert prepend
  delete

end Operations

section Form

/-- Whether a key has ended after a label; nothing can follow a final symbol. -/
def after (final : Symbol → Bool) : Bool → List Symbol → Option Bool
  | ended, [] => some ended
  | true, _ :: _ => none
  | false, symbol :: rest => after final (final symbol) rest

variable {final : Symbol → Bool}

@[simp]
theorem after_nil (ended : Bool) : after final ended [] = some ended := by
  cases ended <;> rfl

theorem after_append (ended : Bool) (label rest : List Symbol) :
    after final ended (label ++ rest) =
      (after final ended label).bind fun ended => after final ended rest := by
  induction label generalizing ended with
  | nil => simp
  | cons _ _ ih => cases ended <;> simp [after, ih]

theorem after_cons (reads : after final ended (symbol :: rest) = some stop) :
    ended = false ∧ after final (final symbol) rest = some stop := by
  cases ended with
  | true => cases reads
  | false => exact ⟨rfl, reads⟩

theorem nil_of_after_true (reads : after final true rest = some stop) : rest = [] := by
  cases rest with
  | nil => rfl
  | cons => cases reads

theorem after_through (reads : after final ended (label ++ rest) = some stop) :
    ∃ between, after final ended label = some between ∧ after final between rest = some stop := by
  rw [after_append] at reads
  exact bind_eq_some_iff.mp reads

theorem after_below {between : Bool} (start : after final ended label = some between)
    (reads : after final ended (label ++ rest) = some stop) :
    after final between rest = some stop := by
  rw [after_append, start] at reads
  exact reads

theorem after_before {common : List Symbol}
    (reads : after final ended (common ++ symbol :: rest) = some stop) :
    after final ended common = some false ∧ after final (final symbol) rest = some stop := by
  rcases after_through reads with ⟨_, start, continued⟩
  rcases after_cons continued with ⟨rfl, remaining⟩
  exact ⟨start, remaining⟩

def Stem : RadixTree Symbol Value → Prop
  | empty => False
  | leaf _ => True
  | path _ _ => False
  | branch _ => True

/-- Values stand where keys end, labels are not empty and do not follow one another, and every
branch has at least two children. -/
def Canonical (final : Symbol → Bool) : RadixTree Symbol Value → Bool → Prop
  | empty, _ => True
  | leaf _, ended => ended = true
  | path label child, ended =>
    label ≠ [] ∧ child.Stem ∧
      ∃ between, after final ended label = some between ∧ Canonical final child between
  | branch children, ended =>
    ended = false ∧
      (∃ first second, first ≠ second ∧ children first ≠ empty ∧ children second ≠ empty) ∧
      ∀ symbol, Canonical final (children symbol) (final symbol)

attribute [grind =] after Stem Canonical

theorem Stem.ne_empty (stem : tree.Stem) : tree ≠ empty := by
  rintro rfl
  exact stem

theorem attach_ne_empty (label : List Symbol) (here : tree ≠ empty) :
    attach label tree ≠ empty := by
  cases label with
  | nil => exact here
  | cons => simp [attach]

theorem canonical_attach (reads : after final ended label = some between)
    (canon : tree.Canonical final between) (stem : tree.Stem) :
    (attach label tree).Canonical final ended := by
  cases label with
  | nil =>
    simp only [after_nil, some.injEq] at reads
    subst reads
    exact canon
  | cons => exact ⟨by simp, stem, between, reads, canon⟩

@[simp]
theorem prepend_ne_empty (front : List Symbol) (tree : RadixTree Symbol Value) :
    prepend front tree ≠ empty := by
  cases tree <;> simp [prepend]

theorem prepend_of_stem (stem : tree.Stem) : prepend front tree = path front tree := by
  cases tree with
  | path => exact absurd stem id
  | _ => rfl

theorem canonical_prepend (nonempty : front ≠ []) (reads : after final ended front = some between)
    (canon : tree.Canonical final between) (here : tree ≠ empty) :
    (prepend front tree).Canonical final ended := by
  cases tree with
  | empty => exact absurd rfl here
  | leaf | branch => exact ⟨nonempty, trivial, between, reads, canon⟩
  | path =>
    rcases canon with ⟨_, stem, stop, continued, canon⟩
    refine ⟨by simp [nonempty], stem, stop, ?_, canon⟩
    rw [after_append, reads]
    exact continued

theorem branch_of_stem (stem : tree.Stem) (canon : tree.Canonical final false) :
    ∃ children, tree = branch children := by
  cases tree with
  | empty | path => exact absurd stem id
  | leaf => cases canon
  | branch children => exact ⟨children, rfl⟩

theorem leaf_of_ended (canon : tree.Canonical final true) :
    tree = empty ∨ ∃ value, tree = leaf value := by
  cases tree with
  | empty => exact .inl rfl
  | leaf value => exact .inr ⟨value, rfl⟩
  | path =>
    rcases canon with ⟨nonempty, _, _, reads, _⟩
    exact absurd (nil_of_after_true reads) nonempty
  | branch => cases canon.1

variable [DecidableEq Symbol]

theorem contract_only (here : children symbol ≠ empty)
    (alone : ∀ other, other ≠ symbol → children other = empty) :
    contract children = prepend [symbol] (children symbol) := by
  have only : ∃ symbol, children symbol ≠ empty ∧
      ∀ other, other ≠ symbol → children other = empty := ⟨symbol, here, alone⟩
  have same : only.choose = symbol := by
    by_contra differ
    exact only.choose_spec.1 (alone _ differ)
  rw [contract, dif_pos only, same]

theorem contract_many (differ : first ≠ second) (left : children first ≠ empty)
    (right : children second ≠ empty) : contract children = branch children := by
  apply dif_neg
  rintro ⟨symbol, _, alone⟩
  have leftSame : first = symbol := by
    by_contra other
    exact left (alone first other)
  exact right (alone second fun rightSame => differ (leftSame.trans rightSame.symm))

theorem contract_cases (here : children symbol ≠ empty) :
    (∃ other, symbol ≠ other ∧ children other ≠ empty ∧ contract children = branch children) ∨
      ((∀ other, other ≠ symbol → children other = empty) ∧
        contract children = prepend [symbol] (children symbol)) := by
  by_cases more : ∃ other, symbol ≠ other ∧ children other ≠ empty
  · rcases more with ⟨other, differ, second⟩
    exact .inl ⟨other, differ, second, contract_many differ here second⟩
  have alone : ∀ other, other ≠ symbol → children other = empty := by
    intro other differ
    by_contra second
    exact more ⟨other, Ne.symm differ, second⟩
  exact .inr ⟨alone, contract_only here alone⟩

theorem exists_present_update
    (two : ∃ first second, first ≠ second ∧ children first ≠ empty ∧ children second ≠ empty)
    (symbol : Symbol) (tree : RadixTree Symbol Value) :
    ∃ other, other ≠ symbol ∧ Function.update children symbol tree other ≠ empty := by
  rcases two with ⟨first, second, differ, left, right⟩
  by_cases same : first = symbol
  · subst same
    exact ⟨second, Ne.symm differ, by simpa [Ne.symm differ] using right⟩
  · exact ⟨first, same, by simpa [same] using left⟩

theorem canonical_update (canon : ∀ symbol, (children symbol).Canonical final (final symbol))
    (changed : tree.Canonical final (final symbol)) (other : Symbol) :
    (Function.update children symbol tree other).Canonical final (final other) := by
  by_cases same : other = symbol
  · subst same
    simpa using changed
  · simpa [same] using canon other

theorem canonical_contract (here : children symbol ≠ empty)
    (canon : ∀ symbol, (children symbol).Canonical final (final symbol)) :
    (contract children).Canonical final false := by
  rcases contract_cases here with ⟨other, differ, second, kept⟩ | ⟨_, merged⟩
  · rw [kept]
    exact ⟨rfl, ⟨symbol, other, differ, here, second⟩, canon⟩
  · rw [merged]
    apply canonical_prepend (by simp) _ (canon symbol) here
    simp [after]

theorem reads_cases {between : Bool} (start : after final ended label = some between)
    (reads : after final ended key = some true) :
    (∃ rest, key = label ++ rest ∧ after final between rest = some true) ∨
      ∃ common own labelRest other keyRest, own ≠ other ∧ label = common ++ own :: labelRest ∧
        key = common ++ other :: keyRest := by
  have met := describes_meet label key
  cases outcome : meet label key with
  | through rest =>
    rw [outcome] at met
    cases met
    have remaining := after_below start reads
    exact .inl ⟨rest, rfl, remaining⟩
  | fork common own labelRest other keyRest =>
    rw [outcome] at met
    exact .inr ⟨common, own, labelRest, other, keyRest, met⟩
  | within =>
    rw [outcome] at met
    rcases met with ⟨_, rest, rfl⟩
    rw [after_append, reads] at start
    cases start

theorem insert_through (nonempty : label ≠ []) (rest : List Symbol)
    (child : RadixTree Symbol Value) (value : Value) :
    (path label child).insert (label ++ rest) value = path label (child.insert rest value) := by
  have met := meet_append label rest
  cases label with
  | nil => exact absurd rfl nonempty
  | cons =>
    rw [cons_append] at met ⊢
    simp [insert, met]

theorem insert_fork (differ : own ≠ other) (common label key : List Symbol)
    (child : RadixTree Symbol Value) (value : Value) :
    (path (common ++ own :: label) child).insert (common ++ other :: key) value =
      attach common (branch (pair own (attach label child) other (attach key (leaf value)))) := by
  have met := meet_fork differ common label key
  cases common with
  | nil =>
    rw [nil_append, nil_append] at met ⊢
    simp [insert, met]
  | cons =>
    rw [cons_append, cons_append] at met ⊢
    simp [insert, met]

theorem insert_ne_empty (key : List Symbol) (value : Value) : tree.insert key value ≠ empty := by
  cases key with
  | nil => cases tree <;> simp [insert]
  | cons =>
    cases tree with
    | path =>
      simp only [insert]
      split
      · simp
      · exact attach_ne_empty _ (by simp)
      · simp
    | _ => simp [insert]

theorem stem_insert (stem : tree.Stem) (value : Value) : (tree.insert key value).Stem := by
  cases tree with
  | empty | path => exact absurd stem id
  | leaf | branch => cases key <;> simp [insert, Stem]

theorem canonical_insert (canon : tree.Canonical final ended)
    (reads : after final ended key = some true) (value : Value) :
    (tree.insert key value).Canonical final ended := by
  induction tree generalizing ended key with
  | empty =>
    cases key with
    | nil => simpa [insert, Canonical] using reads
    | cons => exact ⟨by simp, trivial, true, reads, rfl⟩
  | leaf =>
    cases canon
    cases nil_of_after_true reads
    rfl
  | path label _ ih =>
    rcases canon with ⟨nonempty, stem, _, start, canon⟩
    rcases reads_cases start reads with
      ⟨_, rfl, remaining⟩ | ⟨_, own, labelRest, other, keyRest, differ, rfl, rfl⟩
    · rw [insert_through nonempty]
      exact ⟨nonempty, stem_insert stem value, _, start, ih canon remaining⟩
    · rcases after_before start with ⟨ahead, ownRest⟩
      rcases after_before reads with ⟨_, otherRest⟩
      have ownTree := canonical_attach ownRest canon stem
      have otherTree : (attach keyRest (leaf value)).Canonical final (final other) :=
        canonical_attach otherRest rfl trivial
      rw [insert_fork differ]
      refine canonical_attach ahead ⟨rfl, ⟨own, other, differ, ?_, ?_⟩, ?_⟩ trivial
      · simpa [pair, differ] using attach_ne_empty labelRest stem.ne_empty
      · simpa [pair] using attach_ne_empty keyRest (by simp)
      · exact canonical_update (canonical_update (fun _ => trivial) ownTree) otherTree
  | branch children ih =>
    cases key with
    | nil => simpa [insert, Canonical] using reads
    | cons symbol key =>
      rcases canon with ⟨rfl, two, canon⟩
      rcases exists_present_update two symbol ((children symbol).insert key value) with
        ⟨other, differ, here⟩
      refine ⟨rfl, ⟨symbol, other, Ne.symm differ, ?_, here⟩, ?_⟩
      · simpa using insert_ne_empty key value
      · exact canonical_update canon (ih symbol (canon symbol) reads)

theorem get_attach (label : List Symbol) (tree : RadixTree Symbol Value) (key : List Symbol) :
    (attach label tree).get key = (strip label key).bind fun rest => tree.get rest := by
  cases label <;> simp [attach, get, strip]

theorem get_pair (differ : first ≠ second) (left right : RadixTree Symbol Value) (symbol : Symbol)
    (rest : List Symbol) : (branch (pair first left second right)).get (symbol :: rest) =
      if symbol = second then right.get rest
      else if symbol = first then left.get rest else none := by
  by_cases isSecond : symbol = second
  · simp [get, pair, isSecond]
  · by_cases isFirst : symbol = first
    · simp [get, pair, isFirst, differ]
    · simp [get, pair, isFirst, isSecond]

theorem get_attach_leaf (label : List Symbol) (value : Value) (key : List Symbol) :
    (attach label (leaf value)).get key = if key = label then some value else none := by
  rw [get_attach]
  by_cases same : key = label
  · subst same
    simp [get]
  cases stripped : strip label key with
  | none => simp [same]
  | some rest =>
    rw [strip_eq_some] at stripped
    cases rest with
    | nil => simp [stripped] at same
    | cons => simp [same, get]

theorem get_pair_fork (differ : own ≠ other) (label key : List Symbol)
    (child : RadixTree Symbol Value) (value : Value) (common rest : List Symbol) :
    (branch (pair own (attach label child) other (attach key (leaf value)))).get rest =
      if common ++ rest = common ++ other :: key then some value
      else (strip (own :: label) rest).bind fun remaining => child.get remaining := by
  cases rest with
  | nil => simp [get, strip]
  | cons head _ =>
    rw [get_pair differ, get_attach_leaf, get_attach]
    simp only [strip, append_cancel_left_eq]
    by_cases isOther : head = other
    · subst isOther
      simp [differ]
    · by_cases isOwn : head = own
      · subst isOwn
        simp [isOther]
      · simp [isOther, isOwn, Ne.symm isOwn]

theorem get_insert (canon : tree.Canonical final ended)
    (reads : after final ended key = some true) (value : Value) (other : List Symbol) :
    (tree.insert key value).get other = if other = key then some value else tree.get other := by
  induction tree generalizing ended key other with
  | empty =>
    cases key with
    | nil => cases other <;> simp [insert, get]
    | cons symbol key =>
      have whole := get_attach_leaf (symbol :: key) value other
      simpa [insert, get, attach] using whole
  | leaf =>
    cases canon
    cases nil_of_after_true reads
    cases other <;> simp [insert, get]
  | path label child ih =>
    rcases canon with ⟨nonempty, _, _, start, canon⟩
    rcases reads_cases start reads with
      ⟨rest, rfl, remaining⟩ | ⟨common, _, labelRest, otherHead, keyRest, differ, rfl, rfl⟩
    · rw [insert_through nonempty]
      simp only [get]
      cases stripped : strip label other with
      | none =>
        have differ : other ≠ label ++ rest := by
          rintro rfl
          simp at stripped
        simp [differ]
      | some =>
        rw [strip_eq_some] at stripped
        simp [stripped, ih canon remaining]
    · rw [insert_fork differ, get_attach, get, strip_append_left]
      cases stripped : strip common other with
      | none =>
        have elsewhere : other ≠ common ++ otherHead :: keyRest := by
          rintro rfl
          simp at stripped
        simp [elsewhere]
      | some rest =>
        rw [strip_eq_some] at stripped
        subst stripped
        exact get_pair_fork differ labelRest keyRest child value common rest
  | branch _ ih =>
    rcases canon with ⟨rfl, _, canon⟩
    cases key with
    | nil => simp at reads
    | cons symbol _ =>
      cases other with
      | nil => simp [insert, get]
      | cons head _ =>
        by_cases same : head = symbol
        · subst same
          simp [insert, get, ih head (canon head) reads]
        · simp [insert, get, same]

@[simp]
theorem get_prepend (front : List Symbol) (tree : RadixTree Symbol Value) (key : List Symbol) :
    (prepend front tree).get key = (strip front key).bind fun rest => tree.get rest := by
  cases tree with
  | path =>
    simp only [prepend, get, strip_append_left]
    cases strip front key <;> rfl
  | _ => rfl

theorem get_contract (here : children symbol ≠ empty) (key : List Symbol) :
    (contract children).get key = (branch children).get key := by
  rcases contract_cases here with ⟨_, _, _, kept⟩ | ⟨alone, merged⟩
  · rw [kept]
  rw [merged]
  cases key with
  | nil => simp [get]
  | cons head _ =>
    by_cases same : symbol = head
    · subst same
      simp [strip, get]
    · simp [strip, get, same, alone head (Ne.symm same)]

theorem delete_branch_ne_empty (canon : (branch children).Canonical final false)
    (key : List Symbol) : (branch children).delete key ≠ empty := by
  cases key with
  | nil => simp [delete]
  | cons symbol rest =>
    rcases exists_present_update canon.2.1 symbol ((children symbol).delete rest) with
      ⟨other, _, here⟩
    rcases contract_cases here with ⟨_, _, _, kept⟩ | ⟨_, merged⟩
    · simp [delete, kept]
    · simp [delete, merged]

section

variable (canon : tree.Canonical final ended)
include canon

section

variable (reads : after final ended key = some true)
include reads

theorem canonical_delete : (tree.delete key).Canonical final ended := by
  induction tree generalizing ended key with
  | empty => trivial
  | leaf =>
    cases canon
    cases nil_of_after_true reads
    trivial
  | path label _ ih =>
    simp only [delete]
    cases stripped : strip label key with
    | none => exact canon
    | some rest =>
      cases rest with
      | nil => trivial
      | cons =>
        rcases canon with ⟨nonempty, stem, _, start, canon⟩
        rw [strip_eq_some] at stripped
        subst stripped
        rcases after_before reads with ⟨again, remaining⟩
        rw [start] at again
        cases again
        rcases branch_of_stem stem canon with ⟨children, rfl⟩
        exact canonical_prepend nonempty start (ih canon remaining) (delete_branch_ne_empty canon _)
  | branch children ih =>
    rcases canon with ⟨rfl, two, canon⟩
    cases key with
    | nil => simp at reads
    | cons symbol rest =>
      rcases exists_present_update two symbol ((children symbol).delete rest) with ⟨other, _, here⟩
      exact canonical_contract here (canonical_update canon (ih symbol (canon symbol) reads))

theorem get_delete (other : List Symbol) :
    (tree.delete key).get other = if other = key then none else tree.get other := by
  induction tree generalizing ended key other with
  | empty => simp [delete, get]
  | leaf =>
    cases canon
    cases nil_of_after_true reads
    cases other <;> simp [delete, get]
  | path label _ ih =>
    rcases canon with ⟨_, stem, _, start, canon⟩
    simp only [delete]
    cases stripped : strip label key with
    | none =>
      by_cases same : other = key
      · simp [same, get, stripped]
      · simp [same]
    | some rest =>
      rw [strip_eq_some] at stripped
      subst stripped
      have remaining := after_below start reads
      cases rest with
      | nil =>
        simp only [after_nil, some.injEq] at remaining
        subst remaining
        rcases leaf_of_ended canon with rfl | ⟨value, rfl⟩
        · exact absurd stem id
        cases otherStripped : strip label other with
        | none => simp [get, otherStripped]
        | some otherRest =>
          rw [strip_eq_some] at otherStripped
          subst otherStripped
          cases otherRest <;> simp [get]
      | cons symbol rest =>
        rw [get_prepend]
        simp only [get]
        cases otherStripped : strip label other with
        | none =>
          simp
        | some =>
          rw [strip_eq_some] at otherStripped
          simp [otherStripped, ih canon remaining]
  | branch children ih =>
    rcases canon with ⟨rfl, two, canon⟩
    cases key with
    | nil => simp at reads
    | cons symbol rest =>
      rcases exists_present_update two symbol ((children symbol).delete rest) with ⟨_, _, here⟩
      rw [delete, get_contract here]
      cases other with
      | nil => simp [get]
      | cons head _ =>
        by_cases same : head = symbol
        · subst same
          simp [get, ih head (canon head) reads]
        · simp [get, same]

end

theorem exists_get (here : tree ≠ empty) : ∃ key value, tree.get key = some value := by
  induction tree generalizing ended with
  | empty => exact absurd rfl here
  | leaf value => exact ⟨[], value, rfl⟩
  | path label _ ih =>
    rcases canon with ⟨_, stem, _, _, canon⟩
    rcases ih canon stem.ne_empty with ⟨key, value, found⟩
    exact ⟨label ++ key, value, by simpa [get] using found⟩
  | branch _ ih =>
    rcases canon with ⟨rfl, ⟨first, _, _, left, _⟩, canon⟩
    rcases ih first (canon first) left with ⟨key, value, found⟩
    exact ⟨first :: key, value, found⟩

end

theorem Stem.not_common (stem : tree.Stem) (canon : tree.Canonical final ended)
    (symbol : Symbol) : ∃ key value, tree.get key = some value ∧ ∀ rest, key ≠ symbol :: rest := by
  cases tree with
  | empty | path => exact absurd stem id
  | leaf value => exact ⟨[], value, rfl, by simp⟩
  | branch =>
    rcases canon with ⟨rfl, two, canon⟩
    rcases exists_present_update two symbol empty with ⟨other, differ, here⟩
    simp only [Function.update_of_ne differ] at here
    rcases exists_get (canon other) here with ⟨key, value, found⟩
    refine ⟨other :: key, value, found, ?_⟩
    intro rest same
    cases same
    exact differ rfl

theorem label_reads {otherLabel : List Symbol} {child otherChild : RadixTree Symbol Value}
    (stem : child.Stem) (canon : child.Canonical final ended)
    (agree : ∀ key, (path label child).get key = (path otherLabel otherChild).get key) :
    ∃ rest, label = otherLabel ++ rest := by
  have through : ∀ key value, child.get key = some value →
      ∃ rest, label ++ key = otherLabel ++ rest := by
    intro key value found
    have whole := agree (label ++ key)
    simp only [get, strip_append, bind_some, found] at whole
    rcases bind_eq_some_iff.mp whole.symm with ⟨rest, stripped, _⟩
    exact ⟨rest, strip_eq_some.mp stripped⟩
  have met := describes_meet otherLabel label
  cases outcome : meet otherLabel label with
  | through rest =>
    rw [outcome] at met
    exact ⟨rest, met⟩
  | fork =>
    rw [outcome] at met
    rcases met with ⟨differ, rfl, rfl⟩
    rcases exists_get canon stem.ne_empty with ⟨key, value, found⟩
    rcases through key value found with ⟨rest, same⟩
    simp only [append_assoc, append_cancel_left_eq, cons_append, cons.injEq] at same
    exact absurd same.1.symm differ
  | within =>
    rw [outcome] at met
    rcases met with ⟨symbol, labelRest, rfl⟩
    rcases stem.not_common canon symbol with ⟨key, value, found, apart⟩
    rcases through key value found with ⟨rest, same⟩
    simp only [append_assoc, append_cancel_left_eq] at same
    exact absurd same (apart _)

theorem path_ne_branch (nonempty : label ≠ []) (child : RadixTree Symbol Value)
    (canon : (branch children).Canonical final ended) :
    ∃ key, (path label child).get key ≠ (branch children).get key := by
  cases label with
  | nil => exact absurd rfl nonempty
  | cons symbol _ =>
    have stem : (branch children).Stem := trivial
    rcases stem.not_common canon symbol with ⟨key, _, found, apart⟩
    refine ⟨key, ?_⟩
    rw [found]
    intro same
    rcases bind_eq_some_iff.mp same with ⟨_, stripped, _⟩
    rw [strip_eq_some] at stripped
    exact apart _ stripped

/-- Canonical trees that store the same values under the same keys are the same tree. -/
theorem Canonical.ext {other : RadixTree Symbol Value} (canon : tree.Canonical final ended)
    (otherCanonical : other.Canonical final ended) (agree : ∀ key, tree.get key = other.get key) :
    tree = other := by
  induction tree generalizing other ended with
  | empty =>
    by_contra differ
    rcases exists_get otherCanonical (Ne.symm differ) with ⟨key, value, found⟩
    rw [← agree key] at found
    cases found
  | leaf =>
    cases canon
    have found := agree []
    rcases leaf_of_ended otherCanonical with rfl | ⟨otherValue, rfl⟩
    · cases found
    · simp only [get, some.injEq] at found
      rw [found]
  | path label child ih =>
    rcases canon with ⟨nonempty, stem, _, start, canon⟩
    cases other with
    | empty =>
      rcases exists_get canon stem.ne_empty with ⟨key, value, found⟩
      have whole := agree (label ++ key)
      simp [get, found] at whole
    | leaf =>
      cases otherCanonical
      exact absurd (nil_of_after_true start) nonempty
    | branch =>
      rcases path_ne_branch nonempty child otherCanonical with ⟨key, differ⟩
      exact absurd (agree key) differ
    | path otherLabel _ =>
      rcases otherCanonical with ⟨_, otherStem, _, otherStart, otherCanonical⟩
      rcases label_reads stem canon agree with ⟨rest, longer⟩
      rcases label_reads otherStem otherCanonical (fun key => (agree key).symm) with
        ⟨otherRest, shorter⟩
      have same : label = otherLabel := by
        have lengths := congrArg length longer
        have otherLengths := congrArg length shorter
        simp only [length_append] at lengths otherLengths
        have noRest : rest = [] := eq_nil_of_length_eq_zero (by omega)
        simpa [noRest] using longer
      subst same
      rw [start] at otherStart
      cases otherStart
      rw [ih canon otherCanonical]
      intro key
      simpa [get] using agree (label ++ key)
  | branch _ ih =>
    cases other with
    | empty =>
      rcases exists_get canon (by simp) with ⟨key, value, found⟩
      rw [agree key] at found
      cases found
    | leaf =>
      cases otherCanonical
      cases canon.1
    | path _ otherChild =>
      rcases path_ne_branch otherCanonical.1 otherChild canon with ⟨key, differ⟩
      exact absurd (agree key).symm differ
    | branch =>
      congr
      funext symbol
      apply ih symbol (canon.2.2 symbol) (otherCanonical.2.2 symbol)
      intro key
      exact agree (symbol :: key)

end Form

end RadixTree

end Library
