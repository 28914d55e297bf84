import Mathlib.Data.List.Induction

/-!
# Undo logs

States are compared by a view that undoing respects.  If every step of a run can be undone
by the entries that it logged, so can the whole run.
-/

namespace Library

variable {Fault State Entry View : Type}

def undoAll (undo : Entry → State → Except Fault State) (entries : List Entry) (state : State) :
    Except Fault State :=
  entries.reverse.foldlM (fun state entry => undo entry state) state

/-- An undo log, and the view up to which it restores a state. -/
structure UndoLog (Fault State Entry View : Type) where
  log : State → List Entry
  undo : Entry → State → Except Fault State
  view : State → View
  undo_view : ∀ {entry first second undone}, view first = view second →
    undo entry first = .ok undone →
      ∃ other, undo entry second = .ok other ∧ view undone = view other

namespace UndoLog

variable (undoLog : UndoLog Fault State Entry View)

/-- The entries logged between two states lead back from the second to the first. -/
def Undoes (before after : State) : Prop :=
  ∃ added restored, undoLog.log after = undoLog.log before ++ added ∧
    undoAll undoLog.undo added after = .ok restored ∧ undoLog.view restored = undoLog.view before

variable {undoLog} {old mid new : State} (undo : Entry → State → Except Fault State)

theorem undoAll_append (older newer : List Entry) (state : State) :
    undoAll undo (older ++ newer) state = undoAll undo newer state >>= undoAll undo older := by
  simp only [undoAll, List.reverse_append, List.foldlM_append]
  rfl

theorem undoAll_singleton (entry : Entry) (state : State) :
    undoAll undo [entry] state = undo entry state := by
  simp [undoAll]

theorem undoAll_view (entries : List Entry) {first second undone : State}
    (same : undoLog.view first = undoLog.view second)
    (ran : undoAll undoLog.undo entries first = .ok undone) :
    ∃ other, undoAll undoLog.undo entries second = .ok other ∧
      undoLog.view undone = undoLog.view other := by
  induction entries using List.reverseRecOn generalizing first second with
  | nil =>
    cases ran
    exact ⟨second, rfl, same⟩
  | append_singleton _ entry earlier =>
    rw [undoAll_append, undoAll_singleton] at ran
    rcases undone : undoLog.undo entry first with fault | next
    · rw [undone] at ran
      cases ran
    rw [undone] at ran
    rcases undoLog.undo_view same undone with ⟨other, otherUndone, still⟩
    rcases earlier still ran with ⟨last, replayed, final⟩
    refine ⟨last, ?_, final⟩
    rw [undoAll_append, undoAll_singleton, otherUndone]
    exact replayed

theorem Undoes.refl (state : State) : undoLog.Undoes state state :=
  ⟨[], state, by simp, rfl, rfl⟩

theorem Undoes.trans (first : undoLog.Undoes old mid) (second : undoLog.Undoes mid new) :
    undoLog.Undoes old new := by
  rcases first with ⟨older, _, olderLog, olderUndone, olderSame⟩
  rcases second with ⟨newer, _, newerLog, newerUndone, newerSame⟩
  rcases undoAll_view older newerSame.symm olderUndone with ⟨restored, undone, same⟩
  refine ⟨older ++ newer, restored, ?_, ?_, same.symm.trans olderSame⟩
  · rw [newerLog, olderLog, List.append_assoc]
  · rw [undoAll_append, newerUndone]
    exact undone

theorem Undoes.of_view (logged : undoLog.log new = undoLog.log old)
    (same : undoLog.view new = undoLog.view old) : undoLog.Undoes old new :=
  ⟨[], new, by simp [logged], rfl, same⟩

theorem Undoes.of_entry {entry : Entry} {restored : State}
    (logged : undoLog.log new = undoLog.log old ++ [entry])
    (undone : undoLog.undo entry new = .ok restored)
    (same : undoLog.view restored = undoLog.view old) : undoLog.Undoes old new :=
  ⟨[entry], restored, logged, by rw [undoAll_singleton, undone], same⟩

end UndoLog

end Library
