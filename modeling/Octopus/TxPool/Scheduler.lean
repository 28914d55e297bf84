import Octopus.Entity.Block
import Octopus.Library.Runs

/-!
# The reorganisation loop of the transaction pool

Requests that arrive while a run of `runReorg` is active are merged and handed to the next
run.  A label is one communication, or the start or the end of a background run.  What the
loop keeps for its next run is a function of the labels since the last start.
-/

namespace Octopus

open Library List

variable {tx : Transaction}

abbrev Head := Option Header

structure ResetRequest where
  oldHead : Head
  newHead : Head
  deriving DecidableEq

/-- The events by sender and nonce: a map of `txSortedMap`s. -/
abbrev QueuedEvents := Address → BitVec 64 → Option Transaction

variable {events : QueuedEvents}

/-- The arguments of a call of `runReorg`.  Channels are numbered in the order
in which they are made. -/
structure ReorgRun where
  done : Nat
  reset : Option ResetRequest
  dirtyAccounts : Option (Finset Address)
  events : QueuedEvents

variable {reorg : ReorgRun}

/-- The accounts whose transactions `runReorg` promotes, given those that have
transactions queued. -/
def ReorgRun.promoteAddrs (run : ReorgRun) (queued : Finset Address) : Finset Address :=
  if run.reset.isSome then queued else run.dirtyAccounts.getD ∅

/-- The variables of `scheduleReorgLoop`, the active background runs and the closed channels. -/
structure Scheduler where
  curDone : Option Nat := none
  nextDone : Nat := 0
  launchNextRun : Bool := false
  reset : Option ResetRequest := none
  dirtyAccounts : Option (Finset Address) := none
  queuedEvents : QueuedEvents := fun _ _ => none
  active : List ReorgRun := []
  closed : List Nat := []
  stopped : Bool := false

/-- A request with its channel, an event, the start of a background run, its return, the loop
noticing it, or the shutdown. -/
inductive SchedulerLabel where
  | requestReset (request : ResetRequest) (reply : Nat)
  | requestPromote (accounts : Finset Address) (reply : Nat)
  | queueTxEvent (tx : Transaction)
  | launch (run : ReorgRun)
  | finish (channel : Nat)
  | observe
  | shutdown

open SchedulerLabel

variable {label : SchedulerLabel} {front back : List SchedulerLabel}

namespace SchedulerLabel

def reply : SchedulerLabel → Option Nat
  | requestReset _ reply => some reply
  | requestPromote _ reply => some reply
  | _ => none

def isLaunch : SchedulerLabel → Bool
  | launch _ => true
  | _ => false

end SchedulerLabel

namespace Scheduler

def start : Scheduler :=
  {}

def mergeReset (pending : Option ResetRequest) (request : ResetRequest) : ResetRequest :=
  match pending with
  | none => request
  | some reset => { reset with newHead := request.newHead }

def mergeAccounts (pending : Option (Finset Address)) (accounts : Finset Address) :
    Finset Address :=
  match pending with
  | none => accounts
  | some dirty => dirty ∪ accounts

def sinceLaunch (labels : List SchedulerLabel) : List SchedulerLabel :=
  labels.foldl (fun since label => if label.isLaunch then [] else since ++ [label]) []

def resetsOf (labels : List SchedulerLabel) : List ResetRequest :=
  labels.filterMap fun label =>
    match label with
    | .requestReset request _ => some request
    | _ => none

def coalesced (requests : List ResetRequest) : Option ResetRequest :=
  match requests.head?, requests.getLast? with
  | some oldest, some newest => some ⟨oldest.oldHead, newest.newHead⟩
  | _, _ => none

def accountsOf (labels : List SchedulerLabel) : List (Finset Address) :=
  labels.filterMap fun label =>
    match label with
    | .requestPromote accounts _ => some accounts
    | _ => none

def gathered (requests : List (Finset Address)) : Option (Finset Address) :=
  if requests = [] then none else some (requests.foldl (· ∪ ·) ∅)

@[simp]
theorem sinceLaunch_snoc (labels : List SchedulerLabel) (label : SchedulerLabel) :
    sinceLaunch (labels ++ [label]) =
      if label.isLaunch then [] else sinceLaunch labels ++ [label] := by
  simp [sinceLaunch]

theorem sinceLaunch_append (front : List SchedulerLabel) {quiet : List SchedulerLabel}
    (launchless : ∀ label ∈ quiet, label.isLaunch = false) :
    sinceLaunch (front ++ quiet) = sinceLaunch front ++ quiet := by
  induction quiet using reverseRecOn with
  | nil => simp
  | append_singleton _ label ih =>
    have earlier := ih fun other mem => launchless other (mem_append_left _ mem)
    have last := launchless label (by simp)
    rw [← append_assoc, sinceLaunch_snoc, earlier, last]
    simp

theorem mem_sinceLaunch {mid : List SchedulerLabel} (notLaunch : label.isLaunch = false)
    (quiet : ∀ other ∈ mid, other.isLaunch = false) :
    label ∈ sinceLaunch (front ++ label :: mid) := by
  rw [sinceLaunch_append front (by simpa [notLaunch] using quiet)]
  simp

theorem resetsOf_append (front back : List SchedulerLabel) :
    resetsOf (front ++ back) = resetsOf front ++ resetsOf back :=
  filterMap_append

theorem accountsOf_append (front back : List SchedulerLabel) :
    accountsOf (front ++ back) = accountsOf front ++ accountsOf back :=
  filterMap_append

theorem coalesced_snoc (requests : List ResetRequest) (request : ResetRequest) :
    coalesced (requests ++ [request]) = some (mergeReset (coalesced requests) request) := by
  rcases requests with _ | ⟨oldest, rest⟩
  · rfl
  · have last := getLast?_eq_some_getLast (cons_ne_nil oldest rest)
    rw [coalesced, getLast?_concat, coalesced, last]
    rfl

theorem gathered_snoc (requests : List (Finset Address)) (accounts : Finset Address) :
    gathered (requests ++ [accounts]) = some (mergeAccounts (gathered requests) accounts) := by
  by_cases empty : requests = []
  · subst empty
    simp [gathered, mergeAccounts]
  · simp [gathered, mergeAccounts, empty]

section

variable [Encoding]

/-- The sender under which an event is queued: the zero address if it cannot be
recovered. -/
def eventSender (tx : Transaction) : Address :=
  (Encoding.sender tx).getD 0

def putEvent (events : QueuedEvents) (tx : Transaction) : QueuedEvents :=
  fun address nonce =>
    if address = eventSender tx ∧ nonce = tx.nonce then some tx else events address nonce

/-- The events of `runReorg`: after a reset without those below the pending nonce of the sender. -/
def announced (run : ReorgRun) (pendingNonce : Address → Nat) (promoted : List Transaction) :
    QueuedEvents :=
  promoted.foldl putEvent fun address nonce =>
    if run.reset.isSome ∧ nonce.toNat < pendingNonce address then none
    else run.events address nonce

/-- The loop is at its `select`: a run that is due has been started. -/
def Selects (scheduler : Scheduler) : Prop :=
  scheduler.stopped = false ∧ ¬ (scheduler.curDone = none ∧ scheduler.launchNextRun = true)

def nextRun (scheduler : Scheduler) : ReorgRun where
  done := scheduler.nextDone
  reset := scheduler.reset
  dirtyAccounts := scheduler.dirtyAccounts
  events := scheduler.queuedEvents

inductive Step : Scheduler → SchedulerLabel → Scheduler → Prop
  | launch {scheduler : Scheduler} (going : scheduler.stopped = false)
      (idle : scheduler.curDone = none) (due : scheduler.launchNextRun = true) :
      Step scheduler (.launch scheduler.nextRun) { scheduler with
        curDone := some scheduler.nextDone
        nextDone := scheduler.nextDone + 1
        launchNextRun := false
        reset := none
        dirtyAccounts := none
        queuedEvents := fun _ _ => none
        active := scheduler.active ++ [scheduler.nextRun] }
  | requestReset {scheduler : Scheduler} (selects : scheduler.Selects)
      (request : ResetRequest) :
      Step scheduler (.requestReset request scheduler.nextDone) { scheduler with
        reset := some (mergeReset scheduler.reset request)
        launchNextRun := true }
  | requestPromote {scheduler : Scheduler} (selects : scheduler.Selects)
      (accounts : Finset Address) :
      Step scheduler (.requestPromote accounts scheduler.nextDone) { scheduler with
        dirtyAccounts := some (mergeAccounts scheduler.dirtyAccounts accounts)
        launchNextRun := true }
  | queueTxEvent {scheduler : Scheduler} (selects : scheduler.Selects) (tx : Transaction) :
      Step scheduler (.queueTxEvent tx) { scheduler with
        queuedEvents := putEvent scheduler.queuedEvents tx }
  | finish {scheduler : Scheduler} {before after : List ReorgRun} {run : ReorgRun}
      (running : scheduler.active = before ++ run :: after) :
      Step scheduler (.finish run.done) { scheduler with
        active := before ++ after
        closed := scheduler.closed ++ [run.done] }
  | observe {scheduler : Scheduler} {channel : Nat} (selects : scheduler.Selects)
      (current : scheduler.curDone = some channel) (isOver : channel ∈ scheduler.closed) :
      Step scheduler .observe { scheduler with curDone := none }
  | shutdown {scheduler : Scheduler} (selects : scheduler.Selects)
      (isOver : ∀ channel, scheduler.curDone = some channel → channel ∈ scheduler.closed) :
      Step scheduler .shutdown { scheduler with
        closed := scheduler.closed ++ [scheduler.nextDone]
        stopped := true }

def eventsOf (labels : List SchedulerLabel) : List Transaction :=
  labels.filterMap fun label =>
    match label with
    | .queueTxEvent tx => some tx
    | _ => none

def newest (txs : List Transaction) : QueuedEvents :=
  fun address nonce =>
    txs.reverse.find? fun tx => decide (address = eventSender tx ∧ nonce = tx.nonce)

omit [Encoding] in
theorem eventsOf_append (front back : List SchedulerLabel) :
    eventsOf (front ++ back) = eventsOf front ++ eventsOf back :=
  filterMap_append

theorem newest_snoc (txs : List Transaction) (tx : Transaction) :
    newest (txs ++ [tx]) = putEvent (newest txs) tx := by
  funext addr nonce
  by_cases same : addr = eventSender tx ∧ nonce = tx.nonce
  · simp [newest, putEvent, same]
  · simp [newest, putEvent, same]

def Represented (events : QueuedEvents) (tx : Transaction) : Prop :=
  ∃ event, events (eventSender tx) tx.nonce = some event ∧
    eventSender event = eventSender tx ∧ event.nonce = tx.nonce

theorem Represented.putEvent (there : Represented events tx) (other : Transaction) :
    Represented (putEvent events other) tx := by
  rcases there with ⟨event, found, sameSender, sameNonce⟩
  by_cases replaced : eventSender tx = eventSender other ∧ tx.nonce = other.nonce
  · exact ⟨other, if_pos replaced, replaced.1.symm, replaced.2.symm⟩
  · exact ⟨event, by rw [Scheduler.putEvent, if_neg replaced, found], sameSender, sameNonce⟩

theorem represented_newest {txs : List Transaction} (queued : tx ∈ txs) :
    Represented (newest txs) tx := by
  have present : (newest txs (eventSender tx) tx.nonce).isSome := by
    rw [newest, find?_isSome]
    exact ⟨tx, mem_reverse.mpr queued, by simp⟩
  rcases Option.isSome_iff_exists.mp present with ⟨event, found⟩
  have fits := find?_some found
  simp only [decide_eq_true_eq] at fits
  exact ⟨event, found, fits.1.symm, fits.2.symm⟩

theorem represented_foldl (promoted : List Transaction) (there : Represented events tx) :
    Represented (promoted.foldl putEvent events) tx := by
  induction promoted generalizing events with
  | nil => exact there
  | cons first _ ih => exact ih (there.putEvent first)

/-- What came since the start of the run before it: one reset from the oldest old head to the
newest new one, the union of the accounts, and the newest event for each sender and nonce. -/
structure Merges (since : List SchedulerLabel) (run : ReorgRun) : Prop where
  reset : run.reset = coalesced (resetsOf since)
  dirtyAccounts : run.dirtyAccounts = gathered (accountsOf since)
  events : run.events = newest (eventsOf since)

def Served (run : ReorgRun) : SchedulerLabel → Prop
  | .requestReset _ _ => run.reset.isSome
  | .requestPromote accounts _ => (∃ dirty, run.dirtyAccounts = some dirty ∧ accounts ⊆ dirty) ∧
      ∀ queued, accounts ∩ queued ⊆ run.promoteAddrs queued
  | .queueTxEvent tx => Represented run.events tx ∧ ∀ pendingNonce promoted,
      (run.reset.isSome ∧ tx.nonce.toNat < pendingNonce (eventSender tx)) ∨
        Represented (announced run pendingNonce promoted) tx
  | _ => True

omit [Encoding] in
theorem subset_foldl_union {requests : List (Finset Address)} {accounts all : Finset Address}
    (there : accounts ∈ requests ∨ accounts ⊆ all) : accounts ⊆ requests.foldl (· ∪ ·) all := by
  induction requests generalizing all with
  | nil => simpa using there
  | cons _ _ ih =>
    apply ih
    rcases there with mem | below
    · rcases mem_cons.mp mem with rfl | later
      · exact .inr Finset.subset_union_right
      · exact .inl later
    · exact .inr (below.trans Finset.subset_union_left)

omit [Encoding] in
theorem isSome_coalesced {requests : List ResetRequest} {request : ResetRequest}
    (mem : request ∈ requests) : (coalesced requests).isSome := by
  have nonempty : requests ≠ [] := ne_nil_of_mem mem
  rw [coalesced, head?_eq_some_head nonempty, getLast?_eq_some_getLast nonempty]
  rfl

theorem Merges.served {since : List SchedulerLabel} {run : ReorgRun} (merges : Merges since run)
    (mem : label ∈ since) : Served run label := by
  cases label with
  | requestReset request _ =>
    have requested : request ∈ resetsOf since :=
      mem_filterMap.mpr ⟨_, mem, rfl⟩
    rw [Served, merges.reset]
    exact isSome_coalesced requested
  | requestPromote accounts _ =>
    have requested : accounts ∈ accountsOf since :=
      mem_filterMap.mpr ⟨_, mem, rfl⟩
    have dirty : run.dirtyAccounts = some ((accountsOf since).foldl (· ∪ ·) ∅) := by
      rw [merges.dirtyAccounts, gathered, if_neg (ne_nil_of_mem requested)]
    have below : accounts ⊆ (accountsOf since).foldl (· ∪ ·) ∅ :=
      subset_foldl_union (.inl requested)
    refine ⟨⟨_, dirty, below⟩, ?_⟩
    intro queued
    rw [ReorgRun.promoteAddrs]
    split_ifs
    · exact Finset.inter_subset_right
    · rw [dirty]
      exact Finset.inter_subset_left.trans below
  | queueTxEvent tx =>
    have queued : tx ∈ eventsOf since := mem_filterMap.mpr ⟨_, mem, rfl⟩
    have there : Represented run.events tx := by
      rw [merges.events]
      exact represented_newest queued
    refine ⟨there, ?_⟩
    intro pendingNonce _
    by_cases stale : run.reset.isSome ∧ tx.nonce.toNat < pendingNonce (eventSender tx)
    · exact .inl stale
    · right
      apply represented_foldl
      rcases there with ⟨event, found, same⟩
      exact ⟨event, by simp [if_neg stale, found], same⟩
  | launch | finish | observe | shutdown => trivial

/-- What the variables of the loop hold after the given labels. -/
structure Merged (labels : List SchedulerLabel) (scheduler : Scheduler) : Prop where
  reset : scheduler.reset = coalesced (resetsOf (sinceLaunch labels))
  dirtyAccounts : scheduler.dirtyAccounts = gathered (accountsOf (sinceLaunch labels))
  queuedEvents : scheduler.queuedEvents = newest (eventsOf (sinceLaunch labels))
  /-- A pending request waits for the next run, which is due. -/
  pending : ∀ label ∈ sinceLaunch labels, ∀ reply, label.reply = some reply →
    reply = scheduler.nextDone ∧ scheduler.launchNextRun = true
  /-- Each start has made one channel. -/
  nextDone : scheduler.nextDone = labels.countP isLaunch

variable {labels : List SchedulerLabel} {scheduler next : Scheduler} {label : SchedulerLabel}

section

variable (merged : Merged labels scheduler)
include merged

theorem Merged.pending_snoc (goesOn : label.isLaunch = false)
    (same : next.nextDone = scheduler.nextDone)
    (due : scheduler.launchNextRun = true → next.launchNextRun = true)
    (here : ∀ reply, label.reply = some reply → reply = next.nextDone ∧ next.launchNextRun = true) :
    ∀ other ∈ sinceLaunch (labels ++ [label]), ∀ reply, other.reply = some reply →
      reply = next.nextDone ∧ next.launchNextRun = true := by
  intro other mem reply ran
  simp only [sinceLaunch_snoc, goesOn, Bool.false_eq_true, if_false, mem_append,
    mem_singleton] at mem
  rcases mem with earlier | rfl
  · rcases merged.pending other earlier reply ran with ⟨waits, isDue⟩
    exact ⟨waits.trans same.symm, due isDue⟩
  · exact here reply ran

theorem Merged.other (goesOn : label.isLaunch = false) (noReset : resetsOf [label] = [])
    (noAccounts : accountsOf [label] = []) (noEvent : eventsOf [label] = [])
    (noReply : label.reply = none) (reset : next.reset = scheduler.reset)
    (dirtyAccounts : next.dirtyAccounts = scheduler.dirtyAccounts)
    (queuedEvents : next.queuedEvents = scheduler.queuedEvents)
    (nextDone : next.nextDone = scheduler.nextDone)
    (due : next.launchNextRun = scheduler.launchNextRun) : Merged (labels ++ [label]) next := by
  have since : sinceLaunch (labels ++ [label]) = sinceLaunch labels ++ [label] := by simp [goesOn]
  refine ⟨?_, ?_, ?_, merged.pending_snoc goesOn nextDone ?_ ?_, ?_⟩
  · rw [reset, merged.reset, since, resetsOf_append, noReset, append_nil]
  · rw [dirtyAccounts, merged.dirtyAccounts, since, accountsOf_append, noAccounts, append_nil]
  · rw [queuedEvents, merged.queuedEvents, since, eventsOf_append, noEvent, append_nil]
  · intro isDue
    rw [due, isDue]
  · intro reply ran
    rw [noReply] at ran
    cases ran
  · simp [nextDone, merged.nextDone, goesOn]

theorem Merged.step (taken : Step scheduler label next) : Merged (labels ++ [label]) next := by
  have count := merged.nextDone
  cases taken with
  | launch =>
    refine ⟨?_, ?_, ?_, ?_, ?_⟩
    · simp [isLaunch, resetsOf, coalesced]
    · simp [isLaunch, accountsOf, gathered]
    · funext addr nonce
      simp [isLaunch, eventsOf, newest]
    · simp [isLaunch]
    · simp [isLaunch, count]
  | requestReset =>
    refine ⟨?_, ?_, ?_, merged.pending_snoc rfl rfl (fun _ => rfl) ?_, ?_⟩
    · simp [isLaunch, resetsOf, coalesced_snoc, merged.reset]
    · simp [isLaunch, accountsOf, merged.dirtyAccounts]
    · simp [isLaunch, eventsOf, merged.queuedEvents]
    · rintro reply ⟨⟩
      exact ⟨rfl, rfl⟩
    · simp [isLaunch, count]
  | requestPromote =>
    refine ⟨?_, ?_, ?_, merged.pending_snoc rfl rfl (fun _ => rfl) ?_, ?_⟩
    · simp [isLaunch, resetsOf, merged.reset]
    · simp [isLaunch, accountsOf, gathered_snoc, merged.dirtyAccounts]
    · simp [isLaunch, eventsOf, merged.queuedEvents]
    · rintro reply ⟨⟩
      exact ⟨rfl, rfl⟩
    · simp [isLaunch, count]
  | queueTxEvent =>
    refine ⟨?_, ?_, ?_, merged.pending_snoc rfl rfl id ?_, ?_⟩
    · simp [isLaunch, resetsOf, merged.reset]
    · simp [isLaunch, accountsOf, merged.dirtyAccounts]
    · simp [isLaunch, eventsOf, newest_snoc, merged.queuedEvents]
    · rintro reply ⟨⟩
    · simp [isLaunch, count]
  | finish | observe | shutdown => exact merged.other rfl rfl rfl rfl rfl rfl rfl rfl rfl rfl

end

/-- At most one background run is active, it is the current one, and a channel is closed by the
return of its run. -/
structure Tracked (labels : List SchedulerLabel) (scheduler : Scheduler) : Prop where
  single : (scheduler.active = [] ∧
      ∀ channel, scheduler.curDone = some channel → channel ∈ scheduler.closed) ∨
    ∃ run, scheduler.active = [run] ∧ scheduler.curDone = some run.done ∧
      run.done ∉ scheduler.closed
  launched : ∀ run ∈ scheduler.active, ∃ front back,
    labels = front ++ .launch run :: back ∧ run.done < scheduler.nextDone
  finished : ∀ channel ∈ scheduler.closed, channel < scheduler.nextDone ∧
    ∃ front run back, labels = front ++ .launch run :: back ∧ run.done = channel ∧
      .finish channel ∈ back
  going : scheduler.stopped = false

theorem Tracked.step (tracked : Tracked labels scheduler) (taken : Step scheduler label next)
    (goesOn : label ≠ .shutdown) : Tracked (labels ++ [label]) next := by
  have longer : ∀ {front run back}, labels = front ++ .launch run :: back →
      labels ++ [label] = front ++ .launch run :: (back ++ [label]) := by
    intro front run back split
    simp [split]
  -- what was started and what was closed before stays so
  have launched : ∀ run ∈ scheduler.active, ∃ front back,
      labels ++ [label] = front ++ .launch run :: back ∧ run.done < scheduler.nextDone := by
    intro run mem
    rcases tracked.launched run mem with ⟨front, back, split, made⟩
    exact ⟨front, back ++ [label], longer split, made⟩
  have finished : ∀ channel ∈ scheduler.closed, channel < scheduler.nextDone ∧
      ∃ front run back, labels ++ [label] = front ++ .launch run :: back ∧ run.done = channel ∧
        .finish channel ∈ back := by
    intro channel mem
    rcases tracked.finished channel mem with ⟨made, front, run, back, split, same, isOver⟩
    exact ⟨made, front, run, back ++ [label], longer split, same, mem_append_left _ isOver⟩
  cases taken with
  | launch going idle _ =>
    have idle : scheduler.active = [] := by
      rcases tracked.single with ⟨empty, -⟩ | ⟨run, -, current, -⟩
      · exact empty
      · rw [idle] at current
        cases current
    refine ⟨.inr ⟨scheduler.nextRun, by simp [idle], rfl, ?_⟩, ?_, ?_, going⟩
    · intro closed
      have made := (finished _ closed).1
      simp [nextRun] at made
    · intro run mem
      simp only [idle, nil_append, mem_singleton] at mem
      subst mem
      exact ⟨labels, [], rfl, Nat.lt_succ_self _⟩
    · intro channel closed
      rcases finished channel closed with ⟨made, history⟩
      exact ⟨Nat.lt_succ_of_lt made, history⟩
  | requestReset | requestPromote => exact ⟨tracked.single, launched, finished, tracked.going⟩
  | queueTxEvent => exact ⟨tracked.single, launched, finished, tracked.going⟩
  | @finish old new run running =>
    have only : old = [] ∧ new = [] ∧ scheduler.curDone = some run.done := by
      rcases tracked.single with ⟨empty, -⟩ | ⟨_, one, current, -⟩
      · simp [empty] at running
      rw [one] at running
      rcases old with _ | ⟨_, _⟩
      · simp only [nil_append, cons.injEq] at running
        exact ⟨rfl, running.2.symm, running.1 ▸ current⟩
      · simp at running
    rcases only with ⟨rfl, rfl, current⟩
    have active : run ∈ scheduler.active := by simp [running]
    refine ⟨.inl ⟨rfl, ?_⟩, by simp, ?_, tracked.going⟩
    · intro channel isCurrent
      simp only [current, Option.some.injEq] at isCurrent
      simp [isCurrent]
    · intro channel closed
      rcases mem_append.mp closed with earlier | last
      · exact finished channel earlier
      · rw [mem_singleton.mp last]
        rcases tracked.launched run active with ⟨front, back, split, made⟩
        exact ⟨made, front, run, back ++ [.finish run.done], longer split, rfl, by simp⟩
  | observe _ current isOver =>
    refine ⟨.inl ⟨?_, by simp⟩, launched, finished, tracked.going⟩
    rcases tracked.single with ⟨empty, -⟩ | ⟨run, -, isCurrent, ongoing⟩
    · exact empty
    · rw [current, Option.some.injEq] at isCurrent
      exact absurd (isCurrent ▸ isOver) ongoing
  | shutdown => exact absurd rfl goesOn

def UnstoppedStep (scheduler : Scheduler) (label : SchedulerLabel) (next : Scheduler) : Prop :=
  label ≠ .shutdown ∧ Step scheduler label next

theorem merged_start : Merged [] start := by
  refine ⟨rfl, rfl, rfl, ?_, rfl⟩
  simp [sinceLaunch]

omit [Encoding] in
theorem tracked_start : Tracked [] start := by
  refine ⟨.inl ⟨rfl, ?_⟩, ?_, ?_, rfl⟩ <;> simp [start]

section

variable (run : Run UnstoppedStep start labels scheduler)
include run

theorem run_merged : Merged labels scheduler ∧ Tracked labels scheduler := by
  apply run.invariant (fun labels scheduler => Merged labels scheduler ∧ Tracked labels scheduler)
  · exact ⟨merged_start, tracked_start⟩
  · rintro front label old new - - ⟨goesOn, taken⟩ ⟨merged, tracked⟩
    exact ⟨merged.step taken, tracked.step taken goesOn⟩

theorem step_at (split : labels = front ++ label :: back) :
    ∃ old new, Run UnstoppedStep start front old ∧ Step old label new := by
  have shorter : front ++ [label] <+: labels := by simp [split]
  rcases run.of_shorter shorter with ⟨new, longer⟩
  rcases longer.snoc_inv with ⟨old, reached, -, taken⟩
  exact ⟨old, new, reached, taken⟩

theorem launch_at (split : labels = front ++ .launch reorg :: back) :
    reorg.done = front.countP isLaunch ∧ Merges (sinceLaunch front) reorg := by
  rcases step_at run split with ⟨_, _, reached, taken⟩
  rcases run_merged reached with ⟨merged, -⟩
  cases taken with
  | launch => exact ⟨merged.nextDone, merged.reset, merged.dirtyAccounts, merged.queuedEvents⟩

theorem reply_at (split : labels = front ++ label :: back) {channel : Nat}
    (ran : label.reply = some channel) : channel = front.countP isLaunch := by
  rcases step_at run split with ⟨_, _, reached, taken⟩
  rcases run_merged reached with ⟨merged, -⟩
  rw [← merged.nextDone]
  cases taken with
  | requestReset | requestPromote => exact (Option.some.inj ran).symm
  | launch | queueTxEvent | finish
  | observe | shutdown => cases ran

end

omit [Encoding] in
/-- A start with as many starts before it as a request comes after the request,
and nothing was started in between. -/
theorem launch_after {ahead after : List SchedulerLabel} (notLaunch : label.isLaunch = false)
    (same : front ++ label :: back = ahead ++ .launch reorg :: after)
    (count : front.countP isLaunch = ahead.countP isLaunch) :
    ∃ mid, ahead = front ++ label :: mid ∧ back = mid ++ .launch reorg :: after ∧
      ∀ other ∈ mid, other.isLaunch = false := by
  rcases append_eq_append_iff.mp same with ⟨mid, isAhead, rest⟩ | ⟨mid, isFront, rest⟩
  · rcases mid with _ | ⟨first, mid⟩
    · simp only [nil_append, cons.injEq] at rest
      rw [rest.1] at notLaunch
      cases notLaunch
    simp only [cons_append, cons.injEq] at rest
    refine ⟨mid, by rw [isAhead, rest.1], rest.2, ?_⟩
    rw [isAhead, countP_append, ← rest.1, countP_cons, notLaunch] at count
    have launchless : mid.countP isLaunch = 0 := by simpa using count
    simpa using countP_eq_zero.mp launchless
  · -- the start would be before the request
    rcases mid with _ | ⟨first, mid⟩
    · simp only [nil_append, cons.injEq] at rest
      rw [← rest.1] at notLaunch
      cases notLaunch
    · simp only [cons_append, cons.injEq] at rest
      rw [isFront, countP_append, ← rest.1, countP_cons] at count
      simp [isLaunch] at count

/-- For every interleaving, as long as the pool is not shut down: at most one background run is
active; every run is merged from all that came since the start of the run before it; the
channel of a request is closed by the return of the first run started after it; and what
came since the last start is what the next run will be started with, held up by nothing but
a background run that has not returned. -/
theorem scheduleReorgLoop_serves (run : Run UnstoppedStep start labels scheduler) :
    scheduler.active.length ≤ 1 ∧ (∀ front reorg back, labels = front ++ .launch reorg :: back →
      Merges (sinceLaunch front) reorg ∧ ∀ label ∈ sinceLaunch front, Served reorg label) ∧
    (∀ front label back channel, labels = front ++ label :: back → label.reply = some channel →
      channel ∈ scheduler.closed → ∃ middle reorg after, back = middle ++ .launch reorg :: after ∧
        (∀ other ∈ middle, other.isLaunch = false) ∧ Served reorg label ∧
        reorg.done = channel ∧ .finish channel ∈ after) ∧
    Merges (sinceLaunch labels) scheduler.nextRun ∧
    ((∃ label ∈ sinceLaunch labels, label.reply.isSome) →
      scheduler.active ≠ [] ∨ (∃ next, Step scheduler .observe next) ∨
        ∃ next, Step scheduler (.launch scheduler.nextRun) next) := by
  rcases run_merged run with ⟨merged, tracked⟩
  refine ⟨?_, ?_, ?_, ⟨merged.reset, merged.dirtyAccounts, merged.queuedEvents⟩, ?_⟩
  · rcases tracked.single with ⟨idle, -⟩ | ⟨reorg, one, -⟩
    · simp [idle]
    · simp [one]
  · intro front reorg back split
    have merges := (launch_at run split).2
    exact ⟨merges, fun label mem => merges.served mem⟩
  · intro front label back channel split ran closed
    rcases tracked.finished channel closed with ⟨-, ahead, reorg, after, here, same, isOver⟩
    have notLaunch : label.isLaunch = false := by
      cases label with
      | launch => cases ran
      | _ => rfl
    rcases launch_at run here with ⟨num, merges⟩
    have count : front.countP isLaunch = ahead.countP isLaunch := by
      rw [← num, same, reply_at run split ran]
    rcases launch_after notLaunch (split.symm.trans here) count with
      ⟨middle, isAhead, isBack, quiet⟩
    have since : label ∈ sinceLaunch ahead := by
      rw [isAhead]
      exact mem_sinceLaunch notLaunch quiet
    exact ⟨middle, reorg, after, isBack, quiet, merges.served since, same, isOver⟩
  · rintro ⟨label, mem, ran⟩
    rcases Option.isSome_iff_exists.mp ran with ⟨reply, replied⟩
    have due := (merged.pending label mem reply replied).2
    rcases tracked.single with ⟨idle, isOver⟩ | ⟨reorg, one, -⟩
    · right
      rcases current : scheduler.curDone with _ | channel
      · exact .inr ⟨_, .launch tracked.going current due⟩
      · refine .inl ⟨_, .observe ⟨tracked.going, ?_⟩ current (isOver channel current)⟩
        simp [current]
    · simp [one]

end

@[reducible]
def loneSender : Encoding :=
  { blankEncoding with sender := fun _ => some 1 }

def pricedTx (gasPrice : Int) : Transaction where
  nonce := 0
  gasPrice := gasPrice
  gas := 21000
  recipient := some 2
  value := 0
  v := 27
  r := 1
  s := 1

def replacingLabels (reorg : ReorgRun) : List SchedulerLabel :=
  [.queueTxEvent (pricedTx 1), .queueTxEvent (pricedTx 2), .requestPromote {1} 0, .launch reorg]

theorem replacing_run :
    letI := loneSender
    ∃ reorg scheduler, Run UnstoppedStep start (replacingLabels reorg) scheduler ∧
      reorg.events = putEvent (putEvent (fun _ _ => none) (pricedTx 1)) (pricedTx 2) := by
  let := loneSender
  have selects : ∀ {scheduler : Scheduler}, scheduler.stopped = false →
      scheduler.launchNextRun = false → scheduler.Selects := by
    intro scheduler going idle
    exact ⟨going, by simp [idle]⟩
  have first : Run UnstoppedStep start [.queueTxEvent (pricedTx 1)] _ :=
    .snoc .nil ⟨by simp, .queueTxEvent (selects rfl rfl) (pricedTx 1)⟩
  have second : Run UnstoppedStep start
      [.queueTxEvent (pricedTx 1), .queueTxEvent (pricedTx 2)] _ :=
    .snoc first ⟨by simp, .queueTxEvent (selects rfl rfl) (pricedTx 2)⟩
  have third : Run UnstoppedStep start
      [.queueTxEvent (pricedTx 1), .queueTxEvent (pricedTx 2), .requestPromote {1} 0] _ :=
    .snoc second ⟨by simp, .requestPromote (selects rfl rfl) {1}⟩
  exact ⟨_, _, .snoc third ⟨by simp, .launch rfl rfl rfl⟩, rfl⟩

/-- The first of the two events is not passed to the run. -/
theorem queued_event_dropped :
    letI := loneSender
    ∃ reorg scheduler, Run UnstoppedStep start (replacingLabels reorg) scheduler ∧
      ∀ address nonce, reorg.events address nonce ≠ some (pricedTx 1) := by
  let := loneSender
  rcases replacing_run with ⟨reorg, scheduler, run, events⟩
  refine ⟨reorg, scheduler, run, ?_⟩
  intro address nonce
  rw [events]
  by_cases here : address = eventSender (pricedTx 2) ∧ nonce = (pricedTx 2).nonce
  · rw [putEvent, if_pos here]
    decide
  · have there : ¬ (address = eventSender (pricedTx 1) ∧ nonce = (pricedTx 1).nonce) := here
    rw [putEvent, if_neg here, putEvent, if_neg there]
    simp

/-- The event that replaces it is, and no second run is active. -/
theorem sample_scheduleReorgLoop_serves :
    letI := loneSender
    ∃ reorg scheduler, Run UnstoppedStep start (replacingLabels reorg) scheduler ∧
      scheduler.active.length ≤ 1 ∧ Represented reorg.events (pricedTx 1) := by
  let := loneSender
  rcases replacing_run with ⟨reorg, scheduler, run, -⟩
  rcases scheduleReorgLoop_serves run with ⟨single, merged, -⟩
  refine ⟨reorg, scheduler, run, single, ?_⟩
  have served := (merged
    [.queueTxEvent (pricedTx 1), .queueTxEvent (pricedTx 2), .requestPromote {1} 0] reorg []
    rfl).2 (.queueTxEvent (pricedTx 1)) (by simp [sinceLaunch, isLaunch])
  exact served.1

end Scheduler

end Octopus
