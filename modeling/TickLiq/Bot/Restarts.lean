import TickLiq.Bot.ApprovalSafety

/-!
# Proposal IDs across restarts

Every process counts its proposals on from the second it seeds the counter at. IDs
advance by the proposal and the clock by the second, so a process that proposes faster
than once a second runs into the numbers of the next one.
-/
namespace TickLiq.Bot.Approval

open Machine (run run_concat_some occurs_concat not_occurs_nil)

/-- The seed of `NEXT_PROPOSAL_ID`; there is no reading of a clock before the epoch. -/
def proposalSeed (sinceEpoch : Option ℕ) : ℕ := max (sinceEpoch.getD 1) 1

/-- A watch process from its first proposal on: when it seeds the counter, and what it does. -/
structure WatchProcess (bot : BotState) where
  seededAt : ℕ
  seconds : seededAt < 2 ^ 64
  paused : Bool
  events : List Event
  last : Approval
  played : run (step bot) (initial (proposalSeed (some seededAt)) paused) events = some last

/-! ### The IDs of one process -/

section Issued

variable {bot : BotState} {seed : ℕ} {paused : Bool} {s t : Approval} {e : Event}

theorem issued_step (moved : Moves bot s e t) :
    t.issued = s.issued + [e].count .propose := by
  cases moved <;> rfl

/-- One ID a call of `send_proposal`, whether its message goes out or not. -/
theorem issued_run {events : List Event}
    (played : run (step bot) (initial seed paused) events = some t) :
    t.issued = events.count .propose := by
  induction events using List.reverseRecOn generalizing t with
  | nil =>
    cases played
    rfl
  | append_singleton es e ih =>
    obtain ⟨u, before, moved⟩ := (run_concat_some ..).mp played
    rw [issued_step (step_moves moved), ih before, List.count_append]

theorem proposed_iff {events : List Event}
    (played : run (step bot) (initial seed paused) events = some t) (p : PendingApproval) :
    Proposed bot (initial seed paused) events p ↔
      p.tx < events.count .propose ∧ p.id = proposalId seed p.tx := by
  induction events using List.reverseRecOn generalizing t with
  | nil => exact iff_of_false (not_occurs_nil _ _ _) (by simp)
  | append_singleton es e ih =>
    obtain ⟨u, before, moved⟩ := (run_concat_some ..).mp played
    -- the counter stands behind the seed by as many as were proposed
    have numbered := (wired_run before).next_id
    have issued := issued_run before
    rw [Proposed, occurs_concat _ _ _ _ _ _ before, ← Proposed, ih before, List.count_append]
    by_cases proposes : e = .propose
    · rw [proposes, List.count_singleton_self]
      constructor
      · intro either
        rcases either with earlier | ⟨_, rfl⟩
        · exact ⟨Nat.lt_succ_of_lt earlier.1, earlier.2⟩
        · exact ⟨issued ▸ Nat.lt_succ_self _, numbered⟩
      · intro both
        obtain ⟨below, id⟩ := both
        -- either an earlier proposal or the one that is made now
        rcases Nat.lt_succ_iff_lt_or_eq.mp below with earlier | newest
        · exact Or.inl ⟨earlier, id⟩
        · have same : p.tx = u.issued := newest.trans issued.symm
          refine Or.inr ⟨rfl, proposal_eq id ?_ same⟩
          exact numbered
    · rw [List.count_singleton, if_neg (by simpa using proposes), Nat.add_zero]
      constructor
      · intro either
        rcases either with earlier | here
        · exact earlier
        · exact absurd here.1 proposes
      · exact Or.inl

end Issued

/-- Two spans of IDs are apart when the first ends before the second starts, and the second
does not come round to the first. -/
theorem proposalIds_apart_iff {first second m n : ℕ} (ordered : first ≤ second)
    (small : second < 2 ^ 64) :
    (∀ k < m, ∀ l < n, proposalId first k ≠ proposalId second l) ↔
      m = 0 ∨ n = 0 ∨ (m ≤ second - first ∧ n ≤ 2 ^ 64 - (second - first)) := by
  simp only [proposalId]
  constructor
  · intro apart
    by_cases none : m = 0 ∨ n = 0
    · rcases none with none | none
      · exact Or.inl none
      · exact Or.inr (Or.inl none)
    · refine Or.inr (Or.inr ⟨?_, ?_⟩)
      · -- otherwise the first span reaches the start of the second
        by_contra long
        have reached := apart (second - first) (by omega) 0 (by omega)
        omega
      · by_contra long
        have reached := apart 0 (by omega) (2 ^ 64 - (second - first)) (by omega)
        omega
  · intro short k before l behind
    omega

/-! ### Processes one after the other -/

section Restarts

variable {bot : BotState}

namespace WatchProcess

def seed (process : WatchProcess bot) : ℕ := proposalSeed (some process.seededAt)

/-- How often the process calls `send_proposal`. -/
def proposals (process : WatchProcess bot) : ℕ := process.events.count .propose

def Proposed (process : WatchProcess bot) (p : PendingApproval) : Prop :=
  Approval.Proposed bot (initial process.seed process.paused) process.events p

/-- The process is in state `u` at some point of its run. -/
def Reaches (process : WatchProcess bot) (u : Approval) : Prop :=
  ∃ seen rest, process.events = seen ++ rest ∧
    run (step bot) (initial process.seed process.paused) seen = some u

/-- The IDs of the earlier process are not those of the later one, and a text that names
one of them takes nothing out of the later one's slot. -/
structure NoReuse (earlier later : WatchProcess bot) : Prop where
  ids : ∀ p q, earlier.Proposed p → later.Proposed q → p.id ≠ q.id
  stale : ∀ p, earlier.Proposed p → ∀ u, later.Reaches u → ∀ msg idArg,
    parseU64 (trim idArg.toList) = some p.id →
      (beginApprove bot u.slot msg idArg).1.proposal = none

/-- Neither process proposes more often than the seconds between the two seeds allow, to
the end of the earlier span and all the way round to it. -/
def Paced (earlier later : WatchProcess bot) : Prop :=
  earlier.proposals = 0 ∨ later.proposals = 0 ∨
    (earlier.proposals ≤ later.seed - earlier.seed ∧
      later.proposals ≤ 2 ^ 64 - (later.seed - earlier.seed))

theorem seed_lt (process : WatchProcess bot) : process.seed < 2 ^ 64 := by
  have seconds := process.seconds
  simp only [seed, proposalSeed, Option.getD_some]
  omega

theorem seed_mono {earlier later : WatchProcess bot} (ordered : earlier.seededAt < later.seededAt) :
    earlier.seed ≤ later.seed := by
  simp only [seed, proposalSeed, Option.getD_some]
  omega

theorem proposed_iff (process : WatchProcess bot) (p : PendingApproval) :
    process.Proposed p ↔ p.tx < process.proposals ∧ p.id = proposalId process.seed p.tx :=
  Approval.proposed_iff process.played p

/-- What is in the slot was proposed by this process. -/
theorem slot_proposed (process : WatchProcess bot) {u : Approval} (reached : process.Reaches u)
    {p : PendingApproval} (pending : u.slot = some p) : process.Proposed p := by
  obtain ⟨seen, rest, split, played⟩ := reached
  obtain ⟨newest, id⟩ := (wired_run played).slot_newest pending
  refine (process.proposed_iff p).mpr ⟨?_, id⟩
  rw [proposals, split, List.count_append, ← issued_run played]
  omega

theorem noReuse_iff_paced {earlier later : WatchProcess bot}
    (ordered : earlier.seededAt < later.seededAt) : NoReuse earlier later ↔ Paced earlier later := by
  rw [Paced, ← proposalIds_apart_iff (seed_mono ordered) later.seed_lt]
  constructor
  · intro fresh k before l behind
    exact fresh.ids ⟨_, k⟩ ⟨_, l⟩ ((earlier.proposed_iff _).mpr ⟨before, rfl⟩)
      ((later.proposed_iff _).mpr ⟨behind, rfl⟩)
  · intro apart
    have ids : ∀ p q, earlier.Proposed p → later.Proposed q → p.id ≠ q.id := by
      intro p q first second
      obtain ⟨before, id⟩ := (earlier.proposed_iff p).mp first
      obtain ⟨behind, other⟩ := (later.proposed_iff q).mp second
      rw [id, other]
      exact apart _ before _ behind
    refine ⟨ids, ?_⟩
    intro p proposed u reached msg idArg named
    rcases beginApprove_cases bot u.slot msg idArg with ⟨q, pending, allowed, _⟩ |
      ⟨r, nothing, _, result⟩
    · -- the slot would hold a proposal of that ID
      have same := Option.some.inj (named.symm.trans allowed.2)
      exact absurd same (ids p q proposed (later.slot_proposed reached pending))
    · rw [result]
      exact nothing

end WatchProcess

/-- Over any number of restarts no ID comes back, and no old `/approve` matches, if and only if
any two of the processes are paced. -/
theorem ids_fresh_iff_paced {processes : List (WatchProcess bot)}
    (restarts : processes.Pairwise fun earlier later => earlier.seededAt < later.seededAt) :
    processes.Pairwise WatchProcess.NoReuse ↔ processes.Pairwise WatchProcess.Paced := by
  constructor
  · intro fresh
    exact (restarts.and fresh).imp fun both => (WatchProcess.noReuse_iff_paced both.1).mp both.2
  · intro paced
    exact (restarts.and paced).imp fun both => (WatchProcess.noReuse_iff_paced both.1).mpr both.2

end Restarts

/-! ### Sends that fail within a second -/

/-- A proposal whose message is refused at once. -/
def failedSend : List Event := [.gate, .propose, .sendErr, .clearFailed, .dropFailed, .skip]

def sampleProcess (seededAt : ℕ) (seconds : seededAt < 2 ^ 64) (events : List Event)
    (plays : (run (step sampleBot) (initial (proposalSeed (some seededAt)) false) events).isSome) :
    WatchProcess sampleBot where
  seededAt := seededAt
  seconds := seconds
  paused := false
  events := events
  last := Option.get _ plays
  played := (Option.some_get plays).symm

/-- Three proposals at second 100. -/
def quickProcess : WatchProcess sampleBot :=
  sampleProcess 100 (by decide) (failedSend ++ failedSend ++ failedSend) (by decide +kernel)

/-- One proposal, sent and waited for, at second 101. -/
def nextProcess : WatchProcess sampleBot :=
  sampleProcess 101 (by decide) [.gate, .propose, .sendOk] (by decide +kernel)

/-- One proposal a second stays out of the way of the next process. -/
theorem ids_fresh_iff_paced_slow :
    [sampleProcess 100 (by decide) failedSend (by decide +kernel), nextProcess].Pairwise
      (fun earlier later => earlier.seededAt < later.seededAt) ∧
    ([sampleProcess 100 (by decide) failedSend (by decide +kernel), nextProcess].Pairwise
        WatchProcess.NoReuse ↔
      [sampleProcess 100 (by decide) failedSend (by decide +kernel), nextProcess].Pairwise
        WatchProcess.Paced) :=
  have restarts : [sampleProcess 100 (by decide) failedSend (by decide +kernel),
      nextProcess].Pairwise (fun earlier later => earlier.seededAt < later.seededAt) := by
    simp [sampleProcess, nextProcess]
  ⟨restarts, ids_fresh_iff_paced restarts⟩

/-- The `/approve 101` left over from the second proposal of the first process takes the first
proposal of the next one. -/
theorem stale_approve_matches :
    [quickProcess, nextProcess].Pairwise
      (fun earlier later => earlier.seededAt < later.seededAt) ∧
    quickProcess.Proposed ⟨101, 1⟩ ∧ nextProcess.Proposed ⟨101, 0⟩ ∧
    (beginApprove sampleBot nextProcess.last.slot ⟨7, some 1⟩ "101").1 = .matched ⟨101, 0⟩ ∧
    ¬ [quickProcess, nextProcess].Pairwise WatchProcess.NoReuse := by
  have first : quickProcess.Proposed ⟨101, 1⟩ :=
    (quickProcess.proposed_iff _).mpr ⟨by decide, by decide⟩
  have second : nextProcess.Proposed ⟨101, 0⟩ :=
    (nextProcess.proposed_iff _).mpr ⟨by decide, by decide⟩
  refine ⟨by simp [sampleProcess, quickProcess, nextProcess], first, second,
    by decide +kernel, ?_⟩
  intro fresh
  have pair := (List.pairwise_cons.mp fresh).1 nextProcess (List.mem_singleton_self _)
  exact pair.ids _ _ first second rfl

end TickLiq.Bot.Approval
