/-
Module: GitZero.Proofs.DispatchFencing
Purpose: When a dispatch that waited for its token acts on a job that is still
  the job it assigned.
Trusted boundary: none
Main exports: Fenced, Undisturbed, Held, Held.step, dispatch_fenced_of_undisturbed,
  dispatch_acts_on_reassigned_job
-/
import GitZero.ControlPlane.Events

namespace GitZero.ControlPlane

open Table Machine

section Text

variable [JsText]

/-- A dispatch that goes on after its token call finds its row still assigned to
its agent, by its own assignment, which is the one that chose the socket.  Going
on is acting on the row's job: the iteration sends `run_job` to that socket or
calls `requeue`. -/
def Fenced (state : State) (event : Event) : Prop :=
  ∀ task reply now assignment job agent socket frames,
    event = .resume task reply now →
    state.tasks[task]? = some (.dispatchToken assignment job agent socket :: frames) →
    Holds state assignment job.id agent ∧
      state.assignments[assignment]? = some { job := job.id, agent := agent, socket := socket }

/-- No job moves while a dispatch of it waits for its token, except by that
dispatch. -/
def Undisturbed (state : State) (event : Event) : Prop :=
  ∀ assignment job agent socket,
    Pending state event (.dispatchToken assignment job agent socket) →
    ¬ Moved state event job.id

/-- Every dispatch that waits for its token still has its row. -/
structure Held (state : State) : Prop where
  ready : Ready state
  tokens : ∀ task ∈ state.tasks, ∀ assignment job agent socket,
    .dispatchToken assignment job agent socket ∈ task → Holds state assignment job.id agent

/-- An undisturbed step keeps the invariant. -/
theorem Held.step {state : State} {event : Event} (held : Held state)
    (undisturbed : Undisturbed state event) : Held (step state event) := by
  refine ⟨held.ready.step event, ?_⟩
  obtain ⟨trace, frames⟩ := step_sound held.ready event
  intro task member assignment job agent socket inside
  rcases frames.origin task member _ inside with pending | new
  · obtain ⟨old, present, waiting⟩ := pending.mem
    have holds := held.tokens old present assignment job agent socket waiting
    have active : ActiveIn state job.id := by
      obtain ⟨⟨row, found, id, assigned, -⟩, -⟩ := holds
      exact ⟨row, found, id, by simp [JobRow.active, assigned]⟩
    have unmoved := undisturbed assignment job agent socket pending
    exact (trace.sameOwner fun action may =>
      may.not_moves held.ready.tidy active unmoved).holds holds
  · exact new.2

omit [JsText] in
theorem Held.fenced {state : State} (held : Held state) (event : Event) : Fenced state event := by
  intro task reply now assignment job agent socket frames _ found
  have member := List.mem_of_getElem? found
  exact ⟨held.tokens _ member assignment job agent socket List.mem_cons_self,
    held.ready.frames _ member _ List.mem_cons_self⟩

omit [JsText] in
theorem held_initial : Held initial := ⟨ready_initial, fun _ member => nomatch member⟩

/-- In every run in which no job moves under a waiting dispatch, every dispatch
acts only on a row that it still holds. -/
theorem dispatch_fenced_of_undisturbed (events : List Event)
    (undisturbed : Along step Undisturbed initial events) : Along step Fenced initial events :=
  undisturbed.safe (fun _ _ held good => held.step good) (fun _ event held _ => held.fenced event)
    held_initial

/-- `tryDispatch` in `createAgentToken`. -/
def Frame.waitsForToken : Frame → Bool
  | .dispatchToken _ _ _ _ => true
  | _ => false

theorem undisturbed_of_none {state : State} {event : Event}
    (none : ∀ frame ∈ pendingFrames state event, frame.waitsForToken = false) :
    Undisturbed state event := by
  intro assignment job agent socket pending
  cases none _ (mem_pendingFrames.mpr pending)

theorem undisturbed_connect (state : State) (agentId : AgentId) (now : Millis) :
    Undisturbed state (.connect agentId now) := by
  rintro assignment job agent socket - (taken | ⟨action, own, moves⟩)
  · exact taken
  · cases own
    exact moves

end Text

section Sample

open scoped Ascii

/-- The token of a plain job is there before anything happens to it, and another
agent connects meanwhile. -/
def promptToken : List Event :=
  [.connect "a" 0, .message 0 (.hello (Ascii.hello "a" 1)) 0, .enqueue (Ascii.job 1) "d" 0,
    .resume 0 (.actionsVariables []) 1, .connect "b" 2, .resume 0 (.token ⟨"token", 60⟩) 3]

/-- The claim still stands when the token comes. -/
theorem promptToken_fenced :
    Along step Fenced initial promptToken ∧
      (run step initial promptToken).outbox.length = 2 := by
  refine ⟨dispatch_fenced_of_undisturbed promptToken ?_, by decide⟩
  refine ⟨?_, ?_, ?_, ?_, undisturbed_connect _ _ _, ?_, trivial⟩
  all_goals
    apply undisturbed_of_none
    decide

/-- Job 1 waits for its token at agent `a`; the connection of `a` closes, and the
job goes to agent `b`. -/
def staleDispatch : List Event :=
  [.connect "a" 0, .message 0 (.hello (Ascii.hello "a" 1)) 0,
    .connect "b" 0, .message 1 (.hello (Ascii.hello "b" 1)) 0,
    .enqueue (Ascii.job 1) "d" 0, .resume 0 (.actionsVariables []) 1, .close 0 2]

/-- The token call of agent `a`'s dispatch then fails, and its `catch` requeues
the job that agent `b` has. -/
theorem dispatch_acts_on_reassigned_job :
    (run step initial staleDispatch).jobs.map (fun row => (row.status, row.agentId)) =
        [(.assigned, some "b")] ∧
      (run step initial (staleDispatch ++ [.resume 0 (.failed "no token") 3])).jobs.map
        (fun row => (row.status, row.agentId)) = [(.queued, none)] ∧
      ¬ Along step Fenced initial (staleDispatch ++ [.resume 0 (.failed "no token") 3]) := by
  refine ⟨by decide, by decide, fun fenced => ?_⟩
  obtain ⟨job, frames, waiting, jobId⟩ : ∃ job frames,
      (run step initial staleDispatch).tasks[0]? =
        some (.dispatchToken 0 job "a" 0 :: frames) ∧ job.id = 1 := ⟨_, _, rfl, rfl⟩
  obtain ⟨⟨⟨row, member, -, -, owner⟩, -⟩, -⟩ :=
    (Along.append.mp fenced).2.1 0 _ 3 0 job "a" 0 frames rfl waiting
  have owners : ∀ row ∈ (run step initial staleDispatch).jobs,
    row.agentId = some "b" := by decide
  rw [owners row member] at owner
  exact absurd owner (by decide)

end Sample

end GitZero.ControlPlane
