import NfcPolling.Proofs.Service.ProcessSteps

/-! Frames and configuration do not interfere, although every step is given the whole
process, callbacks enter the service again and the levels decide what is written. What is
seen of the steps of one side stays the same when all steps of the other side are taken
out of a run. -/
namespace NfcPolling.SeparatePaths
open NfcPolling.Service Process Settings ProcessFrames ProcessSteps

variable [Dialect]

/-- What is seen of the kept steps of a run, one view for each of them. -/
def seen (kept : Session.Step → Bool) (view : Session.Outcome → α) (p : Process)
    (steps : List Session.Step) : List α :=
  ((steps.zip (p.run steps)).filter (kept ·.1)).map (view ·.2)

theorem seen_cons (kept : Session.Step → Bool) (view : Session.Outcome → α) (p : Process)
    (next : Session.Step) (rest : List Session.Step) :
    seen kept view p (next :: rest) =
      if kept next then view (p.step next).2 :: seen kept view (p.step next).1 rest
      else seen kept view (p.step next).1 rest := by
  rw [seen, Process.run, List.zip_cons_cons, List.filter_cons]
  split <;> rfl

/-- Kept steps depend on nothing but this part of a process: other steps leave it
alone, and from equal parts a kept step comes to equal parts and an equal view. -/
structure Decides (part : Process → σ) (kept : Session.Step → Bool)
    (view : Session.Outcome → α) : Prop where
  untouched : ∀ p next, Settled p → kept next = false → part (p.step next).1 = part p
  carried : ∀ p q next, Settled p → Settled q → kept next = true → part p = part q →
    part (p.step next).1 = part (q.step next).1
  viewed : ∀ p q next, Settled p → Settled q → kept next = true → part p = part q →
    view (p.step next).2 = view (q.step next).2

section Deletion
variable {part : Process → σ} {kept : Session.Step → Bool} {view : Session.Outcome → α}
  (decides : Decides part kept view) {p q : Process}
  (settled : Settled p) (other : Settled q) (same : part p = part q)
include decides settled other same

/-- Without the other steps every kept step is seen as before. -/
theorem seen_filter (steps : List Session.Step) :
    seen kept view p steps = (q.run (steps.filter kept)).map view := by
  -- Only the parts stay equal; the two runs are in different processes from here on.
  induction steps generalizing p q with
  | nil => rfl
  | cons next rest ih =>
    have still : Settled (p.step next).1 := (step_matches settled next).settled
    rw [seen_cons]
    cases keeps : kept next with
    | false =>
      rw [if_neg (by decide), List.filter_cons_of_neg (by simp [keeps])]
      exact ih still other ((decides.untouched p next settled keeps).trans same)
    | true =>
      rw [if_pos rfl, List.filter_cons_of_pos keeps, Process.run, List.map_cons,
        decides.viewed p q next settled other keeps same]
      exact congrArg _ (ih still (step_matches other next).settled
        (decides.carried p q next settled other keeps same))

theorem seen_alike (steps : List Session.Step) :
    seen kept view p steps = seen kept view q steps := by
  rw [seen_filter decides settled other same, seen_filter decides other other rfl]

end Deletion

/-- Steps about callbacks and frames, and the step that ends both sides. -/
def aboutFrames : Session.Step → Bool
  | .hub _ | .stop => true
  | .configuration _ => false

/-- Steps about files, configuration and levels, and the step that ends both sides. -/
def aboutConfiguration : Session.Step → Bool
  | .configuration _ | .stop => true
  | .hub _ => false

/-- The result of a step with what callbacks heard in it. -/
def heard (outcome : Session.Outcome) : Answer × List Report := (outcome.answer, outcome.reports)

/-- A frame leads to what it leads to for the slots and the registration; bindings, levels
and debugging are not looked at on the way and are left as they are. -/
theorem step_frames (p : Process) (step : Hub.Step) :
    let led := (hub p).step step
    hub (p.step (.hub step)).1 = led.value.1 ∧ heard (p.step (.hub step)).2 = led.value.2 ∧
      configuration (p.step (.hub step)).1 = configuration p := by
  rw [Process.step, act_follows step p]
  exact ⟨rfl, rfl, rfl⟩

theorem step_stop (p : Process) :
    let stopped := (p.step .stop).1
    hub stopped = (hub p).deregister ∧ configuration stopped = (configuration p).forget := by
  rw [Process.step, stop_done]
  exact ⟨rfl, rfl⟩

theorem heard_stop (p : Process) : heard (p.step .stop).2 = (.number 0, []) := by
  rw [Process.step, stop_done]
  rfl

theorem hub_decides : Decides hub aboutFrames heard where
  untouched p next settled other := by
    cases next with
    | hub step => cases other
    | configuration step => exact (act_configures settled step).hub
    | stop => cases other
  carried p q next _ _ own same := by
    cases next with
    | hub step => rw [(step_frames p step).1, (step_frames q step).1, same]
    | configuration step => cases own
    | stop => rw [(step_stop p).1, (step_stop q).1, same]
  viewed p q next _ _ own same := by
    cases next with
    | hub step => rw [(step_frames p step).2.1, (step_frames q step).2.1, same]
    | configuration step => cases own
    | stop => rw [heard_stop, heard_stop]

theorem configuration_decides : Decides configuration aboutConfiguration id where
  untouched p next settled other := by
    cases next with
    | hub step => exact (step_frames p step).2.2
    | configuration step => cases other
    | stop => cases other
  carried p q next settled other own same := by
    cases next with
    | hub step => cases own
    | configuration step =>
      have left := (act_configures settled step).after
      have right := (act_configures other step).after
      rw [same] at left
      exact left.trans right.symm
    | stop => rw [(step_stop p).2, (step_stop q).2, same]
  viewed p q next settled other own same := by
    have left := (step_matches settled next).outcome
    have right := (step_matches other next).outcome
    cases next with
    | hub step => cases own
    | configuration step => simp only [id, left, right, Session.step, session, same]
    | stop => simp only [id, left, right, Session.step, session, same]

/-- In every run of a process, from any moment on, taking out all steps about the
configuration leaves the result of each other step and all that callbacks hear in it;
taking out all steps about frames leaves each other step everything: its result, the
entries it writes, the levels and whether debugging is on. Stopping the service stays in
both. -/
theorem paths_do_not_interfere (surroundings : Surroundings) (earlier steps : List Session.Step) :
    let p := (fresh surroundings).after earlier
    seen aboutFrames heard p steps = (p.run (steps.filter aboutFrames)).map heard ∧
      seen aboutConfiguration id p steps = p.run (steps.filter aboutConfiguration) := by
  intro p
  have settled : Settled p := settled_after (settled_fresh surroundings) earlier
  constructor
  · exact seen_filter hub_decides settled settled rfl steps
  · exact (seen_filter configuration_decides settled settled rfl steps).trans (List.map_id _)

end NfcPolling.SeparatePaths
