import DefiBackend.Theory.Run
import Mathlib.Data.List.Flatten

/-! # The worker of the categorization service

The jobs of `apps/categorization` are taken from a queue, one at a time (`TasksProcessor`). A job
looks now and then whether it is to be aborted (`TasksAbortChecker`); the aggregators of protocols
run one after the other, while the service is marked as running (`AggregatorsService`).

* `Broken`: the service is marked as running, and no aggregator runs;
* `aggregators_run`: no more jobs are aborted than requested; the aggregators run in rounds, always
  in the same order; and when an aggregator fails or is aborted, none runs any more. -/

namespace DefiBackend
namespace Categorization
namespace TaskWorker
open Theory

/-- `ExternalCommand` and `InternalCommand`. -/
inductive Command
  | start_fetching
  | fetch_protocols
  | parse_protocols_main_page
  | parse_protocols_app_page
  | parse_protocols_docs_page
  | parse_protocols_github_page
  | crawl_html
  | fetch_abi
  | analyse_contracts
  | analyse_contracts_against_templates
  | contract_analyse
  | protocol_analyse
  deriving DecidableEq

inductive AggregatorServiceStatus
  | RUNNING
  | NOT_RUNNING
  deriving DecidableEq

/-- What the worker does. -/
inductive Active
  | idle
  /-- The commands that `start_fetching` has still to queue. -/
  | queueing (commands : List Command)
  /-- The aggregators from the one that runs. -/
  | aggregating (aggregators : List String)
  | working (command : Command)
  /-- The job has done all it has to do. -/
  | done
  deriving DecidableEq

/-- The worker, with the aggregators it has started and the number of the jobs that have been
aborted. -/
structure Worker where
  queue : List Command
  active : Active
  abortFlag : Bool
  serviceStatus : AggregatorServiceStatus
  started : List String
  aborted : Nat

inductive Action
  | queueTask (command : Command)
  | abortTask
  | take
  /-- `start_fetching` queues its next command. -/
  | queueNext
  /-- The aggregator that runs has finished. -/
  | aggregated
  /-- The job calls `ensureTaskNotAborted`. -/
  | check
  /-- So does a task that an aborted job has left behind. -/
  | stray
  | fail
  | complete
  deriving DecidableEq

/-- `AggregatorsService.aggregators`, by their names. -/
def aggregators : List String := ["DefiLama", "VfatTools", "multifarm.fi", "dappradar"]

/-- What `start_fetching` queues. -/
def fetching : List Command :=
  [.fetch_protocols, .parse_protocols_main_page, .parse_protocols_app_page,
    .parse_protocols_docs_page, .fetch_abi, .analyse_contracts_against_templates]

/-- The loop of `AggregatorsService.run`, where these aggregators are left. -/
def runFrom (w : Worker) : List String → Worker
  | [] => { w with serviceStatus := .NOT_RUNNING, active := .done }
  | name :: names =>
    { w with active := .aggregating (name :: names), started := w.started ++ [name] }

/-- `AggregatorsService.run`. -/
def runAggregators (w : Worker) : Worker :=
  match w.serviceStatus with
  | .NOT_RUNNING => runFrom { w with serviceStatus := .RUNNING } aggregators
  | .RUNNING => { w with active := .done }

/-- `TasksProcessor.process` begins. -/
def process (w : Worker) : Command → Worker
  | .start_fetching => { w with active := .queueing fetching }
  | .fetch_protocols => runAggregators w
  | command => { w with active := .working command }

/-- `ensureTaskNotAborted` in a job; the error is caught by `processWithAbort`. -/
def ensureTaskNotAborted (w : Worker) : Worker :=
  if w.abortFlag then { w with abortFlag := false, active := .idle, aborted := w.aborted + 1 }
  else w

def step (w : Worker) : Action → Option Worker
  | .queueTask command => some { w with queue := w.queue ++ [command] }
  | .abortTask => some { w with abortFlag := true }
  | .take =>
    match w.active, w.queue with
    | .idle, command :: queue => some (process { w with queue } command)
    | _, _ => none
  | .queueNext =>
    match w.active with
    | .queueing (command :: commands) =>
      some { w with queue := w.queue ++ [command], active := .queueing commands }
    | _ => none
  | .aggregated =>
    match w.active with
    | .aggregating (_ :: names) => some (runFrom w names)
    | _ => none
  | .check =>
    match w.active with
    | .aggregating _ | .working _ => some (ensureTaskNotAborted w)
    | _ => none
  | .stray => some { w with abortFlag := false }
  | .fail =>
    match w.active with
    | .queueing _ | .aggregating _ | .working _ => some { w with active := .idle }
    | _ => none
  | .complete =>
    match w.active with
    | .queueing [] | .working _ | .done => some { w with active := .idle }
    | _ => none

def init : Worker := ⟨[], .idle, false, .NOT_RUNNING, [], 0⟩

/-! ## What a step does -/

section
variable {w w' : Worker} {a : Action}

/-- What has to do with the aggregators stays, but that they may be left. -/
def Leaves (w w' : Worker) : Prop :=
  w'.serviceStatus = w.serviceStatus ∧ w'.started = w.started ∧
    (w'.active = w.active ∨ ∀ names, w'.active ≠ .aggregating names)

theorem leaves_process {queue : List Command} {command : Command}
    (hstatus : command = .fetch_protocols → w.serviceStatus = .RUNNING) :
    Leaves w (process { w with queue } command) := by
  cases command with
  | fetch_protocols =>
    have h : process { w with queue } .fetch_protocols = { w with queue, active := .done } := by
      rw [process, runAggregators, hstatus rfl]
    rw [h]
    exact ⟨rfl, rfl, .inr fun _ h => nomatch h⟩
  | _ => exact ⟨rfl, rfl, .inr fun _ h => nomatch h⟩

theorem leaves_ensureTaskNotAborted : Leaves w (ensureTaskNotAborted w) := by
  unfold ensureTaskNotAborted
  split
  · exact ⟨rfl, rfl, .inr fun _ h => nomatch h⟩
  · exact ⟨rfl, rfl, .inl rfl⟩

theorem step_fail (h : step w .fail = some w') : w' = { w with active := .idle } := by
  rw [step] at h
  split at h
  · exact (Option.some.inj h).symm
  · exact (Option.some.inj h).symm
  · exact (Option.some.inj h).symm
  · cases h

theorem step_complete (h : step w .complete = some w') : w' = { w with active := .idle } := by
  rw [step] at h
  split at h
  · exact (Option.some.inj h).symm
  · exact (Option.some.inj h).symm
  · exact (Option.some.inj h).symm
  · cases h

theorem step_check (h : step w .check = some w') : w' = ensureTaskNotAborted w := by
  rw [step] at h
  split at h
  · exact (Option.some.inj h).symm
  · exact (Option.some.inj h).symm
  · cases h

/-- A step that does not leave the aggregators as they are begins a round, or goes on with it. -/
theorem step_cases (h : step w a = some w') :
    Leaves w w' ∨
    (∃ queue, w.serviceStatus = .NOT_RUNNING ∧
      w' = runFrom { w with queue, serviceStatus := .RUNNING } aggregators) ∨
    ∃ name names, w.active = .aggregating (name :: names) ∧ w' = runFrom w names := by
  cases a with
  | queueTask command =>
    cases h
    exact .inl ⟨rfl, rfl, .inl rfl⟩
  | abortTask =>
    cases h
    exact .inl ⟨rfl, rfl, .inl rfl⟩
  | stray =>
    cases h
    exact .inl ⟨rfl, rfl, .inl rfl⟩
  | take =>
    rw [step] at h
    split at h
    · rename_i command queue _ _
      cases h
      by_cases hrun : command = .fetch_protocols ∧ w.serviceStatus = .NOT_RUNNING
      · obtain ⟨rfl, hnot⟩ := hrun
        refine .inr (.inl ⟨queue, hnot, ?_⟩)
        rw [process, runAggregators, hnot]
      · refine .inl (leaves_process fun hcommand => ?_)
        cases hstatus : w.serviceStatus with
        | RUNNING => rfl
        | NOT_RUNNING => exact absurd ⟨hcommand, hstatus⟩ hrun
    · cases h
  | queueNext =>
    rw [step] at h
    split at h
    · cases h
      exact .inl ⟨rfl, rfl, .inr fun _ h => nomatch h⟩
    · cases h
  | aggregated =>
    rw [step] at h
    split at h
    · rename_i name names hactive
      cases h
      exact .inr (.inr ⟨name, names, hactive, rfl⟩)
    · cases h
  | check =>
    rw [step_check h]
    exact .inl leaves_ensureTaskNotAborted
  | fail =>
    rw [step_fail h]
    exact .inl ⟨rfl, rfl, .inr fun _ h => nomatch h⟩
  | complete =>
    rw [step_complete h]
    exact .inl ⟨rfl, rfl, .inr fun _ h => nomatch h⟩

theorem runFrom_aborted (names : List String) :
    (runFrom w names).aborted = w.aborted ∧ (runFrom w names).abortFlag = w.abortFlag := by
  cases names with
  | nil => exact ⟨rfl, rfl⟩
  | cons name names => exact ⟨rfl, rfl⟩

theorem process_aborted (command : Command) :
    (process w command).aborted = w.aborted ∧ (process w command).abortFlag = w.abortFlag := by
  cases command with
  | fetch_protocols =>
    rw [process, runAggregators]
    split
    · exact runFrom_aborted _
    · exact ⟨rfl, rfl⟩
  | _ => exact ⟨rfl, rfl⟩

/-- Neither the flag nor the number of aborted jobs changes otherwise than by a check or a
request. -/
theorem step_unaborted (h : step w a = some w') (ha : a ≠ .abortTask) (hc : a ≠ .check)
    (hs : a ≠ .stray) : w'.aborted = w.aborted ∧ w'.abortFlag = w.abortFlag := by
  cases a with
  | queueTask command =>
    cases h
    exact ⟨rfl, rfl⟩
  | abortTask => exact absurd rfl ha
  | check => exact absurd rfl hc
  | stray => exact absurd rfl hs
  | take =>
    rw [step] at h
    split at h
    · cases h
      exact process_aborted _
    · cases h
  | queueNext =>
    rw [step] at h
    split at h
    · cases h
      exact ⟨rfl, rfl⟩
    · cases h
  | aggregated =>
    rw [step] at h
    split at h
    · cases h
      exact runFrom_aborted _
    · cases h
  | fail =>
    rw [step_fail h]
    exact ⟨rfl, rfl⟩
  | complete =>
    rw [step_complete h]
    exact ⟨rfl, rfl⟩

/-- Each job that is aborted takes a request away. -/
theorem step_aborted (h : step w a = some w') :
    w'.aborted + w'.abortFlag.toNat ≤
      w.aborted + w.abortFlag.toNat + if a = .abortTask then 1 else 0 := by
  by_cases ha : a = .abortTask
  · subst ha
    cases h
    rw [if_pos rfl]
    exact Nat.add_le_add_right (Nat.le_add_right ..) 1
  rw [if_neg ha, Nat.add_zero]
  by_cases hc : a = .check
  · subst hc
    rw [step_check h, ensureTaskNotAborted]
    split
    · rename_i hflag
      rw [hflag]
      rfl
    · rfl
  by_cases hs : a = .stray
  · subst hs
    cases h
    exact Nat.add_le_add_left (Nat.zero_le _) _
  · obtain ⟨haborted, hflag⟩ := step_unaborted h ha hc hs
    rw [haborted, hflag]

/-- No more jobs are aborted than it was requested. -/
theorem run_aborted {actions : List Action} (h : run step w actions = some w') :
    w'.aborted + w'.abortFlag.toNat ≤
      w.aborted + w.abortFlag.toNat + actions.count .abortTask := by
  induction actions generalizing w with
  | nil =>
    cases h
    rfl
  | cons a actions ih =>
    obtain ⟨w₁, hstep, hrest⟩ := Option.bind_eq_some_iff.mp h
    have hfirst := step_aborted hstep
    have hlater := ih hrest
    rw [List.count_cons]
    simp only [beq_iff_eq] at *
    omega

end

/-! ## Rounds of the aggregators -/

/-- The service is marked as running, and no aggregator runs. -/
def Broken (w : Worker) : Prop :=
  w.serviceStatus = .RUNNING ∧ ∀ names, w.active ≠ .aggregating names

/-- The aggregators have run in rounds, and the last round is over, under way or broken off. -/
inductive Rounds (w : Worker) : Prop
  | between (n : Nat) : w.serviceStatus = .NOT_RUNNING →
    (∀ names, w.active ≠ .aggregating names) →
    w.started = (List.replicate n aggregators).flatten → Rounds w
  | inside (n : Nat) (names : List String) (name : String) (rest : List String) :
    w.serviceStatus = .RUNNING → w.active = .aggregating (name :: rest) →
    aggregators = names ++ name :: rest →
    w.started = (List.replicate n aggregators).flatten ++ (names ++ [name]) → Rounds w
  | broken (n : Nat) (part : List String) : Broken w → part <+: aggregators →
    w.started = (List.replicate n aggregators).flatten ++ part → Rounds w

theorem Rounds.init : Rounds init := .between 0 rfl (fun _ h => nomatch h) rfl

section
variable {w w' : Worker} {a : Action}

theorem Broken.of_step (H : Broken w) (h : step w a = some w') :
    Broken w' ∧ w'.started = w.started := by
  obtain ⟨hstatus, hnone⟩ := H
  obtain ⟨hstatus', hstarted, hactive⟩ | ⟨queue, hnot, -⟩ | ⟨name, names, hactive, -⟩ :=
    step_cases h
  · refine ⟨⟨hstatus'.trans hstatus, ?_⟩, hstarted⟩
    obtain hactive | hactive := hactive
    · rw [hactive]
      exact hnone
    · exact hactive
  · cases hnot.symm.trans hstatus
  · exact absurd hactive (hnone _)

/-- A broken service stays so, and starts no aggregator any more. -/
theorem Broken.of_run {actions : List Action} (H : Broken w) (h : run step w actions = some w') :
    Broken w' ∧ w'.started = w.started :=
  (RunsUnder.of_run h).invariant (I := fun v => Broken v ∧ v.started = w.started)
    (fun ⟨hbroken, hstarted⟩ _ hstep =>
      ⟨(hbroken.of_step hstep).1, (hbroken.of_step hstep).2.trans hstarted⟩) ⟨H, rfl⟩

/-- The next aggregator of a round, or the end of the round. -/
theorem rounds_runFrom {n : Nat} {names rest : List String} (hstatus : w.serviceStatus = .RUNNING)
    (hnames : aggregators = names ++ rest)
    (hstarted : w.started = (List.replicate n aggregators).flatten ++ names) :
    Rounds (runFrom w rest) := by
  cases rest with
  | nil =>
    refine .between (n + 1) rfl (fun _ h => nomatch h) ?_
    rw [List.append_nil] at hnames
    rw [List.replicate_succ', List.flatten_append, List.flatten_singleton]
    exact hstarted.trans (congrArg _ hnames.symm)
  | cons name rest =>
    refine .inside n names name rest hstatus rfl hnames ?_
    rw [← List.append_assoc, ← hstarted]
    rfl

theorem Rounds.of_step (H : Rounds w) (h : step w a = some w') : Rounds w' := by
  obtain ⟨hstatus', hstarted', hactive⟩ | ⟨queue, hnot, rfl⟩ | ⟨name, names, hagg, rfl⟩ :=
    step_cases h
  · cases H with
    | between n hstatus hnone hstarted =>
      refine .between n (hstatus'.trans hstatus) ?_ (hstarted'.trans hstarted)
      obtain hactive | hactive := hactive
      · rw [hactive]
        exact hnone
      · exact hactive
    | inside n names name rest hstatus hagg hnames hstarted =>
      obtain hactive | hactive := hactive
      · exact .inside n names name rest (hstatus'.trans hstatus) (hactive.trans hagg) hnames
          (hstarted'.trans hstarted)
      · refine .broken n (names ++ [name]) ⟨hstatus'.trans hstatus, hactive⟩ ⟨rest, ?_⟩
          (hstarted'.trans hstarted)
        rw [hnames, List.append_assoc]
        rfl
    | broken n part hbroken hpart hstarted =>
      exact .broken n part (hbroken.of_step h).1 hpart (hstarted'.trans hstarted)
  · cases H with
    | between n hstatus hnone hstarted =>
      exact rounds_runFrom rfl rfl (hstarted.trans (List.append_nil _).symm)
    | inside n names name rest hstatus => cases hstatus.symm.trans hnot
    | broken n part hbroken => cases hbroken.1.symm.trans hnot
  · cases H with
    | between n hstatus hnone => exact absurd hagg (hnone _)
    | inside n pre name' rest hstatus hagg' hnames hstarted =>
      cases hagg'.symm.trans hagg
      refine rounds_runFrom hstatus ?_ hstarted
      rw [hnames, List.append_assoc]
      rfl
    | broken n part hbroken => exact absurd hagg (hbroken.2 _)

theorem Rounds.of_run {actions : List Action} (H : Rounds w) (h : run step w actions = some w') :
    Rounds w' :=
  (RunsUnder.of_run h).invariant (fun H _ hstep => H.of_step hstep) H

/-- The job of a round that is aborted or fails leaves the service broken. -/
theorem Rounds.breaks (H : Rounds w) {names : List String} (hagg : w.active = .aggregating names)
    (h : step w a = some w') (hidle : w'.active = .idle) :
    Broken w' ∧ w'.started = w.started := by
  have hrunning : w.serviceStatus = .RUNNING := by
    cases H with
    | between n hstatus hnone => exact absurd hagg (hnone names)
    | inside n names name rest hstatus => exact hstatus
    | broken n part hbroken => exact hbroken.1
  obtain ⟨hstatus, hstarted, -⟩ | ⟨queue, -, rfl⟩ | ⟨name, rest, -, rfl⟩ := step_cases h
  · refine ⟨⟨hstatus.trans hrunning, fun names hnames => ?_⟩, hstarted⟩
    cases hidle.symm.trans hnames
  · cases hidle
  · cases rest with
    | nil => cases hidle
    | cons name rest => cases hidle

/-- No more jobs are aborted than requested. The aggregators run in rounds, always in the same
order. When the job of a round ends before its last aggregator, the service stays marked as running,
and no aggregator runs any more. -/
theorem aggregators_run {actions : List Action} (h : run step init actions = some w) :
    w.aborted ≤ actions.count .abortTask ∧
      (∃ n part, part <+: aggregators ∧
        w.started = (List.replicate n aggregators).flatten ++ part) ∧
      ∀ before a after w₀ w₁ names, actions = before ++ a :: after →
        run step init before = some w₀ → w₀.active = .aggregating names →
        step w₀ a = some w₁ → w₁.active = .idle →
          w.serviceStatus = .RUNNING ∧ w.started = w₀.started := by
  refine ⟨?_, ?_, ?_⟩
  · have hcount := run_aborted h
    exact Nat.le_trans (Nat.le_add_right _ _) (hcount.trans (Nat.le_of_eq (Nat.zero_add _)))
  · cases Rounds.init.of_run h with
    | between n _ _ hstarted =>
      exact ⟨n, [], List.nil_prefix, hstarted.trans (List.append_nil _).symm⟩
    | inside n names name rest _ _ hnames hstarted =>
      refine ⟨n, names ++ [name], ⟨rest, ?_⟩, hstarted⟩
      rw [hnames, List.append_assoc]
      rfl
    | broken n part _ hpart hstarted => exact ⟨n, part, hpart, hstarted⟩
  · intro before a after w₀ w₁ names hsplit hbefore hagg hstep hidle
    subst hsplit
    rw [run_of_append, hbefore, Option.bind_some, run_cons, hstep, Option.bind_some] at h
    obtain ⟨hbroken, hstarted⟩ := (Rounds.init.of_run hbefore).breaks hagg hstep hidle
    obtain ⟨hbroken', hstarted'⟩ := hbroken.of_run h
    exact ⟨hbroken'.1, hstarted'.trans hstarted⟩

end

/-- Two rounds are asked for, and the first one is aborted. -/
def abortedRound : List Action :=
  [.queueTask .fetch_protocols, .queueTask .fetch_protocols, .take, .aggregated, .abortTask, .check,
    .take, .complete]

theorem aggregators_run_abortedRound : ∃ w, run step init abortedRound = some w ∧
    w.serviceStatus = .RUNNING ∧ w.started = ["DefiLama", "VfatTools"] ∧ w.aborted ≤ 1 := by
  have hrun : run step init abortedRound =
      some ⟨[], .idle, false, .RUNNING, ["DefiLama", "VfatTools"], 1⟩ := rfl
  have hbefore : run step init (abortedRound.take 5) = some
      ⟨[.fetch_protocols], .aggregating ["VfatTools", "multifarm.fi", "dappradar"], true, .RUNNING,
        ["DefiLama", "VfatTools"], 0⟩ := rfl
  obtain ⟨haborted, -, hover⟩ := aggregators_run hrun
  obtain ⟨hstatus, hstarted⟩ := hover _ .check _ _ _ _ rfl hbefore rfl rfl rfl
  exact ⟨_, hrun, hstatus, hstarted, haborted⟩

end TaskWorker
end Categorization
end DefiBackend
