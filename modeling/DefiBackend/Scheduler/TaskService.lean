import DefiBackend.Common.CacheKey
import DefiBackend.Theory.Run
import Mathlib.Data.List.Range
import Mathlib.Logic.Function.Basic

/-! # Scheduled tasks

`task.service.ts` and `cron.service.ts`: tasks are rows of a table, and each active one has a cron
job under its name. Requests that store, change and delete tasks await the database, so that several
of them may be under way.

* `bootstrap`, `step`: the start of the service and the awaited steps of its requests;
* `jobs_mirror`: a task that no request is changing has a job exactly if it is active, and that job
  is for what is stored, if its requests come one after another, it was active when it was stored
  and its crons can be read. -/

namespace DefiBackend
namespace Scheduler
open Theory

/-! ## Data -/

structure TaskInterface where
  id : Nat
  cron : String
  endpoint : String
  method : String
  isActive : Bool
  deriving DecidableEq

structure TaskCreateDto where
  endpoint : String
  cron : String
  method : Option String
  isActive : Option Bool
  deriving DecidableEq

structure TaskUpdateDto where
  endpoint : Option String
  cron : Option String
  method : Option String
  isActive : Option Bool
  deriving DecidableEq

/-- The row for a new task, with the defaults of the columns. -/
def TaskCreateDto.toTask (body : TaskCreateDto) (id : Nat) : TaskInterface :=
  ⟨id, body.cron, body.endpoint, body.method.getD "GET", body.isActive.getD true⟩

def TaskUpdateDto.apply (body : TaskUpdateDto) (task : TaskInterface) : TaskInterface where
  id := task.id
  cron := body.cron.getD task.cron
  endpoint := body.endpoint.getD task.endpoint
  method := body.method.getD task.method
  isActive := body.isActive.getD task.isActive

/-- The table `tasks`. Its serial has given no number from `nextId` on. -/
structure Tasks where
  row : Nat → Option TaskInterface
  nextId : Nat
  key : ∀ id task, row id = some task → task.id = id
  fresh : ∀ id, nextId ≤ id → row id = none

namespace Tasks
variable (tasks : Tasks)

def insert (body : TaskCreateDto) : Tasks where
  row := Function.update tasks.row tasks.nextId (some (body.toTask tasks.nextId))
  nextId := tasks.nextId + 1
  key id task h := by
    by_cases hid : id = tasks.nextId
    · subst hid
      rw [Function.update_self, Option.some.injEq] at h
      rw [← h]
      rfl
    · rw [Function.update_of_ne hid] at h
      exact tasks.key id task h
  fresh id hid := by
    rw [Function.update_of_ne (by omega)]
    exact tasks.fresh id (by omega)

def update (id : Nat) (body : TaskUpdateDto) : Tasks where
  row := Function.update tasks.row id ((tasks.row id).map body.apply)
  nextId := tasks.nextId
  key i task h := by
    by_cases hid : i = id
    · subst hid
      rw [Function.update_self] at h
      obtain ⟨old, hold, rfl⟩ := Option.map_eq_some_iff.mp h
      exact tasks.key i old hold
    · rw [Function.update_of_ne hid] at h
      exact tasks.key i task h
  fresh i hi := by
    by_cases hid : i = id
    · subst hid
      rw [Function.update_self, tasks.fresh i hi]
      rfl
    · rw [Function.update_of_ne hid]
      exact tasks.fresh i hi

def delete (id : Nat) : Tasks where
  row := Function.update tasks.row id none
  nextId := tasks.nextId
  key i task h := by
    by_cases hid : i = id
    · subst hid
      rw [Function.update_self] at h
      cases h
    · rw [Function.update_of_ne hid] at h
      exact tasks.key i task h
  fresh i hi := by
    by_cases hid : i = id
    · subst hid
      exact Function.update_self ..
    · rw [Function.update_of_ne hid]
      exact tasks.fresh i hi

/-- `find({ where: { isActive: true } })`. -/
def active : List TaskInterface :=
  ((List.range tasks.nextId).filterMap tasks.row).filter (·.isActive)

end Tasks

/-! ## Jobs -/

/-- A cron, with the request that is made at its times. -/
structure CronJob where
  cron : String
  method : String
  url : String
  deriving DecidableEq

/-- `new CronJob(task.cron, () => this.execute(task))`. -/
def CronJob.ofTask (task : TaskInterface) : CronJob := ⟨task.cron, task.method, task.endpoint⟩

def jobName (id : Nat) : String := "scheduled_task_" ++ toString id

def getTaskJobName (task : TaskInterface) : String := jobName task.id

theorem jobName_inj : jobName m = jobName n ↔ m = n := by
  refine ⟨fun h => ?_, congrArg _⟩
  have hkey := congrArg (· ++ "_" ++ "") ((String.append_right_inj _).mp h)
  exact (keyField_inj.mp hkey).1

/-- `schedulerRegistry`: the jobs by their names. -/
abbrev CronJobs := String → Option CronJob

section
variable (validCron : String → Bool) (cronJobs : CronJobs) (task : TaskInterface)

/-- `start`. It throws if the cron cannot be read, or if there is a job with that name. -/
def start : Option CronJobs :=
  if validCron task.cron then
    match cronJobs (getTaskJobName task) with
    | some _ => none
    | none => some (Function.update cronJobs (getTaskJobName task) (some (.ofTask task)))
  else none

def «exists» : Bool := (cronJobs (getTaskJobName task)).isSome

def stop : CronJobs :=
  if «exists» cronJobs task then Function.update cronJobs (getTaskJobName task) none else cronJobs

end

/-! ## Requests -/

/-- A request, by the database operation it awaits (on the task that is given first), or with the
rows it has got: `store`, then `update`, then `destroy`. -/
inductive Call
  | idle
  | inserting (body : TaskCreateDto)
  | inserted (id : Nat)
  | stored (id : Nat) (task : Option TaskInterface)
  | finding (id : Nat) (body : TaskUpdateDto)
  | updating (id : Nat) (body : TaskUpdateDto) (preUpdate : Option TaskInterface)
  | updated (id : Nat) (preUpdate : Option TaskInterface)
  | refreshed (id : Nat) (preUpdate task : Option TaskInterface)
  | findingDestroyed (id : Nat)
  | deleting (id : Nat) (task : Option TaskInterface)
  | deleted (id : Nat) (task : Option TaskInterface)
  | returned
  | rejected

structure State where
  tasks : Tasks
  cronJobs : CronJobs
  calls : Nat → Call

inductive Action
  | store (n : Nat) (body : TaskCreateDto)
  | update (n : Nat) (id : Nat) (body : TaskUpdateDto)
  | destroy (n : Nat) (id : Nat)
  | database (n : Nat)
  | jobs (n : Nat)
  | fail (n : Nat)

namespace State
variable (s : State)

def setCall (n : Nat) (call : Call) : State := { s with calls := Function.update s.calls n call }

/-- The jobs after a request, and how it ends. -/
def endCall (n : Nat) (result : CronJobs × Call) : State :=
  { s with cronJobs := result.1 }.setCall n result.2

end State

section
variable (validCron : String → Bool) (cronJobs : CronJobs)

/-- The end of `store`. -/
def startStored : Option TaskInterface → CronJobs × Call
  | some task =>
    match start validCron cronJobs task with
    | some cronJobs => (cronJobs, .returned)
    | none => (cronJobs, .rejected)
  | none => (cronJobs, .rejected)

/-- The end of `update`. -/
def restartUpdated : Option TaskInterface → Option TaskInterface → CronJobs × Call
  | some preUpdate, some task =>
    let cronJobs := if preUpdate.isActive then stop cronJobs task else cronJobs
    if task.isActive then
      match start validCron cronJobs task with
      | some cronJobs => (cronJobs, .returned)
      | none => (cronJobs, .rejected)
    else (cronJobs, .returned)
  | _, _ => (cronJobs, .rejected)

/-- The end of `destroy`. -/
def stopDestroyed : Option TaskInterface → CronJobs × Call
  | some task => (stop cronJobs task, .returned)
  | none => (cronJobs, .rejected)

/-- `onApplicationBootstrap`. -/
def bootstrap (tasks : Tasks) : Option State :=
  (tasks.active.foldlM (start validCron) fun _ => none).map fun cronJobs =>
    ⟨tasks, cronJobs, fun _ => .idle⟩

end

/-- One step: a request comes, the database carries out what one awaits or fails to, or one has
its last row and sets the jobs. -/
def step (validCron : String → Bool) (s : State) : Action → Option State
  | .store n body =>
    match s.calls n with
    | .idle => some (s.setCall n (.inserting body))
    | _ => none
  | .update n id body =>
    match s.calls n with
    | .idle => some (s.setCall n (.finding id body))
    | _ => none
  | .destroy n id =>
    match s.calls n with
    | .idle => some (s.setCall n (.findingDestroyed id))
    | _ => none
  | .database n =>
    match s.calls n with
    | .inserting body =>
      some ({ s with tasks := s.tasks.insert body }.setCall n (.inserted s.tasks.nextId))
    | .inserted id => some (s.setCall n (.stored id (s.tasks.row id)))
    | .finding id body => some (s.setCall n (.updating id body (s.tasks.row id)))
    | .updating id body preUpdate =>
      some ({ s with tasks := s.tasks.update id body }.setCall n (.updated id preUpdate))
    | .updated id preUpdate => some (s.setCall n (.refreshed id preUpdate (s.tasks.row id)))
    | .findingDestroyed id => some (s.setCall n (.deleting id (s.tasks.row id)))
    | .deleting id task =>
      some ({ s with tasks := s.tasks.delete id }.setCall n (.deleted id task))
    | _ => none
  | .jobs n =>
    match s.calls n with
    | .stored _ task => some (s.endCall n (startStored validCron s.cronJobs task))
    | .refreshed _ preUpdate task =>
      some (s.endCall n (restartUpdated validCron s.cronJobs preUpdate task))
    | .deleted _ task => some (s.endCall n (stopDestroyed s.cronJobs task))
    | _ => none
  | .fail n =>
    match s.calls n with
    | .inserting _ | .inserted _ | .finding .. | .updating .. | .updated .. | .findingDestroyed _
    | .deleting .. => some (s.setCall n .rejected)
    | _ => none

/-! ## Jobs of tasks -/

/-- The job that a task has to have. -/
def activeJob (task : Option TaskInterface) : Option CronJob :=
  task.bind fun task => if task.isActive then some (.ofTask task) else none

/-- The task that a request is for. -/
def Call.task : Call → Option Nat
  | inserted id | stored id _ | finding id _ | updating id _ _ | updated id _ | refreshed id _ _
  | findingDestroyed id | deleting id _ | deleted id _ => some id
  | idle | inserting _ | returned | rejected => none

/-- No request is for a task. -/
def Alone (s : State) (id : Nat) : Prop := ∀ n, (s.calls n).task ≠ some id

/-- Requests for a task come while there is no other one for it, it is active when it is stored, its
crons can be read, and no request for it fails between its change of the table and its change of the
jobs. -/
def Orderly (validCron : String → Bool) (id : Nat) (s : State) : Action → Prop
  | .update _ i body => i = id → Alone s id ∧ ∀ cron ∈ body.cron, validCron cron
  | .destroy _ i => i = id → Alone s id
  | .database n => ∀ body, s.calls n = .inserting body → s.tasks.nextId = id →
      Alone s id ∧ body.isActive ≠ some false ∧ validCron body.cron
  | .fail n => s.calls n ≠ .inserted id ∧ ∀ preUpdate, s.calls n ≠ .updated id preUpdate
  | _ => True

/-- A row that a request has got is that of its task. -/
def Call.Keyed : Call → Prop
  | stored id task | refreshed id _ task | deleting id task | deleted id task =>
    ∀ t, task = some t → t.id = id
  | _ => True

/-- What a request for a task knows, beside the row and the job of the task. -/
def Agrees (validCron : String → Bool) (id : Nat) (row : Option TaskInterface) (job : Option CronJob) :
    Call → Prop
  | .inserted i => i = id → ∃ task, row = some task ∧ task.isActive ∧ job = none
  | .stored i task => i = id → ∃ t, task = some t ∧ row = some t ∧ t.isActive ∧ job = none
  | .finding i body => i = id → job = activeJob row ∧ ∀ cron ∈ body.cron, validCron cron
  | .updating i body preUpdate =>
    i = id → job = activeJob row ∧ (∀ cron ∈ body.cron, validCron cron) ∧ preUpdate = row
  | .updated i preUpdate => i = id → job = activeJob preUpdate ∧ row.isSome = preUpdate.isSome
  | .refreshed i preUpdate task =>
    i = id → job = activeJob preUpdate ∧ task.isSome = preUpdate.isSome ∧ task = row
  | .findingDestroyed i => i = id → job = activeJob row
  | .deleting i task => i = id → job = activeJob row ∧ task = row
  | .deleted i task => i = id → job = activeJob task ∧ row = none
  | _ => True

/-- The job of a task is the one that its row asks for. -/
def Mirrors (s : State) (id : Nat) : Prop := s.cronJobs (jobName id) = activeJob (s.tasks.row id)

/-- At most one request is for the task, and it knows the row and the job. Without one they agree. -/
structure Inv (validCron : String → Bool) (id : Nat) (s : State) : Prop where
  keyed : ∀ n, (s.calls n).Keyed
  one : ∀ m n, (s.calls m).task = some id → (s.calls n).task = some id → m = n
  agrees : ∀ n, Agrees validCron id (s.tasks.row id) (s.cronJobs (jobName id)) (s.calls n)
  mirrors : Alone s id → Mirrors s id
  valid : ∀ task, s.tasks.row id = some task → validCron task.cron

section
variable {validCron : String → Bool} {id n : Nat} {s s' : State} {call : Call} {a : Action}
  {row : Option TaskInterface} {job : Option CronJob}

/-- A request for another task knows nothing of it. -/
theorem Agrees.of_ne (h : call.task ≠ some id) : Agrees validCron id row job call := by
  cases call with
  | inserted | stored | finding | updating | updated | refreshed | findingDestroyed | deleting
  | deleted =>
    rintro rfl
    exact absurd rfl h
  | idle | inserting | returned | rejected => trivial

/-- A step of a request for something else. -/
theorem Inv.other (H : Inv validCron id s) (hrow : s'.tasks.row id = s.tasks.row id)
    (hjob : s'.cronJobs (jobName id) = s.cronJobs (jobName id))
    (hcalls : s'.calls = Function.update s.calls n call) (hold : (s.calls n).task ≠ some id)
    (hnew : call.task ≠ some id) (hkeyed : call.Keyed) : Inv validCron id s' := by
  have hsame : ∀ m, (s'.calls m).task = some id ↔ (s.calls m).task = some id := by
    intro m
    rw [hcalls]
    by_cases hm : m = n
    · subst hm
      rw [Function.update_self]
      exact iff_of_false hnew hold
    · rw [Function.update_of_ne hm]
  refine ⟨fun m => ?_, fun m m' hm hm' => H.one m m' ((hsame m).mp hm) ((hsame m').mp hm'),
    fun m => ?_, fun halone => ?_, ?_⟩
  · rw [hcalls]
    by_cases hm : m = n
    · subst hm
      rw [Function.update_self]
      exact hkeyed
    · rw [Function.update_of_ne hm]
      exact H.keyed m
  · rw [hcalls, hrow, hjob]
    by_cases hm : m = n
    · subst hm
      rw [Function.update_self]
      exact .of_ne hnew
    · rw [Function.update_of_ne hm]
      exact H.agrees m
  · rw [Mirrors, hrow, hjob]
    exact H.mirrors fun m hm => halone m ((hsame m).mpr hm)
  · rw [hrow]
    exact H.valid

/-- A step of the only request for the task. -/
theorem Inv.only (H : Inv validCron id s) (halone : ∀ m, m ≠ n → (s.calls m).task ≠ some id)
    (hcalls : s'.calls = Function.update s.calls n call)
    (hagrees : Agrees validCron id (s'.tasks.row id) (s'.cronJobs (jobName id)) call)
    (hmirrors : call.task ≠ some id → Mirrors s' id)
    (hvalid : ∀ task, s'.tasks.row id = some task → validCron task.cron) (hkeyed : call.Keyed) :
    Inv validCron id s' := by
  have hothers : ∀ m, m ≠ n → s'.calls m = s.calls m := by
    intro m hm
    rw [hcalls, Function.update_of_ne hm]
  have hcall : s'.calls n = call := by rw [hcalls, Function.update_self]
  refine ⟨fun m => ?_, fun m m' hm hm' => ?_, fun m => ?_, fun hnone => ?_, hvalid⟩
  · by_cases hm : m = n
    · rwa [hm, hcall]
    · rw [hothers m hm]
      exact H.keyed m
  · have honly : ∀ k, (s'.calls k).task = some id → k = n := by
      intro k hk
      by_contra hne
      rw [hothers k hne] at hk
      exact halone k hne hk
    rw [honly m hm, honly m' hm']
  · by_cases hm : m = n
    · rwa [hm, hcall]
    · rw [hothers m hm]
      exact .of_ne (halone m hm)
  · exact hmirrors (hcall ▸ hnone n)

theorem Inv.alone (H : Inv validCron id s) (h : (s.calls n).task = some id) (m : Nat) (hm : m ≠ n) :
    (s.calls m).task ≠ some id := fun hother => hm (H.one m n hother h)

end

/-! ## What the ends of requests do -/

section
variable {validCron : String → Bool} {cronJobs cronJobs' : CronJobs} {id n : Nat}
  {t : TaskInterface} {task preUpdate : Option TaskInterface}

theorem stop_of_ne (h : t.id ≠ id) : stop cronJobs t (jobName id) = cronJobs (jobName id) := by
  unfold stop
  split
  · exact Function.update_of_ne (fun he => h (jobName_inj.mp he).symm) ..
  · rfl

theorem stop_self : stop cronJobs t (jobName t.id) = none := by
  unfold stop
  split
  · exact Function.update_self ..
  · next h => exact Option.not_isSome_iff_eq_none.mp h

theorem start_of_ne (hstart : start validCron cronJobs t = some cronJobs') (h : t.id ≠ id) :
    cronJobs' (jobName id) = cronJobs (jobName id) := by
  unfold start at hstart
  split at hstart
  · split at hstart
    · cases hstart
    · cases hstart
      exact Function.update_of_ne (fun he => h (jobName_inj.mp he).symm) ..
  · cases hstart

theorem start_self (hvalid : validCron t.cron) (hnone : cronJobs (jobName t.id) = none) :
    ∃ cronJobs', start validCron cronJobs t = some cronJobs' ∧
      cronJobs' (jobName t.id) = some (.ofTask t) := by
  refine ⟨Function.update cronJobs (jobName t.id) (some (.ofTask t)), ?_, Function.update_self ..⟩
  rw [start, if_pos hvalid, getTaskJobName, hnone]

/-- A job is started for the task if it is active. -/
theorem start_activeJob (hvalid : validCron t.cron) (hnone : cronJobs (jobName t.id) = none) :
    (if t.isActive then
      match start validCron cronJobs t with
      | some cronJobs => (cronJobs, Call.returned)
      | none => (cronJobs, .rejected)
    else (cronJobs, .returned)).1 (jobName t.id) = activeJob (some t) := by
  obtain ⟨cronJobs', hstart, hself⟩ := start_self hvalid hnone
  by_cases hactive : t.isActive
  · rw [if_pos hactive, hstart]
    exact hself.trans (if_pos hactive).symm
  · rw [if_neg hactive]
    exact hnone.trans (if_neg hactive).symm

theorem startStored_of_ne (h : ∀ t, task = some t → t.id ≠ id) :
    (startStored validCron cronJobs task).1 (jobName id) = cronJobs (jobName id) := by
  cases task with
  | none => rfl
  | some t =>
    rw [startStored]
    split
    · next hstart => exact start_of_ne hstart (h t rfl)
    · rfl

theorem startStored_self (hvalid : validCron t.cron) (hactive : t.isActive)
    (hnone : cronJobs (jobName t.id) = none) :
    (startStored validCron cronJobs (some t)).1 (jobName t.id) = activeJob (some t) := by
  rw [← start_activeJob hvalid hnone, if_pos hactive]
  rfl

theorem restartUpdated_of_ne (h : ∀ t, task = some t → t.id ≠ id) :
    (restartUpdated validCron cronJobs preUpdate task).1 (jobName id) = cronJobs (jobName id) := by
  cases preUpdate with
  | none => rfl
  | some p =>
    cases task with
    | none => rfl
    | some t =>
      have hstop : (if p.isActive then stop cronJobs t else cronJobs) (jobName id) =
          cronJobs (jobName id) := by
        split
        · exact stop_of_ne (h t rfl)
        · rfl
      rw [← hstop, restartUpdated]
      split
      · split
        · next hstart => exact start_of_ne hstart (h t rfl)
        · rfl
      · rfl

theorem restartUpdated_self (hkey : ∀ t, task = some t → t.id = id)
    (hvalid : ∀ t, task = some t → validCron t.cron) (hsome : task.isSome = preUpdate.isSome)
    (hjob : cronJobs (jobName id) = activeJob preUpdate) :
    (restartUpdated validCron cronJobs preUpdate task).1 (jobName id) = activeJob task := by
  cases preUpdate with
  | none =>
    obtain rfl : task = none := by simpa using hsome
    exact hjob
  | some p =>
    obtain ⟨t, rfl⟩ := Option.isSome_iff_exists.mp (hsome.trans rfl)
    obtain rfl := hkey t rfl
    have hnone : (if p.isActive then stop cronJobs t else cronJobs) (jobName t.id) = none := by
      by_cases hactive : p.isActive
      · rw [if_pos hactive]
        exact stop_self
      · rw [if_neg hactive, hjob]
        exact if_neg hactive
    exact start_activeJob (hvalid t rfl) hnone

theorem stopDestroyed_of_ne (h : ∀ t, task = some t → t.id ≠ id) :
    (stopDestroyed cronJobs task).1 (jobName id) = cronJobs (jobName id) := by
  cases task with
  | none => rfl
  | some t => exact stop_of_ne (h t rfl)

theorem stopDestroyed_self (hkey : ∀ t, task = some t → t.id = id)
    (hjob : cronJobs (jobName id) = activeJob task) :
    (stopDestroyed cronJobs task).1 (jobName id) = none := by
  cases task with
  | none => exact hjob
  | some t =>
    obtain rfl := hkey t rfl
    exact stop_self

/-! A request that has set the jobs is over. -/

theorem startStored_over (validCron : String → Bool) (cronJobs : CronJobs)
    (task : Option TaskInterface) : (startStored validCron cronJobs task).2 = .returned ∨
      (startStored validCron cronJobs task).2 = .rejected := by
  cases task with
  | none => exact .inr rfl
  | some t =>
    rw [startStored]
    split
    · exact .inl rfl
    · exact .inr rfl

theorem restartUpdated_over (validCron : String → Bool) (cronJobs : CronJobs)
    (preUpdate task : Option TaskInterface) :
    (restartUpdated validCron cronJobs preUpdate task).2 = .returned ∨
      (restartUpdated validCron cronJobs preUpdate task).2 = .rejected := by
  cases preUpdate with
  | none => exact .inr rfl
  | some p =>
    cases task with
    | none => exact .inr rfl
    | some t =>
      rw [restartUpdated]
      split
      · split
        · exact .inl rfl
        · exact .inr rfl
      · exact .inl rfl

theorem stopDestroyed_over (cronJobs : CronJobs) (task : Option TaskInterface) :
    (stopDestroyed cronJobs task).2 = .returned ∨ (stopDestroyed cronJobs task).2 = .rejected := by
  cases task with
  | none => exact .inr rfl
  | some t => exact .inl rfl

end

/-! ## Steps -/

section
variable {validCron : String → Bool} {id n i : Nat} {s s' : State} {a : Action} {call : Call}
  {body : TaskUpdateDto} {preUpdate task : Option TaskInterface}

theorem task_ne (h : s.calls n = call) (hi : call.task ≠ some id) : (s.calls n).task ≠ some id := by
  rwa [h]

/-- A request asks for one row more, and nothing else changes. -/
theorem Inv.reads {call' : Call} (H : Inv validCron id s) (h : s.calls n = call)
    (htask : call'.task = call.task) (hkeyed : call'.Keyed)
    (hagrees : Agrees validCron id (s.tasks.row id) (s.cronJobs (jobName id)) call →
      Agrees validCron id (s.tasks.row id) (s.cronJobs (jobName id)) call') :
    Inv validCron id (s.setCall n call') := by
  by_cases hi : call.task = some id
  · refine H.only (H.alone (h ▸ hi)) rfl (hagrees (h ▸ H.agrees n)) ?_ H.valid hkeyed
    exact fun hne => absurd (htask.trans hi) hne
  · exact H.other rfl rfl rfl (task_ne h hi) (htask ▸ hi) hkeyed

theorem Inv.store (H : Inv validCron id s) (h : s.calls n = .idle) (body : TaskCreateDto) :
    Inv validCron id (s.setCall n (.inserting body)) :=
  H.other rfl rfl rfl (task_ne h nofun) nofun trivial

theorem Inv.update (H : Inv validCron id s) (h : s.calls n = .idle)
    (horderly : i = id → Alone s id ∧ ∀ cron ∈ body.cron, validCron cron) :
    Inv validCron id (s.setCall n (.finding i body)) := by
  by_cases hi : i = id
  · obtain ⟨halone, hcron⟩ := horderly hi
    exact H.only (fun m _ => halone m) rfl (fun _ => ⟨H.mirrors halone, hcron⟩)
      (fun _ => H.mirrors halone) H.valid trivial
  · exact H.other rfl rfl rfl (task_ne h nofun) (fun he => hi (Option.some.inj he)) trivial

theorem Inv.destroy (H : Inv validCron id s) (h : s.calls n = .idle)
    (horderly : i = id → Alone s id) : Inv validCron id (s.setCall n (.findingDestroyed i)) := by
  by_cases hi : i = id
  · have halone := horderly hi
    exact H.only (fun m _ => halone m) rfl (fun _ => H.mirrors halone) (fun _ => H.mirrors halone)
      H.valid trivial
  · exact H.other rfl rfl rfl (task_ne h nofun) (fun he => hi (Option.some.inj he)) trivial

theorem Inv.insert {body : TaskCreateDto} (H : Inv validCron id s) (h : s.calls n = .inserting body)
    (horderly : s.tasks.nextId = id → Alone s id ∧ body.isActive ≠ some false ∧ validCron body.cron) :
    Inv validCron id
      ({ s with tasks := s.tasks.insert body }.setCall n (.inserted s.tasks.nextId)) := by
  by_cases hi : s.tasks.nextId = id
  · obtain ⟨halone, hactive, hcron⟩ := horderly hi
    have hrow : (s.tasks.insert body).row id = some (body.toTask id) := by
      subst hi
      exact Function.update_self ..
    have hnone : s.cronJobs (jobName id) = none := by
      rw [H.mirrors halone, s.tasks.fresh id hi.le]
      rfl
    refine H.only (fun m _ => halone m) rfl (fun _ => ⟨body.toTask id, hrow, ?_, hnone⟩)
      (fun hne => absurd (congrArg some hi) hne) (fun task htask => ?_) trivial
    · cases hbody : body.isActive with
      | none => exact congrArg (·.getD true) hbody
      | some b =>
        cases b with
        | false => exact absurd hbody hactive
        | true => exact congrArg (·.getD true) hbody
    · obtain rfl := Option.some.inj (hrow.symm.trans htask)
      exact hcron
  · exact H.other (Function.update_of_ne (Ne.symm hi) ..) rfl rfl (task_ne h nofun)
      (fun he => hi (Option.some.inj he)) trivial

theorem Inv.updateRow (H : Inv validCron id s) (h : s.calls n = .updating i body preUpdate) :
    Inv validCron id ({ s with tasks := s.tasks.update i body }.setCall n (.updated i preUpdate)) := by
  by_cases hi : i = id
  · subst hi
    have hagrees := H.agrees n
    rw [h] at hagrees
    obtain ⟨hjob, hcron, rfl⟩ := hagrees rfl
    have hrow : (s.tasks.update i body).row i = (s.tasks.row i).map body.apply :=
      Function.update_self ..
    refine H.only (H.alone (congrArg Call.task h)) rfl (fun _ => ⟨hjob, ?_⟩)
      (fun hne => absurd rfl hne) (fun task htask => ?_) trivial
    · exact (congrArg Option.isSome hrow).trans Option.isSome_map
    · obtain ⟨old, hold, rfl⟩ := Option.map_eq_some_iff.mp (hrow.symm.trans htask)
      cases hnew : body.cron with
      | none => exact (congrArg (validCron <| ·.getD old.cron) hnew).trans (H.valid old hold)
      | some cron => exact (congrArg (validCron <| ·.getD old.cron) hnew).trans (hcron cron hnew)
  · have hne : ¬ (some i : Option Nat) = some id := fun he => hi (Option.some.inj he)
    exact H.other (Function.update_of_ne (Ne.symm hi) ..) rfl rfl (task_ne h hne) hne trivial

theorem Inv.deleteRow (H : Inv validCron id s) (h : s.calls n = .deleting i task) :
    Inv validCron id ({ s with tasks := s.tasks.delete i }.setCall n (.deleted i task)) := by
  have hkeyed : Call.Keyed (.deleted i task) := by
    have := H.keyed n
    rwa [h] at this
  by_cases hi : i = id
  · subst hi
    have hagrees := H.agrees n
    rw [h] at hagrees
    obtain ⟨hjob, rfl⟩ := hagrees rfl
    have hrow : (s.tasks.delete i).row i = none := Function.update_self ..
    refine H.only (H.alone (congrArg Call.task h)) rfl (fun _ => ⟨hjob, hrow⟩)
      (fun hne => absurd rfl hne) (fun task htask => ?_) hkeyed
    cases hrow.symm.trans htask
  · have hne : ¬ (some i : Option Nat) = some id := fun he => hi (Option.some.inj he)
    exact H.other (Function.update_of_ne (Ne.symm hi) ..) rfl rfl (task_ne h hne) hne hkeyed

/-- A request sets the jobs and is over. -/
theorem Inv.endCall {result : CronJobs × Call} (H : Inv validCron id s) (h : s.calls n = call)
    (hover : result.2 = .returned ∨ result.2 = .rejected) (htask : call.task = some i)
    (hother : i ≠ id → result.1 (jobName id) = s.cronJobs (jobName id))
    (hown : i = id → Agrees validCron id (s.tasks.row id) (s.cronJobs (jobName id)) call →
      result.1 (jobName id) = activeJob (s.tasks.row id)) :
    Inv validCron id (s.endCall n result) := by
  have hnone : result.2.task = none := by rcases hover with h | h <;> rw [h] <;> rfl
  have hne : result.2.task ≠ some id := by rw [hnone]; exact nofun
  have hkeyed : result.2.Keyed := by rcases hover with h | h <;> rw [h] <;> trivial
  by_cases hi : i = id
  · have hcall : (s.calls n).task = some id := by rw [h, htask, hi]
    have hagrees := H.agrees n
    rw [h] at hagrees
    exact H.only (H.alone hcall) rfl (.of_ne hne) (fun _ => hown hi hagrees) H.valid hkeyed
  · refine H.other rfl (hother hi) rfl (task_ne h ?_) hne hkeyed
    rw [htask]
    exact fun he => hi (Option.some.inj he)

theorem Inv.keyed_call (H : Inv validCron id s) (h : s.calls n = call) : call.Keyed := h ▸ H.keyed n

theorem Inv.database (H : Inv validCron id s) (horderly : Orderly validCron id s (.database n))
    (hstep : step validCron s (.database n) = some s') : Inv validCron id s' := by
  cases hcall : s.calls n with
  | inserting body =>
    simp only [step, hcall, Option.some.injEq] at hstep
    exact hstep ▸ H.insert hcall (horderly body hcall)
  | inserted i =>
    simp only [step, hcall, Option.some.injEq] at hstep
    refine hstep ▸ H.reads hcall rfl (s.tasks.key i) fun hagrees hi => ?_
    obtain ⟨task, hrow, hactive, hnone⟩ := hagrees hi
    exact ⟨task, hi ▸ hrow, hrow, hactive, hnone⟩
  | finding i body =>
    simp only [step, hcall, Option.some.injEq] at hstep
    refine hstep ▸ H.reads hcall rfl trivial fun hagrees hi => ?_
    obtain ⟨hjob, hcron⟩ := hagrees hi
    exact ⟨hjob, hcron, congrArg s.tasks.row hi⟩
  | updating i body preUpdate =>
    simp only [step, hcall, Option.some.injEq] at hstep
    exact hstep ▸ H.updateRow hcall
  | updated i preUpdate =>
    simp only [step, hcall, Option.some.injEq] at hstep
    refine hstep ▸ H.reads hcall rfl (s.tasks.key i) fun hagrees hi => ?_
    obtain ⟨hjob, hsome⟩ := hagrees hi
    exact ⟨hjob, hi ▸ hsome, congrArg s.tasks.row hi⟩
  | findingDestroyed i =>
    simp only [step, hcall, Option.some.injEq] at hstep
    refine hstep ▸ H.reads hcall rfl (s.tasks.key i) fun hagrees hi => ?_
    exact ⟨hagrees hi, congrArg s.tasks.row hi⟩
  | deleting i task =>
    simp only [step, hcall, Option.some.injEq] at hstep
    exact hstep ▸ H.deleteRow hcall
  | idle | stored | refreshed | deleted | returned | rejected =>
    simp only [step, hcall, reduceCtorEq] at hstep

theorem Inv.jobs (H : Inv validCron id s) (hstep : step validCron s (.jobs n) = some s') :
    Inv validCron id s' := by
  cases hcall : s.calls n with
  | stored i task =>
    simp only [step, hcall, Option.some.injEq] at hstep
    have hkeyed := H.keyed_call hcall
    refine hstep ▸ H.endCall hcall (startStored_over ..) rfl (fun hi => ?_)
      fun hi hagrees => ?_
    · exact startStored_of_ne fun t ht => (hkeyed t ht).trans_ne hi
    · obtain ⟨t, rfl, hrow, hactive, hnone⟩ := hagrees hi
      obtain rfl := (hkeyed t rfl).trans hi
      rw [hrow]
      exact startStored_self (H.valid t hrow) hactive hnone
  | refreshed i preUpdate task =>
    simp only [step, hcall, Option.some.injEq] at hstep
    have hkeyed := H.keyed_call hcall
    refine hstep ▸ H.endCall hcall (restartUpdated_over ..) rfl
      (fun hi => ?_) fun hi hagrees => ?_
    · exact restartUpdated_of_ne fun t ht => (hkeyed t ht).trans_ne hi
    · subst hi
      obtain ⟨hjob, hsome, rfl⟩ := hagrees rfl
      exact restartUpdated_self hkeyed H.valid hsome hjob
  | deleted i task =>
    simp only [step, hcall, Option.some.injEq] at hstep
    have hkeyed := H.keyed_call hcall
    refine hstep ▸ H.endCall hcall (stopDestroyed_over ..) rfl (fun hi => ?_)
      fun hi hagrees => ?_
    · exact stopDestroyed_of_ne fun t ht => (hkeyed t ht).trans_ne hi
    · subst hi
      obtain ⟨hjob, hrow⟩ := hagrees rfl
      rw [hrow]
      exact stopDestroyed_self hkeyed hjob
  | idle | inserting | inserted | finding | updating | updated | findingDestroyed | deleting
  | returned | rejected =>
    simp only [step, hcall, reduceCtorEq] at hstep

/-- A request that fails before it has changed the table leaves the task as it was. -/
theorem Inv.fail (H : Inv validCron id s) (horderly : Orderly validCron id s (.fail n))
    (hstep : step validCron s (.fail n) = some s') : Inv validCron id s' := by
  obtain ⟨hinserted, hupdated⟩ := horderly
  have hend : ∀ call, s.calls n = call → (call.task = some id →
      s.cronJobs (jobName id) = activeJob (s.tasks.row id)) →
      Inv validCron id (s.setCall n .rejected) := by
    intro call hcall hmirrors
    by_cases hi : call.task = some id
    · exact H.only (H.alone (hcall ▸ hi)) rfl trivial (fun _ => hmirrors hi) H.valid trivial
    · exact H.other rfl rfl rfl (task_ne hcall hi) nofun trivial
  have hagrees := H.agrees n
  cases hcall : s.calls n with
  | inserting body =>
    simp only [step, hcall, Option.some.injEq] at hstep
    exact hstep ▸ hend _ hcall nofun
  | inserted i =>
    simp only [step, hcall, Option.some.injEq] at hstep
    refine hstep ▸ hend _ hcall fun hi => ?_
    exact absurd (hcall.trans (congrArg Call.inserted (Option.some.inj hi))) hinserted
  | updated i preUpdate =>
    simp only [step, hcall, Option.some.injEq] at hstep
    refine hstep ▸ hend _ hcall fun hi => ?_
    exact absurd (hcall.trans (congrArg (Call.updated · preUpdate) (Option.some.inj hi)))
      (hupdated preUpdate)
  | finding i body =>
    simp only [step, hcall, Option.some.injEq] at hstep
    rw [hcall] at hagrees
    exact hstep ▸ hend _ hcall fun hi => (hagrees (Option.some.inj hi)).1
  | updating i body preUpdate =>
    simp only [step, hcall, Option.some.injEq] at hstep
    rw [hcall] at hagrees
    exact hstep ▸ hend _ hcall fun hi => (hagrees (Option.some.inj hi)).1
  | findingDestroyed i =>
    simp only [step, hcall, Option.some.injEq] at hstep
    rw [hcall] at hagrees
    exact hstep ▸ hend _ hcall fun hi => hagrees (Option.some.inj hi)
  | deleting i task =>
    simp only [step, hcall, Option.some.injEq] at hstep
    rw [hcall] at hagrees
    exact hstep ▸ hend _ hcall fun hi => (hagrees (Option.some.inj hi)).1
  | idle | stored | refreshed | deleted | returned | rejected =>
    simp only [step, hcall, reduceCtorEq] at hstep

theorem step_inv (H : Inv validCron id s) (horderly : Orderly validCron id s a)
    (hstep : step validCron s a = some s') : Inv validCron id s' := by
  cases a with
  | store n body =>
    simp only [step] at hstep
    split at hstep
    · next hcall =>
      cases hstep
      exact H.store hcall body
    · cases hstep
  | update n i body =>
    simp only [step] at hstep
    split at hstep
    · next hcall =>
      cases hstep
      exact H.update hcall horderly
    · cases hstep
  | destroy n i =>
    simp only [step] at hstep
    split at hstep
    · next hcall =>
      cases hstep
      exact H.destroy hcall horderly
    · cases hstep
  | database n => exact H.database horderly hstep
  | jobs n => exact H.jobs hstep
  | fail n => exact H.fail horderly hstep

/-! ## Runs -/

/-- A job that there is stays. -/
theorem start_keeps {cronJobs cronJobs' : CronJobs} {t : TaskInterface} {name : String} {job : CronJob}
    (h : start validCron cronJobs t = some cronJobs') (hjob : cronJobs name = some job) :
    cronJobs' name = some job := by
  unfold start at h
  split at h
  · split at h
    · cases h
    · next hnone =>
      cases h
      have hne : name ≠ getTaskJobName t := by
        rintro rfl
        cases hnone.symm.trans hjob
      rwa [Function.update_of_ne hne]
  · cases h

theorem start_eq {cronJobs cronJobs' : CronJobs} {t : TaskInterface}
    (h : start validCron cronJobs t = some cronJobs') :
    cronJobs' (jobName t.id) = some (.ofTask t) := by
  unfold start at h
  split at h
  · split at h
    · cases h
    · cases h
      exact Function.update_self ..
  · cases h

theorem foldlM_keeps {tasks : List TaskInterface} {cronJobs cronJobs' : CronJobs} {name : String}
    {job : CronJob} (h : tasks.foldlM (start validCron) cronJobs = some cronJobs')
    (hjob : cronJobs name = some job) : cronJobs' name = some job := by
  induction tasks generalizing cronJobs with
  | nil =>
    cases h
    exact hjob
  | cons t tasks ih =>
    obtain ⟨cronJobs₁, hstart, h⟩ := Option.bind_eq_some_iff.mp h
    exact ih h (start_keeps hstart hjob)

/-- The jobs of the tasks that are started one after another. -/
theorem foldlM_start {tasks : List TaskInterface} {cronJobs cronJobs' : CronJobs}
    (h : tasks.foldlM (start validCron) cronJobs = some cronJobs') :
    (∀ t ∈ tasks, cronJobs' (jobName t.id) = some (.ofTask t)) ∧
      ∀ id, (∀ t ∈ tasks, t.id ≠ id) → cronJobs' (jobName id) = cronJobs (jobName id) := by
  induction tasks generalizing cronJobs with
  | nil =>
    cases h
    exact ⟨nofun, fun _ _ => rfl⟩
  | cons t tasks ih =>
    obtain ⟨cronJobs₁, hstart, hrest⟩ := Option.bind_eq_some_iff.mp h
    obtain ⟨hstarted, hothers⟩ := ih hrest
    refine ⟨fun u hu => ?_, fun id hid => ?_⟩
    · rcases List.mem_cons.mp hu with rfl | hu
      · exact foldlM_keeps hrest (start_eq hstart)
      · exact hstarted u hu
    · obtain ⟨ht, hid⟩ := List.forall_mem_cons.mp hid
      exact (hothers id hid).trans (start_of_ne hstart ht)

theorem mem_active {tasks : Tasks} {t : TaskInterface} :
    t ∈ tasks.active ↔ tasks.row t.id = some t ∧ t.isActive := by
  rw [Tasks.active, List.mem_filter, List.mem_filterMap]
  refine and_congr_left fun _ => ⟨fun ⟨id, _, hrow⟩ => ?_, fun hrow => ⟨t.id, ?_, hrow⟩⟩
  · rwa [tasks.key id t hrow]
  · rw [List.mem_range]
    by_contra hlt
    cases (tasks.fresh t.id (Nat.le_of_not_lt hlt)).symm.trans hrow

/-- When the service has started, all tasks have their jobs. -/
theorem bootstrap_mirrors {tasks : Tasks} (h : bootstrap validCron tasks = some s) (id : Nat) :
    Mirrors s id := by
  obtain ⟨cronJobs, hjobs, rfl⟩ := Option.map_eq_some_iff.mp h
  obtain ⟨hstarted, hothers⟩ := foldlM_start hjobs
  change cronJobs (jobName id) = activeJob (tasks.row id)
  have hnone : (∀ t ∈ tasks.active, t.id ≠ id) → cronJobs (jobName id) = none := hothers id
  cases hrow : tasks.row id with
  | none =>
    refine hnone fun t ht he => ?_
    cases hrow.symm.trans (he ▸ (mem_active.mp ht).1)
  | some t =>
    obtain rfl := tasks.key id t hrow
    by_cases hactive : t.isActive
    · exact (hstarted t (mem_active.mpr ⟨hrow, hactive⟩)).trans (if_pos hactive).symm
    · refine (hnone fun u hu he => ?_).trans (if_neg hactive).symm
      obtain ⟨hu, huactive⟩ := mem_active.mp hu
      rw [he] at hu
      exact hactive (Option.some.inj (hrow.symm.trans hu) ▸ huactive)

theorem bootstrap_inv {tasks : Tasks} (h : bootstrap validCron tasks = some s)
    (hvalid : ∀ task, tasks.row id = some task → validCron task.cron) : Inv validCron id s := by
  have hmirrors := bootstrap_mirrors h id
  obtain ⟨cronJobs, hjobs, rfl⟩ := Option.map_eq_some_iff.mp h
  exact ⟨fun _ => trivial, nofun, fun _ => trivial, fun _ => hmirrors, hvalid⟩

/-- After any run that is orderly for a task, whatever happens to other tasks: while no request is
for the task, it has the job that its row asks for. -/
theorem jobs_mirror {tasks : Tasks} {s₀ : State} {as : List Action}
    (hbootstrap : bootstrap validCron tasks = some s₀)
    (hvalid : ∀ task, tasks.row id = some task → validCron task.cron)
    (H : RunsUnder (step validCron) (Orderly validCron id) s₀ as s) (halone : Alone s id) :
    s.cronJobs (jobName id) = activeJob (s.tasks.row id) :=
  (H.invariant step_inv (bootstrap_inv hbootstrap hvalid)).mirrors halone

/-! ## A run -/

def noTasks : Tasks := ⟨fun _ => none, 0, nofun, fun _ _ => rfl⟩

/-- A task is stored, and gets another cron. -/
def sampleRun : List Action :=
  [.store 0 ⟨"http://opportunities-service/sync", "*/5 * * * *", none, none⟩, .database 0,
   .database 0, .jobs 0, .update 1 0 ⟨none, some "0 * * * *", none, none⟩, .database 1,
   .database 1, .database 1, .jobs 1]

theorem jobs_mirror_sample : ∃ s,
    run (step fun _ => true) ⟨noTasks, fun _ => none, fun _ => .idle⟩ sampleRun = some s ∧
      s.cronJobs (jobName 0) = activeJob (s.tasks.row 0) := by
  obtain ⟨s, hrun, halone⟩ : ∃ s, RunsUnder (step fun _ => true) (Orderly (fun _ => true) 0)
      ⟨noTasks, fun _ => none, fun _ => .idle⟩ sampleRun s ∧ Alone s 0 := by
    refine ⟨_, .cons trivial rfl <| .cons ?_ rfl <| .cons nofun rfl <| .cons trivial rfl <|
      .cons ?_ rfl <| .cons nofun rfl <| .cons nofun rfl <| .cons nofun rfl <|
      .cons trivial rfl .nil, ?_⟩
    · intro body hbody _
      cases hbody
      refine ⟨fun m => ?_, nofun, rfl⟩
      rcases m with _ | m <;> exact nofun
    · refine fun _ => ⟨fun m => ?_, fun _ _ => rfl⟩
      rcases m with _ | m <;> exact nofun
    · intro m
      rcases m with _ | _ | m <;> exact nofun
  have hbootstrap : bootstrap (fun _ => true) noTasks =
      some ⟨noTasks, fun _ => none, fun _ => .idle⟩ := rfl
  exact ⟨s, hrun.run_eq, jobs_mirror hbootstrap nofun hrun halone⟩

end

end Scheduler
end DefiBackend
