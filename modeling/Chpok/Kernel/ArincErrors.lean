import Chpok.Kernel.ArincPartition

/-! Errors of an ARINC partition (`kernel/core/error_arinc.c`), and the queue of its timed
events (`kernel/core/delayed_event.c`), one kind of which raises them. -/

namespace Chpok

/-- The `POK_SYSTEM_STATE_*` in which errors of partitions occur. -/
inductive SystemState where
  | user
  | errorHandler
  | osPart
  deriving DecidableEq, Repr

/-- `pok_error_action_t` -/
inductive ErrorAction where
  | ignore
  | idle
  | coldStart
  | warmStart
  deriving DecidableEq, Repr

/-- The tables of a partition: `partition_hm_selector`, for the state in which it is read, and
`partition_hm_table`. -/
structure PartitionHm where
  processLevel : ErrorId → Bool
  action : SystemState → ErrorId → ErrorAction

/-- `pok_ret_t` -/
inductive PokErrno where
  | ok
  | einval
  | unavailable
  | param
  | toomany
  | exists
  | thread
  | threadattr
  | empty
  | full
  | mode
  | partitionMode
  deriving DecidableEq, Repr

/-- What `pok_error_get` tells of an error, besides its kind and message. -/
structure ErrorReport where
  failedThread : Nat
  bit : ErrorBit
  errorId : ErrorId
  failedAddr : Nat
  deriving DecidableEq, Repr

namespace ArincPartition

/-- `pok_partition_arinc_reset` -/
def partitionReset (p : ArincPartition) (mode : PartitionMode) :
    Except PartitionExit ArincPartition :=
  if mode = .initCold ∨ mode = .initWarm ∧ p.mode ≠ .initCold then .error (.reset { p with mode })
  else .error (.failed .partitionReset)

/-- `take_fixed_action` -/
def takeFixedAction (p : ArincPartition) : ErrorAction → Except PartitionExit ArincPartition
  | .ignore => .ok p
  | .idle => .error (.idle { p with halted := true })
  | .coldStart => p.partitionReset .initCold
  | .warmStart =>
    if p.mode = .initCold then .error (.failed .takeFixedAction) else p.partitionReset .initWarm

/-- `process_error_partition`, and whether the error has been processed. It does not come back
while threads are unrecoverable. -/
def processErrorPartition (hm : PartitionHm) (p : ArincPartition) (state : SystemState)
    (errorId : ErrorId) : Except PartitionExit Bool :=
  if state = .user ∧ hm.processLevel errorId ∧ p.mode = .normal ∧ p.threadError ≠ none then
    .ok false
  else
    (p.takeFixedAction (hm.action state errorId)).bind fun p =>
      if p.nthreadsUnrecoverable = 0 then .ok true
      else
        (takeFixedAction { p with nthreadsUnrecoverable := 0 }
          (hm.action .osPart .unhandledInt)).bind fun p =>
            .error (.forever { p with halted := true })

/-- `thread_set_unrecoverable` -/
def threadSetUnrecoverable (p : ArincPartition) (t : Nat) : ArincPartition :=
  if (p.errors t).isUnrecoverable then p
  else
    { p.updateErrors t (fun th => { th with isUnrecoverable := true }) with
      nthreadsUnrecoverable := (p.nthreadsUnrecoverable + 1) % 4294967296 }

/-- `thread_add_error_bit` -/
def threadAddErrorBit (p : ArincPartition) (t : Nat) (bit : ErrorBit) :
    Except PartitionExit ArincPartition :=
  if bit ∈ (p.errors t).errorBits then .error (.failed .threadAddErrorBit)
  else
    let added := { p.updateErrors t fun th => { th with errorBits := insert bit th.errorBits } with
      errorLog := { p.errorLog with raised := p.errorLog.raised ++ [(t, bit)] } }
    if t ∈ p.errorList then .ok added
    else .ok { added with errorList := p.errorList ++ [t] }.localInvalidate

/-- `thread_clear_error_bit` -/
def threadClearErrorBit (p : ArincPartition) (t : Nat) (bit : ErrorBit) :
    Except PartitionExit ArincPartition :=
  if bit ∈ (p.errors t).errorBits ∧ t ∈ p.errorList then
    let cleared := p.updateErrors t fun th => { th with errorBits := th.errorBits.erase bit }
    if (cleared.errors t).errorBits = ∅ then .ok { cleared with errorList := p.errorList.erase t }
    else .ok cleared
  else .error (.failed .threadClearErrorBit)

/-- `thread_emit_sync_error` -/
def threadEmitSyncError (p : ArincPartition) (t : Nat) (errorId : ErrorId) (failedAddr : Nat) :
    Except PartitionExit ArincPartition :=
  { p with syncError := errorId, syncErrorFailedAddr := failedAddr }.threadAddErrorBit t .sync

/-- `get_current_state` for an error in user space -/
def userState (p : ArincPartition) : SystemState :=
  if p.isErrorHandler then .errorHandler else .user

/-- `pok_partition_arinc_process_error`, for an error of the current thread `c` in user space -/
def processError (hm : PartitionHm) (p : ArincPartition) (c : Nat) (errorId : ErrorId)
    (failedAddr : Nat) : Except PartitionExit ArincPartition :=
  (processErrorPartition hm p p.userState errorId).bind fun processed =>
    if processed then .ok p
    else if p.threadError = some c then .error (.failed .raiseError)
    else p.threadEmitSyncError c errorId failedAddr

/-- `pok_thread_emit_deadline_missed` -/
def emitDeadlineMissed (hm : PartitionHm) (p : ArincPartition) (t : Nat) :
    Except PartitionExit ArincPartition :=
  (processErrorPartition hm p .user .deadlineMissed).bind fun processed =>
    if processed then .ok p else p.threadAddErrorBit t .deadline

/-- `pok_thread_emit_deadline_oor` -/
def emitDeadlineOor (hm : PartitionHm) (p : ArincPartition) (t : Nat) :
    Except PartitionExit ArincPartition :=
  (processErrorPartition hm (p.threadSetUnrecoverable t) .user .illegalRequest).bind
    fun processed =>
      if processed then .ok (p.threadSetUnrecoverable t)
      else (p.threadSetUnrecoverable t).threadAddErrorBit t .deadlineOor

/-- `pok_error_raise_application_error`, called by `c` with a message of allowed size -/
def raiseApplicationError (hm : PartitionHm) (p : ArincPartition) (c : Nat) :
    Except PartitionExit (ArincPartition × PokErrno) :=
  (processErrorPartition hm p (if p.threadError = some c then .errorHandler else .user)
    .applicationError).bind fun processed =>
      if processed then .ok (p, .ok)
      else (p.threadEmitSyncError c .applicationError 0).map (·, .ok)

/-- `pok_error_raise_os_error` -/
def raiseOsError (hm : PartitionHm) (p : ArincPartition) :
    Except PartitionExit (ArincPartition × PokErrno) :=
  (processErrorPartition hm p .osPart .applicationError).map fun _ => (p, .ok)

/-- `error_check_after_handler` -/
def errorCheckAfterHandler (hm : PartitionHm) (p : ArincPartition) :
    Except PartitionExit ArincPartition :=
  if p.nthreadsUnrecoverable = 0 then .ok p
  else (processErrorPartition hm p .errorHandler .unhandledInt).map fun _ => p

/-- The error that `pok_error_get` reports first -/
def pendingError (p : ArincPartition) (t : Nat) : Option ErrorReport :=
  if .sync ∈ (p.errors t).errorBits then some ⟨t, .sync, p.syncError, p.syncErrorFailedAddr⟩
  else if .deadline ∈ (p.errors t).errorBits then some ⟨t, .deadline, .deadlineMissed, 0⟩
  else if .deadlineOor ∈ (p.errors t).errorBits then some ⟨t, .deadlineOor, .illegalRequest, 0⟩
  else none

/-- `pok_error_get` -/
def errorGet (p : ArincPartition) (c : Nat) :
    Except PartitionExit (ArincPartition × PokErrno × Option ErrorReport) :=
  if p.threadError ≠ some c then .ok (p, .thread, none)
  else
    match p.errorList with
    | [] => .ok (p, .unavailable, none)
    | t :: _ =>
      match p.pendingError t with
      | none => .error (.failed .errorGet)
      | some report =>
        (p.threadClearErrorBit t report.bit).map fun q => ({ q with
          errorLog := { q.errorLog with fetched := q.errorLog.fetched ++ [(t, report.bit)] } },
            .ok, some report)

/-- `error_ignore_sync` -/
def errorIgnoreSync (p : ArincPartition) : Except PartitionExit ArincPartition :=
  match p.errorList with
  | [] => .ok p
  | t :: _ =>
    if .sync ∈ (p.errors t).errorBits then
      (p.threadClearErrorBit t .sync).map fun q => { q with
        errorLog := { q.errorLog with cancelled := q.errorLog.cancelled ++ [(t, .sync)] } }
    else .ok p

/-- `error_thread_name`, which is "Error_Handler" -/
def errorThreadName : List UInt8 := [69, 114, 114, 111, 114, 95, 72, 97, 110, 100, 108, 101, 114]

/-- `pok_error_thread_create`, with the checks of memory that it makes -/
def errorThreadCreate (p : ArincPartition) (entryOk stackOk : Bool) :
    Except PartitionExit (ArincPartition × PokErrno) :=
  if p.mode = .normal then .ok (p, .partitionMode)
  else if p.threadError ≠ none then .ok (p, .exists)
  else if p.nthreadsUsed = p.nthreads then .ok (p, .toomany)
  else if ¬ entryOk then .ok (p, .param)
  else
    let named := p.updateSched p.nthreadsUsed fun th => { th with
      name := errorThreadName, basePriority := 254, period := -1, timeCapacity := -1 }
    if ¬ stackOk then .ok (named, .unavailable)
    else
      .ok ((named.threadCreate p.nthreadsUsed).onSections fun s => { s with
        nthreadsUsed := p.nthreadsUsed + 1, threadError := some p.nthreadsUsed }, .ok)

/-- `process_event` of a timed event -/
def processEvent (hm : PartitionHm) (p : ArincPartition) (event : DelayedEvent) :
    Except PartitionExit ArincPartition :=
  match event.kind with
  | .deadline => p.emitDeadlineMissed hm event.thread
  | .delayed =>
    match (p.sched event.thread).delayedFunc with
    | .wakeUp => p.threadWakeUp event.thread
    | .resumeWaited => p.threadResumeWaited event.thread

/-- `delayed_event_queue_check`. No event adds others to the queue. -/
def delayedEventQueueCheck (hm : PartitionHm) (now : Int) :
    Nat → ArincPartition → Except PartitionExit ArincPartition
  | 0, p => .ok p
  | n + 1, p =>
    match p.delayedEvents with
    | [] => .ok p
    | event :: rest =>
      if now < event.timepoint then .ok p
      else (processEvent hm { p with delayedEvents := rest } event).bind fun p =>
        delayedEventQueueCheck hm now n p

end ArincPartition

end Chpok
