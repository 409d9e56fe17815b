import LinuxPrograms.Lib.CString

/-!
# Door bell: data and pure functions

The types of `door_bell.h` and the functions of `door_bell_func.c` and `door_bell.c` that only
compute: `str_enum`, `get_value`, `check_thread_dead`, the decisions the threads take on a
sensor reading, and the wrappers of the kernel calls on one pipe, the queue or one timer. A
kernel call's success is the argument `ok`; `kernelRet` is what the call then returns.
-/

namespace DoorBell

open CString

/-! ## `door_bell.h` -/

/-- `MAX_MESSAGE_SIZE`. -/
def maxMessageSize : ℕ := 20

/-- `event`. -/
inductive Event
  | invalid
  | motionDetected
  | calcDistance
  | motionScanOn
  | invalidDistance
  | validDistance
  | ringBell
  | ringBellExpiry
  | ecuNotWorking
  | doorWaitExpiry
  | doorWaitRetryEnd
  deriving DecidableEq, Repr

/-- The enumerator's value. -/
def Event.value : Event → ℤ
  | invalid => -1
  | motionDetected => 0
  | calcDistance => 1
  | motionScanOn => 2
  | invalidDistance => 3
  | validDistance => 4
  | ringBell => 5
  | ringBellExpiry => 6
  | ecuNotWorking => 7
  | doorWaitExpiry => 8
  | doorWaitRetryEnd => 10

/-- The enumerator an `event` field names when it holds `v`. -/
def Event.ofValue (v : ℤ) : Event :=
  if v = 0 then motionDetected
  else if v = 1 then calcDistance
  else if v = 2 then motionScanOn
  else if v = 3 then invalidDistance
  else if v = 4 then validDistance
  else if v = 5 then ringBell
  else if v = 6 then ringBellExpiry
  else if v = 7 then ecuNotWorking
  else if v = 8 then doorWaitExpiry
  else if v = 10 then doorWaitRetryEnd
  else invalid

/-- `status_t`. -/
inductive Status
  | success
  | fail
  deriving DecidableEq, Repr

/-- The enumerator's value. -/
def Status.value : Status → ℤ
  | success => 0
  | fail => 1

/-- `ECU_WORKING` of `ecu_status`. -/
def ecuWorking : ℤ := 0

/-- `DOOR_OPEN` of `doorStatus`. -/
def doorOpen : ℤ := 0

/-- `DOOR_CLOSED` of `doorStatus`. -/
def doorClosed : ℤ := 1

/-- `read_data`. The status is an `int` in memory and can hold values that are no enumerator. -/
structure ReadData where
  value : ℤ
  status : ℤ
  deriving DecidableEq, Repr

/-- `MIN_DISTANCE`. -/
def minDistance : ℤ := 4

/-- `MAX_DISTANCE`. -/
def maxDistance : ℤ := 8

/-! ## `get_value` -/

/-- What `get_value` meets when it reads a sensor file: the bytes if `fopen` succeeds, and
whether `fseek` and `fclose` do. -/
structure SensorFile where
  content : Option (List UInt8)
  fseek : Bool
  fclose : Bool
  deriving DecidableEq, Repr

/-- `get_value`; `none` is `exit(1)`. One byte at offset 0 and one at offset 2 land in the low
bytes of two zeroed `int` fields (little endian). -/
def getValue (file : SensorFile) : Option ReadData :=
  match file.content with
  | none => none
  | some bytes =>
      match bytes[0]? with
      | none => none
      | some value =>
          if file.fseek = false then none
          else
            -- The byte at offset 1, the separator, is skipped.
            match bytes[2]? with
            | none => none
            | some status =>
                if file.fclose = false then none
                else some { value := value.toNat - 48, status := status.toNat - 48 }

/-- The event the scan loop of `motion_detector_thread` posts for a reading; `none` keeps it
scanning. -/
def motionEvent (data : ReadData) : Option Event :=
  if data.status ≠ ecuWorking then some .ecuNotWorking
  else if data.value = 1 then some .motionDetected
  else none

/-- The event `distance_calculator_thread` posts for a reading. -/
def distanceEvent (data : ReadData) : Event :=
  if data.status = ecuWorking then
    if minDistance ≤ data.value ∧ data.value ≤ maxDistance then .validDistance
    else .invalidDistance
  else .ecuNotWorking

/-! ## `str_enum` -/

/-- `str_enum`; `none` is the null pointer. -/
def strEnum (arg : Option (List UInt8)) : Event :=
  match arg with
  | none => .invalid
  | some s =>
      if cstr s = text "CALC_DISTANCE" then .calcDistance
      else if cstr s = text "MOTION_SCAN_ON" then .motionScanOn
      else if cstr s = text "RING_BELL" then .ringBell
      else if cstr s = text "RING_BELL_EXPIRY" then .ringBellExpiry
      else if cstr s = text "DOOR_WAIT_EXPIRY" then .doorWaitExpiry
      else if cstr s = text "DOOR_WAIT_RETRY_END" then .doorWaitRetryEnd
      else .invalid

/-- `msg_buff` after `strncpy(msg_buff, name, MAX_MESSAGE_SIZE)`. -/
def message (name : String) : CBuffer maxMessageSize :=
  CBuffer.strncpy maxMessageSize (text name)

/-! ## `check_thread_dead` -/

/-- The verdict of `check_thread_dead` on the text it read into `ps_cmd_output`. -/
def checkThreadDead (psCmdOutput : List UInt8) : Status :=
  if strstr (text "monitor_thread") psCmdOutput then .success
  else if strstr (text "motion_detector_thread") psCmdOutput then .success
  else if strstr (text "Dist_thread") psCmdOutput then .success
  else if strstr (text "door_b_Thread") psCmdOutput then .success
  else .fail

/-! ## Wrappers of the kernel calls -/

/-- What a system call returns: 0 on success, -1 on failure. -/
def kernelRet (ok : Bool) : ℤ := if ok then 0 else -1

/-- `post_event` on a pipe that holds `fifo`; the write of the whole buffer is atomic. -/
def postEvent (fifo : List UInt8) (msgBuff : CBuffer maxMessageSize) (ok : Bool) :
    List UInt8 × Status :=
  (if ok then fifo ++ msgBuff.bytes else fifo,
    if -1 = kernelRet ok then .fail else .success)

/-- `read_event` on a pipe that holds `fifo`, into `msgBuff`; `none` while the pipe is empty,
when the read blocks. A failed read leaves the buffer as it was. -/
def readEvent (fifo : List UInt8) (msgBuff : CBuffer maxMessageSize) (ok : Bool) :
    Option (List UInt8 × CBuffer maxMessageSize × Status) :=
  if ok then
    if fifo = [] then none
    else some (fifo.drop maxMessageSize, msgBuff.store (fifo.take maxMessageSize), .success)
  else some (fifo, msgBuff, .fail)

/-- `post_messageToQ`. The result of `msgsnd` is compared with `FAIL`. -/
def postMessageToQ (queue : List Event) (event : Event) (ok : Bool) : List Event × Status :=
  -- `FAIL` is 1, so a failed `msgsnd` is not noticed.
  (if ok then queue ++ [event] else queue,
    if Status.fail.value = kernelRet ok then .fail else .success)

/-- The event field after `memset(data_arg, 0, sizeof(event_data))`. -/
def clearedEvent : Event := Event.ofValue 0

/-- `get_messageFromQ`: the queue, the event left in the object and the status; `none` while
the queue is empty, when `msgrcv` blocks. The object is cleared before the call. -/
def getMessageFromQ (queue : List Event) (ok : Bool) :
    Option (List Event × Event × Status) :=
  if ok then
    match queue with
    | [] => none
    | event :: rest => some (rest, event, .success)
  else some (queue, clearedEvent, .fail)

/-- A POSIX timer. -/
inductive TimerState
  | unarmed
  | armed
  | deleted
  deriving DecidableEq, Repr

/-- A timer system call that leaves the timer in state `target`; on a deleted timer it can only
fail. -/
def timerCall (target timer : TimerState) (ok : Bool) : Option (TimerState × Status) :=
  if ok then
    -- `timer_settime` and `timer_delete` never succeed on an identifier already deleted.
    if timer = .deleted then none else some (target, .success)
  else some (timer, .fail)

/-- `timer_start`: one-shot, so there is no interval to keep. -/
def timerStart (timer : TimerState) (ok : Bool) : Option (TimerState × Status) :=
  timerCall .armed timer ok

/-- `timer_stop`. -/
def timerStop (timer : TimerState) (ok : Bool) : Option (TimerState × Status) :=
  timerCall .unarmed timer ok

/-- `timer_destroy`. -/
def timerDestroy (timer : TimerState) (ok : Bool) : Option (TimerState × Status) :=
  timerCall .deleted timer ok

end DoorBell
