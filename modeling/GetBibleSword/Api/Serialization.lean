import GetBibleSword.Api.Streaming
import GetBibleSword.Lib.Machine

/-!
# Threads in the C interface

`sword_operation_mutex`, `sword_operation_active` and `run_streaming_operation` of `src/c_api.cpp`, as any number
of threads interleave them.

* `Arguments` : of a streaming call; `Arguments.run` : the call on its own;
* `Phase`, `Frame`, `Thread.move` : where a call stands, and what a thread does next;
* `process` : all threads over the mutex;
* `Standing` : what a thread keeps; `serialized` : what follows in every reachable state.
-/

namespace GetBibleSword.Api
open GetBibleSword.Lib GetBibleSword.Core

/-! ## Calls -/

inductive Request where
  | listModules (swordPath : CString)
  | extractModule (options : Option GbsExtractOptions)

/-- The exported function passes it on to `run_streaming_operation`. -/
def Request.valid : Request → Bool
  | .listModules swordPath => !isMissing swordPath
  | .extractModule none => false
  | .extractModule (some options) => (refusedOptions options).isNone

structure Arguments where
  request : Request
  callback : Option Callback
  error : Option GbsError

def Arguments.valid (a : Arguments) : Bool :=
  errorStorageIsValid a.error && (a.request.valid && a.callback.isSome)

/-- The options are copied, which may throw. -/
def Arguments.copies (a : Arguments) : Bool :=
  match a.request with
  | .listModules _ => false
  | .extractModule _ => errorStorageIsValid a.error && a.request.valid

section Alone
variable (listModules : Bytes → Operation) (extractModule : Bytes → Bytes → Nat → Operation)

/-- The call on its own; `active` is `sword_operation_active` of its thread. -/
def Arguments.run (a : Arguments) (active : Bool) (copying opening : Option Thrown) : Call Status :=
  match a.request with
  | .listModules swordPath => gbsListModules listModules a.callback active opening swordPath
  | .extractModule options => gbsExtractModule extractModule a.callback active copying opening options

/-- What a valid call streams. -/
def Arguments.operation (a : Arguments) : Operation :=
  match a.request with
  | .listModules swordPath => listModules (safeCString swordPath)
  | .extractModule none => .done false
  | .extractModule (some options) =>
    extractModule (safeCString options.swordPath) (safeCString options.moduleName) (chunkSize options)

variable {listModules extractModule} {a : Arguments} {active : Bool} {opening : Option Thrown} {stream : OutputStream}

/-- A call with invalid arguments, or on a thread whose flag is up. -/
theorem run_refused (h : (!a.valid || active) = true) :
    ∃ w', a.run listModules extractModule active none opening ⟨a.error, stream⟩ = .ok gbsStatusInvalidArgument w' ∧
      w'.stream = stream := by
  obtain ⟨request, callback, error⟩ := a
  have hstreaming : ∀ operation, (!(errorStorageIsValid error && callback.isSome) || active) = true →
      ∃ w', runStreamingOperation callback active opening operation ⟨error, stream⟩ =
        .ok gbsStatusInvalidArgument w' ∧ w'.stream = stream := by
    intro operation h
    unfold runStreamingOperation
    rw [run_bind, run_get]
    dsimp only
    cases hstorage : errorStorageIsValid error with
    | false => exact ⟨_, rfl, rfl⟩
    | true =>
      rw [hstorage] at h
      cases callback with
      | none => exact ⟨_, rfl, rfl⟩
      | some callback =>
        cases active with
        | true => exact ⟨_, rfl, rfl⟩
        | false => cases h
  unfold Arguments.valid at h
  cases request with
  | listModules swordPath =>
    unfold Arguments.run gbsListModules
    dsimp only
    rw [run_bind, run_get]
    dsimp only
    cases hstorage : errorStorageIsValid error with
    | false => exact ⟨_, rfl, rfl⟩
    | true =>
      rw [if_neg (by decide)]
      by_cases hmissing : isMissing swordPath = true
      · rw [if_pos hmissing]
        exact ⟨_, rfl, rfl⟩
      · rw [if_neg hmissing]
        apply hstreaming
        have hvalid : (Request.listModules swordPath).valid = true := by
          show (!isMissing swordPath) = true
          rw [Bool.eq_false_iff.mpr hmissing]
          rfl
        rwa [hvalid, Bool.true_and] at h
  | extractModule options =>
    unfold Arguments.run gbsExtractModule
    dsimp only
    rw [run_bind, run_get]
    dsimp only
    cases hstorage : errorStorageIsValid error with
    | false => exact ⟨_, rfl, rfl⟩
    | true =>
      rw [if_neg (by decide)]
      cases options with
      | none => exact ⟨_, rfl, rfl⟩
      | some options =>
        dsimp only
        cases hoptions : refusedOptions options with
        | some message => exact ⟨_, rfl, rfl⟩
        | none =>
          apply hstreaming
          have hvalid : (Request.extractModule (some options)).valid = true := by
            show (refusedOptions options).isNone = true
            rw [hoptions]
            rfl
          rwa [hvalid, Bool.true_and] at h

/-- Any other call runs its operation. -/
theorem run_admitted (h : a.valid = true) :
    ∃ callback w', a.callback = some callback ∧ w'.stream = stream ∧
      a.run listModules extractModule false none opening ⟨a.error, stream⟩ =
        tryCatch (streamOperation callback opening (a.operation listModules extractModule)) containThrown w' := by
  obtain ⟨request, callback, error⟩ := a
  unfold Arguments.valid at h
  obtain ⟨hstorage, hrest⟩ := Bool.and_eq_true_iff.mp h
  obtain ⟨hrequest, hcallback⟩ := Bool.and_eq_true_iff.mp hrest
  obtain ⟨callback, rfl⟩ := Option.isSome_iff_exists.mp hcallback
  dsimp only at hstorage hrequest
  have hstreaming : ∀ operation, runStreamingOperation (some callback) false opening operation ⟨error, stream⟩ =
      tryCatch (streamOperation callback opening operation) containThrown
        (Frame.set ⟨error, stream⟩ gbsStatusOk []) := by
    intro operation
    unfold runStreamingOperation
    rw [run_bind, run_get]
    dsimp only
    rw [hstorage]
    rfl
  cases request with
  | listModules swordPath =>
    refine ⟨callback, Frame.set ⟨error, stream⟩ gbsStatusOk [], rfl, rfl, ?_⟩
    unfold Arguments.run gbsListModules
    dsimp only
    rw [run_bind, run_get]
    dsimp only
    unfold Request.valid at hrequest
    rw [hstorage, if_neg (by decide), if_neg (Bool.not_eq_true _ ▸ Bool.not_eq_true' _ ▸ hrequest)]
    exact hstreaming _
  | extractModule options =>
    cases options with
    | none => cases hrequest
    | some options =>
      refine ⟨callback, Frame.set ⟨error, stream⟩ gbsStatusOk [], rfl, rfl, ?_⟩
      unfold Arguments.run gbsExtractModule
      dsimp only
      rw [run_bind, run_get]
      dsimp only
      rw [hstorage, if_neg (by decide), Option.isNone_iff_eq_none.mp hrequest]
      exact hstreaming _

/-- A call whose options cannot be copied. -/
theorem run_copyThrows (e : Thrown) (h : a.copies = true) :
    ∃ w', a.run listModules extractModule active (some e) opening ⟨a.error, stream⟩ = .ok gbsStatusInternalError w' ∧
      w'.stream = stream := by
  obtain ⟨request, callback, error⟩ := a
  cases request with
  | listModules swordPath => cases h
  | extractModule options =>
    obtain ⟨hstorage, hrequest⟩ := Bool.and_eq_true_iff.mp h
    cases options with
    | none => cases hrequest
    | some options =>
      refine ⟨Frame.set ⟨error, stream⟩ gbsStatusInternalError e.message, ?_, rfl⟩
      unfold Arguments.run gbsExtractModule
      dsimp only at hstorage ⊢
      rw [run_bind, run_get]
      dsimp only
      rw [hstorage, if_neg (by decide), Option.isNone_iff_eq_none.mp hrequest]
      rfl

end Alone

/-! ## Threads -/

/-- Where a call stands. -/
inductive Phase where
  /-- Before it reads `sword_operation_active`. -/
  | entered
  /-- At the constructor of `operation_lock`. -/
  | locking
  /-- Before the constructor of `active_operation`. -/
  | locked
  | operating
  /-- In its callback. -/
  | calling
  /-- Behind the destructor of `active_operation`, with the status it returns or an exception. -/
  | leaving (ending : Option Status)
  /-- In a handler, behind the destructor of `operation_lock`. -/
  | handling
deriving DecidableEq

def Phase.holds : Phase → Bool
  | .entered => false
  | .locking => false
  | .locked => true
  | .operating => true
  | .calling => true
  | .leaving _ => true
  | .handling => false

/-- In a SWORD operation. -/
def Phase.inside : Phase → Bool
  | .operating => true
  | .calling => true
  | _ => false

/-- A call that has not returned. -/
structure Pending where
  arguments : Arguments
  phase : Phase

/-- A thread, with its calls from the innermost on. -/
structure Thread where
  active : Bool
  calls : List Pending

inductive Move where
  | call (arguments : Arguments)
  | copyThrows
  | check
  | lock
  | lockThrows
  | activate
  | callBack
  | callbackEnds
  | operationEnds (ending : Option Status)
  | unlock
  | handle (status : Status)

/-- What a move does to the mutex. -/
inductive Hold where
  | kept
  | taken
  | released
deriving DecidableEq

structure Moved where
  thread : Thread
  hold : Hold
  status : Option Status

def Thread.to (thread : Thread) (calls : List Pending) : Moved := ⟨{ thread with calls := calls }, .kept, none⟩

/-- The innermost call returns. -/
def Thread.leave (thread : Thread) (calls : List Pending) (status : Status) : Moved :=
  ⟨{ thread with calls := calls }, .kept, some status⟩

/-- A thread that is in no call, or in a callback, may call. -/
def Thread.free (thread : Thread) : Bool :=
  match thread.calls with
  | [] => true
  | call :: _ => call.phase = .calling

def Thread.move (thread : Thread) : Move → Option Moved
  | .call arguments => if thread.free then some (thread.to (⟨arguments, .entered⟩ :: thread.calls)) else none
  | .copyThrows =>
    match thread.calls with
    | ⟨arguments, .entered⟩ :: below =>
      if arguments.copies then some (thread.leave below gbsStatusInternalError) else none
    | _ => none
  | .check =>
    match thread.calls with
    | ⟨arguments, .entered⟩ :: below =>
      if !arguments.valid || thread.active then some (thread.leave below gbsStatusInvalidArgument)
      else some (thread.to (⟨arguments, .locking⟩ :: below))
    | _ => none
  | .lock =>
    match thread.calls with
    | ⟨arguments, .locking⟩ :: below => some { thread.to (⟨arguments, .locked⟩ :: below) with hold := .taken }
    | _ => none
  | .lockThrows =>
    match thread.calls with
    | ⟨arguments, .locking⟩ :: below => some (thread.to (⟨arguments, .handling⟩ :: below))
    | _ => none
  | .activate =>
    match thread.calls with
    | ⟨arguments, .locked⟩ :: below => some (Thread.to ⟨true, []⟩ (⟨arguments, .operating⟩ :: below))
    | _ => none
  | .callBack =>
    match thread.calls with
    | ⟨arguments, .operating⟩ :: below => some (thread.to (⟨arguments, .calling⟩ :: below))
    | _ => none
  | .callbackEnds =>
    match thread.calls with
    | ⟨arguments, .calling⟩ :: below => some (thread.to (⟨arguments, .operating⟩ :: below))
    | _ => none
  | .operationEnds ending =>
    match thread.calls with
    | ⟨arguments, .operating⟩ :: below => some (Thread.to ⟨false, []⟩ (⟨arguments, .leaving ending⟩ :: below))
    | _ => none
  | .unlock =>
    match thread.calls with
    | ⟨_, .leaving (some status)⟩ :: below => some { thread.leave below status with hold := .released }
    | ⟨arguments, .leaving none⟩ :: below =>
      some { thread.to (⟨arguments, .handling⟩ :: below) with hold := .released }
    | _ => none
  | .handle status =>
    match thread.calls with
    | ⟨_, .handling⟩ :: below => some (thread.leave below status)
    | _ => none

/-! ## The process -/

section Process
variable {ι : Type} [DecidableEq ι]

structure Process (ι : Type) where
  /-- The thread that owns `sword_operation_mutex`. -/
  mutex : Option ι
  threads : ι → Thread
  /-- What calls have returned, the last first. -/
  returned : List (ι × Status)

structure Event (ι : Type) where
  thread : ι
  move : Move

/-- The mutex behind a move of `t`; it is not taken from its owner. -/
def Hold.mutex (t : ι) (owner : Option ι) : Hold → Option (Option ι)
  | .kept => some owner
  | .taken => if owner.isNone then some (some t) else none
  | .released => some none

def Process.step (s : Process ι) (e : Event ι) : Option (Process ι) :=
  ((s.threads e.thread).move e.move).bind fun moved =>
    (moved.hold.mutex e.thread s.mutex).map fun mutex =>
      { mutex := mutex
        threads := Function.update s.threads e.thread moved.thread
        returned := (moved.status.map fun status => (e.thread, status)).toList ++ s.returned }

/-- No thread is in a call. -/
def process (ι : Type) [DecidableEq ι] : Machine (Process ι) (Event ι) where
  start := ⟨none, fun _ => ⟨false, []⟩, []⟩
  step := Process.step

theorem step_cases {s s' : Process ι} {e : Event ι} (h : s.step e = some s') :
    ∃ moved mutex, (s.threads e.thread).move e.move = some moved ∧ moved.hold.mutex e.thread s.mutex = some mutex ∧
      s' = ⟨mutex, Function.update s.threads e.thread moved.thread,
        (moved.status.map fun status => (e.thread, status)).toList ++ s.returned⟩ := by
  unfold Process.step at h
  obtain ⟨moved, hmove, h⟩ := Option.bind_eq_some_iff.mp h
  obtain ⟨mutex, hmutex, h⟩ := Option.map_eq_some_iff.mp h
  exact ⟨moved, mutex, hmove, hmutex, h.symm⟩

end Process

/-! ## Where a thread stands -/

/-- Where a thread stands; `owns` : it has the mutex. A call in a callback is before its first check. -/
inductive Standing : Thread → Bool → Prop
  | outside : Standing ⟨false, []⟩ false
  | call (call : Pending) : Standing ⟨call.phase.inside, [call]⟩ call.phase.holds
  | nested (arguments : Arguments) {outer : Pending} (h : outer.phase = .calling) :
      Standing ⟨true, [⟨arguments, .entered⟩, outer]⟩ true

/-- Whether a thread owns the mutex behind a move. -/
def Hold.after (owns : Bool) : Hold → Bool
  | .kept => owns
  | .taken => true
  | .released => false

/-- What a move keeps; the mutex is released by its owner. -/
structure Stood (moved : Moved) (owns : Bool) : Prop where
  standing : Standing moved.thread (moved.hold.after owns)
  released : moved.hold = .released → owns = true

variable {thread : Thread} {owns : Bool} {moved : Moved} {move : Move}

theorem stood_outside (h : Thread.move ⟨false, []⟩ move = some moved) : Stood moved false := by
  cases move with
  | call arguments =>
    cases h
    exact ⟨.call ⟨arguments, .entered⟩, nofun⟩
  | _ => cases h

/-- The moves of a call that no callback made. -/
theorem stood_call (call : Pending) (h : Thread.move ⟨call.phase.inside, [call]⟩ move = some moved) :
    Stood moved call.phase.holds := by
  obtain ⟨arguments, phase⟩ := call
  cases phase with
  | entered =>
    cases move with
    | copyThrows =>
      obtain ⟨-, h⟩ := Option.ite_none_right_eq_some.mp h
      cases h
      exact ⟨.outside, nofun⟩
    | check =>
      unfold Thread.move at h
      dsimp only at h
      by_cases hcheck : (!arguments.valid || false) = true
      · rw [show Phase.inside .entered = false from rfl, if_pos hcheck] at h
        cases h
        exact ⟨.outside, nofun⟩
      · rw [show Phase.inside .entered = false from rfl, if_neg hcheck] at h
        cases h
        exact ⟨.call ⟨arguments, .locking⟩, nofun⟩
    | _ => cases h
  | locking =>
    cases move with
    | lock =>
      cases h
      exact ⟨.call ⟨arguments, .locked⟩, nofun⟩
    | lockThrows =>
      cases h
      exact ⟨.call ⟨arguments, .handling⟩, nofun⟩
    | _ => cases h
  | locked =>
    cases move with
    | activate =>
      cases h
      exact ⟨.call ⟨arguments, .operating⟩, nofun⟩
    | _ => cases h
  | operating =>
    cases move with
    | callBack =>
      cases h
      exact ⟨.call ⟨arguments, .calling⟩, nofun⟩
    | operationEnds ending =>
      cases h
      exact ⟨.call ⟨arguments, .leaving ending⟩, nofun⟩
    | _ => cases h
  | calling =>
    cases move with
    | call inner =>
      cases h
      exact ⟨.nested inner rfl, nofun⟩
    | callbackEnds =>
      cases h
      exact ⟨.call ⟨arguments, .operating⟩, nofun⟩
    | _ => cases h
  | leaving ending =>
    cases move with
    | unlock =>
      cases ending with
      | none =>
        cases h
        exact ⟨.call ⟨arguments, .handling⟩, fun _ => rfl⟩
      | some status =>
        cases h
        exact ⟨.outside, fun _ => rfl⟩
    | _ => cases h
  | handling =>
    cases move with
    | handle status =>
      cases h
      exact ⟨.outside, nofun⟩
    | _ => cases h

/-- A call in a callback is refused: nothing but its return is left of it. -/
theorem move_nested {arguments : Arguments} {outer : Pending}
    (h : Thread.move ⟨true, [⟨arguments, .entered⟩, outer]⟩ move = some moved) :
    ∃ status, moved = Thread.leave ⟨true, []⟩ [outer] status ∧
      (move = .check ∧ status = gbsStatusInvalidArgument ∨
        move = .copyThrows ∧ arguments.copies = true ∧ status = gbsStatusInternalError) := by
  cases move with
  | copyThrows =>
    obtain ⟨hcopies, h⟩ := Option.ite_none_right_eq_some.mp h
    cases h
    exact ⟨_, rfl, .inr ⟨rfl, hcopies, rfl⟩⟩
  | check =>
    unfold Thread.move at h
    dsimp only at h
    rw [if_pos (Bool.or_true _)] at h
    cases h
    exact ⟨_, rfl, .inl ⟨rfl, rfl⟩⟩
  | _ => cases h

/-- A call whose callback runs. -/
theorem standing_calling {outer : Pending} (h : outer.phase = .calling) : Standing ⟨true, [outer]⟩ true := by
  have hstanding := Standing.call outer
  rwa [h] at hstanding

theorem Standing.stood (h : Standing thread owns) (hmove : thread.move move = some moved) : Stood moved owns := by
  cases h with
  | outside => exact stood_outside hmove
  | call call => exact stood_call call hmove
  | nested arguments hcalling =>
    obtain ⟨status, rfl, -⟩ := move_nested hmove
    exact ⟨standing_calling hcalling, nofun⟩

/-! ## Every reachable state -/

section Serialized
variable {ι : Type} [DecidableEq ι] {s s' : Process ι} {t u : ι}

/-- Every thread stands, and owns the mutex as the mutex has it. -/
def AllStand (s : Process ι) : Prop := ∀ t, Standing (s.threads t) (decide (s.mutex = some t))

theorem hold_mutex {hold : Hold} {owner owner' : Option ι} (h : hold.mutex t owner = some owner')
    (hreleased : hold = .released → decide (owner = some t) = true) :
    decide (owner' = some t) = hold.after (decide (owner = some t)) ∧
      ∀ u ≠ t, decide (owner' = some u) = decide (owner = some u) := by
  cases hold with
  | kept =>
    cases h
    exact ⟨rfl, fun _ _ => rfl⟩
  | taken =>
    obtain ⟨hfree, h⟩ := Option.ite_none_right_eq_some.mp h
    cases h
    rw [Option.isNone_iff_eq_none.mp hfree]
    refine ⟨decide_eq_true rfl, fun u hne => ?_⟩
    rw [decide_eq_false (fun heq => hne (Option.some.inj heq).symm)]
    rfl
  | released =>
    cases h
    refine ⟨rfl, fun u hne => ?_⟩
    rw [of_decide_eq_true (hreleased rfl), decide_eq_false (fun heq => hne (Option.some.inj heq).symm)]
    rfl

/-- What an event of another thread leaves of `t`. -/
theorem step_other (hs : AllStand s) {e : Event ι} (hne : e.thread ≠ t) (h : s.step e = some s') :
    s'.threads t = s.threads t ∧ (s'.mutex = some t ↔ s.mutex = some t) := by
  obtain ⟨moved, mutex, hmove, hmutex, rfl⟩ := step_cases h
  obtain ⟨-, hother⟩ := hold_mutex hmutex ((hs e.thread).stood hmove).released
  refine ⟨Function.update_of_ne hne.symm _ _, ?_⟩
  exact decide_eq_decide.mp (hother t hne.symm)

theorem AllStand.step (hs : AllStand s) {e : Event ι} (h : s.step e = some s') : AllStand s' := by
  intro t
  by_cases hne : e.thread = t
  · subst hne
    obtain ⟨moved, mutex, hmove, hmutex, rfl⟩ := step_cases h
    have hstood := (hs e.thread).stood hmove
    dsimp only
    rw [Function.update_self, (hold_mutex hmutex hstood.released).1]
    exact hstood.standing
  · obtain ⟨hthread, hmutex⟩ := step_other hs hne h
    rw [hthread, decide_eq_decide.mpr hmutex]
    exact hs t

theorem allStand_reachable (h : (process ι).Reachable s) : AllStand s :=
  h.invariant (fun _ => .outside) fun hs hstep => hs.step hstep

/-- Some call of the thread is in such a phase. -/
def Process.has (s : Process ι) (t : ι) (phase : Phase → Bool) : Prop :=
  ∃ call ∈ (s.threads t).calls, phase call.phase = true

/-- The innermost call of the thread is in its callback. -/
def Process.calling (s : Process ι) (t : ι) : Prop :=
  ∃ call below, (s.threads t).calls = call :: below ∧ call.phase = .calling

/-- A call that a callback of `t` makes, while other threads go on: it returns, and whatever it does returns a status
and leaves all else as it was. -/
def Refused (s : Process ι) (t : ι) : Prop :=
  ∀ arguments events s₁ s₂, s.step ⟨t, .call arguments⟩ = some s₁ → (∀ e ∈ events, e.thread ≠ t) →
    (process ι).runs s₁ events = some s₂ →
    s₂.threads t = s₁.threads t ∧ (s₂.threads t).active = true ∧
    (∃ s₃, s₂.step ⟨t, .check⟩ = some s₃) ∧
    ∀ move s₃, s₂.step ⟨t, move⟩ = some s₃ → ∃ status,
      s₃ = ⟨s₂.mutex, Function.update s₂.threads t (s.threads t), (t, status) :: s₂.returned⟩ ∧
        (move = .check ∧ status = gbsStatusInvalidArgument ∨
          move = .copyThrows ∧ arguments.copies = true ∧ status = gbsStatusInternalError)

/-- What the flag and the mutex say of the calls of all threads. -/
structure Serialized (s : Process ι) : Prop where
  single : ∀ t u, s.has t Phase.inside → s.has u Phase.inside → t = u
  owner : ∀ t, s.mutex = some t ↔ s.has t Phase.holds
  cleared : ∀ t, ¬ s.has t Phase.holds → (s.threads t).active = false
  raised : ∀ t, s.has t (fun phase => phase = .calling) → (s.threads t).active = true
  unlocked : ∀ t, s.has t (fun phase => phase = .locking) → s.mutex ≠ some t
  refused : ∀ t, s.calling t → Refused s t

theorem holds_of_inside {phase : Phase} (h : phase.inside = true) : phase.holds = true := by
  cases phase with
  | operating => rfl
  | calling => rfl
  | _ => cases h

theorem Standing.owns_iff (h : Standing thread owns) :
    owns = true ↔ ∃ call ∈ thread.calls, call.phase.holds = true := by
  cases h with
  | outside => exact ⟨nofun, fun ⟨_, hmem, _⟩ => absurd hmem List.not_mem_nil⟩
  | call call =>
    constructor
    · exact fun hholds => ⟨call, List.mem_singleton_self call, hholds⟩
    · rintro ⟨inner, hmem, hholds⟩
      rwa [← List.mem_singleton.mp hmem]
  | nested arguments hcalling =>
    refine ⟨fun _ => ⟨_, List.mem_cons_of_mem _ (List.mem_singleton_self _), ?_⟩, fun _ => rfl⟩
    rw [hcalling]
    rfl

/-- Where the flag is up, the thread owns the mutex. -/
theorem Standing.active (h : Standing thread owns) (hactive : thread.active = true) : owns = true := by
  cases h with
  | outside => cases hactive
  | call call => exact holds_of_inside hactive
  | nested arguments hcalling => rfl

theorem Standing.inside (h : Standing thread owns) {call : Pending} (hmem : call ∈ thread.calls)
    (hinside : call.phase.inside = true) : thread.active = true := by
  cases h with
  | outside => cases hmem
  | call outer =>
    rw [List.mem_singleton.mp hmem] at hinside
    exact hinside
  | nested arguments hcalling => rfl

theorem Standing.locking (h : Standing thread owns) {call : Pending} (hmem : call ∈ thread.calls)
    (hlocking : call.phase = .locking) : owns = false := by
  cases h with
  | outside => rfl
  | call outer =>
    rw [← List.mem_singleton.mp hmem, hlocking]
    rfl
  | nested arguments hcalling =>
    exfalso
    rcases List.mem_cons.mp hmem with rfl | hmem
    · cases hlocking
    · rw [List.mem_singleton.mp hmem, hcalling] at hlocking
      cases hlocking

/-- A thread that calls out of a callback. -/
theorem Standing.calling {call : Pending} {below : List Pending} (h : Standing thread owns)
    (hcalls : thread.calls = call :: below) (hcalling : call.phase = .calling) : thread = ⟨true, [call]⟩ := by
  cases h with
  | outside => cases hcalls
  | call outer =>
    cases hcalls
    rw [hcalling]
    rfl
  | nested arguments houter =>
    cases hcalls
    cases hcalling

theorem AllStand.refused (hs : AllStand s) (hcalling : s.calling t) : Refused s t := by
  intro arguments events s₁ s₂ hcall hevents hruns
  obtain ⟨outer, below, hcalls, hphase⟩ := hcalling
  have hthread := (hs t).calling hcalls hphase
  have hs₁ := hs.step hcall
  obtain ⟨moved, mutex, hmove, -, rfl⟩ := step_cases hcall
  rw [hthread] at hmove
  unfold Thread.move at hmove
  obtain ⟨-, hmove⟩ := Option.ite_none_right_eq_some.mp hmove
  cases hmove
  have hothers : AllStand s₂ ∧ s₂.threads t = ⟨true, [⟨arguments, .entered⟩, outer]⟩ := by
    apply Machine.runs_invariant (P := fun u => AllStand u ∧ u.threads t = ⟨true, [⟨arguments, .entered⟩, outer]⟩)
      _ ⟨hs₁, Function.update_self _ _ _⟩ hruns
    intro e he u u' hu hstep
    exact ⟨hu.1.step hstep, (step_other hu.1 (hevents e he) hstep).1.trans hu.2⟩
  obtain ⟨-, hthread₂⟩ := hothers
  refine ⟨?_, by rw [hthread₂], ?_, ?_⟩
  · rw [hthread₂]
    exact (Function.update_self t _ s.threads).symm
  · unfold Process.step
    rw [hthread₂]
    unfold Thread.move
    dsimp only
    rw [if_pos (Bool.or_true _)]
    exact ⟨_, rfl⟩
  · intro move s₃ hstep
    obtain ⟨moved, mutex, hmove, hmutex, rfl⟩ := step_cases hstep
    rw [hthread₂] at hmove
    obtain ⟨status, rfl, hstatus⟩ := move_nested hmove
    cases hmutex
    refine ⟨status, ?_, hstatus⟩
    rw [hthread]
    rfl

theorem serialized_of_allStand (hs : AllStand s) : Serialized s := by
  have howner : ∀ t, s.mutex = some t ↔ s.has t Phase.holds := by
    intro t
    rw [← decide_eq_true_iff (p := s.mutex = some t)]
    exact (hs t).owns_iff
  have hinside : ∀ t, s.has t Phase.inside → s.mutex = some t := by
    rintro t ⟨call, hmem, hinside⟩
    exact (howner t).mpr ⟨call, hmem, holds_of_inside hinside⟩
  refine ⟨?_, howner, ?_, ?_, ?_, fun t => hs.refused⟩
  · intro t u ht hu
    exact Option.some.inj ((hinside t ht).symm.trans (hinside u hu))
  · intro t hnone
    apply Bool.eq_false_iff.mpr
    intro hactive
    exact hnone ((howner t).mp (of_decide_eq_true ((hs t).active hactive)))
  · rintro t ⟨call, hmem, hcalling⟩
    apply (hs t).inside hmem
    rw [of_decide_eq_true hcalling]
    rfl
  · rintro t ⟨call, hmem, hlocking⟩ howns
    have hfalse := (hs t).locking hmem (of_decide_eq_true hlocking)
    exact absurd howns (of_decide_eq_false hfalse)

/-- In every reachable state of any number of threads. -/
theorem serialized (h : (process ι).Reachable s) : Serialized s :=
  serialized_of_allStand (allStand_reachable h)

/-- A callback of one thread has called, and another thread waits for the mutex. -/
theorem serialized_twoThreads :
    let arguments := Arguments.mk (.listModules (some (ascii "/sword"))) (some fun _ _ => .result gbsWriteContinue) none
    let events := [Event.mk 0 (.call arguments), ⟨0, .check⟩, ⟨0, .lock⟩, ⟨0, .activate⟩, ⟨0, .callBack⟩,
      ⟨1, .call arguments⟩, ⟨0, .call arguments⟩, ⟨1, .check⟩]
    ∃ s, (process ℕ).runs (process ℕ).start events = some s ∧ s.mutex = some 0 ∧
      s.has 1 (fun phase => phase = .locking) ∧ Serialized s := by
  intro arguments events
  obtain ⟨s, hruns, howner, hlocking⟩ : ∃ s, (process ℕ).runs (process ℕ).start events = some s ∧ s.mutex = some 0 ∧
      s.has 1 (fun phase => phase = .locking) := ⟨_, rfl, rfl, ⟨_, List.mem_singleton_self _, rfl⟩⟩
  exact ⟨s, hruns, howner, hlocking, serialized (Machine.Reachable.start.runs hruns)⟩

end Serialized

end GetBibleSword.Api
