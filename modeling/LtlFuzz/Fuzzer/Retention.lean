import LtlFuzz.Fuzzer.Attribution
import LtlFuzz.Fuzzer.Coverage

/-! What `save_if_interesting` keeps of the runs it is shown. Timeouts and crashes are held against
virgin maps of their own, up to a limit; each saved file gets the next number. Violations are
treated alike, but their map is never set up, nor is the directory for their files. -/

namespace LtlFuzz.Fuzzer
open Logic

structure Settings where
  dumbMode : Bool
  /-- Whether `crash_mode` is `FAULT_CRASH`, not `FAULT_NONE`. -/
  crashMode : Bool
  /-- `exec_tmout < hang_tmout`. -/
  patient : Bool

def Settings.crashFault (settings : Settings) : FaultCode := if settings.crashMode then .crash else .none

/-- A call of `save_if_interesting`, with what the target does when it is run again: in the calibration of a
new queue entry, and with the time a hang is given. -/
structure Call (size : Nat) (α : Type) where
  fault : FaultCode
  trace : Bitmap size
  killSignal : Nat
  messages : α
  calibration : List (Bitmap size)
  calibrated : FaultCode
  traceCalibrated : Bitmap size
  retried : FaultCode
  traceRetried : Bitmap size
  killSignalRetried : Nat
  stopSoon : Bool

inductive Saved (α : Type) where
  | queue (id : Nat) (messages : α)
  | hang (id : Nat) (messages : α)
  | crash (id killSignal : Nat) (messages : α)
  | violation (id : Nat) (messages : α)

structure Archive (size : Nat) (α : Type) where
  virginBits : Bitmap size := .untouched
  virginTmout : Bitmap size := .untouched
  virginCrash : Bitmap size := .untouched
  virginViolations : Bitmap size := .zero
  queuedPaths : Nat := 0
  totalTmouts : Nat := 0
  uniqueTmouts : Nat := 0
  uniqueHangs : Nat := 0
  totalCrashes : Nat := 0
  uniqueCrashes : Nat := 0
  totalViolations : Nat := 0
  uniqueViolations : Nat := 0
  saved : List (Saved α) := []

/-- What stands once the dry run of the seeds has been through `has_new_bits` and the queue. -/
def Archive.afterDryRun {size : Nat} {α : Type} (virginBits : Bitmap size) (queuedPaths : Nat) : Archive size α :=
  { virginBits, queuedPaths }

/-- The ends of the fuzzer: `FATAL("Unable to execute target application")`, `PFATAL("Unable to create
file '%s'")`, and a name used once it was freed. -/
inductive Stop where
  | unableToExecute
  | unableToCreate
  | usedAfterFree
  deriving DecidableEq

variable {size : Nat} {α : Type}

section SaveIfInteresting

/-- The directories that `setup_dirs_fds` makes in `out_dir`. -/
def setupDirs : List String :=
  ["queue", "queue/.state/", "queue/.state/deterministic_done/", "queue/.state/auto_extras/", "queue/.state/redundant_edges/",
    "queue/.state/variable_behavior/", "replayable-crashes", "replayable-hangs", "regions", "replayable-new-ipsm-paths",
    "replayable-queue"]

def Saved.directory : Saved α → String
  | .queue _ _ => "queue"
  | .hang _ _ => "replayable-hangs"
  | .crash _ _ _ => "replayable-crashes"
  | .violation _ _ => "replayable-violations"

def Archive.saveKlMessagesToFile (archive : Archive size α) (file : Saved α) : Except Stop (Archive size α) :=
  if file.directory ∈ setupDirs then .ok { archive with saved := archive.saved ++ [file] } else .error .unableToCreate

@[simp] theorem Archive.saveKlMessagesToFile_hang (archive : Archive size α) (id : Nat) (messages : α) :
    archive.saveKlMessagesToFile (.hang id messages) = .ok { archive with saved := archive.saved ++ [.hang id messages] } :=
  if_pos (show "replayable-hangs" ∈ setupDirs by decide)

@[simp] theorem Archive.saveKlMessagesToFile_crash (archive : Archive size α) (id killSignal : Nat) (messages : α) :
    archive.saveKlMessagesToFile (.crash id killSignal messages) =
      .ok { archive with saved := archive.saved ++ [.crash id killSignal messages] } :=
  if_pos (show "replayable-crashes" ∈ setupDirs by decide)

@[simp] theorem Archive.saveKlMessagesToFile_violation (archive : Archive size α) (id : Nat) (messages : α) :
    archive.saveKlMessagesToFile (.violation id messages) = .error .unableToCreate :=
  if_neg (show "replayable-violations" ∉ setupDirs by decide)

def keepUniqueHang : Nat := 500

def keepUniqueCrash : Nat := 5000

def keepUniqueViolations : Nat := 5000

/-- The question that all three kinds of fault are asked, and the virgin map after it. -/
def unique (settings : Settings) (limit count : Nat) (trace virgin : Bitmap size) : Bool × Bitmap size :=
  if limit ≤ count then (false, virgin)
  else if settings.dumbMode then (true, virgin)
  else
    let (ret, virgin) := hasNewBits trace.simplifyTrace virgin
    (ret != 0, virgin)

/-- What follows the look at `fault == crash_mode`. -/
inductive Queued (size : Nat) (α : Type) where
  | returned (archive : Archive size α)
  | went (archive : Archive size α) (keeping : Bool) (trace : Bitmap size)

def queueStep (settings : Settings) (archive : Archive size α) (call : Call size α) : Except Stop (Queued size α) :=
  if call.fault = settings.crashFault then
    let (hnb, virgin) := hasNewBits call.trace archive.virginBits
    let archive := { archive with virginBits := virgin }
    if hnb = 0 then
      .ok (.returned (if settings.crashMode then { archive with totalCrashes := archive.totalCrashes + 1 } else archive))
    else if call.calibrated = .error then .error .unableToExecute
    else
      .ok (.went { archive with
        virginBits := (hasNewBitsRun virgin call.calibration).2
        queuedPaths := archive.queuedPaths + 1
        saved := archive.saved ++ [.queue archive.queuedPaths call.messages] } true call.traceCalibrated)
  else .ok (.went archive false call.trace)

/-- What the pointer `fn` is when the function comes to its end. -/
inductive Name (α : Type) where
  | held (file : Saved α)
  | freed

def keepAsCrash (settings : Settings) (archive : Archive size α) (trace : Bitmap size) (killSignal : Nat) (messages : α) :
    Archive size α × Option (Name α) :=
  let (keep, virgin) := unique settings keepUniqueCrash archive.uniqueCrashes trace archive.virginCrash
  let archive := { archive with totalCrashes := archive.totalCrashes + 1, virginCrash := virgin }
  if keep then
    ({ archive with uniqueCrashes := archive.uniqueCrashes + 1 }, some (.held (.crash archive.uniqueCrashes killSignal messages)))
  else (archive, none)

inductive Hanging where
  | dropped
  | hang
  | crash
  deriving DecidableEq

/-- Whether a timeout is a genuine hang, by a run with more time. -/
def Call.hanging (settings : Settings) (call : Call size α) : Hanging :=
  if settings.patient then
    if !call.stopSoon && call.retried == .crash then .crash
    else if call.stopSoon || call.retried != .tmout then .dropped
    else .hang
  else .hang

def timedOut (settings : Settings) (archive : Archive size α) (call : Call size α) (trace : Bitmap size) :
    Archive size α × Option (Name α) :=
  let (keep, virgin) := unique settings keepUniqueHang archive.uniqueHangs trace archive.virginTmout
  let archive := { archive with totalTmouts := archive.totalTmouts + 1, virginTmout := virgin }
  if keep then
    let archive := { archive with uniqueTmouts := archive.uniqueTmouts + 1 }
    match call.hanging settings with
    | .dropped => (archive, none)
    | .hang => ({ archive with uniqueHangs := archive.uniqueHangs + 1 }, some (.held (.hang archive.uniqueHangs call.messages)))
    | .crash => keepAsCrash settings archive call.traceRetried call.killSignalRetried call.messages
  else (archive, none)

/-- The branch of a violation writes its files itself, and frees the name of each. The files behind the first
one are left out. -/
def violated (settings : Settings) (archive : Archive size α) (call : Call size α) (trace : Bitmap size) :
    Except Stop (Archive size α × Option (Name α)) :=
  let (keep, virgin) := unique settings keepUniqueViolations archive.uniqueViolations trace archive.virginViolations
  let archive := { archive with totalViolations := archive.totalViolations + 1, virginViolations := virgin }
  if keep then
    (archive.saveKlMessagesToFile (.violation archive.uniqueViolations call.messages)).map fun archive =>
      ({ archive with uniqueViolations := archive.uniqueViolations + 1 }, some .freed)
  else .ok (archive, none)

/-- The last `save_kl_messages_to_file`, with the name that the switch has left. -/
def finish (archive : Archive size α) : Option (Name α) → Except Stop (Archive size α)
  | none => .ok archive
  | some (.held file) => archive.saveKlMessagesToFile file
  | some .freed => .error .usedAfterFree

/-- `save_if_interesting`: the archive after it, and `keeping`. -/
def saveIfInteresting (settings : Settings) (archive : Archive size α) (call : Call size α) :
    Except Stop (Archive size α × Bool) :=
  match queueStep settings archive call with
  | .error stop => .error stop
  | .ok (.returned archive) => .ok (archive, false)
  | .ok (.went archive keeping trace) =>
    let leave (result : Archive size α × Option (Name α)) : Except Stop (Archive size α × Bool) :=
      (finish result.1 result.2).map fun archive => (archive, keeping)
    match call.fault with
    | .tmout => leave (timedOut settings archive call trace)
    | .crash => leave (keepAsCrash settings archive trace call.killSignal call.messages)
    | .violation => (violated settings archive call trace).bind leave
    | .error => .error .unableToExecute
    | _ => .ok (archive, keeping)

end SaveIfInteresting

section Shelves

/-- What there is of one kind of fault: the next number, the virgin map and the files with their numbers. -/
structure Shelf (size : Nat) (β : Type) where
  count : Nat
  virgin : Bitmap size
  files : List (β × Nat)

variable {ι β : Type} (settings : Settings) (limit : Nat) (trace : ι → Bitmap size) (confirmed : ι → Bool) (label : ι → β)

def Shelf.offer (shelf : Shelf size β) (item : ι) : Shelf size β :=
  let (keep, virgin) := unique settings limit shelf.count (trace item) shelf.virgin
  if keep && confirmed item then ⟨shelf.count + 1, virgin, shelf.files ++ [(label item, shelf.count)]⟩
  else { shelf with virgin := virgin }

/-- The virgin map is that of what has been shown, as long as it is looked at. -/
def Shelf.Fits (shelf : Shelf size β) (met : Set Nat) : Prop :=
  shelf.count < limit → settings.dumbMode = false → shelf.virgin.LeftAfter met

def simplified (item : ι) : Set Nat := (trace item).simplifyTrace.bits

variable {settings limit} {shelf : Shelf size β} {met : Set Nat}

theorem Shelf.Fits.unique (fits : shelf.Fits settings limit met) (next : Bitmap size) :
    ((unique settings limit shelf.count next shelf.virgin).1 = true ↔
      shelf.count < limit ∧ (settings.dumbMode = true ∨ novelty (· / 8) met next.simplifyTrace.bits ≠ 0)) ∧
    (shelf.count < limit → settings.dumbMode = false →
      (Fuzzer.unique settings limit shelf.count next shelf.virgin).2.LeftAfter (met ∪ next.simplifyTrace.bits)) := by
  unfold Fuzzer.unique
  split
  next full => exact ⟨by simp [Nat.not_lt.mpr full], fun room => absurd full (Nat.not_le.mpr room)⟩
  next room =>
    have room := Nat.not_le.mp room
    split
    next dumb => exact ⟨by simp [room, dumb], fun _ keen => absurd (dumb.symm.trans keen) (by decide)⟩
    next keen =>
      have keen : settings.dumbMode = false := by simpa using keen
      obtain ⟨value, left⟩ := hasNewBits_novelty next.simplifyTrace (fits room keen)
      exact ⟨by simp [room, keen, value], fun _ _ => left⟩

theorem Shelf.offer_virgin (item : ι) :
    (shelf.offer settings limit trace confirmed label item).virgin =
      (Fuzzer.unique settings limit shelf.count (trace item) shelf.virgin).2 := by
  simp only [Shelf.offer]
  split <;> rfl

theorem Shelf.le_offer_count (item : ι) : shelf.count ≤ (shelf.offer settings limit trace confirmed label item).count := by
  simp only [Shelf.offer]
  split
  next => exact Nat.le_succ _
  next => exact Nat.le_refl _

theorem Shelf.offer_fits (fits : shelf.Fits settings limit met) (item : ι) :
    (shelf.offer settings limit trace confirmed label item).Fits settings limit (met ∪ simplified trace item) := by
  intro room keen
  rw [Shelf.offer_virgin]
  exact (fits.unique (trace item)).2 (Nat.lt_of_le_of_lt (Shelf.le_offer_count trace confirmed label item) room) keen

/-- A shelf holds the first of those that were new and are confirmed, in their order, as many as there is room for. -/
theorem Shelf.offers_files (fits : shelf.Fits settings limit met) (items : List ι) :
    (items.foldl (Shelf.offer settings limit trace confirmed label) shelf).files =
      shelf.files ++ ((((sift settings.dumbMode (· / 8) (simplified trace) met items).filter confirmed).take
        (limit - shelf.count)).zipIdx shelf.count).map fun file => (label file.1, file.2) := by
  induction items generalizing shelf met with
  | nil => simp
  | cons item items ih =>
    rw [List.foldl_cons, ih (Shelf.offer_fits trace confirmed label fits item)]
    obtain ⟨keeps, _⟩ := fits.unique (trace item)
    by_cases room : shelf.count < limit
    · obtain ⟨free, count⟩ : ∃ free, limit - shelf.count = free + 1 := ⟨limit - shelf.count - 1, by omega⟩
      by_cases new : settings.dumbMode = true ∨ novelty (· / 8) met (simplified trace item) ≠ 0
      · rw [sift_cons_keep new]
        have kept := keeps.mpr ⟨room, new⟩
        cases sure : confirmed item with
        | true => simp [Shelf.offer, kept, sure, count, show limit - (shelf.count + 1) = free by omega]
        | false => simp [Shelf.offer, sure]
      · obtain ⟨keen, old⟩ := not_or.mp new
        have keen : settings.dumbMode = false := by simpa using keen
        have old : novelty (· / 8) met (simplified trace item) = 0 := by simpa using old
        have dropped : (Fuzzer.unique settings limit shelf.count (trace item) shelf.virgin).1 = false := by
          simpa using mt keeps.mp fun kept => new kept.2
        have same : met ∪ simplified trace item = met := Set.union_eq_self_of_subset_right (novelty_eq_zero_iff.mp old)
        rw [keen, sift_cons_drop old, same]
        simp [Shelf.offer, dropped]
    · have dropped : (Fuzzer.unique settings limit shelf.count (trace item) shelf.virgin).1 = false := by
        simpa using mt keeps.mp fun kept => room kept.1
      simp [Shelf.offer, dropped, show limit - shelf.count = 0 by omega]

end Shelves

def saveRun (settings : Settings) : Archive size α → List (Call size α) → Except Stop (Archive size α)
  | archive, [] => .ok archive
  | archive, call :: calls =>
    match saveIfInteresting settings archive call with
    | .error stop => .error stop
    | .ok (archive, _) => saveRun settings archive calls

section Runs

variable {settings : Settings}

namespace Archive

def hangs (archive : Archive size α) : List (α × Nat) :=
  archive.saved.filterMap fun
    | .hang id messages => some (messages, id)
    | _ => none

def crashes (archive : Archive size α) : List ((Nat × α) × Nat) :=
  archive.saved.filterMap fun
    | .crash id killSignal messages => some ((killSignal, messages), id)
    | _ => none

def hangShelf (archive : Archive size α) : Shelf size α := ⟨archive.uniqueHangs, archive.virginTmout, archive.hangs⟩

def violations (archive : Archive size α) : List (α × Nat) :=
  archive.saved.filterMap fun
    | .violation id messages => some (messages, id)
    | _ => none

def crashShelf (archive : Archive size α) : Shelf size (Nat × α) := ⟨archive.uniqueCrashes, archive.virginCrash, archive.crashes⟩

/-- The shelf of violations, and how many there were. -/
def violationShelf (archive : Archive size α) : Shelf size α × Nat :=
  (⟨archive.uniqueViolations, archive.virginViolations, archive.violations⟩, archive.totalViolations)

end Archive

/-- What gets to `keep_as_crash`. -/
structure Crash (size : Nat) (α : Type) where
  trace : Bitmap size
  killSignal : Nat
  messages : α

/-- What the call brings to `keep_as_crash`: a crash, or a timeout that is new and crashes when it has more time. -/
def crashShown (settings : Settings) (archive : Archive size α) (call : Call size α) : Option (Crash size α) :=
  match queueStep settings archive call with
  | .ok (.went archive _ trace) =>
    match call.fault with
    | .crash => some ⟨trace, call.killSignal, call.messages⟩
    | .tmout =>
      if (unique settings keepUniqueHang archive.uniqueHangs trace archive.virginTmout).1 && call.hanging settings == .crash then
        some ⟨call.traceRetried, call.killSignalRetried, call.messages⟩
      else none
    | _ => none
  | _ => none

def crashesShown (settings : Settings) : Archive size α → List (Call size α) → List (Crash size α)
  | _, [] => []
  | archive, call :: calls =>
    match saveIfInteresting settings archive call with
    | .error _ => []
    | .ok (next, _) => (crashShown settings archive call).toList ++ crashesShown settings next calls

def shelveCrash (settings : Settings) (shelf : Shelf size (Nat × α)) (crash : Crash size α) : Shelf size (Nat × α) :=
  shelf.offer settings keepUniqueCrash Crash.trace (fun _ => true) (fun crash => (crash.killSignal, crash.messages)) crash

def shelveHang (settings : Settings) (shelf : Shelf size α) (call : Call size α) : Shelf size α :=
  shelf.offer settings keepUniqueHang Call.trace (fun call => call.hanging settings == .hang) Call.messages call

def isTmout (call : Call size α) : Bool := call.fault == .tmout

theorem queueStep_error {archive : Archive size α} {call : Call size α} {stop : Stop}
    (step : queueStep settings archive call = .error stop) : stop = .unableToExecute ∧ call.fault ≠ .violation := by
  simp only [queueStep] at step
  split at step
  next queued =>
    have apart : call.fault ≠ .violation := by rw [queued, Settings.crashFault]; split <;> decide
    split at step
    · cases step
    · split at step
      · exact ⟨(Except.error.inj step).symm, apart⟩
      · cases step
  next => cases step

theorem queueStep_returned {archive next : Archive size α} {call : Call size α}
    (step : queueStep settings archive call = .ok (.returned next)) :
    next.crashShelf = archive.crashShelf ∧ next.hangShelf = archive.hangShelf ∧ next.violationShelf = archive.violationShelf ∧
      call.fault ≠ .tmout ∧ call.fault ≠ .violation := by
  simp only [queueStep] at step
  split at step
  next queued =>
    have apart : call.fault ≠ .tmout ∧ call.fault ≠ .violation := by rw [queued, Settings.crashFault]; split <;> decide
    split at step
    · cases step
      split <;> exact ⟨rfl, rfl, rfl, apart⟩
    · split at step <;> cases step
  next => cases step

theorem queueStep_went {archive next : Archive size α} {call : Call size α} {keeping : Bool} {trace : Bitmap size}
    (step : queueStep settings archive call = .ok (.went next keeping trace)) :
    next.crashShelf = archive.crashShelf ∧ next.hangShelf = archive.hangShelf ∧ next.violationShelf = archive.violationShelf ∧
      (call.fault = .tmout → trace = call.trace) := by
  simp only [queueStep] at step
  split at step
  next queued =>
    have apart : call.fault ≠ .tmout := by rw [queued, Settings.crashFault]; split <;> decide
    split at step
    · cases step
    · split at step
      · cases step
      · cases step
        refine ⟨?_, ?_, ?_, fun same => absurd same apart⟩
        · simp [Archive.crashShelf, Archive.crashes]
        · simp [Archive.hangShelf, Archive.hangs]
        · simp [Archive.violationShelf, Archive.violations]
  next => cases step; exact ⟨rfl, rfl, rfl, fun _ => rfl⟩

theorem keepAsCrash_shelves (settings : Settings) (archive : Archive size α) (crash : Crash size α) :
    ∃ next, finish (keepAsCrash settings archive crash.trace crash.killSignal crash.messages).1
        (keepAsCrash settings archive crash.trace crash.killSignal crash.messages).2 = .ok next ∧
      next.crashShelf = shelveCrash settings archive.crashShelf crash ∧ next.hangShelf = archive.hangShelf ∧
      next.violationShelf = archive.violationShelf := by
  cases keep : (unique settings keepUniqueCrash archive.uniqueCrashes crash.trace archive.virginCrash).1 with
  | true =>
    simp [keepAsCrash, keep, finish, shelveCrash, Shelf.offer, Archive.crashShelf, Archive.hangShelf, Archive.violationShelf,
      Archive.crashes, Archive.hangs, Archive.violations]
  | false =>
    simp [keepAsCrash, keep, finish, shelveCrash, Shelf.offer, Archive.crashShelf, Archive.hangShelf, Archive.violationShelf,
      Archive.crashes, Archive.hangs, Archive.violations]

theorem timedOut_shelves (settings : Settings) (archive : Archive size α) (call : Call size α) :
    ∃ next, finish (timedOut settings archive call call.trace).1 (timedOut settings archive call call.trace).2 = .ok next ∧
      next.hangShelf = shelveHang settings archive.hangShelf call ∧
      next.crashShelf =
        (if (unique settings keepUniqueHang archive.uniqueHangs call.trace archive.virginTmout).1 &&
            call.hanging settings == .crash then
          shelveCrash settings archive.crashShelf ⟨call.traceRetried, call.killSignalRetried, call.messages⟩
        else archive.crashShelf) ∧
      next.violationShelf = archive.violationShelf := by
  cases keep : (unique settings keepUniqueHang archive.uniqueHangs call.trace archive.virginTmout).1 with
  | false =>
    simp [timedOut, keep, finish, shelveHang, Shelf.offer, Archive.crashShelf, Archive.hangShelf, Archive.violationShelf,
      Archive.hangs, Archive.crashes, Archive.violations]
  | true =>
    cases hanging : call.hanging settings with
    | dropped =>
      simp [timedOut, keep, hanging, finish, shelveHang, Shelf.offer, Archive.crashShelf, Archive.hangShelf,
        Archive.violationShelf, Archive.hangs, Archive.crashes, Archive.violations]
    | hang =>
      simp [timedOut, keep, hanging, finish, shelveHang, Shelf.offer, Archive.crashShelf, Archive.hangShelf,
        Archive.violationShelf, Archive.hangs, Archive.crashes, Archive.violations]
    | crash =>
      let reached : Archive size α := { archive with
        totalTmouts := archive.totalTmouts + 1
        virginTmout := (unique settings keepUniqueHang archive.uniqueHangs call.trace archive.virginTmout).2
        uniqueTmouts := archive.uniqueTmouts + 1 }
      obtain ⟨next, done, crashed, hung, violated⟩ :=
        keepAsCrash_shelves settings reached ⟨call.traceRetried, call.killSignalRetried, call.messages⟩
      refine ⟨next, ?_, ?_, ?_, violated⟩
      · simpa [timedOut, keep, hanging] using done
      · rw [hung]
        simp [shelveHang, Shelf.offer, hanging, Archive.hangShelf, Archive.hangs, reached]
      · rw [crashed]
        rfl

/-- A violation that is let through has changed nothing but its own counter and map. -/
theorem violated_ok {archive : Archive size α} {call : Call size α} {trace : Bitmap size} {result : Archive size α × Option (Name α)}
    (done : violated settings archive call trace = .ok result) :
    result = ({ archive with
      totalViolations := archive.totalViolations + 1
      virginViolations := (unique settings keepUniqueViolations archive.uniqueViolations trace archive.virginViolations).2 }, none) := by
  simp only [violated, Archive.saveKlMessagesToFile_violation, Except.map] at done
  split at done
  · cases done
  · exact (Except.ok.inj done).symm

theorem saveIfInteresting_shelves {archive next : Archive size α} {call : Call size α} {keeping : Bool}
    (step : saveIfInteresting settings archive call = .ok (next, keeping)) :
    next.crashShelf = (crashShown settings archive call).toList.foldl (shelveCrash settings) archive.crashShelf ∧
      next.hangShelf = if isTmout call then shelveHang settings archive.hangShelf call else archive.hangShelf := by
  cases queued : queueStep settings archive call with
  | error => simp [saveIfInteresting, queued] at step
  | ok result =>
    cases result with
    | returned stopped =>
      obtain ⟨crashes, hangs, _, other, _⟩ := queueStep_returned queued
      simp only [saveIfInteresting, queued, Except.ok.injEq, Prod.mk.injEq] at step
      obtain ⟨rfl, _⟩ := step
      simp [crashShown, queued, isTmout, other, crashes, hangs]
    | went reached keep trace =>
      obtain ⟨crashes, hangs, _, same⟩ := queueStep_went queued
      cases fault : call.fault with
      | tmout =>
        obtain rfl := same fault
        obtain ⟨last, done, hung, crashed, _⟩ := timedOut_shelves settings reached call
        simp only [saveIfInteresting, queued, fault, done, Except.map, Except.ok.injEq, Prod.mk.injEq] at step
        obtain ⟨rfl, _⟩ := step
        rw [crashed, hung, crashes, hangs]
        simp only [crashShown, queued, fault, isTmout, beq_self_eq_true, if_true, and_true]
        split <;> rfl
      | crash =>
        obtain ⟨last, done, crashed, hung, _⟩ := keepAsCrash_shelves settings reached ⟨trace, call.killSignal, call.messages⟩
        simp only [saveIfInteresting, queued, fault, done, Except.map, Except.ok.injEq, Prod.mk.injEq] at step
        obtain ⟨rfl, _⟩ := step
        rw [crashed, hung, crashes, hangs]
        simp [crashShown, queued, fault, isTmout]
      | violation =>
        cases done : violated settings reached call trace with
        | error => simp [saveIfInteresting, queued, fault, done, Except.bind] at step
        | ok result =>
          obtain rfl := violated_ok done
          simp only [saveIfInteresting, queued, fault, done, Except.bind, finish, Except.map, Except.ok.injEq, Prod.mk.injEq] at step
          obtain ⟨rfl, _⟩ := step
          simpa [crashShown, queued, fault, isTmout] using ⟨crashes, hangs⟩
      | error => simp [saveIfInteresting, queued, fault] at step
      | none | noinst | nobits =>
        simp only [saveIfInteresting, queued, fault, Except.ok.injEq, Prod.mk.injEq] at step
        obtain ⟨rfl, _⟩ := step
        simp [crashShown, queued, fault, isTmout, crashes, hangs]

theorem saveRun_shelves {archive final : Archive size α} {calls : List (Call size α)} (run : saveRun settings archive calls = .ok final) :
    final.crashShelf = (crashesShown settings archive calls).foldl (shelveCrash settings) archive.crashShelf ∧
      final.hangShelf = (calls.filter isTmout).foldl (shelveHang settings) archive.hangShelf := by
  induction calls generalizing archive with
  | nil =>
    cases run
    exact ⟨rfl, rfl⟩
  | cons call calls ih =>
    rw [saveRun] at run
    split at run
    next => cases run
    next next keeping step =>
      obtain ⟨crashes, hangs⟩ := ih run
      obtain ⟨crash, hang⟩ := saveIfInteresting_shelves step
      constructor
      · rw [crashes, crash, crashesShown, step, List.foldl_append]
      · rw [hangs, hang, List.filter_cons]
        split <;> rfl

/-- What a campaign has saved. The hangs are the timeouts that were new to all timeouts before them and were genuine; the
crashes are those new to all that got to `keep_as_crash` before them; both in their order, numbered from 0 and up to the limit. -/
theorem saveRun_saved (virginBits : Bitmap size) (queuedPaths : Nat) {calls : List (Call size α)} {archive : Archive size α}
    (run : saveRun settings (.afterDryRun virginBits queuedPaths) calls = .ok archive) :
    archive.hangs =
      (((sift settings.dumbMode (· / 8) (simplified Call.trace) ∅ (calls.filter isTmout)).filter
        fun call => call.hanging settings == .hang).take keepUniqueHang).zipIdx.map (fun file => (file.1.messages, file.2)) ∧
    archive.crashes =
      ((sift settings.dumbMode (· / 8) (simplified Crash.trace) ∅
        (crashesShown settings (.afterDryRun virginBits queuedPaths) calls)).take
        keepUniqueCrash).zipIdx.map (fun file => ((file.1.killSignal, file.1.messages), file.2)) := by
  obtain ⟨crashes, hangs⟩ := saveRun_shelves run
  let start : Archive size α := .afterDryRun virginBits queuedPaths
  constructor
  · rw [show archive.hangs = archive.hangShelf.files from rfl, hangs]
    have fits : start.hangShelf.Fits settings keepUniqueHang ∅ := fun _ _ => Bitmap.untouched_left
    exact Shelf.offers_files _ _ _ fits _
  · rw [show archive.crashes = archive.crashShelf.files from rfl, crashes]
    have fits : start.crashShelf.Fits settings keepUniqueCrash ∅ := fun _ _ => Bitmap.untouched_left
    have files := Shelf.offers_files Crash.trace (fun _ => true) (fun crash => (crash.killSignal, crash.messages)) fits
      (crashesShown settings start calls)
    rwa [List.filter_true] at files

def plainCall (fault : FaultCode) (word : BitVec 64) (messages : String) : Call 1 String :=
  ⟨fault, ⟨[word], rfl⟩, 6, messages, [], .none, ⟨[word], rfl⟩, .none, ⟨[word], rfl⟩, 0, false⟩

/-- Two timeouts and two crashes on the same path each, a violation between them, and a crash on a path of its own. -/
theorem saveRun_saved_repeats :
    let settings : Settings := ⟨false, false, false⟩
    let calls := [plainCall .tmout 1 "USER", plainCall .violation 1 "PASS", plainCall .tmout 3 "QUIT", plainCall .crash 1 "RETR",
      plainCall .crash 5 "STOR", plainCall .crash 0x0100 "LIST"]
    ∃ archive, saveRun settings (.afterDryRun .untouched 3) calls = .ok archive ∧
      archive.hangs = [("USER", 0)] ∧ archive.crashes = [((6, "RETR"), 0), ((6, "LIST"), 1)] ∧ archive.totalViolations = 1 ∧
      archive.hangs =
        (((sift settings.dumbMode (· / 8) (simplified Call.trace) ∅ (calls.filter isTmout)).filter
          fun call => call.hanging settings == .hang).take keepUniqueHang).zipIdx.map (fun file => (file.1.messages, file.2)) ∧
      archive.crashes =
        ((sift settings.dumbMode (· / 8) (simplified Crash.trace) ∅
          (crashesShown settings (.afterDryRun .untouched 3) calls)).take
          keepUniqueCrash).zipIdx.map (fun file => ((file.1.killSignal, file.1.messages), file.2)) := by
  intro settings calls
  obtain ⟨archive, run, hangs, crashes, violations⟩ : ∃ archive, saveRun settings (.afterDryRun .untouched 3) calls = .ok archive ∧
      archive.hangs = [("USER", 0)] ∧ archive.crashes = [((6, "RETR"), 0), ((6, "LIST"), 1)] ∧ archive.totalViolations = 1 :=
    ⟨_, rfl, by decide +kernel, by decide +kernel, by decide +kernel⟩
  exact ⟨archive, run, hangs, crashes, violations, saveRun_saved .untouched 3 run⟩

end Runs

section Violations

variable {settings : Settings}

def isViolation (call : Call size α) : Bool := call.fault == .violation

/-- Violations were counted, and no more. The map still lets nothing through. -/
structure Archive.Unviolated (archive : Archive size α) (count : Nat) : Prop where
  virgin : archive.virginViolations.LeftAfter Set.univ
  unique : archive.uniqueViolations = 0
  files : archive.violations = []
  total : archive.totalViolations = count

theorem Archive.Unviolated.of_eq {archive next : Archive size α} {count : Nat} (unviolated : archive.Unviolated count)
    (same : next.violationShelf = archive.violationShelf) : next.Unviolated count := by
  simp only [Archive.violationShelf, Prod.mk.injEq, Shelf.mk.injEq] at same
  obtain ⟨⟨unique, virgin, files⟩, total⟩ := same
  exact ⟨virgin ▸ unviolated.virgin, unique.trans unviolated.unique, files.trans unviolated.files, total.trans unviolated.total⟩

/-- Only in dumb mode, where the map is not asked, is a violation to be kept; and then there is no place for its file. -/
theorem violated_unviolated (settings : Settings) {archive : Archive size α} {count : Nat} (unviolated : archive.Unviolated count)
    (call : Call size α) (trace : Bitmap size) :
    match violated settings archive call trace with
    | .error stop => stop = .unableToCreate ∧ settings.dumbMode = true
    | .ok (next, name) => next.Unviolated (count + 1) ∧ name = none ∧ settings.dumbMode = false := by
  obtain ⟨value, left⟩ := hasNewBits_novelty trace.simplifyTrace unviolated.virgin
  rw [novelty_eq_zero_iff.mpr (Set.subset_univ _)] at value
  rw [Set.univ_union] at left
  have room : ¬keepUniqueViolations ≤ archive.uniqueViolations := by rw [unviolated.unique]; decide
  simp only [violated, unique, if_neg room]
  cases mode : settings.dumbMode with
  | true => simp [Except.map]
  | false =>
    simp only [value, Bool.false_eq_true, if_false, bne_self_eq_false]
    exact ⟨⟨left, unviolated.unique, unviolated.files, congrArg (· + 1) unviolated.total⟩, trivial, trivial⟩

theorem saveIfInteresting_unviolated (settings : Settings) {archive : Archive size α} {count : Nat}
    (unviolated : archive.Unviolated count) (call : Call size α) :
    match saveIfInteresting settings archive call with
    | .error stop => stop ≠ .usedAfterFree ∧ (stop = .unableToCreate ↔ settings.dumbMode = true ∧ call.fault = .violation)
    | .ok (next, _) => next.Unviolated (count + if isViolation call then 1 else 0) ∧
        ¬(settings.dumbMode = true ∧ call.fault = .violation) := by
  cases queued : queueStep settings archive call with
  | error stop =>
    obtain ⟨rfl, other⟩ := queueStep_error queued
    simp [saveIfInteresting, queued, other]
  | ok result =>
    cases result with
    | returned stopped =>
      obtain ⟨_, _, kept, _, other⟩ := queueStep_returned queued
      simpa [saveIfInteresting, queued, isViolation, other] using unviolated.of_eq kept
    | went reached keep trace =>
      obtain ⟨_, _, kept, same⟩ := queueStep_went queued
      have still := unviolated.of_eq kept
      cases fault : call.fault with
      | tmout =>
        obtain rfl := same fault
        obtain ⟨last, done, _, _, kept⟩ := timedOut_shelves settings reached call
        simpa [saveIfInteresting, queued, fault, done, Except.map, isViolation] using still.of_eq kept
      | crash =>
        obtain ⟨last, done, _, _, kept⟩ := keepAsCrash_shelves settings reached ⟨trace, call.killSignal, call.messages⟩
        simpa [saveIfInteresting, queued, fault, done, Except.map, isViolation] using still.of_eq kept
      | violation =>
        have next := violated_unviolated settings still call trace
        cases done : violated settings reached call trace with
        | error stop =>
          rw [done] at next
          simp [saveIfInteresting, queued, fault, done, Except.bind, next]
        | ok result =>
          obtain ⟨last, name⟩ := result
          rw [done] at next
          obtain ⟨counted, rfl, keen⟩ := next
          simpa [saveIfInteresting, queued, fault, done, Except.bind, finish, Except.map, isViolation, keen] using counted
      | error => simp [saveIfInteresting, queued, fault]
      | none | noinst | nobits => simpa [saveIfInteresting, queued, fault, isViolation] using still

theorem saveRun_unviolated (settings : Settings) {archive : Archive size α} {count : Nat} (unviolated : archive.Unviolated count)
    (calls : List (Call size α)) :
    (match saveRun settings archive calls with
      | .error stop => stop ≠ .usedAfterFree
      | .ok last => last.Unviolated (count + calls.countP isViolation)) ∧
    (saveRun settings archive calls = .error .unableToCreate ↔ settings.dumbMode = true ∧
      ∃ earlier call later final, calls = earlier ++ call :: later ∧ saveRun settings archive earlier = .ok final ∧
        call.fault = .violation) := by
  induction calls generalizing archive count with
  | nil => simp [saveRun, unviolated]
  | cons first calls ih =>
    have step := saveIfInteresting_unviolated settings unviolated first
    cases result : saveIfInteresting settings archive first with
    | error stop =>
      rw [result] at step
      refine ⟨by simpa [saveRun, result] using step.1, ?_⟩
      simp only [saveRun, result, Except.error.injEq, step.2]
      refine and_congr_right fun _ => ⟨fun violating => ⟨[], first, calls, archive, rfl, rfl, violating⟩, ?_⟩
      rintro ⟨earlier, call, later, final, split, run, violating⟩
      cases earlier with
      | nil =>
        cases split
        exact violating
      | cons =>
        cases split
        simp [saveRun, result] at run
    | ok pair =>
      obtain ⟨next, keeping⟩ := pair
      rw [result] at step
      obtain ⟨still, harmless⟩ := step
      obtain ⟨ends, stops⟩ := ih still
      refine ⟨?_, ?_⟩
      · rw [List.countP_cons, Nat.add_comm (calls.countP isViolation), ← Nat.add_assoc]
        simpa [saveRun, result] using ends
      · simp only [saveRun, result, stops]
        refine and_congr_right fun dumb => ⟨?_, ?_⟩
        · rintro ⟨earlier, call, later, final, rfl, run, violating⟩
          exact ⟨first :: earlier, call, later, final, rfl, by simpa [saveRun, result] using run, violating⟩
        · rintro ⟨earlier, call, later, final, split, run, violating⟩
          cases earlier with
          | nil =>
            cases split
            exact absurd ⟨dumb, violating⟩ harmless
          | cons =>
            cases split
            exact ⟨_, call, later, final, rfl, by simpa [saveRun, result] using run, violating⟩

/-- No campaign saves a violation. The map of violations is never set up, so that no trace is new to it; in dumb mode, where
it is not asked, the first violation is the end, for want of a directory. -/
theorem saveRun_violations (settings : Settings) (virginBits : Bitmap size) (queuedPaths : Nat) (calls : List (Call size α)) :
    (∀ archive, saveRun settings (.afterDryRun virginBits queuedPaths) calls = .ok archive →
      archive.violations = [] ∧ archive.uniqueViolations = 0 ∧ archive.totalViolations = calls.countP isViolation) ∧
    saveRun settings (.afterDryRun virginBits queuedPaths) calls ≠ .error .usedAfterFree ∧
    (saveRun settings (.afterDryRun virginBits queuedPaths) calls = .error .unableToCreate ↔ settings.dumbMode = true ∧
      ∃ earlier call later final, calls = earlier ++ call :: later ∧
        saveRun settings (.afterDryRun virginBits queuedPaths) earlier = .ok final ∧ call.fault = .violation) := by
  have blank : (Archive.afterDryRun virginBits queuedPaths : Archive size α).Unviolated 0 := ⟨Bitmap.zero_left, rfl, rfl, rfl⟩
  obtain ⟨ends, stops⟩ := saveRun_unviolated settings blank calls
  refine ⟨?_, ?_, stops⟩
  · intro archive run
    rw [run, Nat.zero_add] at ends
    exact ⟨ends.files, ends.unique, ends.total⟩
  · intro used
    rw [used] at ends
    exact ends rfl

end Violations

end LtlFuzz.Fuzzer
