/-
The in-memory port (`core/memory-port.ts`): owned files with a volatile and a durable image, the
effects between the two, and the faults a test injects.

Images are views over buffers of one heap, so that two images over one buffer, or a write that goes
through a view into another file, can be told from what the port does.  The bytes of an effect are a
clone that nothing writes to, and the images that `terminate` builds are clones as well: both are plain
byte strings here.  A method that throws leaves behind what it did before.
-/
import Pgxsinkit.Lib.Growable
import Pgxsinkit.Lib.OrdMap
import Pgxsinkit.Lib.JsNumber
import Pgxsinkit.Opfs.Path

namespace Opfs.Memory

open Bytes Growable

inductive OwnedFileName
  | arena
  | metadataA
  | metadataB
  | activation
  deriving DecidableEq, Repr

def OwnedFileName.text : OwnedFileName → String
  | arena => "arena.bin"
  | metadataA => "metadata-a.bin"
  | metadataB => "metadata-b.bin"
  | activation => "activation.bin"

/-- `OWNED_FILE_NAMES` -/
def ownedFileNames : List OwnedFileName := [.arena, .metadataA, .metadataB, .activation]

def OwnedFileName.units (name : OwnedFileName) : JsString := Unicode.ofChars name.text.toList

/-- `isOwnedFileName(name)`, and which one it is. -/
def ownedFileName? (name : JsString) : Option OwnedFileName :=
  ownedFileNames.find? fun owned => owned.units = name

inductive PortError
  | error (message : String)
  | typeError (message : String)
  | rangeError (message : String)
  | quotaExceeded (message : String)
  | storeOwned
  deriving DecidableEq, Repr

inductive MemoryOperation
  | enumerate
  | acquire
  | getSize
  | read
  | write
  | truncate
  | flush
  deriving DecidableEq, Repr

inductive FaultOutcome
  | short
  | throwBefore
  | throwAfter
  | quota
  deriving DecidableEq, Repr

def FaultOutcome.text : FaultOutcome → String
  | short => "short"
  | throwBefore => "throw-before"
  | throwAfter => "throw-after"
  | quota => "quota"

/-- A fault that `injectFault` accepted. -/
structure MemoryFault where
  operation : MemoryOperation
  outcome : FaultOutcome
  file : Option JsString
  label : Option JsString
  bytes : Option ℕ
  occurrence : Option ℕ
  deriving DecidableEq, Repr

def MemoryFault.matches (operation : MemoryOperation) (file : Option JsString) (label : JsString)
    (fault : MemoryFault) : Bool :=
  fault.operation = operation ∧ (fault.file = none ∨ fault.file = file) ∧
    (fault.label = none ∨ fault.label = some label)

inductive EffectKind
  | write (offset : ℕ) (data : List UInt8)
  | truncate (size : ℕ)
  deriving DecidableEq, Repr

structure MemoryEffect where
  id : ℕ
  file : OwnedFileName
  kind : EffectKind
  deriving DecidableEq, Repr

inductive TerminationDecision
  | absent
  | full
  | bytes (count : JsNumber)
  deriving DecidableEq

structure MemoryOperationRecord where
  operation : MemoryOperation
  file : Option OwnedFileName
  label : JsString
  copiedBytes : Option ℕ
  deriving DecidableEq, Repr

inductive EntryKind
  | file
  | directory
  deriving DecidableEq, Repr

structure Port where
  heap : Heap
  durable : OrdMap OwnedFileName View
  volatile : OrdMap OwnedFileName View
  entryKinds : OrdMap JsString EntryKind
  opened : Finset OwnedFileName
  faults : List MemoryFault
  operations : List MemoryOperationRecord
  effects : List MemoryEffect
  nextEffectId : ℕ
  epoch : ℕ

namespace Port

/-- `new MemoryRepackedPort()` -/
def new : Port where
  heap := []
  durable := .empty
  volatile := .empty
  entryKinds := .empty
  opened := ∅
  faults := []
  operations := []
  effects := []
  nextEffectId := 1
  epoch := 1

/-! ### Faults and ranges -/

/-- A non-negative safe integer. -/
def count? (value : JsNumber) : Option ℕ :=
  match value.safeInteger? with
  | some n => if n < 0 then none else some n.toNat
  | none => none

/-- An optional count is absent or valid. -/
def optionalCount (message : String) : Option JsNumber → Except PortError (Option ℕ)
  | none => .ok none
  | some value =>
    match count? value with
    | some n => .ok (some n)
    | none => .error (.typeError message)

def injectFault (port : Port) (operation : MemoryOperation) (outcome : FaultOutcome)
    (file label : Option JsString) (bytes occurrence : Option JsNumber) : Except PortError Port := do
  if outcome = .quota ∧ operation ≠ .truncate then
    throw (.typeError "quota faults are supported only for arena growth truncates")
  let bytes ← optionalCount "fault byte count must be a non-negative safe integer" bytes
  let occurrence ← optionalCount "fault occurrence must be a non-negative safe integer" occurrence
  return { port with faults := port.faults ++ [{ operation, outcome, file, label, bytes, occurrence }] }

/-- The first fault that matches waits for its occurrence, and is then used up. -/
def takeFault (port : Port) (operation : MemoryOperation) (file : Option OwnedFileName)
    (label : JsString) : Option MemoryFault × Port :=
  let index := port.faults.findIdx (MemoryFault.matches operation (file.map OwnedFileName.units) label)
  match port.faults[index]? with
  | none => (none, port)
  | some fault =>
    if 0 < fault.occurrence.getD 0 then
      (none, { port with
        faults := port.faults.set index { fault with occurrence := fault.occurrence.map (· - 1) } })
    else (some fault, { port with faults := port.faults.eraseIdx index })

def recordOperation (port : Port) (operation : MemoryOperation) (file : Option OwnedFileName)
    (label : JsString) (copiedBytes : Option ℕ) : Port :=
  { port with operations := port.operations ++ [{ operation, file, label, copiedBytes }] }

/-- The sum of two safe integers is rounded only where it is no safe integer any more. -/
def validateRange (offset : JsNumber) (length : ℕ) : Except PortError ℕ :=
  match count? offset with
  | none => .error (.rangeError "memory port range is invalid")
  | some n =>
    if length > 2 ^ 53 - 1 then .error (.rangeError "memory port range is invalid")
    else if n + length > 2 ^ 53 - 1 then .error (.rangeError "memory port range exceeds safe integers")
    else .ok n

/-! ### Entries -/

/-- `new Uint8Array()` as the image of a file. -/
def emptyDurable (port : Port) (name : OwnedFileName) : Port :=
  let (view, heap) := allocate port.heap [] 0
  { port with heap := heap, durable := port.durable.set name view }

def emptyVolatile (port : Port) (name : OwnedFileName) : Port :=
  let (view, heap) := allocate port.heap [] 0
  { port with heap := heap, volatile := port.volatile.set name view }

/-- The epoch of the new handle, which is for `name`. -/
def acquire (port : Port) (name : OwnedFileName) (label : JsString) : Except PortError ℕ × Port :=
  let port := port.recordOperation .acquire name label none
  let (fault, port) := port.takeFault .acquire name label
  if fault.map MemoryFault.outcome = some .throwBefore then
    (.error (.error "injected acquire failure before effect"), port)
  else if name ∈ port.opened then (.error .storeOwned, port)
  else if port.entryKinds.get? name.units = some .directory then
    (.error (.error s!"memory entry {name.text} is not a file"), port)
  else
    let port :=
      if port.volatile.has name then port
      else
        let port := (port.emptyVolatile name).emptyDurable name
        { port with entryKinds := port.entryKinds.set name.units .file }
    match fault with
    | some fault => (.error (.error s!"injected acquire failure {fault.outcome.text}"), port)
    | none => (.ok port.epoch, { port with opened := insert name port.opened })

def injectEntry (port : Port) (name : JsString) (kind : EntryKind) : Except PortError Port :=
  match ownedFileName? name with
  | none => .ok { port with entryKinds := port.entryKinds.set name kind }
  | some owned =>
    if owned ∈ port.opened then
      .error (.error s!"cannot replace acquired memory entry {owned.text}")
    else
      let port :=
        { port with
          entryKinds := port.entryKinds.set name kind
          effects := port.effects.filter fun effect => effect.file ≠ owned }
      .ok (match kind with
        | .file => (port.emptyVolatile owned).emptyDurable owned
        | .directory =>
          { port with volatile := port.volatile.delete owned, durable := port.durable.delete owned })

/-! ### The methods behind a handle -/

def file (port : Port) (name : OwnedFileName) : Except PortError View :=
  match port.volatile.get? name with
  | some view => .ok view
  | none => .error (.error s!"memory file {name.text} was not acquired")

def pushEffect (port : Port) (name : OwnedFileName) (kind : EffectKind) : Port :=
  { port with
    effects := port.effects ++ [{ id := port.nextEffectId, file := name, kind := kind }]
    nextEffectId := port.nextEffectId + 1 }

/-- A live image written in place, resized first where the write ends behind it. -/
def writeImage (heap : Heap) (current : View) (offset : ℕ) (data : List UInt8) : View × Heap :=
  let required := offset + data.length
  let (target, heap) := if required > current.length then resize heap current required else (current, heap)
  (target, target.set heap offset data)

def recordWrite (port : Port) (name : OwnedFileName) (offset : ℕ) (source : List UInt8) :
    Except PortError Port :=
  match port.file name with
  | .error e => .error e
  | .ok current =>
    let (target, heap) := writeImage port.heap current offset source
    .ok ({ port with heap := heap, volatile := port.volatile.set name target }.pushEffect name
      (.write offset source))

/-- One pending effect on the durable image, and the bytes it copies. -/
def replayEffect (kind : EffectKind) (image : View) (heap : Heap) (copied : ℕ) : View × Heap × ℕ :=
  match kind with
  | .truncate size =>
    let (resized, heap) := resize heap image size
    (resized, heap, if resized.buffer ≠ image.buffer then copied + image.length else copied)
  | .write offset data =>
    let required := offset + data.length
    let (grown, heap) := if required > image.length then resize heap image required else (image, heap)
    let copied := if grown.buffer ≠ image.buffer then copied + image.length else copied
    (grown, grown.set heap offset data, copied + data.length)

/-- The loop of `#makeDurable` over the effects of one file. -/
def replayEffects : List EffectKind → View → Heap → ℕ → View × Heap × ℕ
  | [], image, heap, copied => (image, heap, copied)
  | kind :: kinds, image, heap, copied =>
    let (image, heap, copied) := replayEffect kind image heap copied
    replayEffects kinds image heap copied

/-- The effects that wait for a flush of one file, in their order. -/
def pending (port : Port) (name : OwnedFileName) : List EffectKind :=
  (port.effects.filter fun effect => effect.file = name).map MemoryEffect.kind

def makeDurable (port : Port) (name : OwnedFileName) : ℕ × Port :=
  let (image, heap) :=
    match port.durable.get? name with
    | some image => (image, port.heap)
    | none => allocate port.heap [] 0
  let (image, heap, copied) := replayEffects (port.pending name) image heap 0
  (copied,
    { port with
      heap := heap
      durable := port.durable.set name image
      effects := port.effects.filter fun effect => effect.file ≠ name })

def handleGetSize (port : Port) (name : OwnedFileName) (label : JsString) : Except PortError ℕ × Port :=
  let port := port.recordOperation .getSize name label none
  let (fault, port) := port.takeFault .getSize name label
  match fault with
  | some fault => (.error (.error s!"injected getSize failure {fault.outcome.text}"), port)
  | none => (View.length <$> port.file name, port)

/-- The bytes that land in the target, which has room for `length`. -/
def handleRead (port : Port) (name : OwnedFileName) (length : ℕ) (offset : JsNumber) (label : JsString) :
    Except PortError (List UInt8) × Port :=
  match validateRange offset length with
  | .error e => (.error e, port)
  | .ok offset =>
    let port := port.recordOperation .read name label none
    let (fault, port) := port.takeFault .read name label
    match fault.map MemoryFault.outcome with
    | some .throwBefore => (.error (.error "injected read failure before effect"), port)
    | some .throwAfter => (.error (.error "injected read failure after effect"), port)
    | outcome =>
      match port.file name with
      | .error e => (.error e, port)
      | .ok source =>
        let available := min length (source.length - offset)
        let count :=
          if outcome = some .short then min available ((fault.bind MemoryFault.bytes).getD 0) else available
        (.ok (slice (source.bytes port.heap) offset count), port)

def handleWrite (port : Port) (name : OwnedFileName) (source : List UInt8) (offset : JsNumber)
    (label : JsString) : Except PortError ℕ × Port :=
  match validateRange offset source.length with
  | .error e => (.error e, port)
  | .ok offset =>
    let port := port.recordOperation .write name label none
    let (fault, port) := port.takeFault .write name label
    let outcome := fault.map MemoryFault.outcome
    if outcome = some .throwBefore then (.error (.error "injected write failure before effect"), port)
    else
      let count :=
        if outcome = some .short ∨ outcome = some .throwAfter then
          min source.length ((fault.bind MemoryFault.bytes).getD source.length)
        else source.length
      match if 0 < count then port.recordWrite name offset (source.take count) else .ok port with
      | .error e => (.error e, port)
      | .ok port =>
        if outcome = some .throwAfter then
          (.error (.error "injected write failure after effect"), port)
        else (.ok count, port)

def handleTruncate (port : Port) (name : OwnedFileName) (size : JsNumber) (label : JsString) :
    Except PortError Unit × Port :=
  match validateRange size 0 with
  | .error e => (.error e, port)
  | .ok size =>
    let port := port.recordOperation .truncate name label none
    let (fault, port) := port.takeFault .truncate name label
    let outcome := fault.map MemoryFault.outcome
    if outcome = some .quota then (.error (.quotaExceeded "injected arena quota exhaustion"), port)
    else if outcome = some .throwBefore then
      (.error (.error "injected truncate failure before effect"), port)
    else
      match port.file name with
      | .error e => (.error e, port)
      | .ok current =>
        let (target, heap) := resize port.heap current size
        let port :=
          { port with heap := heap, volatile := port.volatile.set name target }.pushEffect name
            (.truncate size)
        if outcome = some .throwAfter then
          (.error (.error "injected truncate failure after effect"), port)
        else (.ok (), port)

/-- The record of a flush is filled in after the copy. -/
def handleFlush (port : Port) (name : OwnedFileName) (label : JsString) : Except PortError Unit × Port :=
  let (fault, taken) := port.takeFault .flush name label
  let outcome := fault.map MemoryFault.outcome
  if outcome = some .throwBefore then
    (.error (.error "injected flush failure before effect"),
      taken.recordOperation .flush name label (some 0))
  else
    let (copied, port) := taken.makeDurable name
    let port := port.recordOperation .flush name label (some copied)
    if outcome = some .throwAfter then (.error (.error "injected flush failure after effect"), port)
    else (.ok (), port)

def handleClose (port : Port) (name : OwnedFileName) : Port :=
  { port with opened := port.opened.erase name }

/-! ### Termination -/

def applyWrite (current : List UInt8) (offset : ℕ) (source : List UInt8) : List UInt8 :=
  let required := offset + source.length
  let next := if required ≤ current.length then current else overwrite (zeros required) 0 current
  overwrite next offset source

def applyTruncate (current : List UInt8) (size : ℕ) : List UInt8 :=
  if size = current.length then current
  else overwrite (zeros size) 0 (slice current 0 (min size current.length))

/-- One effect on the images that survive, as it was decided. -/
def materializeEffect (decisions : ℕ → Option TerminationDecision)
    (materialized : OrdMap OwnedFileName (List UInt8)) (effect : MemoryEffect) :
    Except PortError (OrdMap OwnedFileName (List UInt8)) :=
  let current := (materialized.get? effect.file).getD []
  match (decisions effect.id).getD .absent, effect.kind with
  | .absent, _ => .ok materialized
  | .full, .truncate size => .ok (materialized.set effect.file (applyTruncate current size))
  | .bytes _, .truncate _ =>
    .error (.typeError "truncate termination decisions must be absent or full")
  | decision, .write offset data =>
    let bytes := match decision with
      | .bytes count => count
      | _ => JsNumber.ofNat data.length
    match count? bytes with
    | none => .error (.typeError "write termination prefix is outside the effect")
    | some count =>
      if count > data.length then .error (.typeError "write termination prefix is outside the effect")
      else if 0 < count then
        .ok (materialized.set effect.file (applyWrite current offset (slice data 0 count)))
      else .ok materialized

def materialize (decisions : ℕ → Option TerminationDecision) :
    OrdMap OwnedFileName (List UInt8) → List MemoryEffect →
      Except PortError (OrdMap OwnedFileName (List UInt8))
  | materialized, [] => .ok materialized
  | materialized, effect :: effects =>
    match materializeEffect decisions materialized effect with
    | .error e => .error e
    | .ok materialized => materialize decisions materialized effects

/-- `durableBytes(name)` of every file there is. -/
def durableImages (port : Port) : OrdMap OwnedFileName (List UInt8) :=
  port.durable.entries.foldl (fun images entry => images.set entry.1 (entry.2.bytes port.heap)) .empty

/-- Both images of a file, each a clone of its own. -/
def storeImages (port : Port) (entry : OwnedFileName × List UInt8) : Port :=
  let (view, heap) := allocate port.heap entry.2 entry.2.length
  let port := { port with heap := heap, durable := port.durable.set entry.1 view }
  let (view, heap) := allocate port.heap entry.2 entry.2.length
  { port with heap := heap, volatile := port.volatile.set entry.1 view }

def terminate (port : Port) (decisions : ℕ → Option TerminationDecision) : Except PortError Port :=
  match materialize decisions port.durableImages port.effects with
  | .error e => .error e
  | .ok materialized =>
    let port := { port with durable := .empty, volatile := .empty }
    .ok { materialized.entries.foldl storeImages port with
      effects := []
      faults := []
      opened := ∅
      epoch := port.epoch + 1 }

end Port

/-! ### Handles, and what a user of the port can do -/

structure MemoryHandle where
  name : OwnedFileName
  epoch : ℕ
  closed : Bool
  deriving DecidableEq, Repr

/-- The port and every handle it ever gave out. -/
structure World where
  port : Port
  handles : List MemoryHandle

def World.start : World := ⟨.new, []⟩

inductive Request
  | acquire (name : OwnedFileName) (label : JsString)
  | getSize (handle : ℕ) (label : JsString)
  | read (handle : ℕ) (length : ℕ) (offset : JsNumber) (label : JsString)
  | write (handle : ℕ) (source : List UInt8) (offset : JsNumber) (label : JsString)
  | truncate (handle : ℕ) (size : JsNumber) (label : JsString)
  | flush (handle : ℕ) (label : JsString)
  | close (handle : ℕ)
  | injectEntry (name : JsString) (kind : EntryKind)
  | injectFault (operation : MemoryOperation) (outcome : FaultOutcome) (file label : Option JsString)
      (bytes occurrence : Option JsNumber)
  | terminate (decisions : ℕ → Option TerminationDecision)
  | clearObservedOperations

inductive Answer
  | done
  | handle (index : ℕ)
  | number (n : ℕ)
  | bytes (bytes : List UInt8)
  deriving DecidableEq, Repr

namespace World

/-- A method of a handle, behind `#assertOpen`. -/
def withHandle (world : World) (index : ℕ) (method : OwnedFileName → Except PortError Answer × Port) :
    Except PortError Answer × World :=
  match world.handles[index]? with
  | none => (.error (.typeError "no handle"), world)
  | some handle =>
    if handle.closed ∨ handle.epoch ≠ world.port.epoch then
      (.error (.error s!"memory handle {handle.name.text} is closed"), world)
    else
      let (answer, port) := method handle.name
      (answer, { world with port := port })

/-- `close()`, which never throws. -/
def close (world : World) (index : ℕ) : World :=
  match world.handles[index]? with
  | none => world
  | some handle =>
    if handle.closed then world
    else
      let port :=
        if handle.epoch = world.port.epoch then world.port.handleClose handle.name else world.port
      ⟨port, world.handles.set index { handle with closed := true }⟩

/-- A method of the port that changes nothing when it throws. -/
def ofExcept (world : World) : Except PortError Port → Except PortError Answer × World
  | .ok port => (.ok .done, { world with port := port })
  | .error e => (.error e, world)

def step (world : World) : Request → Except PortError Answer × World
  | .acquire name label =>
    match world.port.acquire name label with
    | (.error e, port) => (.error e, { world with port := port })
    | (.ok epoch, port) =>
      (.ok (.handle world.handles.length), ⟨port, world.handles ++ [⟨name, epoch, false⟩]⟩)
  | .getSize handle label => world.withHandle handle fun name =>
    let (answer, port) := world.port.handleGetSize name label
    (Answer.number <$> answer, port)
  | .read handle length offset label => world.withHandle handle fun name =>
    let (answer, port) := world.port.handleRead name length offset label
    (Answer.bytes <$> answer, port)
  | .write handle source offset label => world.withHandle handle fun name =>
    let (answer, port) := world.port.handleWrite name source offset label
    (Answer.number <$> answer, port)
  | .truncate handle size label => world.withHandle handle fun name =>
    let (answer, port) := world.port.handleTruncate name size label
    ((fun _ => .done) <$> answer, port)
  | .flush handle label => world.withHandle handle fun name =>
    let (answer, port) := world.port.handleFlush name label
    ((fun _ => .done) <$> answer, port)
  | .close handle => (.ok .done, world.close handle)
  | .injectEntry name kind => world.ofExcept (world.port.injectEntry name kind)
  | .injectFault operation outcome file label bytes occurrence =>
    world.ofExcept (world.port.injectFault operation outcome file label bytes occurrence)
  | .terminate decisions => world.ofExcept (world.port.terminate decisions)
  | .clearObservedOperations => (.ok .done, { world with port := { world.port with operations := [] } })

/-- The world after a sequence of requests, whatever each was answered. -/
def run (world : World) (requests : List Request) : World :=
  requests.foldl (fun world request => (world.step request).2) world

end World

end Opfs.Memory
