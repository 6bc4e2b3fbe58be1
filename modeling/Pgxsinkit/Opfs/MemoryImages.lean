/-
What the images of the in-memory port show.

`EffectKind.onBytes` says on plain byte strings what an effect does.  `Coherent` is the invariant: no two
images share a buffer, and a volatile image is the durable one with the pending effects applied.  A
method of a handle is `Touched`: it logs, it makes one effect, or it flushes one file.
-/
import Pgxsinkit.Opfs.MemoryPort

namespace Opfs.Memory

open Bytes Growable

/-- One effect on the bytes of a file. -/
def EffectKind.onBytes (bytes : List UInt8) : EffectKind → List UInt8
  | write offset data => written bytes offset data
  | truncate size => resized bytes size

def replay (bytes : List UInt8) (kinds : List EffectKind) : List UInt8 :=
  kinds.foldl EffectKind.onBytes bytes

/-- A write of at least one byte, and of no more than a typed array has. -/
def EffectKind.Sized : EffectKind → Prop
  | write _ data => 0 < data.length ∧ data.length ≤ 2 ^ 53 - 1
  | truncate _ => True

inductive Side
  | durable
  | volatile
  deriving DecidableEq, Repr

namespace Port

def images (port : Port) : Side → OrdMap OwnedFileName View
  | .durable => port.durable
  | .volatile => port.volatile

/-- The bytes of an image, where the file is there. -/
def content (port : Port) (side : Side) (name : OwnedFileName) : Option (List UInt8) :=
  ((port.images side).get? name).map (View.bytes port.heap)

/-- Another view for one image, in a later heap. -/
def setImage (port : Port) (side : Side) (name : OwnedFileName) (view : View) (heap : Heap) : Port :=
  match side with
  | .durable => { port with heap := heap, durable := port.durable.set name view }
  | .volatile => { port with heap := heap, volatile := port.volatile.set name view }

theorem get?_setImage (port : Port) (side side' : Side) (name name' : OwnedFileName) (view : View)
    (heap : Heap) :
    ((port.setImage side name view heap).images side').get? name' =
      if side' = side ∧ name' = name then some view else (port.images side').get? name' := by
  cases side <;> cases side' <;> simp [setImage, images, OrdMap.get?_set]

@[simp] theorem heap_setImage (port : Port) (side : Side) (name : OwnedFileName) (view : View)
    (heap : Heap) : (port.setImage side name view heap).heap = heap := by
  cases side <;> rfl

/-! ### Images on buffers of their own -/

structure Separate (port : Port) : Prop where
  valid : ∀ {side name view}, (port.images side).get? name = some view → view.Valid port.heap
  apart : ∀ {side side' name name' view view'}, (port.images side).get? name = some view →
    (port.images side').get? name' = some view' → view.buffer = view'.buffer →
      side = side' ∧ name = name'

/-- A later heap in which every image but one is untouched, and none lies on the buffer of `view`. -/
def Spares (port : Port) (side : Side) (name : OwnedFileName) (view : View) (heap : Heap) : Prop :=
  ∀ side' name' other, ¬ (side' = side ∧ name' = name) →
    (port.images side').get? name' = some other →
      other.Valid heap ∧ other.bytes heap = other.bytes port.heap ∧ other.buffer ≠ view.buffer

variable {port port' : Port} {side : Side} {name : OwnedFileName} {view view' : View} {heap : Heap}

theorem Separate.spares (h : port.Separate) (hview : (port.images side).get? name = some view)
    (hmoved : Moved port.heap view heap view') : port.Spares side name view' heap := by
  intro side' name' other hne hother
  have hvalid := h.valid hother
  have hbuffer : other.buffer ≠ view.buffer := fun heq => hne (h.apart hother hview heq)
  exact ⟨hmoved.valid_of hvalid hbuffer, hmoved.bytes_eq hvalid.allocated hbuffer,
    hmoved.buffer_ne hvalid.allocated hbuffer⟩

theorem Separate.spares_allocate (h : port.Separate) (side : Side) (name : OwnedFileName)
    (bytes : List UInt8) (capacity : ℕ) :
    port.Spares side name (allocate port.heap bytes capacity).1 (allocate port.heap bytes capacity).2 := by
  intro side' name' other _ hother
  have hvalid := h.valid hother
  -- a fresh buffer is past every old one, so any other buffer may stand for the one that moves
  have hmoved : Moved port.heap ⟨port.heap.length, 0⟩ (allocate port.heap bytes capacity).2
      ⟨port.heap.length, 0⟩ :=
    moved_allocate (Nat.zero_le capacity) _
  have hbuffer : other.buffer ≠ port.heap.length := hvalid.allocated.ne
  exact ⟨hmoved.valid_of hvalid hbuffer, hmoved.bytes_eq hvalid.allocated hbuffer, hbuffer⟩

theorem Separate.setImage (h : port.Separate) (hvalid : view.Valid heap)
    (hspares : port.Spares side name view heap) : (port.setImage side name view heap).Separate where
  valid := by
    intro side' name' other hother
    rw [get?_setImage] at hother
    rw [heap_setImage]
    split_ifs at hother with hslot
    · rwa [← Option.some.inj hother]
    · exact (hspares _ _ _ hslot hother).1
  apart := by
    intro side₁ side₂ name₁ name₂ view₁ view₂ h₁ h₂ heq
    rw [get?_setImage] at h₁ h₂
    split_ifs at h₁ h₂ with hslot₁ hslot₂ hslot₂
    · exact ⟨hslot₁.1.trans hslot₂.1.symm, hslot₁.2.trans hslot₂.2.symm⟩
    · rw [← Option.some.inj h₁] at heq
      exact absurd heq.symm (hspares _ _ _ hslot₂ h₂).2.2
    · rw [← Option.some.inj h₂] at heq
      exact absurd heq (hspares _ _ _ hslot₁ h₁).2.2
    · exact h.apart h₁ h₂ heq

theorem content_setImage (hspares : port.Spares side name view heap) (side' : Side)
    (name' : OwnedFileName) :
    (port.setImage side name view heap).content side' name' =
      if side' = side ∧ name' = name then some (view.bytes heap) else port.content side' name' := by
  rw [content, get?_setImage, heap_setImage]
  split_ifs with hslot
  · rfl
  · rw [content]
    refine Option.map_congr fun other hother => ?_
    exact (hspares _ _ _ hslot hother).2.1

/-! ### One effect on a live image -/

/-- What the volatile image goes through at once, and the durable one at a flush. -/
def onImage (heap : Heap) (current : View) : EffectKind → View × Heap
  | .truncate size => resize heap current size
  | .write offset data => writeImage heap current offset data

theorem moved_onImage (h : view.Valid heap) (kind : EffectKind) :
    Moved heap view (onImage heap view kind).2 (onImage heap view kind).1 := by
  cases kind with
  | truncate size => exact moved_resize h size
  | write offset data =>
    rw [onImage, writeImage]
    dsimp only
    split_ifs with hgrow
    · refine moved_write (moved_resize h _) ?_
      have hlength := length_bytes (moved_resize h (offset + data.length)).valid
      rw [bytes_resize h, length_resized] at hlength
      exact hlength.le
    · exact moved_write (.refl h) (not_lt.mp hgrow)

theorem bytes_onImage (h : view.Valid heap) (kind : EffectKind) :
    (onImage heap view kind).1.bytes (onImage heap view kind).2 = kind.onBytes (view.bytes heap) := by
  cases kind with
  | truncate size => exact bytes_resize h size
  | write offset data =>
    have hlength := length_bytes h
    rw [onImage, writeImage, EffectKind.onBytes]
    dsimp only
    split_ifs with hgrow
    · have hresized := moved_resize h (offset + data.length)
      have hsize := length_bytes hresized.valid
      rw [bytes_resize h, length_resized] at hsize
      rw [bytes_set hresized.valid hsize.le, bytes_resize h, written_of_ge (by omega)]
    · rw [bytes_set h (not_lt.mp hgrow), written_of_le (by omega)]

/-- The loop of a flush does to the durable image what was done to the volatile one. -/
theorem replayEffect_eq (kind : EffectKind) (image : View) (heap : Heap) (copied : ℕ) :
    ∃ copied', replayEffect kind image heap copied =
      ((onImage heap image kind).1, (onImage heap image kind).2, copied') := by
  cases kind with
  | truncate size => exact ⟨_, rfl⟩
  | write offset data => exact ⟨_, rfl⟩

theorem replayEffects_spec (kinds : List EffectKind) (h : view.Valid heap) (copied : ℕ) :
    Moved heap view (replayEffects kinds view heap copied).2.1 (replayEffects kinds view heap copied).1 ∧
      (replayEffects kinds view heap copied).1.bytes (replayEffects kinds view heap copied).2.1 =
        replay (view.bytes heap) kinds := by
  induction kinds generalizing view heap copied with
  | nil => exact ⟨.refl h, rfl⟩
  | cons kind kinds ih =>
    obtain ⟨copied', heq⟩ := replayEffect_eq kind view heap copied
    have hmoved := moved_onImage h kind
    obtain ⟨hrest, hbytes⟩ := ih hmoved.valid copied'
    rw [replayEffects, heq]
    refine ⟨hmoved.trans hrest, ?_⟩
    show _ = replay (kind.onBytes (view.bytes heap)) kinds
    rw [hbytes, bytes_onImage h kind]

/-! ### Pending effects -/

theorem pending_pushEffect (port : Port) (name name' : OwnedFileName) (kind : EffectKind) :
    (port.pushEffect name kind).pending name' =
      port.pending name' ++ if name' = name then [kind] else [] := by
  rw [pending, pushEffect, List.filter_append, List.map_append]
  by_cases hname : name' = name
  · simp [pending, hname]
  · simp [pending, hname, Ne.symm hname]

/-- Dropping the effects of one file. -/
theorem pending_filter {effects : List MemoryEffect} (hport : port'.effects = effects)
    (heffects : effects = port.effects.filter fun effect => effect.file ≠ name) (name' : OwnedFileName) :
    port'.pending name' = if name' = name then [] else port.pending name' := by
  rw [pending, hport, heffects, List.filter_filter]
  split_ifs with hname
  · rw [List.map_eq_nil_iff, List.filter_eq_nil_iff]
    intro effect _
    simp [hname]
  · rw [pending]
    congr 1
    refine List.filter_congr fun effect _ => ?_
    by_cases heq : effect.file = name' <;> simp [heq, hname]

theorem replay_append (bytes : List UInt8) (kinds kinds' : List EffectKind) :
    replay bytes (kinds ++ kinds') = replay (replay bytes kinds) kinds' :=
  List.foldl_append

/-! ### The invariant of a port -/

structure Coherent (port : Port) : Prop where
  separate : port.Separate
  replayed : ∀ name, port.content .volatile name =
    (port.content .durable name).map fun bytes => replay bytes (port.pending name)
  present : ∀ effect ∈ port.effects, (port.volatile.get? effect.file).isSome
  sized : ∀ effect ∈ port.effects, effect.kind.Sized
  opened : ∀ name ∈ port.opened, (port.volatile.get? name).isSome

/-- The images are the same views over the same buffers. -/
structure SameImages (port port' : Port) : Prop where
  heap : port'.heap = port.heap
  durable : port'.durable = port.durable
  volatile : port'.volatile = port.volatile

theorem SameImages.images (h : SameImages port port') (side : Side) :
    port'.images side = port.images side := by
  cases side
  · exact h.durable
  · exact h.volatile

theorem SameImages.content (h : SameImages port port') (side : Side) (name : OwnedFileName) :
    port'.content side name = port.content side name := by
  rw [Port.content, Port.content, h.images, h.heap]

theorem SameImages.separate (h : SameImages port port') (hs : port.Separate) : port'.Separate := by
  refine ⟨fun hview => ?_, fun hview hview' => ?_⟩
  · rw [h.images] at hview
    rw [h.heap]
    exact hs.valid hview
  · rw [h.images] at hview hview'
    exact hs.apart hview hview'

theorem sameImages_pushEffect (port : Port) (name : OwnedFileName) (kind : EffectKind) :
    SameImages port (port.pushEffect name kind) :=
  ⟨rfl, rfl, rfl⟩

/-- Only the faults and the log differ. -/
structure Logged (port port' : Port) : Prop extends SameImages port port' where
  effects : port'.effects = port.effects
  opened : port'.opened = port.opened
  epoch : port'.epoch = port.epoch

theorem Logged.refl (port : Port) : Logged port port := ⟨⟨rfl, rfl, rfl⟩, rfl, rfl, rfl⟩

theorem Logged.trans {port'' : Port} (h : Logged port port') (h' : Logged port' port'') :
    Logged port port'' :=
  ⟨⟨h'.heap.trans h.heap, h'.durable.trans h.durable, h'.volatile.trans h.volatile⟩,
    h'.effects.trans h.effects, h'.opened.trans h.opened, h'.epoch.trans h.epoch⟩

theorem Logged.pending (h : Logged port port') (name : OwnedFileName) :
    port'.pending name = port.pending name := by
  rw [Port.pending, Port.pending, h.effects]

theorem Logged.coherent (h : Logged port port') (hc : port.Coherent) : port'.Coherent where
  separate := h.separate hc.separate
  replayed name := by
    rw [h.content, h.content, h.pending]
    exact hc.replayed name
  present := by
    rw [h.effects, h.volatile]
    exact hc.present
  sized := by
    rw [h.effects]
    exact hc.sized
  opened := by
    rw [h.opened, h.volatile]
    exact hc.opened

theorem logged_recordOperation (port : Port) (operation : MemoryOperation) (file : Option OwnedFileName)
    (label : JsString) (copied : Option ℕ) :
    Logged port (port.recordOperation operation file label copied) :=
  ⟨⟨rfl, rfl, rfl⟩, rfl, rfl, rfl⟩

theorem logged_takeFault (port : Port) (operation : MemoryOperation) (file : Option OwnedFileName)
    (label : JsString) : Logged port (port.takeFault operation file label).2 := by
  rw [takeFault]
  split
  · exact .refl port
  · split <;> exact ⟨⟨rfl, rfl, rfl⟩, rfl, rfl, rfl⟩

/-! ### What a method of a handle does -/

/-- From `port` to `port'` by one method of a handle of `name`. -/
inductive Touched (name : OwnedFileName) (port port' : Port) : Prop
  | logged (h : Logged port port')
  | effect (mid : Port) (kind : EffectKind) (current : View) (h : Logged port mid)
      (hfile : mid.volatile.get? name = some current) (hsized : kind.Sized)
      (heq : port' = (mid.setImage .volatile name (onImage mid.heap current kind).1
        (onImage mid.heap current kind).2).pushEffect name kind)
  | flushed (mid : Port) (h : Logged port mid) (h' : Logged (mid.makeDurable name).2 port')

theorem file_eq_ok : port.file name = .ok view ↔ port.volatile.get? name = some view := by
  rw [file]
  split <;> simp_all

theorem validateRange_ok {offset : JsNumber} {length n : ℕ} (h : validateRange offset length = .ok n) :
    length ≤ 2 ^ 53 - 1 := by
  rw [validateRange] at h
  split at h
  · cases h
  · split_ifs at h with hlength
    exact not_lt.mp hlength

theorem touched_getSize (port : Port) (name : OwnedFileName) (label : JsString) :
    Touched name port (port.handleGetSize name label).2 := by
  have h := (logged_recordOperation port .getSize name label none).trans
    (logged_takeFault _ .getSize name label)
  rw [handleGetSize]
  dsimp only
  split <;> exact .logged h

theorem touched_read (port : Port) (name : OwnedFileName) (length : ℕ) (offset : JsNumber)
    (label : JsString) : Touched name port (port.handleRead name length offset label).2 := by
  have h := (logged_recordOperation port .read name label none).trans
    (logged_takeFault _ .read name label)
  rw [handleRead]
  split
  · exact .logged (.refl port)
  · dsimp only
    split
    · exact .logged h
    · exact .logged h
    · split <;> exact .logged h

/-- The bytes that a write attempts are no more than it was given. -/
theorem touched_recordWrite {mid written : Port} {source : List UInt8} {n count : ℕ}
    (h : Logged port mid) (hcount : 0 < count) (hle : count ≤ source.length)
    (hlength : source.length ≤ 2 ^ 53 - 1) (hwritten : mid.recordWrite name n (source.take count) = .ok written) :
    Touched name port written := by
  rw [recordWrite] at hwritten
  split at hwritten
  · cases hwritten
  next current hfile =>
    have htake : (source.take count).length = count := by
      rw [List.length_take]
      exact min_eq_left hle
    refine .effect mid (.write n (source.take count)) current h (file_eq_ok.mp hfile) ?_
      (Except.ok.inj hwritten).symm
    rw [EffectKind.Sized, htake]
    exact ⟨hcount, hle.trans hlength⟩

theorem touched_write (port : Port) (name : OwnedFileName) (source : List UInt8) (offset : JsNumber)
    (label : JsString) : Touched name port (port.handleWrite name source offset label).2 := by
  have h := (logged_recordOperation port .write name label none).trans
    (logged_takeFault _ .write name label)
  rw [handleWrite]
  split
  · exact .logged (.refl port)
  next n hrange =>
    dsimp only
    generalize ((port.recordOperation .write name label none).takeFault .write name label).2 = mid at h ⊢
    generalize ((port.recordOperation .write name label none).takeFault .write name label).1 = fault
    split
    · exact .logged h
    have hle : (if fault.map MemoryFault.outcome = some .short ∨
          fault.map MemoryFault.outcome = some .throwAfter then
        min source.length ((fault.bind MemoryFault.bytes).getD source.length)
        else source.length) ≤ source.length := by
      split_ifs
      · exact min_le_left _ _
      · exact le_rfl
    generalize (if fault.map MemoryFault.outcome = some .short ∨
        fault.map MemoryFault.outcome = some .throwAfter then
      min source.length ((fault.bind MemoryFault.bytes).getD source.length)
      else source.length) = count at hle ⊢
    split
    · exact .logged h
    next written hwritten =>
      have htouched : Touched name port written := by
        split_ifs at hwritten with hcount
        · exact touched_recordWrite h hcount hle (validateRange_ok hrange) hwritten
        · rw [← Except.ok.inj hwritten]
          exact .logged h
      split <;> exact htouched

theorem touched_truncate (port : Port) (name : OwnedFileName) (size : JsNumber) (label : JsString) :
    Touched name port (port.handleTruncate name size label).2 := by
  have h := (logged_recordOperation port .truncate name label none).trans
    (logged_takeFault _ .truncate name label)
  rw [handleTruncate]
  split
  · exact .logged (.refl port)
  next n _ =>
    dsimp only
    split
    · exact .logged h
    · split
      · exact .logged h
      · split
        · exact .logged h
        next current hfile =>
          split <;> exact .effect _ (.truncate n) current h (file_eq_ok.mp hfile) trivial rfl

theorem touched_flush (port : Port) (name : OwnedFileName) (label : JsString) :
    Touched name port (port.handleFlush name label).2 := by
  have h := logged_takeFault port .flush name label
  rw [handleFlush]
  dsimp only
  split
  · exact .logged (h.trans (logged_recordOperation _ _ _ _ _))
  · split <;> exact .flushed _ h (logged_recordOperation _ _ _ _ _)

/-! ### What it keeps -/

theorem volatile_content (h : port.volatile.get? name = some view) :
    port.content .volatile name = some (view.bytes port.heap) := by
  rw [content]
  show (port.volatile.get? name).map _ = _
  rw [h]
  rfl

theorem isSome_content (port : Port) (side : Side) (name : OwnedFileName) :
    (port.content side name).isSome = ((port.images side).get? name).isSome := by
  rw [content, Option.isSome_map]

/-- A file has both images or none. -/
theorem Coherent.both (h : port.Coherent) (name : OwnedFileName) :
    (port.durable.get? name).isSome = (port.volatile.get? name).isSome := by
  have hboth := congrArg Option.isSome (h.replayed name)
  rw [Option.isSome_map, isSome_content, isSome_content] at hboth
  exact hboth.symm

/-- An effect on the volatile image, and its entry in the log. -/
theorem Coherent.effect (h : port.Coherent) {kind : EffectKind} {current : View}
    (hfile : port.volatile.get? name = some current) (hsized : kind.Sized) :
    ((port.setImage .volatile name (onImage port.heap current kind).1
      (onImage port.heap current kind).2).pushEffect name kind).Coherent := by
  have hview : (port.images .volatile).get? name = some current := hfile
  have hvalid := h.separate.valid hview
  have hmoved := moved_onImage hvalid kind
  have hspares := h.separate.spares hview hmoved
  have hcontent := content_setImage hspares
  have hpresent : ∀ name', (port.volatile.get? name').isSome →
      ((port.volatile.set name (onImage port.heap current kind).1).get? name').isSome := by
    intro name' hname'
    rw [OrdMap.get?_set]
    split_ifs
    · rfl
    · exact hname'
  have hsame := sameImages_pushEffect (port.setImage .volatile name (onImage port.heap current kind).1
    (onImage port.heap current kind).2) name kind
  refine ⟨hsame.separate (h.separate.setImage hmoved.valid hspares), fun name' => ?_, ?_, ?_,
    fun name' hopen => hpresent name' (h.opened name' hopen)⟩
  · have hpending : (port.setImage .volatile name (onImage port.heap current kind).1
        (onImage port.heap current kind).2).pending name' = port.pending name' := rfl
    rw [pending_pushEffect, hpending, hsame.content, hsame.content, hcontent, hcontent,
      if_neg (by simp : ¬ (Side.durable = .volatile ∧ name' = name))]
    by_cases hname : name' = name
    · -- the effect comes last, on what the earlier ones made of the durable bytes
      subst hname
      have hold := h.replayed name'
      rw [volatile_content hfile] at hold
      obtain ⟨bytes, hbytes, hreplay⟩ := Option.map_eq_some_iff.mp hold.symm
      rw [if_pos ⟨rfl, rfl⟩, if_pos rfl, hbytes, bytes_onImage hvalid, ← hreplay, Option.map_some,
        replay_append]
      rfl
    · rw [if_neg (by simp [hname]), if_neg hname, List.append_nil]
      exact h.replayed name'
  · intro effect heffect
    rcases List.mem_append.mp heffect with hold | hnew
    · exact hpresent _ (h.present effect hold)
    · rw [List.mem_singleton.mp hnew]
      exact hpresent name (by rw [hfile]; rfl)
  · intro effect heffect
    rcases List.mem_append.mp heffect with hold | hnew
    · exact h.sized effect hold
    · rw [List.mem_singleton.mp hnew]
      exact hsized

/-- What a flush of a file that is there leaves behind. -/
theorem makeDurable_spec (h : port.Separate) (hdurable : port.durable.get? name = some view) :
    (port.makeDurable name).2.Separate ∧
      ∀ side' name', (port.makeDurable name).2.content side' name' =
        if side' = .durable ∧ name' = name then some (replay (view.bytes port.heap) (port.pending name))
        else port.content side' name' := by
  have hview : (port.images .durable).get? name = some view := hdurable
  have hvalid := h.valid hview
  obtain ⟨hmoved, hbytes⟩ := replayEffects_spec (port.pending name) hvalid 0
  have hspares := h.spares hview hmoved
  have hsame : SameImages
      (port.setImage .durable name (replayEffects (port.pending name) view port.heap 0).1
        (replayEffects (port.pending name) view port.heap 0).2.1) (port.makeDurable name).2 := by
    rw [makeDurable, hdurable]
    exact ⟨rfl, rfl, rfl⟩
  refine ⟨hsame.separate (h.setImage hmoved.valid hspares), fun side' name' => ?_⟩
  rw [hsame.content, content_setImage hspares, hbytes]

theorem effects_makeDurable (port : Port) (name : OwnedFileName) :
    (port.makeDurable name).2.effects = port.effects.filter fun effect => effect.file ≠ name := rfl

theorem Coherent.makeDurable (h : port.Coherent) (hfile : (port.volatile.get? name).isSome) :
    (port.makeDurable name).2.Coherent := by
  rw [← h.both] at hfile
  obtain ⟨view, hdurable⟩ := Option.isSome_iff_exists.mp hfile
  obtain ⟨hseparate, hcontent⟩ := makeDurable_spec h.separate hdurable
  refine ⟨hseparate, fun name' => ?_, fun effect heffect => ?_, fun effect heffect => ?_, h.opened⟩
  · rw [hcontent, hcontent, if_neg (by simp : ¬ (Side.volatile = .durable ∧ name' = name)),
      pending_filter (effects_makeDurable port name) rfl]
    by_cases hname : name' = name
    · subst hname
      have hold : port.content .durable name' = some (view.bytes port.heap) := by
        show (port.durable.get? name').map _ = _
        rw [hdurable]
        rfl
      rw [if_pos rfl, if_pos ⟨rfl, rfl⟩, h.replayed, hold]
      rfl
    · rw [if_neg hname, if_neg (by simp [hname])]
      exact h.replayed name'
  · exact h.present effect (List.mem_filter.mp heffect).1
  · exact h.sized effect (List.mem_filter.mp heffect).1

theorem Touched.coherent (h : Touched name port port') (hc : port.Coherent)
    (hfile : (port.volatile.get? name).isSome) : port'.Coherent := by
  cases h with
  | logged h => exact h.coherent hc
  | effect mid kind current h hfile hsized heq =>
    rw [heq]
    exact (h.coherent hc).effect hfile hsized
  | flushed mid h h' =>
    refine h'.coherent ((h.coherent hc).makeDurable ?_)
    rwa [h.volatile]

theorem Touched.opened (h : Touched name port port') : port'.opened = port.opened := by
  cases h with
  | logged h => exact h.opened
  | effect mid kind current h hfile hsized heq =>
    rw [heq]
    exact h.opened
  | flushed mid h h' => exact h'.opened.trans h.opened

theorem Touched.epoch (h : Touched name port port') : port'.epoch = port.epoch := by
  cases h with
  | logged h => exact h.epoch
  | effect mid kind current h hfile hsized heq =>
    rw [heq]
    exact h.epoch
  | flushed mid h h' => exact h'.epoch.trans h.epoch

/-- A method of one file leaves the images and the pending effects of every other file alone. -/
theorem Touched.frame (h : Touched name port port') (hs : port.Separate)
    (hfile : (port.durable.get? name).isSome) {name' : OwnedFileName} (hne : name' ≠ name) :
    (∀ side, port'.content side name' = port.content side name') ∧
      port'.pending name' = port.pending name' := by
  cases h with
  | logged h => exact ⟨fun side => h.content side name', h.pending name'⟩
  | effect mid kind current h hcurrent hsized heq =>
    have hview : (mid.images .volatile).get? name = some current := hcurrent
    have hvalid := (h.separate hs).valid hview
    have hspares := (h.separate hs).spares hview (moved_onImage hvalid kind)
    refine ⟨fun side => ?_, ?_⟩
    · rw [heq, (sameImages_pushEffect _ name kind).content, content_setImage hspares,
        if_neg (by simp [hne]), h.content]
    · rw [heq, pending_pushEffect, if_neg hne, List.append_nil]
      exact h.pending name'
  | flushed mid h h' =>
    rw [← h.durable] at hfile
    obtain ⟨view, hdurable⟩ := Option.isSome_iff_exists.mp hfile
    obtain ⟨-, hcontent⟩ := makeDurable_spec (h.separate hs) hdurable
    refine ⟨fun side => ?_, ?_⟩
    · rw [h'.content, hcontent, if_neg (by simp [hne]), h.content]
    · rw [h'.pending, pending_filter (effects_makeDurable mid name) rfl, if_neg hne, h.pending]

end Port

end Opfs.Memory
