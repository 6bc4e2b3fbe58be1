/-
The in-memory port over a whole run.

Entries come and go, and a termination keeps of every pending effect what it was told to.  `Inv` adds the
handles to the invariant of the port: a handle that still works is the only one of its file, and the file is
open.
-/
import Pgxsinkit.Opfs.MemoryImages

namespace Opfs.Memory

open Bytes Growable

namespace Port

variable {port port' : Port} {name : OwnedFileName}

/-! ### Images on fresh buffers -/

/-- `images.set(name, clone(bytes))` -/
def setClone (port : Port) (side : Side) (name : OwnedFileName) (bytes : List UInt8) : Port :=
  port.setImage side name (allocate port.heap bytes bytes.length).1
    (allocate port.heap bytes bytes.length).2

theorem separate_setClone (h : port.Separate) (side : Side) (name : OwnedFileName) (bytes : List UInt8) :
    (port.setClone side name bytes).Separate :=
  h.setImage (moved_allocate le_rfl ⟨port.heap.length, 0⟩).valid (h.spares_allocate side name _ _)

theorem content_setClone (h : port.Separate) (side side' : Side) (name name' : OwnedFileName)
    (bytes : List UInt8) :
    (port.setClone side name bytes).content side' name' =
      if side' = side ∧ name' = name then some bytes else port.content side' name' := by
  rw [setClone, content_setImage (h.spares_allocate side name _ _), bytes_allocate]

/-- Both images of a file set to the same bytes, in either order. -/
theorem content_both (h : port.Separate) {first second : Side} (hne : first ≠ second) (side : Side)
    (name name' : OwnedFileName) (bytes : List UInt8) :
    ((port.setClone first name bytes).setClone second name bytes).content side name' =
      if name' = name then some bytes else port.content side name' := by
  rw [content_setClone (separate_setClone h first name bytes), content_setClone h]
  by_cases hname : name' = name
  · have hside : side = second ∨ side = first := by
      cases side <;> cases first <;> cases second <;> simp_all
    rcases hside with hside | hside <;> simp [hside, hname]
  · simp [hname]

/-! ### Files that come and go -/

/-- The invariant, but for the images of one file that no effect is pending for. -/
structure CoherentBut (port : Port) (name : OwnedFileName) : Prop where
  separate : port.Separate
  replayed : ∀ name' ≠ name, port.content .volatile name' =
    (port.content .durable name').map fun bytes => replay bytes (port.pending name')
  present : ∀ effect ∈ port.effects, (port.volatile.get? effect.file).isSome
  sized : ∀ effect ∈ port.effects, effect.kind.Sized
  opened : ∀ name' ∈ port.opened, name' ≠ name → (port.volatile.get? name').isSome
  gone : ∀ effect ∈ port.effects, effect.file ≠ name

/-- A file that is not there has no effects. -/
theorem Coherent.but_of_none (h : port.Coherent) (hnone : port.volatile.get? name = none) :
    port.CoherentBut name where
  separate := h.separate
  replayed name' _ := h.replayed name'
  present := h.present
  sized := h.sized
  opened name' hopen _ := h.opened name' hopen
  gone effect heffect heq := by
    have hsome := h.present effect heffect
    rw [heq, hnone] at hsome
    exact Bool.false_ne_true hsome

theorem Coherent.but_of_filter (h : port.Coherent) (name : OwnedFileName) (entry : JsString)
    (kind : EntryKind) :
    ({ port with
      entryKinds := port.entryKinds.set entry kind
      effects := port.effects.filter fun effect => effect.file ≠ name } : Port).CoherentBut name where
  separate := ⟨fun hview => h.separate.valid hview, fun hview hview' => h.separate.apart hview hview'⟩
  replayed name' hne := by
    rw [pending_filter rfl rfl, if_neg hne]
    exact h.replayed name'
  present effect heffect := h.present effect (List.mem_filter.mp heffect).1
  sized effect heffect := h.sized effect (List.mem_filter.mp heffect).1
  opened name' hopen _ := h.opened name' hopen
  gone effect heffect := by simpa using (List.mem_filter.mp heffect).2

theorem CoherentBut.pending (h : port.CoherentBut name) : port.pending name = [] := by
  rw [Port.pending, List.map_eq_nil_iff, List.filter_eq_nil_iff]
  intro effect heffect
  simpa using h.gone effect heffect

/-- A new file, empty on both sides. -/
theorem CoherentBut.setEmpty (h : port.CoherentBut name) :
    ((port.emptyVolatile name).emptyDurable name).Coherent := by
  have hboth := content_both h.separate (show Side.volatile ≠ .durable by decide)
  have hvolatile : ∀ name', ((port.emptyVolatile name).emptyDurable name).volatile.get? name' =
      if name' = name then some ⟨port.heap.length, 0⟩ else port.volatile.get? name' := fun name' =>
    OrdMap.get?_set _ _ _ _
  refine ⟨separate_setClone (separate_setClone h.separate .volatile name []) .durable name [],
    fun name' => ?_, fun effect heffect => ?_, h.sized, fun name' hopen => ?_⟩
  · show ((port.setClone .volatile name []).setClone .durable name []).content .volatile name' =
      (((port.setClone .volatile name []).setClone .durable name []).content .durable name').map
        fun bytes => replay bytes (port.pending name')
    rw [hboth, hboth]
    by_cases hname : name' = name
    · rw [hname, if_pos rfl, if_pos rfl, h.pending]
      rfl
    · rw [if_neg hname, if_neg hname]
      exact h.replayed name' hname
  · rw [hvolatile, if_neg (h.gone effect heffect)]
    exact h.present effect heffect
  · rw [hvolatile]
    split_ifs with hname
    · rfl
    · exact h.opened name' hopen hname

/-- A file that is no file any more. -/
theorem CoherentBut.delete (h : port.CoherentBut name) (hclosed : name ∉ port.opened) :
    ({ port with
      volatile := port.volatile.delete name
      durable := port.durable.delete name } : Port).Coherent := by
  have hget : ∀ side name', (Port.images { port with
      volatile := port.volatile.delete name
      durable := port.durable.delete name } side).get? name' =
        if name' = name then none else (port.images side).get? name' := by
    intro side name'
    cases side <;> exact OrdMap.get?_delete _ _ _
  have hsome : ∀ {side name' view}, (Port.images { port with
      volatile := port.volatile.delete name
      durable := port.durable.delete name } side).get? name' = some view →
        (port.images side).get? name' = some view := by
    intro side name' view hview
    rw [hget] at hview
    split_ifs at hview
    exact hview
  have hvolatile := hget .volatile
  refine ⟨⟨fun hview => h.separate.valid (hsome hview), fun hview hview' =>
    h.separate.apart (hsome hview) (hsome hview')⟩, fun name' => ?_, fun effect heffect => ?_, h.sized,
    fun name' hopen => ?_⟩
  · rw [content, content, hget, hget]
    by_cases hname : name' = name
    · rw [if_pos hname, if_pos hname]
      rfl
    · rw [if_neg hname, if_neg hname]
      exact h.replayed name' hname
  · refine (congrArg Option.isSome (hvolatile effect.file)).trans ?_
    rw [if_neg (h.gone effect heffect)]
    exact h.present effect heffect
  · have hname : name' ≠ name := fun heq => hclosed (heq ▸ hopen)
    refine (congrArg Option.isSome (hvolatile name')).trans ?_
    rw [if_neg hname]
    exact h.opened name' hopen hname

theorem Coherent.injectEntry (h : port.Coherent) {entry : JsString} {kind : EntryKind}
    (heq : port.injectEntry entry kind = .ok port') :
    port'.Coherent ∧ port'.opened = port.opened ∧ port'.epoch = port.epoch := by
  rw [Port.injectEntry] at heq
  split at heq
  · rw [← Except.ok.inj heq]
    have hlogged : Logged port { port with entryKinds := port.entryKinds.set entry kind } :=
      ⟨⟨rfl, rfl, rfl⟩, rfl, rfl, rfl⟩
    exact ⟨hlogged.coherent h, rfl, rfl⟩
  next owned _ =>
    split_ifs at heq with hopen
    have hbut := h.but_of_filter owned entry kind
    rw [← Except.ok.inj heq]
    cases kind with
    | file => exact ⟨hbut.setEmpty, rfl, rfl⟩
    | directory => exact ⟨hbut.delete hopen, rfl, rfl⟩

theorem logged_injectFault {operation : MemoryOperation} {outcome : FaultOutcome}
    {file label : Option JsString} {bytes occurrence : Option JsNumber}
    (heq : port.injectFault operation outcome file label bytes occurrence = .ok port') :
    Logged port port' := by
  rw [injectFault] at heq
  split_ifs at heq with hquota
  · cases heq
  · cases hbytes : optionalCount "fault byte count must be a non-negative safe integer" bytes with
    | error e => rw [hbytes] at heq; cases heq
    | ok bytes =>
      cases hoccurrence : optionalCount "fault occurrence must be a non-negative safe integer"
        occurrence with
      | error e => rw [hbytes, hoccurrence] at heq; cases heq
      | ok occurrence =>
        rw [hbytes, hoccurrence] at heq
        rw [← Except.ok.inj heq]
        exact ⟨⟨rfl, rfl, rfl⟩, rfl, rfl, rfl⟩

/-- The file is there after an acquire got as far as making it. -/
theorem Coherent.created (h : port.Coherent) (name : OwnedFileName) :
    ∃ created : Port, created = (if port.volatile.has name then port
        else { (port.emptyVolatile name).emptyDurable name with
          entryKinds := ((port.emptyVolatile name).emptyDurable name).entryKinds.set name.units .file }) ∧
      created.Coherent ∧ created.opened = port.opened ∧ created.epoch = port.epoch ∧
        (created.volatile.get? name).isSome := by
  refine ⟨_, rfl, ?_⟩
  split_ifs with hhas
  · exact ⟨h, rfl, rfl, hhas⟩
  · have hnone : port.volatile.get? name = none := by simpa [OrdMap.has] using hhas
    have hempty := (h.but_of_none hnone).setEmpty
    have hlogged : Logged ((port.emptyVolatile name).emptyDurable name)
        { (port.emptyVolatile name).emptyDurable name with
          entryKinds := ((port.emptyVolatile name).emptyDurable name).entryKinds.set name.units .file } :=
      ⟨⟨rfl, rfl, rfl⟩, rfl, rfl, rfl⟩
    refine ⟨hlogged.coherent hempty, rfl, rfl, ?_⟩
    show ((port.volatile.set name _).get? name).isSome
    rw [OrdMap.get?_set, if_pos rfl]
    rfl

theorem Coherent.insertOpened (h : port.Coherent) (hthere : (port.volatile.get? name).isSome) :
    ({ port with opened := insert name port.opened } : Port).Coherent where
  separate := ⟨fun hview => h.separate.valid hview, fun hview hview' => h.separate.apart hview hview'⟩
  replayed := h.replayed
  present := h.present
  sized := h.sized
  opened name' hopen := by
    rcases Finset.mem_insert.mp hopen with heq | hold
    · rw [heq]
      exact hthere
    · exact h.opened name' hold

/-- An acquire that is answered opens a file that was not open. -/
theorem Coherent.acquire (h : port.Coherent) (name : OwnedFileName) (label : JsString) :
    (port.acquire name label).2.Coherent ∧ (port.acquire name label).2.epoch = port.epoch ∧
      match (port.acquire name label).1 with
      | .ok epoch => epoch = port.epoch ∧ name ∉ port.opened ∧
          (port.acquire name label).2.opened = insert name port.opened
      | .error _ => (port.acquire name label).2.opened = port.opened := by
  have hlogged := (logged_recordOperation port .acquire name label none).trans
    (logged_takeFault _ .acquire name label)
  rw [Port.acquire]
  dsimp only
  generalize ((port.recordOperation .acquire name label none).takeFault .acquire name label).2 = mid
    at hlogged ⊢
  generalize ((port.recordOperation .acquire name label none).takeFault .acquire name label).1 = fault
  have hmid := hlogged.coherent h
  obtain ⟨created, hcreated, hcoherent, hopened, hepoch, hthere⟩ := hmid.created name
  rw [← hcreated]
  split
  · exact ⟨hmid, hlogged.epoch, hlogged.opened⟩
  · split
    · exact ⟨hmid, hlogged.epoch, hlogged.opened⟩
    next hclosed =>
      split
      · exact ⟨hmid, hlogged.epoch, hlogged.opened⟩
      · cases fault with
        | some fault => exact ⟨hcoherent, hepoch.trans hlogged.epoch, hopened.trans hlogged.opened⟩
        | none =>
          refine ⟨hcoherent.insertOpened hthere, hepoch.trans hlogged.epoch, hepoch.trans hlogged.epoch,
            ?_, ?_⟩
          · rwa [← hlogged.opened]
          · show insert name created.opened = _
            rw [hopened, hlogged.opened]

/-! ### Termination -/

theorem applyWrite_eq (current : List UInt8) (offset : ℕ) (source : List UInt8) :
    applyWrite current offset source = written current offset source := by
  rw [applyWrite]
  split_ifs with hfits
  · rw [written_of_le hfits]
  · rw [written_of_ge (by omega), overwrite_zeros, resized_of_ge (by omega)]

theorem applyTruncate_eq (current : List UInt8) (size : ℕ) :
    applyTruncate current size = resized current size := by
  rw [applyTruncate]
  split_ifs with hsame
  · rw [hsame, resized_length]
  · have htake : slice current 0 (min size current.length) = current.take size := by
      rw [slice, List.drop_zero]
      exact List.take_eq_take_min.symm
    rw [htake, overwrite_zeros, resized, List.length_take]
    congr 2
    omega

/-- The effects of one file among those of all. -/
def kindsOf (effects : List MemoryEffect) (name : OwnedFileName) : List EffectKind :=
  (effects.filter fun effect => effect.file = name).map MemoryEffect.kind

theorem count?_ofNat {n : ℕ} (h : n ≤ 2 ^ 53 - 1) : count? (JsNumber.ofNat n) = some n := by
  rw [count?, JsNumber.safeInteger?_ofNat.mpr ⟨rfl, h⟩]
  dsimp only
  rw [if_neg (by omega), Int.toNat_natCast]

/-- An effect that is kept as a whole. -/
theorem materializeEffect_full {decisions : ℕ → Option TerminationDecision} {effect : MemoryEffect}
    (hfull : decisions effect.id = some .full) (hsized : effect.kind.Sized)
    (materialized : OrdMap OwnedFileName (List UInt8)) :
    materializeEffect decisions materialized effect =
      .ok (materialized.set effect.file
        (effect.kind.onBytes ((materialized.get? effect.file).getD []))) := by
  obtain ⟨id, file, kind⟩ := effect
  rw [materializeEffect, hfull]
  cases kind with
  | truncate size =>
    dsimp only [Option.getD_some]
    rw [applyTruncate_eq]
    rfl
  | write offset data =>
    dsimp only [Option.getD_some]
    rw [count?_ofNat hsized.2]
    dsimp only
    rw [if_neg (lt_irrefl _), if_pos hsized.1, slice_all, applyWrite_eq]
    rfl

theorem materialize_full {decisions : ℕ → Option TerminationDecision} {effects : List MemoryEffect}
    (hfull : ∀ effect ∈ effects, decisions effect.id = some .full)
    (hsized : ∀ effect ∈ effects, effect.kind.Sized)
    {materialized : OrdMap OwnedFileName (List UInt8)}
    (hpresent : ∀ effect ∈ effects, (materialized.get? effect.file).isSome) :
    ∃ kept, materialize decisions materialized effects = .ok kept ∧
      ∀ name, kept.get? name = (materialized.get? name).map fun bytes => replay bytes (kindsOf effects name) := by
  induction effects generalizing materialized with
  | nil => exact ⟨materialized, rfl, fun name => by simp [kindsOf, replay]⟩
  | cons effect effects ih =>
    rw [List.forall_mem_cons] at hfull hsized hpresent
    obtain ⟨bytes, hbytes⟩ := Option.isSome_iff_exists.mp hpresent.1
    have hpresent' : ∀ later ∈ effects, ((materialized.set effect.file
        (effect.kind.onBytes ((materialized.get? effect.file).getD []))).get? later.file).isSome := by
      intro later hlater
      rw [OrdMap.get?_set]
      split_ifs
      · rfl
      · exact hpresent.2 later hlater
    obtain ⟨kept, hkept, hget⟩ := ih hfull.2 hsized.2 hpresent'
    refine ⟨kept, by rw [materialize, materializeEffect_full hfull.1 hsized.1]; exact hkept, fun name => ?_⟩
    rw [hget, OrdMap.get?_set]
    by_cases hname : name = effect.file
    · rw [if_pos hname, hname, hbytes, kindsOf, kindsOf, List.filter_cons_of_pos (by simp)]
      rfl
    · rw [if_neg hname, kindsOf, kindsOf, List.filter_cons_of_neg (by simpa using Ne.symm hname)]

theorem materialize_none {decisions : ℕ → Option TerminationDecision} {effects : List MemoryEffect}
    (hnone : ∀ effect ∈ effects, (decisions effect.id).getD .absent = .absent)
    (materialized : OrdMap OwnedFileName (List UInt8)) :
    materialize decisions materialized effects = .ok materialized := by
  induction effects with
  | nil => rfl
  | cons effect effects ih =>
    rw [List.forall_mem_cons] at hnone
    rw [materialize, materializeEffect, hnone.1]
    exact ih hnone.2

theorem lookup_map_snd {V W : Type} (f : V → W) (entries : List (OwnedFileName × V))
    (name : OwnedFileName) :
    (entries.map fun entry => (entry.1, f entry.2)).lookup name = (entries.lookup name).map f := by
  induction entries with
  | nil => rfl
  | cons entry entries ih =>
    obtain ⟨file, value⟩ := entry
    rw [List.map_cons, OrdMap.lookup_cons_if, OrdMap.lookup_cons_if, ih]
    split_ifs <;> rfl

theorem get?_durableImages (port : Port) (name : OwnedFileName) :
    port.durableImages.get? name = port.content .durable name := by
  have hmap : port.durableImages =
      (port.durable.entries.map fun entry => (entry.1, entry.2.bytes port.heap)).foldl
        (fun images entry => images.set entry.1 entry.2) .empty := by
    rw [durableImages, List.foldl_map]
  have hnodup : ((port.durable.entries.map fun entry =>
      (entry.1, entry.2.bytes port.heap)).map Prod.fst).Nodup := by
    rw [List.map_map]
    exact port.durable.nodup
  rw [hmap, OrdMap.get?_foldl_set hnodup, lookup_map_snd]
  exact Option.or_none

/-- Both images of every file that survives. -/
theorem content_storeImages {entries : List (OwnedFileName × List UInt8)}
    (hnodup : (entries.map Prod.fst).Nodup) (h : port.Separate) :
    (entries.foldl storeImages port).Separate ∧ ∀ side name,
      (entries.foldl storeImages port).content side name =
        (entries.lookup name).or (port.content side name) := by
  induction entries generalizing port with
  | nil => exact ⟨h, fun side name => rfl⟩
  | cons entry entries ih =>
    obtain ⟨file, bytes⟩ := entry
    rw [List.map_cons, List.nodup_cons] at hnodup
    have hstored : port.storeImages (file, bytes) =
        (port.setClone .durable file bytes).setClone .volatile file bytes := rfl
    obtain ⟨hseparate, hcontent⟩ := ih hnodup.2
      (separate_setClone (separate_setClone h .durable file bytes) .volatile file bytes)
    rw [List.foldl_cons, hstored]
    refine ⟨hseparate, fun side name => ?_⟩
    rw [hcontent, content_both h (by decide), OrdMap.lookup_cons_if]
    by_cases hname : name = file
    · have hrest : entries.lookup name = none := by
        rw [hname, List.lookup_eq_none_iff]
        intro entry hentry
        have hne : file ≠ entry.1 := fun heq => hnodup.1 (List.mem_map.mpr ⟨entry, hentry, heq.symm⟩)
        simpa using hne
      rw [hrest, if_pos hname, if_pos hname]
      rfl
    · rw [if_neg hname, if_neg hname]

/-- What a termination that is accepted leaves behind. -/
theorem terminate_spec {decisions : ℕ → Option TerminationDecision}
    {kept : OrdMap OwnedFileName (List UInt8)}
    (hkept : materialize decisions port.durableImages port.effects = .ok kept) :
    ∃ port', port.terminate decisions = .ok port' ∧ port'.Coherent ∧ port'.opened = ∅ ∧
      port'.epoch = port.epoch + 1 ∧ ∀ side name, port'.content side name = kept.get? name := by
  have hcleared : ({ port with durable := .empty, volatile := .empty } : Port).Separate := by
    have hempty : ∀ side name, (Port.images { port with durable := .empty, volatile := .empty } side).get?
        name = none := by
      intro side name
      cases side <;> rfl
    refine ⟨fun hview => ?_, fun hview _ _ => ?_⟩ <;>
      · rw [hempty] at hview
        cases hview
  obtain ⟨hseparate, hcontent⟩ := content_storeImages kept.nodup hcleared
  have hsides : ∀ side name, (kept.entries.foldl storeImages
      ({ port with durable := .empty, volatile := .empty } : Port)).content side name = kept.get? name := by
    intro side name
    have hnone : ({ port with durable := .empty, volatile := .empty } : Port).content side name = none := by
      cases side <;> rfl
    rw [hcontent, hnone, Option.or_none]
    rfl
  refine ⟨{ kept.entries.foldl storeImages { port with durable := .empty, volatile := .empty } with
    effects := [], faults := [], opened := ∅, epoch := port.epoch + 1 }, by rw [terminate, hkept],
    ⟨?_, fun name => ?_, ?_, ?_, ?_⟩, rfl, rfl, hsides⟩
  · exact ⟨fun hview => hseparate.valid hview, fun hview hview' => hseparate.apart hview hview'⟩
  · -- nothing is pending any more, and the two sides are clones of the same bytes
    refine (hsides .volatile name).trans ((hsides .durable name).symm.trans ?_)
    exact Option.map_id'.symm
  · exact fun effect heffect => absurd heffect List.not_mem_nil
  · exact fun effect heffect => absurd heffect List.not_mem_nil
  · exact fun name hopen => absurd hopen (Finset.notMem_empty name)

theorem terminate_ok {decisions : ℕ → Option TerminationDecision}
    (h : port.terminate decisions = .ok port') :
    ∃ kept, materialize decisions port.durableImages port.effects = .ok kept := by
  rw [terminate] at h
  split at h
  · cases h
  next kept hkept => exact ⟨kept, hkept⟩

/-- Every pending effect kept: the volatile images survive. -/
theorem Coherent.terminate_full (h : port.Coherent) {decisions : ℕ → Option TerminationDecision}
    (hfull : ∀ effect ∈ port.effects, decisions effect.id = some .full) :
    ∃ port', port.terminate decisions = .ok port' ∧
      ∀ name, port'.content .volatile name = port.content .volatile name := by
  have hpresent : ∀ effect ∈ port.effects, (port.durableImages.get? effect.file).isSome := by
    intro effect heffect
    rw [get?_durableImages, isSome_content]
    show (port.durable.get? effect.file).isSome
    rw [h.both]
    exact h.present effect heffect
  obtain ⟨kept, hkept, hget⟩ := materialize_full hfull h.sized hpresent
  obtain ⟨port', hport', -, -, -, hcontent⟩ := terminate_spec hkept
  refine ⟨port', hport', fun name => ?_⟩
  rw [hcontent, hget, get?_durableImages, h.replayed]
  rfl

/-- No pending effect kept: the durable images survive. -/
theorem terminate_none {decisions : ℕ → Option TerminationDecision}
    (hnone : ∀ effect ∈ port.effects, (decisions effect.id).getD .absent = .absent) :
    ∃ port', port.terminate decisions = .ok port' ∧
      ∀ name, port'.content .durable name = port.content .durable name := by
  obtain ⟨port', hport', -, -, -, hcontent⟩ := terminate_spec (materialize_none hnone port.durableImages)
  refine ⟨port', hport', fun name => ?_⟩
  rw [hcontent, get?_durableImages]

end Port

/-! ### Handles -/

open Port

/-- The handle still reaches the port. -/
def MemoryHandle.Live (handle : MemoryHandle) (port : Port) : Prop :=
  handle.closed = false ∧ handle.epoch = port.epoch

structure World.Inv (world : World) : Prop where
  coherent : world.port.Coherent
  opened : ∀ handle ∈ world.handles, handle.Live world.port → handle.name ∈ world.port.opened
  past : ∀ handle ∈ world.handles, handle.epoch ≤ world.port.epoch
  alone : ∀ {i j : ℕ} {handle handle' : MemoryHandle}, world.handles[i]? = some handle → world.handles[j]? = some handle' →
    handle.Live world.port → handle'.Live world.port → handle.name = handle'.name → i = j

namespace World

variable {world : World} {port : Port}

/-- A port with the same files open in the same epoch. -/
theorem Inv.withPort (h : world.Inv) (hcoherent : port.Coherent) (hopened : port.opened = world.port.opened)
    (hepoch : port.epoch = world.port.epoch) : ({ world with port := port } : World).Inv where
  coherent := hcoherent
  opened handle hhandle hlive := by
    show handle.name ∈ port.opened
    rw [hopened]
    exact h.opened handle hhandle ⟨hlive.1, hlive.2.trans hepoch⟩
  past handle hhandle := (h.past handle hhandle).trans hepoch.ge
  alone hi hj hlive hlive' :=
    h.alone hi hj ⟨hlive.1, hlive.2.trans hepoch⟩ ⟨hlive'.1, hlive'.2.trans hepoch⟩

/-- A handle that works is of a file that is there. -/
theorem Inv.there (h : world.Inv) {handle : MemoryHandle} (hhandle : handle ∈ world.handles)
    (hlive : handle.Live world.port) : (world.port.volatile.get? handle.name).isSome :=
  h.coherent.opened _ (h.opened handle hhandle hlive)

theorem withHandle_cases (world : World) (index : ℕ)
    (method : OwnedFileName → Except PortError Answer × Port) :
    (world.withHandle index method).2 = world ∨
      ∃ handle, world.handles[index]? = some handle ∧ handle.Live world.port ∧
        (world.withHandle index method).2 = { world with port := (method handle.name).2 } := by
  rw [withHandle]
  split
  · exact .inl rfl
  next handle hhandle =>
    split_ifs with hclosed
    · exact .inl rfl
    · rw [not_or, not_not] at hclosed
      exact .inr ⟨handle, hhandle, ⟨by simpa using hclosed.1, hclosed.2⟩, rfl⟩

theorem Inv.withHandle (h : world.Inv) (index : ℕ)
    {method : OwnedFileName → Except PortError Answer × Port}
    (hmethod : ∀ name, Touched name world.port (method name).2) :
    (world.withHandle index method).2.Inv := by
  rcases world.withHandle_cases index method with heq | ⟨handle, hhandle, hlive, heq⟩
  · rwa [heq]
  · rw [heq]
    have htouched := hmethod handle.name
    have hthere := h.there (List.mem_of_getElem? hhandle) hlive
    exact h.withPort (htouched.coherent h.coherent hthere) htouched.opened htouched.epoch

theorem Inv.ofExcept (h : world.Inv) {result : Except PortError Port}
    (hresult : ∀ port, result = .ok port → ({ world with port := port } : World).Inv) :
    (world.ofExcept result).2.Inv := by
  cases result with
  | error e => exact h
  | ok port => exact hresult port rfl

theorem getElem?_concat_cases {handles : List MemoryHandle} {new handle : MemoryHandle} {i : ℕ}
    (h : (handles ++ [new])[i]? = some handle) :
    handles[i]? = some handle ∨ i = handles.length ∧ handle = new := by
  rcases lt_trichotomy i handles.length with hlt | heq | hgt
  · rw [List.getElem?_append_left hlt] at h
    exact .inl h
  · rw [heq, List.getElem?_concat_length] at h
    exact .inr ⟨heq, (Option.some.inj h).symm⟩
  · rw [List.getElem?_eq_none (by rw [List.length_append, List.length_singleton]; omega)] at h
    cases h

/-- The handle of a file that was not open joins the others. -/
theorem Inv.acquire (h : world.Inv) (name : OwnedFileName) (label : JsString) :
    (world.step (.acquire name label)).2.Inv := by
  obtain ⟨hcoherent, hepoch, hanswer⟩ := h.coherent.acquire name label
  rw [step]
  split
  next e port heq =>
    rw [heq] at hcoherent hepoch hanswer
    exact h.withPort hcoherent hanswer hepoch
  next epoch port heq =>
    rw [heq] at hcoherent hepoch hanswer
    obtain ⟨hnow, hclosed, hopened⟩ := hanswer
    have hold : ∀ handle ∈ world.handles, handle.Live port → handle.Live world.port := fun handle _ hlive =>
      ⟨hlive.1, hlive.2.trans hepoch⟩
    have hother : ∀ handle ∈ world.handles, handle.Live port → handle.name ≠ name := fun handle hmem hlive heq =>
      hclosed (heq ▸ h.opened handle hmem (hold handle hmem hlive))
    refine ⟨hcoherent, fun handle hhandle hlive => ?_, fun handle hhandle => ?_, ?_⟩
    · show handle.name ∈ port.opened
      rw [show port.opened = insert name world.port.opened from hopened]
      rcases List.mem_append.mp hhandle with hmem | hnew
      · exact Finset.mem_insert_of_mem (h.opened handle hmem (hold handle hmem hlive))
      · rw [List.mem_singleton.mp hnew]
        exact Finset.mem_insert_self name _
    · rcases List.mem_append.mp hhandle with hmem | hnew
      · exact (h.past handle hmem).trans hepoch.ge
      · rw [List.mem_singleton.mp hnew]
        exact (hnow.trans hepoch.symm).le
    · intro i j handle handle' hi hj hlive hlive' hname
      rcases getElem?_concat_cases hi with hi | ⟨rfl, rfl⟩ <;>
        rcases getElem?_concat_cases hj with hj | ⟨rfl, rfl⟩
      · exact h.alone hi hj (hold _ (List.mem_of_getElem? hi) hlive) (hold _ (List.mem_of_getElem? hj) hlive')
          hname
      · exact absurd hname (hother _ (List.mem_of_getElem? hi) hlive)
      · exact absurd hname.symm (hother _ (List.mem_of_getElem? hj) hlive')
      · rfl

theorem getElem?_set_closed {handles : List MemoryHandle} {index j : ℕ} {handle other : MemoryHandle}
    (hother : (handles.set index { handle with closed := true })[j]? = some other)
    (hopen : other.closed = false) : j ≠ index ∧ handles[j]? = some other := by
  rw [List.getElem?_set] at hother
  split_ifs at hother with heq
  · rw [← Option.some.inj hother] at hopen
    cases hopen
  · exact ⟨Ne.symm heq, hother⟩

/-- A handle that closes gives up its file, which no other live handle has. -/
theorem Inv.close (h : world.Inv) (index : ℕ) : (world.close index).Inv := by
  rw [World.close]
  split
  · exact h
  next handle hhandle =>
    split_ifs with hclosed hepoch
    · exact h
    all_goals
      have hpast : ∀ other ∈ world.handles.set index { handle with closed := true },
          other.epoch ≤ world.port.epoch := by
        intro other hmem
        rcases List.mem_or_eq_of_mem_set hmem with hold | hnew
        · exact h.past other hold
        · rw [hnew]
          exact h.past handle (List.mem_of_getElem? hhandle)
    · have hlive : handle.Live world.port := ⟨by simpa using hclosed, hepoch⟩
      have hcoherent := h.coherent
      refine ⟨⟨⟨fun hview => hcoherent.separate.valid hview, fun hview hview' =>
        hcoherent.separate.apart hview hview'⟩, hcoherent.replayed, hcoherent.present, hcoherent.sized,
        fun name hopen => hcoherent.opened name (Finset.mem_of_mem_erase hopen)⟩, fun other hmem hother => ?_,
        hpast, fun {i j first second} hi hj hfirst hsecond hname => ?_⟩
      · obtain ⟨j, hj⟩ := List.getElem?_of_mem hmem
        obtain ⟨hne, hold⟩ := getElem?_set_closed hj hother.1
        refine Finset.mem_erase.mpr ⟨fun hname => hne ?_, h.opened other (List.mem_of_getElem? hold) hother⟩
        exact h.alone hold hhandle hother hlive hname
      · obtain ⟨-, hi⟩ := getElem?_set_closed hi hfirst.1
        obtain ⟨-, hj⟩ := getElem?_set_closed hj hsecond.1
        exact h.alone hi hj hfirst hsecond hname
    · refine ⟨h.coherent, fun other hmem hother => ?_, hpast, fun {i j first second} hi hj hfirst hsecond
        hname => ?_⟩
      · obtain ⟨j, hj⟩ := List.getElem?_of_mem hmem
        obtain ⟨-, hold⟩ := getElem?_set_closed hj hother.1
        exact h.opened other (List.mem_of_getElem? hold) hother
      · obtain ⟨-, hi⟩ := getElem?_set_closed hi hfirst.1
        obtain ⟨-, hj⟩ := getElem?_set_closed hj hsecond.1
        exact h.alone hi hj hfirst hsecond hname

/-- After a termination no handle works any more. -/
theorem Inv.terminate (h : world.Inv) {decisions : ℕ → Option TerminationDecision}
    (hport : world.port.terminate decisions = .ok port) : ({ world with port := port } : World).Inv := by
  obtain ⟨kept, hkept⟩ := terminate_ok hport
  obtain ⟨port', hport', hcoherent, -, hepoch, -⟩ := terminate_spec hkept
  rw [hport] at hport'
  obtain rfl := Except.ok.inj hport'
  have hdead : ∀ handle ∈ world.handles, ¬ handle.Live port := by
    intro handle hmem hlive
    have hpast := h.past handle hmem
    have hnow := hlive.2
    omega
  refine ⟨hcoherent, fun handle hmem hlive => absurd hlive (hdead handle hmem), fun handle hmem => ?_,
    fun hi _ hlive _ _ => absurd hlive (hdead _ (List.mem_of_getElem? hi))⟩
  have hpast := h.past handle hmem
  show handle.epoch ≤ port.epoch
  omega

theorem Inv.step (h : world.Inv) (request : Request) : (world.step request).2.Inv := by
  cases request with
  | acquire name label => exact h.acquire name label
  | getSize handle label => exact h.withHandle handle fun name => touched_getSize world.port name label
  | read handle length offset label =>
    exact h.withHandle handle fun name => touched_read world.port name length offset label
  | write handle source offset label =>
    exact h.withHandle handle fun name => touched_write world.port name source offset label
  | truncate handle size label =>
    exact h.withHandle handle fun name => touched_truncate world.port name size label
  | flush handle label => exact h.withHandle handle fun name => touched_flush world.port name label
  | close handle => exact h.close handle
  | injectEntry name kind =>
    refine h.ofExcept fun port hport => ?_
    obtain ⟨hcoherent, hopened, hepoch⟩ := h.coherent.injectEntry hport
    exact h.withPort hcoherent hopened hepoch
  | injectFault operation outcome file label bytes occurrence =>
    refine h.ofExcept fun port hport => ?_
    have hlogged := logged_injectFault hport
    exact h.withPort (hlogged.coherent h.coherent) hlogged.opened hlogged.epoch
  | terminate decisions => exact h.ofExcept fun port hport => h.terminate hport
  | clearObservedOperations =>
    have hlogged : Logged world.port { world.port with operations := [] } := ⟨⟨rfl, rfl, rfl⟩, rfl, rfl, rfl⟩
    exact h.withPort (hlogged.coherent h.coherent) rfl rfl

theorem inv_start : World.start.Inv where
  coherent := by
    have hnone : ∀ side name, (Port.images .new side).get? name = none := by
      intro side name
      cases side <;> rfl
    refine ⟨⟨fun hview => ?_, fun hview _ _ => ?_⟩, fun name => rfl, fun effect heffect => ?_,
      fun effect heffect => ?_, fun name hopen => absurd hopen (Finset.notMem_empty name)⟩
    · rw [show (Port.images World.start.port _).get? _ = none from hnone _ _] at hview
      cases hview
    · rw [show (Port.images World.start.port _).get? _ = none from hnone _ _] at hview
      cases hview
    · exact absurd heffect List.not_mem_nil
    · exact absurd heffect List.not_mem_nil
  opened handle hmem := absurd hmem List.not_mem_nil
  past handle hmem := absurd hmem List.not_mem_nil
  alone hi := by cases hi

theorem Inv.run (h : world.Inv) (requests : List Request) : (world.run requests).Inv := by
  induction requests generalizing world with
  | nil => exact h
  | cons request requests ih => exact ih (h.step request)

/-- A flush, whatever its fault, is of one file. -/
theorem Inv.flush_frame (h : world.Inv) {index : ℕ} {handle : MemoryHandle}
    (hhandle : world.handles[index]? = some handle) (label : JsString) {name : OwnedFileName}
    (hne : name ≠ handle.name) :
    (∀ side, (world.step (.flush index label)).2.port.content side name = world.port.content side name) ∧
      (world.step (.flush index label)).2.port.pending name = world.port.pending name := by
  rcases world.withHandle_cases index (fun name =>
    ((fun _ => .done) <$> (world.port.handleFlush name label).1, (world.port.handleFlush name label).2))
    with heq | ⟨handle', hhandle', hlive, heq⟩
  · rw [show (world.step (.flush index label)).2 = world from heq]
    exact ⟨fun _ => rfl, rfl⟩
  · rw [hhandle] at hhandle'
    obtain rfl := Option.some.inj hhandle'
    rw [show (world.step (.flush index label)).2 =
      { world with port := (world.port.handleFlush handle.name label).2 } from heq]
    have hthere := h.there (List.mem_of_getElem? hhandle) hlive
    rw [← h.coherent.both] at hthere
    exact (touched_flush world.port handle.name label).frame h.coherent.separate hthere hne

/-- After any sequence of requests: every volatile image is the durable one with the pending effects on
it, a flush is of one file only, and a termination that keeps everything or nothing keeps the volatile
or the durable images. -/
theorem run_images (requests : List Request) :
    (∀ name, (start.run requests).port.content .volatile name =
      ((start.run requests).port.content .durable name).map fun bytes =>
        replay bytes ((start.run requests).port.pending name)) ∧
    (∀ index handle label name, (start.run requests).handles[index]? = some handle → name ≠ handle.name →
      (∀ side, ((start.run requests).step (.flush index label)).2.port.content side name =
        (start.run requests).port.content side name) ∧
      ((start.run requests).step (.flush index label)).2.port.pending name =
        (start.run requests).port.pending name) ∧
    (∀ decisions, (∀ effect ∈ (start.run requests).port.effects, decisions effect.id = some .full) →
      ∃ world, (start.run requests).step (.terminate decisions) = (.ok .done, world) ∧
        ∀ name, world.port.content .volatile name = (start.run requests).port.content .volatile name) ∧
    (∀ decisions, (∀ effect ∈ (start.run requests).port.effects,
        (decisions effect.id).getD .absent = .absent) →
      ∃ world, (start.run requests).step (.terminate decisions) = (.ok .done, world) ∧
        ∀ name, world.port.content .durable name = (start.run requests).port.content .durable name) := by
  have h := inv_start.run requests
  refine ⟨h.coherent.replayed, fun index handle label name hhandle hne => h.flush_frame hhandle label hne,
    fun decisions hfull => ?_, fun decisions hnone => ?_⟩
  · obtain ⟨port, hport, hcontent⟩ := h.coherent.terminate_full hfull
    exact ⟨{ start.run requests with port := port }, by rw [step, hport]; rfl, hcontent⟩
  · obtain ⟨port, hport, hcontent⟩ := terminate_none hnone
    exact ⟨{ start.run requests with port := port }, by rw [step, hport]; rfl, hcontent⟩

end World

end Opfs.Memory
