/-
Byte strings that grow and shrink in place: views over array buffers with room to spare.

A buffer keeps what was ever written to it, so a view that shrinks and grows again would show old
bytes.  `bytes_resize` says that a resized view shows the old string cut off or continued with zeros,
whatever the buffer holds behind it, and `Moved` is all that another view has to know about it.
-/
import Pgxsinkit.Lib.Layout

namespace Growable

open Bytes

/-! ### Byte strings -/

/-- Cut off, or continued with zeros. -/
def resized (bytes : List UInt8) (size : ℕ) : List UInt8 :=
  bytes.take size ++ zeros (size - bytes.length)

/-- Written at an offset, the string growing where it must. -/
def written (bytes : List UInt8) (offset : ℕ) (value : List UInt8) : List UInt8 :=
  overwrite (resized bytes (max bytes.length (offset + value.length))) offset value

@[simp] theorem length_resized (bytes : List UInt8) (size : ℕ) : (resized bytes size).length = size := by
  rw [resized, List.length_append, List.length_take, length_zeros]
  omega

theorem resized_of_le {bytes : List UInt8} {size : ℕ} (h : size ≤ bytes.length) :
    resized bytes size = bytes.take size := by
  rw [resized, Nat.sub_eq_zero_of_le h]
  exact List.append_nil _

theorem resized_of_ge {bytes : List UInt8} {size : ℕ} (h : bytes.length ≤ size) :
    resized bytes size = bytes ++ zeros (size - bytes.length) := by
  rw [resized, List.take_of_length_le h]

theorem resized_length (bytes : List UInt8) : resized bytes bytes.length = bytes := by
  rw [resized_of_le le_rfl, List.take_length]

theorem written_of_le {bytes value : List UInt8} {offset : ℕ} (h : offset + value.length ≤ bytes.length) :
    written bytes offset value = overwrite bytes offset value := by
  rw [written, max_eq_left h, resized_length]

theorem written_of_ge {bytes value : List UInt8} {offset : ℕ} (h : bytes.length ≤ offset + value.length) :
    written bytes offset value = overwrite (resized bytes (offset + value.length)) offset value := by
  rw [written, max_eq_right h]

/-! ### Buffers and views -/

/-- The buffers allocated so far; a buffer never changes its length. -/
abbrev Heap : Type := List (List UInt8)

/-- `new Uint8Array(buffer, 0, length)` -/
structure View where
  buffer : ℕ
  length : ℕ
  deriving DecidableEq, Repr

namespace View

variable (heap : Heap) (view : View)

/-- `view.buffer` -/
def backing : List UInt8 := heap.getD view.buffer []

/-- `view.buffer.byteLength` -/
def capacity : ℕ := (view.backing heap).length

/-- What the view shows. -/
def bytes : List UInt8 := (view.backing heap).take view.length

/-- The buffer is there, and as long as the view says. -/
structure Valid : Prop where
  allocated : view.buffer < heap.length
  fits : view.length ≤ view.capacity heap

/-- `view.set(value, offset)` -/
def set (offset : ℕ) (value : List UInt8) : Heap :=
  heap.modify view.buffer fun buffer => overwrite buffer offset value

/-- `view.fill(0, start, stop)` -/
def fillZeros (start stop : ℕ) : Heap := view.set heap start (zeros (stop - start))

end View

/-- `new Uint8Array(new ArrayBuffer(capacity), 0, length)`, with the first bytes already set. -/
def allocate (heap : Heap) (contents : List UInt8) (capacity : ℕ) : View × Heap :=
  (⟨heap.length, contents.length⟩, heap ++ [contents ++ zeros (capacity - contents.length)])

/-- A resize in place where the buffer has room, and a larger buffer otherwise. -/
def resize (heap : Heap) (view : View) (size : ℕ) : View × Heap :=
  if size ≤ view.length then (⟨view.buffer, size⟩, heap)
  else if size ≤ view.capacity heap then
    (⟨view.buffer, size⟩, View.fillZeros heap ⟨view.buffer, size⟩ view.length size)
  else
    let capacity := max (max size (view.capacity heap * 2)) 64
    (⟨heap.length, size⟩, (allocate heap (view.bytes heap) capacity).2)

theorem length_bytes {heap : Heap} {view : View} (h : view.Valid heap) :
    (view.bytes heap).length = view.length := by
  rw [View.bytes, List.length_take]
  exact min_eq_left h.fits

/-! ### What an operation through one view leaves alone -/

/-- From one heap to a later one, nothing changed but one view, which may have moved to a buffer of
its own. -/
structure Moved (heap : Heap) (view : View) (heap' : Heap) (view' : View) : Prop where
  grows : heap.length ≤ heap'.length
  others : ∀ b < heap.length, b ≠ view.buffer → heap'[b]? = heap[b]?
  valid : view'.Valid heap'
  buffer : view'.buffer = view.buffer ∨ heap.length ≤ view'.buffer

variable {heap heap' heap'' : Heap} {view view' view'' other : View}

theorem Moved.refl (h : view.Valid heap) : Moved heap view heap view :=
  ⟨le_rfl, fun _ _ _ => rfl, h, .inl rfl⟩

theorem Moved.trans (h : Moved heap view heap' view') (h' : Moved heap' view' heap'' view'') :
    Moved heap view heap'' view'' where
  grows := h.grows.trans h'.grows
  others b hb hne := by
    have hne' : b ≠ view'.buffer := by
      rcases h.buffer with heq | hfresh
      · rwa [heq]
      · omega
    rw [h'.others b (hb.trans_le h.grows) hne', h.others b hb hne]
  valid := h'.valid
  buffer := by
    rcases h'.buffer with heq | hfresh
    · rw [heq]
      exact h.buffer
    · exact .inr (h.grows.trans hfresh)

theorem Moved.backing (h : Moved heap view heap' view') (ho : other.buffer < heap.length)
    (hne : other.buffer ≠ view.buffer) : other.backing heap' = other.backing heap := by
  rw [View.backing, View.backing, List.getD_eq_getElem?_getD, List.getD_eq_getElem?_getD,
    h.others _ ho hne]

/-- Another view shows what it showed. -/
theorem Moved.bytes_eq (h : Moved heap view heap' view') (ho : other.buffer < heap.length)
    (hne : other.buffer ≠ view.buffer) : other.bytes heap' = other.bytes heap := by
  rw [View.bytes, View.bytes, h.backing ho hne]

theorem Moved.valid_of (h : Moved heap view heap' view') (ho : other.Valid heap)
    (hne : other.buffer ≠ view.buffer) : other.Valid heap' := by
  refine ⟨ho.allocated.trans_le h.grows, ?_⟩
  rw [View.capacity, h.backing ho.allocated hne]
  exact ho.fits

theorem Moved.buffer_ne (h : Moved heap view heap' view') (ho : other.buffer < heap.length)
    (hne : other.buffer ≠ view.buffer) : other.buffer ≠ view'.buffer := by
  rcases h.buffer with heq | hfresh
  · rwa [heq]
  · omega

/-! ### Writing -/

theorem backing_modify (h : view.buffer < heap.length) (f : List UInt8 → List UInt8) :
    view.backing (heap.modify view.buffer f) = f (view.backing heap) := by
  rw [View.backing, View.backing, List.getD_eq_getElem?_getD, List.getD_eq_getElem?_getD,
    List.getElem?_modify, List.getElem?_eq_getElem h]
  simp

theorem moved_set {offset : ℕ} {value : List UInt8} (h : view.Valid heap)
    (hfits : offset + value.length ≤ view.length) : Moved heap view (view.set heap offset value) view where
  grows := by rw [View.set, List.length_modify]
  others b _ hne := by
    rw [View.set, List.getElem?_modify]
    simp [Ne.symm hne]
  valid := by
    have hcap := h.fits
    refine ⟨by rw [View.set, List.length_modify]; exact h.allocated, ?_⟩
    rw [View.capacity, View.set, backing_modify h.allocated, length_overwrite] <;>
      · rw [View.capacity] at hcap
        omega
  buffer := .inl rfl

/-- The bytes of a buffer up to a bound, where the write ends before it. -/
theorem take_overwrite {bytes value : List UInt8} {offset size : ℕ} (h : offset + value.length ≤ size)
    (hsize : size ≤ bytes.length) :
    (overwrite bytes offset value).take size = overwrite (bytes.take size) offset value := by
  have hoffset : (bytes.take offset).length = offset := by
    rw [List.length_take]
    omega
  rw [overwrite, overwrite, List.append_assoc, List.append_assoc, List.take_append, List.take_append,
    hoffset, List.take_take, List.take_take, List.take_of_length_le (by omega : value.length ≤ size - offset),
    List.drop_take, min_comm, Nat.sub_sub]

theorem bytes_set {offset : ℕ} {value : List UInt8} (h : view.Valid heap)
    (hfits : offset + value.length ≤ view.length) :
    view.bytes (view.set heap offset value) = overwrite (view.bytes heap) offset value := by
  rw [View.bytes, View.set, backing_modify h.allocated, take_overwrite hfits h.fits]
  rfl

/-! ### Allocating and resizing -/

theorem backing_allocate (heap : Heap) (contents : List UInt8) (capacity : ℕ) (view : View)
    (h : view.buffer = heap.length) :
    view.backing (allocate heap contents capacity).2 =
      contents ++ zeros (capacity - contents.length) := by
  rw [View.backing, allocate, h, List.getD_eq_getElem?_getD, List.getElem?_concat_length]
  rfl

/-- A fresh buffer changes no old one. -/
theorem moved_allocate {size : ℕ} {contents : List UInt8} {capacity : ℕ} (hsize : size ≤ capacity)
    (view : View) : Moved heap view (allocate heap contents capacity).2 ⟨heap.length, size⟩ where
  grows := by
    rw [allocate, List.length_append]
    omega
  others b hb _ := by rw [allocate, List.getElem?_append_left hb]
  valid := by
    refine ⟨by rw [allocate, List.length_append, List.length_singleton]; exact Nat.lt_succ_self _, ?_⟩
    rw [View.capacity, backing_allocate _ _ _ _ rfl, List.length_append, length_zeros]
    show size ≤ _
    omega
  buffer := .inr le_rfl

theorem bytes_allocate (heap : Heap) (contents : List UInt8) (capacity : ℕ) :
    (allocate heap contents capacity).1.bytes (allocate heap contents capacity).2 = contents := by
  rw [View.bytes, backing_allocate _ _ _ _ rfl]
  exact List.take_left

theorem moved_resize (h : view.Valid heap) (size : ℕ) :
    Moved heap view (resize heap view size).2 (resize heap view size).1 := by
  have hfits := h.fits
  rw [resize]
  split_ifs with hshrink hroom
  · exact ⟨le_rfl, fun _ _ _ => rfl, ⟨h.allocated, hshrink.trans hfits⟩, .inl rfl⟩
  · have hvalid : View.Valid heap ⟨view.buffer, size⟩ := ⟨h.allocated, hroom⟩
    have hzeros : view.length + (zeros (size - view.length)).length ≤ (⟨view.buffer, size⟩ : View).length := by
      rw [length_zeros]
      show _ ≤ size
      omega
    have hmoved := moved_set hvalid hzeros
    exact ⟨hmoved.grows, hmoved.others, hmoved.valid, .inl rfl⟩
  · exact moved_allocate (le_max_of_le_left (le_max_left _ _)) view

/-- What a resized view shows does not depend on what lies behind it. -/
theorem bytes_resize (h : view.Valid heap) (size : ℕ) :
    (resize heap view size).1.bytes (resize heap view size).2 = resized (view.bytes heap) size := by
  have hlength := length_bytes h
  have hfits := h.fits
  rw [resize]
  split_ifs with hshrink hroom
  · rw [resized_of_le (by omega)]
    show (view.backing heap).take size = ((view.backing heap).take view.length).take size
    rw [List.take_take, min_eq_left hshrink]
  · -- in place: the bytes between the old and the new end are zeroed first
    have hvalid : View.Valid heap ⟨view.buffer, size⟩ := ⟨h.allocated, hroom⟩
    have hzeros : view.length + (zeros (size - view.length)).length = size := by
      rw [length_zeros]
      omega
    rw [View.fillZeros, bytes_set hvalid hzeros.le, resized_of_ge (by omega), overwrite, hzeros, hlength,
      List.drop_eq_nil_of_le (by rw [length_bytes hvalid]), List.append_nil]
    congr 1
    show ((view.backing heap).take size).take view.length = _
    rw [List.take_take, min_eq_left (by omega)]
    rfl
  · rw [View.bytes, backing_allocate _ _ _ _ rfl, resized_of_ge (by omega), hlength]
    show List.take size _ = _
    rw [List.take_append, List.take_of_length_le (by omega), hlength, zeros, zeros, List.take_replicate]
    congr 2
    omega

/-- A write that resizes where it must. -/
theorem moved_write {offset : ℕ} {value : List UInt8}
    (hmoved : Moved heap view heap' view') (hfits : offset + value.length ≤ view'.length) :
    Moved heap view (view'.set heap' offset value) view' :=
  hmoved.trans (moved_set hmoved.valid hfits)

end Growable
