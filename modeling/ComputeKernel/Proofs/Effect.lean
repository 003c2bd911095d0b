import ComputeKernel.Device.Present
import Mathlib.Logic.Relation

/-!
# What work on a device does

Work that fails has done something all the same, so each function is described by the state in which
it ends, whether it fails or not (`endState`). A checked call leaves the device as the call leaves
it (`attempted`), and only whether it fails depends on the errors that were waiting for it
(`checked_cases`). Allocation makes a resource whose number no resource had before (`Creates`), and
an upload writes to one resource and to no other (`Writes`). An upload that succeeds was made, and
one that fails on a device that discards writes changes nothing (`uploadBuffer_ok`,
`uploadBuffer_discarded`).
-/

namespace ComputeKernel

section Ends

variable {ε σ α β : Type}

/-- The state in which a computation ends, whether it fails or not. -/
def endState : EStateM.Result ε σ α → σ
  | .ok _ s => s
  | .error _ s => s

@[simp] theorem endState_ok (a : α) (s : σ) : endState (.ok a s : EStateM.Result ε σ α) = s := rfl

@[simp] theorem endState_error (e : ε) (s : σ) :
    endState (.error e s : EStateM.Result ε σ α) = s := rfl

variable {x : EStateM ε σ α} {f : α → EStateM ε σ β} {s s₁ s' : σ} {a : α} {b : β} {e : ε}

theorem bind_of_ok (h : x s = .ok a s₁) : (x >>= f) s = f a s₁ := by
  show EStateM.bind x f s = _
  rw [EStateM.bind, h]

theorem bind_of_error (h : x s = .error e s₁) : (x >>= f) s = .error e s₁ := by
  show EStateM.bind x f s = _
  rw [EStateM.bind, h]

theorem orFail_of_ok {y : Except Failure α} (h : y = .ok a) (s : σ) : orFail y s = .ok a s := by
  rw [h]
  rfl

theorem orFail_of_error {y : Except Failure α} {f : Failure} (h : y = .error f) (s : σ) :
    orFail y s = .error f s := by
  rw [h]
  rfl

theorem get_bind {g : σ → EStateM ε σ β} : (get >>= g) s = g s s := rfl

theorem modify_bind {g : σ → σ} {y : EStateM ε σ β} : (do modify g; y) s = y (g s) := rfl

theorem bind_eq_ok (h : (x >>= f) s = .ok b s') :
    ∃ a s₁, x s = .ok a s₁ ∧ f a s₁ = .ok b s' := by
  rcases hx : x s with ⟨a, s₁⟩ | ⟨e, s₁⟩
  · exact ⟨a, s₁, rfl, by rw [← h, bind_of_ok hx]⟩
  · rw [bind_of_error hx] at h
    simp at h

theorem bind_eq_ok_iff :
    (x >>= f) s = .ok b s' ↔ ∃ a s₁, x s = .ok a s₁ ∧ f a s₁ = .ok b s' :=
  ⟨bind_eq_ok, fun ⟨_, _, hx, hf⟩ => (bind_of_ok hx).trans hf⟩

theorem bind_eq_error (h : (x >>= f) s = .error e s') :
    x s = .error e s' ∨ ∃ a s₁, x s = .ok a s₁ ∧ f a s₁ = .error e s' := by
  rcases hx : x s with ⟨a, s₁⟩ | ⟨e', s₁⟩
  · exact .inr ⟨a, s₁, rfl, by rw [← h, bind_of_ok hx]⟩
  · rw [bind_of_error hx] at h
    simp only [EStateM.Result.error.injEq] at h
    obtain ⟨rfl, rfl⟩ := h
    exact .inl rfl

theorem map_eq_ok {g : α → β} (h : (g <$> x) s = .ok b s') : ∃ a, x s = .ok a s' ∧ b = g a := by
  obtain ⟨a, s₁, hx, h⟩ := bind_eq_ok h
  cases h
  exact ⟨a, hx, rfl⟩

theorem map_eq_error {g : α → β} (h : (g <$> x) s = .error e s') : x s = .error e s' := by
  rcases bind_eq_error h with h | ⟨a, s₁, -, h⟩
  · exact h
  · cases h

theorem except_bind_eq_ok {y : Except ε α} {g : α → Except ε β} (h : (y >>= g) = .ok b) :
    ∃ a, y = .ok a ∧ g a = .ok b := by
  cases y with
  | error e => cases h
  | ok a => exact ⟨a, rfl, h⟩

theorem mapError_eq_ok_iff {ε' : Type} {y : Except ε α} {g : ε → ε'} :
    y.mapError g = .ok a ↔ y = .ok a := by
  constructor <;> intro h
  · rcases y with _ | _ <;> cases h
    rfl
  · rw [h]
    rfl

theorem mapError_eq_error_iff {ε' : Type} {y : Except ε α} {g : ε → ε'} {e' : ε'} :
    y.mapError g = .error e' ↔ ∃ e, y = .error e ∧ g e = e' := by
  constructor
  · intro h
    rcases y with e | _ <;> cases h
    exact ⟨e, rfl, rfl⟩
  · rintro ⟨e, rfl, rfl⟩
    rfl

theorem except_bind_eq_error {y : Except ε α} {g : α → Except ε β} (h : (y >>= g) = .error e) :
    y = .error e ∨ ∃ a, y = .ok a ∧ g a = .error e := by
  cases y with
  | error e' =>
    cases h
    exact .inl rfl
  | ok a => exact .inr ⟨a, rfl, h⟩

theorem mapM_eq_ok_iff {f : α → Except ε β} {xs : List α} {ys : List β} :
    xs.mapM f = .ok ys ↔ xs.map f = ys.map .ok := by
  induction xs generalizing ys with
  | nil => cases ys <;> simp [pure, Except.pure]
  | cons x xs ih =>
    rw [List.mapM_cons, List.map_cons]
    constructor
    · intro h
      obtain ⟨y, hy, h⟩ := except_bind_eq_ok h
      obtain ⟨ys', hys, h⟩ := except_bind_eq_ok h
      cases h
      rw [hy, ih.1 hys, List.map_cons]
    · intro h
      obtain ⟨y, ys', rfl, hy, hys⟩ := List.map_eq_cons_iff.1 h.symm
      rw [← hy, ih.2 hys.symm]
      rfl

theorem map_of_mapM_eq_some {f : α → Option β} {xs : List α} {ys : List β}
    (h : xs.mapM f = some ys) : xs.map f = ys.map some := by
  induction xs generalizing ys with
  | nil =>
    cases h
    rfl
  | cons x xs ih =>
    rw [List.mapM_cons] at h
    obtain ⟨y, hy, h⟩ := Option.bind_eq_some_iff.1 h
    obtain ⟨ys', hys, h⟩ := Option.bind_eq_some_iff.1 h
    cases h
    rw [List.map_cons, List.map_cons, hy, ih hys]

/-- What the first of two computations brings about and the second keeps holds after both. -/
theorem endState_bind {P : σ → Prop} (hx : P (endState (x s)))
    (hf : ∀ a s₁, x s = .ok a s₁ → P s₁ → P (endState (f a s₁))) :
    P (endState ((x >>= f) s)) := by
  rcases hr : x s with ⟨a, s₁⟩ | ⟨e, s₁⟩ <;> rw [hr] at hx
  · rw [bind_of_ok hr]
    exact hf a s₁ hr hx
  · rw [bind_of_error hr]
    exact hx

/-- What each step keeps, a sequence of steps keeps. -/
theorem kept_of_steps {S : σ → σ → Prop} {P : σ → Prop} (hS : ∀ {p q}, S p q → P p → P q)
    (h : Relation.ReflTransGen S s s') (hp : P s) : P s' := by
  induction h with
  | refl => exact hp
  | tail _ h ih => exact hS h ih

end Ends

namespace Device

/-- The failures that come from the device: a limit is exceeded, or an error is raised. -/
inductive Fault : Failure → Prop
  | bufferLimit (size limit : Nat) : Fault (.backend (.bufferLimit size limit))
  | textureLimit (width height limit : UInt32) :
    Fault (.backend (.textureLimit width height limit))
  | raised (task : DeviceTask) (e : DeviceError) : Fault (.backend (.raised task e))

theorem Fault.kind_ne {f : Failure} (h : Fault f) : ¬(f.kind = .usage ∨ f.kind = .shaderLink) := by
  cases h <;> simp [Failure.kind]

section Attempts

variable (d : Device)

/-- The device after calls in an error scope, whatever errors they raised. -/
def attempted (calls : Device → Device) : Device :=
  { calls { d with scope := some { } } with scope := none }

/-- Checked calls are made in any case, and they fail with an error of their own. -/
theorem checked_cases {α : Type} (task : DeviceTask) (calls : Device → α × Device) :
    Work.checked task calls d =
        .ok (calls { d with scope := some { } }).1 (d.attempted fun d => (calls d).2) ∨
      ∃ e, Work.checked task calls d =
        .error (.backend (.raised task e)) (d.attempted fun d => (calls d).2) := by
  unfold Work.checked inScope attempted
  rcases hc : calls { d with scope := some { } } with ⟨a, d'⟩
  simp only [hc]
  rcases d'.scope.bind ErrorScope.error? with _ | e
  · exact .inl rfl
  · exact .inr ⟨e, rfl⟩

/-- What a checked call ends with is what its error scope ends with. -/
theorem checked_scope {α : Type} {task : DeviceTask} {calls : Device → α × Device} {d : Device} :
    (∀ {a d'}, Work.checked task calls d = .ok a d' →
        (calls { d with scope := some { } }).2.scope.bind ErrorScope.error? = none) ∧
      ∀ {f d'}, Work.checked task calls d = .error f d' →
        (calls { d with scope := some { } }).2.scope.bind ErrorScope.error? ≠ none := by
  unfold Work.checked inScope
  rcases calls { d with scope := some { } } with ⟨a, d'⟩
  simp only
  rcases d'.scope.bind ErrorScope.error? with _ | e <;> simp

theorem error?_raise (s : ErrorScope) (e : DeviceError) : (s.raise e).error? ≠ none := by
  unfold ErrorScope.raise ErrorScope.error?
  cases e with
  | validation message => cases s.validation <;> simp
  | outOfMemory => cases s.validation <;> simp

theorem error?_foldl_raise (raised : List DeviceError) (s : ErrorScope) :
    (raised.foldl ErrorScope.raise s).error? = none ↔ s.error? = none ∧ raised = [] := by
  induction raised generalizing s with
  | nil => simp
  | cons e raised ih => simp [ih, error?_raise]

/-- A scope ends without an error if none is due at the call that is made in it. -/
theorem error?_enter (call : Call) :
    (({ d with scope := some { } } : Device).enter call).scope.bind ErrorScope.error? = none ↔
      d.queued.any (·.isDue call) = false := by
  show (List.foldl ErrorScope.raise { } _).error? = none ↔ _
  rw [error?_foldl_raise]
  simp [ErrorScope.error?]

section Writing

variable {d} {task : DeviceTask} {calls : Device → Device} {α : Type} {d' : Device}

/-- A write is made or discarded. -/
theorem written_cases (d : Device) (call : Call) (write : α → α) :
    d.written call write = write ∨ d.written call write = id := by
  by_cases hd : (d.discards && d.queued.any (·.isDue call)) = true
  · exact .inr (funext fun m => by simp [written, hd])
  · exact .inl (funext fun m => by simp [written, hd])

/-- A write that is accepted is made. -/
theorem written_of_ok (call : Call) (write : α → α) {u : Unit}
    (h : Work.checked task (fun d => ((), calls d)) d = .ok u d')
    (hc : ∀ d, (calls d).scope = (d.enter call).scope) : d.written call write = write := by
  have hs := checked_scope.1 h
  rw [hc, error?_enter] at hs
  funext m
  simp [written, hs]

/-- A write that is turned down changes nothing on a device that discards it. -/
theorem written_of_error (call : Call) (write : α → α) {f : Failure}
    (h : Work.checked task (fun d => ((), calls d)) d = .error f d')
    (hc : ∀ d, (calls d).scope = (d.enter call).scope) (hd : d.discards = true) :
    d.written call write = id := by
  have hs := checked_scope.2 h
  rw [hc, ne_eq, error?_enter, Bool.not_eq_false] at hs
  funext m
  simp [written, hs, hd]

end Writing

/-- The device with one more buffer of zeros. -/
def withBuffer (size : Nat) : Device :=
  d.attempted fun d => (d.createBuffer size "webcs_buffer").2

/-- The device with one more buffer, which holds some bytes. -/
def withBytes (bytes : List UInt8) : Device :=
  d.attempted fun d => (d.createBufferInit bytes "webcs_buffer").2

/-- The device with one more texture of zeros. -/
def withTexture (width height : UInt32) (format : ImageFormat) : Device :=
  d.attempted fun d => (d.createTexture width height format).2

end Attempts

section Allocation

/-- What is wrong with the extents of a texture. -/
def emptyFault? (width height : UInt32) : Option Failure :=
  if width = 0 ∨ height = 0 then some (.usage (.emptyTexture width height)) else none

theorem checkSize_eq (size : Nat) (d : Device) :
    checkSize size d =
      if d.limits.bufferSize < size then
        .error (.backend (.bufferLimit size d.limits.bufferSize)) d
      else .ok () d := by
  show (if d.limits.bufferSize < size then
    throw (.backend (.bufferLimit size d.limits.bufferSize)) else pure () : Work Unit) d = _
  split <;> rfl

/-- An allocation fails with nothing done, or it makes a buffer. The device may count the making
as a failure. -/
theorem allocateBuffer_cases (n : Nat) (d : Device) :
    (∃ f, Fault f ∧ allocateBuffer n d = .error f d) ∨
      (∃ f, Fault f ∧ allocateBuffer n d = .error f (d.withBuffer (alignedSize n))) ∨
      alignedSize n ≤ d.limits.bufferSize ∧ allocateBuffer n d =
        .ok ⟨d.buffers.length, alignedSize n⟩ (d.withBuffer (alignedSize n)) := by
  unfold allocateBuffer
  by_cases hl : d.limits.bufferSize < alignedSize n
  · exact .inl ⟨_, .bufferLimit _ _, by rw [bind_of_error (by rw [checkSize_eq, if_pos hl])]⟩
  · rw [bind_of_ok (by rw [checkSize_eq, if_neg hl])]
    rcases checked_cases d .allocateBuffer (·.createBuffer (alignedSize n) "webcs_buffer") with
      h | ⟨e, h⟩
    · exact .inr (.inr ⟨Nat.le_of_not_lt hl, by rw [bind_of_ok h]; rfl⟩)
    · exact .inr (.inl ⟨_, .raised _ e, by rw [bind_of_error h]; rfl⟩)

theorem bufferOfBytes_cases (bytes : List UInt8) (d : Device) :
    (∃ f, Fault f ∧ bufferOfBytes bytes d = .error f d) ∨
      (∃ f, Fault f ∧ bufferOfBytes bytes d = .error f (d.withBytes (aligned bytes))) ∨
      (aligned bytes).length ≤ d.limits.bufferSize ∧ bufferOfBytes bytes d =
        .ok ⟨d.buffers.length, (aligned bytes).length⟩ (d.withBytes (aligned bytes)) := by
  unfold bufferOfBytes
  by_cases hl : d.limits.bufferSize < (aligned bytes).length
  · exact .inl ⟨_, .bufferLimit _ _, by rw [bind_of_error (by rw [checkSize_eq, if_pos hl])]⟩
  · rw [bind_of_ok (by rw [checkSize_eq, if_neg hl])]
    rcases checked_cases d .allocateBuffer (·.createBufferInit (aligned bytes) "webcs_buffer") with
      h | ⟨e, h⟩
    · exact .inr (.inr ⟨Nat.le_of_not_lt hl, by rw [bind_of_ok h]; rfl⟩)
    · exact .inr (.inl ⟨_, .raised _ e, by rw [bind_of_error h]; rfl⟩)

/-- An extent of zero is refused before the device is asked. -/
theorem allocateTexture_cases (width height : UInt32) (format : ImageFormat) (d : Device) :
    (allocateTexture width height format d = .error (.usage (.emptyTexture width height)) d ∧
        (width = 0 ∨ height = 0)) ∨
      (width ≠ 0 ∧ height ≠ 0 ∧
        ((∃ f, Fault f ∧ allocateTexture width height format d = .error f d) ∨
          (∃ f, Fault f ∧ allocateTexture width height format d =
            .error f (d.withTexture width height format)) ∨
          allocateTexture width height format d =
            .ok ⟨d.textures.length, width, height, format⟩
              (d.withTexture width height format))) := by
  unfold allocateTexture
  by_cases hz : width = 0 ∨ height = 0
  · exact .inl ⟨by simp only [beq_iff_eq, Bool.or_eq_true, hz, if_true]; rfl, hz⟩
  · refine .inr ⟨fun h => hz (.inl h), fun h => hz (.inr h), ?_⟩
    simp only [beq_iff_eq, Bool.or_eq_true, hz, if_false, decide_eq_true_eq, get_bind]
    by_cases hl : d.limits.textureExtent < width ∨ d.limits.textureExtent < height
    · exact .inl ⟨_, .textureLimit width height d.limits.textureExtent, by rw [if_pos hl]; rfl⟩
    · rw [if_neg hl]
      rcases checked_cases d .allocateTexture (·.createTexture width height format) with h | ⟨e, h⟩
      · exact .inr (.inr (by rw [bind_of_ok h]; rfl))
      · exact .inr (.inl ⟨_, .raised _ e, by rw [bind_of_error h]; rfl⟩)

end Allocation

section Uploads

theorem uploadBuffer_of_fits {b : Buffer} {bytes : List UInt8} {d : Device} (hb : bytes ≠ [])
    (hl : bytes.length ≤ b.size) : uploadBuffer b bytes d =
      Work.checked .uploadBuffer (fun d => ((), d.writeBuffer b.number (aligned bytes))) d := by
  unfold uploadBuffer
  have he : (!bytes.isEmpty) = true := by simpa using hb
  rw [if_neg (Nat.not_lt.2 hl), if_pos he]

/-- An upload that does not fit is refused, one of no bytes does nothing, and any other is made. -/
theorem uploadBuffer_cases (b : Buffer) (bytes : List UInt8) (d : Device) :
    (b.size < bytes.length ∧
        uploadBuffer b bytes d = .error (.usage (.uploadTooLong bytes.length b.size)) d) ∨
      (bytes = [] ∧ uploadBuffer b bytes d = .ok () d) ∨
      (bytes ≠ [] ∧ bytes.length ≤ b.size ∧
        (uploadBuffer b bytes d =
            .ok () (d.attempted (·.writeBuffer b.number (aligned bytes))) ∨
          ∃ f, Fault f ∧ uploadBuffer b bytes d =
            .error f (d.attempted (·.writeBuffer b.number (aligned bytes))))) := by
  by_cases hl : b.size < bytes.length
  · exact .inl ⟨hl, by unfold uploadBuffer; rw [if_pos hl]; rfl⟩
  · by_cases hb : bytes = []
    · exact .inr (.inl ⟨hb, by unfold uploadBuffer; rw [if_neg hl, hb]; rfl⟩)
    · refine .inr (.inr ⟨hb, Nat.le_of_not_lt hl, ?_⟩)
      rw [uploadBuffer_of_fits hb (Nat.le_of_not_lt hl)]
      rcases checked_cases d .uploadBuffer fun d => ((), d.writeBuffer b.number (aligned bytes))
        with h | ⟨e, h⟩
      · exact .inl h
      · exact .inr ⟨_, .raised _ e, h⟩

/-- Why texels for a region are refused, if they are: their bytes cannot be counted, or they are not
as many as the region has. -/
def texelFault? (format : ImageFormat) (width height : UInt32) (texels : List UInt8) :
    Option Failure :=
  let expected := rowBytes width format * height.toNat
  if UInt32.size ≤ rowBytes width format then some (.overflow .row)
  else if UInt32.size ≤ expected then some (.overflow .region)
  else if texels.length = expected then none
  else some (.usage (.texelLength expected texels.length))

theorem texelFault?_eq_none {format : ImageFormat} {width height : UInt32} {texels : List UInt8}
    (hr : rowBytes width format < UInt32.size) (hs : texels.length < UInt32.size)
    (hl : texels.length = rowBytes width format * height.toNat) :
    texelFault? format width height texels = none := by
  have hregion : ¬UInt32.size ≤ rowBytes width format * height.toNat := by
    rw [← hl]
    exact Nat.not_le.2 hs
  simp only [texelFault?, if_neg (Nat.not_le.2 hr), if_neg hregion, if_pos hl]

/-- An upload that fits is refused for its texels, or it is made. -/
theorem uploadTexture_of_fits {t : Texture} {width height : UInt32} (texels : List UInt8)
    (d : Device) (hf : t.fits width height = true) :
    uploadTexture t texels width height d =
      match texelFault? t.format width height texels with
      | some f => .error f d
      | none => Work.checked .uploadTexture (fun d =>
          ((), d.writeTexture t.number width height (rowBytes width t.format) texels)) d := by
  unfold uploadTexture texelFault?
  simp only [hf, Bool.not_true, Bool.false_eq_true, if_false]
  by_cases hr : UInt32.size ≤ rowBytes width t.format
  · rw [if_pos hr]
    exact bind_of_error (orFail_of_error (counted_of_le hr) d)
  rw [if_neg hr, bind_of_ok (orFail_of_ok (counted_of_lt (Nat.not_le.1 hr)) d)]
  by_cases hs : UInt32.size ≤ rowBytes width t.format * height.toNat
  · rw [if_pos hs]
    exact bind_of_error (orFail_of_error (counted_of_le hs) d)
  rw [if_neg hs, bind_of_ok (orFail_of_ok (counted_of_lt (Nat.not_le.1 hs)) d)]
  by_cases hl : texels.length = rowBytes width t.format * height.toNat
  · simp only [hl, ne_eq, not_true_eq_false, if_false, if_true]
  · simp only [hl, ne_eq, not_false_eq_true, if_true, if_false]
    rfl

/-- An upload that does not fit is refused, and so is one with texels that are too many or too few.
Any other is made. -/
theorem uploadTexture_cases (t : Texture) (texels : List UInt8) (width height : UInt32)
    (d : Device) :
    (t.fits width height = false ∧ uploadTexture t texels width height d =
        .error (.usage (.uploadTooWide width height t.width t.height)) d) ∨
      (t.fits width height = true ∧ ∃ f, texelFault? t.format width height texels = some f ∧
        uploadTexture t texels width height d = .error f d) ∨
      (t.fits width height = true ∧ texelFault? t.format width height texels = none ∧
        (uploadTexture t texels width height d = .ok () (d.attempted
            (·.writeTexture t.number width height (rowBytes width t.format) texels)) ∨
          ∃ f, Fault f ∧ uploadTexture t texels width height d = .error f (d.attempted
            (·.writeTexture t.number width height (rowBytes width t.format) texels)))) := by
  by_cases hf : t.fits width height = true
  · have hu := uploadTexture_of_fits texels d hf
    rcases hl : texelFault? t.format width height texels with _ | f <;> simp only [hl] at hu
    · refine .inr (.inr ⟨hf, rfl, ?_⟩)
      rw [hu]
      rcases checked_cases d .uploadTexture fun d =>
          ((), d.writeTexture t.number width height (rowBytes width t.format) texels)
        with h | ⟨e, h⟩
      · exact .inl h
      · exact .inr ⟨_, .raised _ e, h⟩
    · exact .inr (.inl ⟨hf, f, rfl, hu⟩)
  · have hf : t.fits width height = false := by simpa using hf
    refine .inl ⟨hf, ?_⟩
    unfold uploadTexture
    simp only [hf, Bool.not_false, if_true]
    rfl

/-- The buffers after an upload that succeeded. -/
theorem uploadBuffer_ok {b : Buffer} {bytes : List UInt8} {d d' : Device} {u : Unit}
    (h : uploadBuffer b bytes d = .ok u d') :
    d'.buffers = if bytes = [] then d.buffers
      else d.buffers.modify b.number (·.write (aligned bytes)) := by
  rcases uploadBuffer_cases b bytes d with ⟨-, h'⟩ | ⟨hb, h'⟩ | ⟨hb, hl, h' | ⟨f, -, h'⟩⟩ <;>
    rw [h'] at h <;> cases h
  · rw [if_pos hb]
  · rw [uploadBuffer_of_fits hb hl] at h'
    have hw := written_of_ok .writeBuffer (fun m : BufferMemory => m.write (aligned bytes)) h'
      fun _ => rfl
    rw [if_neg hb, ← hw]
    rfl

theorem uploadBuffer_discarded {b : Buffer} {bytes : List UInt8} {d d' : Device} {f : Failure}
    (hd : d.discards = true) (h : uploadBuffer b bytes d = .error f d') :
    d'.buffers = d.buffers := by
  rcases uploadBuffer_cases b bytes d with ⟨-, h'⟩ | ⟨-, h'⟩ | ⟨hb, hl, h' | ⟨f', -, h'⟩⟩ <;>
    rw [h'] at h <;> cases h
  · rfl
  · rw [uploadBuffer_of_fits hb hl] at h'
    have hw := written_of_error .writeBuffer (fun m : BufferMemory => m.write (aligned bytes)) h'
      (fun _ => rfl) hd
    show d.buffers.modify b.number (d.written .writeBuffer fun m => m.write (aligned bytes)) = _
    rw [hw, List.modify_id]

/-- The textures after an upload that succeeded. -/
theorem uploadTexture_ok {t : Texture} {texels : List UInt8} {width height : UInt32} {d d' : Device}
    {u : Unit} (h : uploadTexture t texels width height d = .ok u d') :
    d'.textures = d.textures.modify t.number (·.write (rowBytes width t.format) texels) := by
  rcases uploadTexture_cases t texels width height d with
    ⟨-, h'⟩ | ⟨-, f, -, h'⟩ | ⟨hf, hl, h' | ⟨f, -, h'⟩⟩ <;> rw [h'] at h <;> cases h
  rw [uploadTexture_of_fits _ _ hf] at h'
  simp only [hl] at h'
  have hw := written_of_ok .writeTexture (fun m : TextureMemory =>
    m.write (rowBytes width t.format) texels) h' fun _ => rfl
  rw [← hw]
  rfl

/-- The device when a texture was copied to a new staging buffer. -/
def stagedTexture (t : Texture) (d : Device) : Device :=
  let pitch := pitch (rowBytes t.width t.format)
  (d.createBuffer (pitch * t.height.toNat) "webcs_texture_staging").2
    |>.submitTextureCopy t.number d.buffers.length t.width t.height pitch

theorem le_pitch (row : Nat) : row ≤ pitch row := by
  unfold pitch
  omega

theorem readTexture_of_lt {t : Texture} (h : pitch (rowBytes t.width t.format) < UInt32.size)
    (d : Device) : readTexture t d = (do
      return withoutPadding (rowBytes t.width t.format) (pitch (rowBytes t.width t.format))
        (← Work.mapped d.buffers.length) : Work (List UInt8)) (stagedTexture t d) := by
  have hr : rowBytes t.width t.format < UInt32.size := Nat.lt_of_le_of_lt (le_pitch _) h
  unfold readTexture
  rw [bind_of_ok (orFail_of_ok (counted_of_lt (c := .row) hr) d),
    bind_of_ok (orFail_of_ok (counted_of_lt (c := .pitch) h) d)]
  rfl

/-- A texture is not read at all if the bytes between its rows cannot be counted. -/
theorem readTexture_of_le {t : Texture} (h : UInt32.size ≤ pitch (rowBytes t.width t.format))
    (d : Device) : ∃ c, readTexture t d = .error (.overflow c) d := by
  unfold readTexture
  by_cases hr : UInt32.size ≤ rowBytes t.width t.format
  · exact ⟨.row, bind_of_error (orFail_of_error (counted_of_le hr) d)⟩
  · rw [bind_of_ok (orFail_of_ok (counted_of_lt (c := .row) (Nat.not_le.1 hr)) d)]
    exact ⟨.pitch, bind_of_error (orFail_of_error (counted_of_le h) d)⟩

end Uploads

section Events

/-- The resource that an event brings about. -/
def Event.created? : Event → Option ResourceId
  | .createBuffer n _ _ => some (.buffer n)
  | .createBufferInit n _ _ => some (.buffer n)
  | .createTexture n _ _ _ => some (.texture n)
  | _ => none

/-- The resources that an event reads, writes, binds or destroys. -/
def Event.touched : Event → List ResourceId
  | .writeBuffer n _ => [.buffer n]
  | .writeTexture n _ _ _ _ => [.texture n]
  | .destroy id => [id]
  | .createBindGroup _ group => group
  | .copyBuffer source target _ => [.buffer source, .buffer target]
  | .copyTexture source target _ _ _ => [.texture source, .buffer target]
  | .dispatch _ params uniforms => params ++ uniforms.getD []
  | .draw _ group => group
  | .map n => [.buffer n]
  | .unmap n => [.buffer n]
  | _ => []

/-- Whether a device has a resource. -/
def Allocated (d : Device) : ResourceId → Prop
  | .buffer n => n < d.buffers.length
  | .texture n => n < d.textures.length

/-- A device after an allocation that made a resource. -/
inductive Creates (d : Device) : Resource → Device → Prop
  | buffer (size : Nat) : Creates d (.buffer ⟨d.buffers.length, size⟩) (d.withBuffer size)
  | bytes (bytes : List UInt8) :
    Creates d (.buffer ⟨d.buffers.length, bytes.length⟩) (d.withBytes bytes)
  | texture (width height : UInt32) (format : ImageFormat) :
    Creates d (.texture ⟨d.textures.length, width, height, format⟩)
      (d.withTexture width height format)

/-- A device after an upload to a resource. -/
inductive Writes (d : Device) : ResourceId → Device → Prop
  | buffer (n : Nat) (bytes : List UInt8) :
    Writes d (.buffer n) (d.attempted (·.writeBuffer n bytes))
  | texture (n : Nat) (width height : UInt32) (row : Nat) (bytes : List UInt8) :
    Writes d (.texture n) (d.attempted (·.writeTexture n width height row bytes))

variable {d d' : Device} {x : Resource} {id : ResourceId}

theorem Creates.events (h : Creates d x d') :
    ∃ e, d'.events = d.events ++ [e] ∧ e.created? = some x.id := by
  cases h
  all_goals exact ⟨_, rfl, rfl⟩

theorem Creates.limits (h : Creates d x d') : d'.limits = d.limits := by
  cases h <;> rfl

/-- A new resource has a number that no resource had before. -/
theorem Creates.fresh (h : Creates d x d') : ¬ d.Allocated x.id := by
  cases h <;> exact Nat.lt_irrefl _

theorem Creates.allocated_iff (h : Creates d x d') :
    d'.Allocated id ↔ d.Allocated id ∨ id = x.id := by
  cases h with
  | buffer size =>
    cases id with
    | buffer n =>
      show n < (d.buffers ++ [_]).length ↔ n < d.buffers.length ∨ _
      simp [Resource.id]
      omega
    | texture n =>
      show n < d.textures.length ↔ n < d.textures.length ∨ _
      simp [Resource.id]
  | bytes bytes =>
    cases id with
    | buffer n =>
      show n < (d.buffers ++ [_]).length ↔ n < d.buffers.length ∨ _
      simp [Resource.id]
      omega
    | texture n =>
      show n < d.textures.length ↔ n < d.textures.length ∨ _
      simp [Resource.id]
  | texture width height format =>
    cases id with
    | buffer n =>
      show n < d.buffers.length ↔ n < d.buffers.length ∨ _
      simp [Resource.id]
    | texture n =>
      show n < (d.textures ++ [_]).length ↔ n < d.textures.length ∨ _
      simp [Resource.id]
      omega

/-- Whether an event is an upload. -/
def Event.isWrite : Event → Bool
  | .writeBuffer .. | .writeTexture .. => true
  | _ => false

theorem Writes.events (h : Writes d id d') :
    ∃ e, d'.events = d.events ++ [e] ∧ e.isWrite = true ∧ e.touched = [id] := by
  cases h
  all_goals exact ⟨_, rfl, rfl, rfl⟩

theorem Writes.limits (h : Writes d id d') : d'.limits = d.limits := by
  cases h <;> rfl

theorem Writes.allocated_iff {id' : ResourceId} (h : Writes d id d') :
    d'.Allocated id' ↔ d.Allocated id' := by
  cases h with
  | buffer n bytes =>
    cases id' with
    | buffer m =>
      show m < (d.buffers.modify n _).length ↔ _
      rw [List.length_modify]
      rfl
    | texture m => rfl
  | texture n width height row bytes =>
    cases id' with
    | buffer m => rfl
    | texture m =>
      show m < (d.textures.modify n _).length ↔ _
      rw [List.length_modify]
      rfl

/-- What a device is opened with: nothing that it does changes that. -/
def setup (d : Device) : Limits × Bool := (d.limits, d.discards)

theorem limits_of_setup (h : d'.setup = d.setup) : d'.limits = d.limits := congrArg Prod.fst h

theorem discards_of_setup (h : d'.setup = d.setup) : d'.discards = d.discards :=
  congrArg Prod.snd h

/-- The device after work that changed no buffers but some. -/
structure Spares (ids : List ResourceId) (d d' : Device) : Prop where
  setup : d'.setup = d.setup
  buffers : ∀ n, .buffer n ∉ ids → d'.buffers[n]? = d.buffers[n]?

theorem Spares.discards {ids : List ResourceId} (h : Spares ids d d') : d'.discards = d.discards :=
  discards_of_setup h.setup

theorem spares_of_eq {ids : List ResourceId} (hd : d'.setup = d.setup)
    (hb : d'.buffers = d.buffers) : Spares ids d d' := ⟨hd, fun _ _ => by rw [hb]⟩

theorem spares_modify {ids : List ResourceId} {n : Nat} {f : BufferMemory → BufferMemory}
    (hn : .buffer n ∈ ids) (hd : d'.setup = d.setup) (hb : d'.buffers = d.buffers.modify n f) :
    Spares ids d d' := by
  refine ⟨hd, fun m hm => ?_⟩
  have hne : n ≠ m := fun h => hm (h ▸ hn)
  simp [hb, hne]

theorem Writes.spares (h : Writes d id d') : Spares [id] d d' := by
  cases h with
  | buffer n bytes => exact spares_modify List.mem_cons_self rfl rfl
  | texture n width height row bytes => exact spares_of_eq rfl rfl

end Events

section Allocators

/-- Work that allocates a resource: it fails with nothing done, or it makes a resource and then
gives it, or fails all the same. -/
def Allocates {α : Type} (w : Work α) (resource : α → Resource) : Prop :=
  ∀ d, (∃ f, w d = .error f d) ∨
    (∃ f x d', w d = .error f d' ∧ Creates d x d') ∨
    ∃ a d', w d = .ok a d' ∧ Creates d (resource a) d'

theorem Allocates.map {α : Type} {w : Work α} {resource : α → Resource}
    (h : Allocates w resource) : Allocates (resource <$> w) id := by
  intro d
  rcases h d with ⟨f, h⟩ | ⟨f, x, d', h, hc⟩ | ⟨a, d', h, hc⟩
  · exact .inl ⟨f, bind_of_error h⟩
  · exact .inr (.inl ⟨f, x, d', bind_of_error h, hc⟩)
  · exact .inr (.inr ⟨resource a, d', bind_of_ok h, hc⟩)

theorem allocateBuffer_allocates (n : Nat) : Allocates (allocateBuffer n) .buffer := by
  intro d
  rcases allocateBuffer_cases n d with ⟨f, -, h⟩ | ⟨f, -, h⟩ | ⟨-, h⟩
  · exact .inl ⟨_, h⟩
  · exact .inr (.inl ⟨_, _, _, h, .buffer _⟩)
  · exact .inr (.inr ⟨_, _, h, .buffer _⟩)

theorem bufferOfBytes_allocates (bytes : List UInt8) :
    Allocates (bufferOfBytes bytes) .buffer := by
  intro d
  rcases bufferOfBytes_cases bytes d with ⟨f, -, h⟩ | ⟨f, -, h⟩ | ⟨-, h⟩
  · exact .inl ⟨_, h⟩
  · exact .inr (.inl ⟨_, _, _, h, .bytes _⟩)
  · exact .inr (.inr ⟨_, _, h, .bytes _⟩)

theorem allocateTexture_allocates (width height : UInt32) (format : ImageFormat) :
    Allocates (allocateTexture width height format) .texture := by
  intro d
  rcases allocateTexture_cases width height format d with
    ⟨h, -⟩ | ⟨-, -, ⟨f, -, h⟩ | ⟨f, -, h⟩ | h⟩
  · exact .inl ⟨_, h⟩
  · exact .inl ⟨_, h⟩
  · exact .inr (.inl ⟨_, _, _, h, .texture _ _ _⟩)
  · exact .inr (.inr ⟨_, _, h, .texture _ _ _⟩)

/-- An upload to a buffer writes to it or does nothing. -/
theorem uploadBuffer_end (b : Buffer) (bytes : List UInt8) (d : Device) :
    endState (uploadBuffer b bytes d) = d ∨
      Writes d (.buffer b.number) (endState (uploadBuffer b bytes d)) := by
  rcases uploadBuffer_cases b bytes d with ⟨-, h⟩ | ⟨-, h⟩ | ⟨-, -, h | ⟨f, -, h⟩⟩ <;> rw [h]
  · exact .inl rfl
  · exact .inl rfl
  · exact .inr (.buffer _ _)
  · exact .inr (.buffer _ _)

/-- An upload to a texture writes to it or does nothing. -/
theorem uploadTexture_end (t : Texture) (texels : List UInt8) (width height : UInt32)
    (d : Device) :
    endState (uploadTexture t texels width height d) = d ∨
      Writes d (.texture t.number) (endState (uploadTexture t texels width height d)) := by
  rcases uploadTexture_cases t texels width height d with
    ⟨-, h⟩ | ⟨-, f, -, h⟩ | ⟨-, -, h | ⟨f, -, h⟩⟩ <;> rw [h]
  · exact .inl rfl
  · exact .inl rfl
  · exact .inr (.texture _ _ _ _ _)
  · exact .inr (.texture _ _ _ _ _)

theorem length_aligned (bytes : List UInt8) :
    (aligned bytes).length = max bytes.length (alignedSize bytes.length) := by
  unfold aligned filled
  simp only [List.length_append, List.length_replicate]
  omega

theorem alignedSize_sized {n : Nat} (h : alignedSize n < UInt64.size - 4) :
    0 < alignedSize n ∧ 4 ∣ alignedSize n ∧ n ≤ alignedSize n := by
  unfold alignedSize at h ⊢
  omega

theorem le_alignedSize {n : Nat} (h : n < UInt64.size) : n ≤ alignedSize n := by
  unfold alignedSize
  omega

variable {n : Nat} {width height : UInt32} {format : ImageFormat} {d d' : Device} {f : Failure}

theorem allocateBuffer_error (h : allocateBuffer n d = .error f d') : Fault f := by
  rcases allocateBuffer_cases n d with ⟨g, hf, h'⟩ | ⟨g, hf, h'⟩ | ⟨-, h'⟩ <;> rw [h'] at h <;>
    cases h
  · exact hf
  · exact hf

theorem allocateBuffer_ok {b : Buffer} (h : allocateBuffer n d = .ok b d') :
    b.size = alignedSize n ∧ b.size ≤ d.limits.bufferSize := by
  rcases allocateBuffer_cases n d with ⟨g, -, h'⟩ | ⟨g, -, h'⟩ | ⟨hl, h'⟩ <;> rw [h'] at h <;>
    cases h
  exact ⟨rfl, hl⟩

theorem bufferOfBytes_ok {bytes : List UInt8} {b : Buffer} (h : bufferOfBytes bytes d = .ok b d') :
    b.size = (aligned bytes).length ∧ b.size ≤ d.limits.bufferSize := by
  rcases bufferOfBytes_cases bytes d with ⟨g, -, h'⟩ | ⟨g, -, h'⟩ | ⟨hl, h'⟩ <;> rw [h'] at h <;>
    cases h
  exact ⟨rfl, hl⟩

/-- A resource that is no larger than a device has it. Where 64 bits can count the size of every
buffer, sizes are positive and multiples of four. -/
def Resource.Within (limits : Limits) : Resource → Prop
  | .buffer b => b.size ≤ limits.bufferSize ∧
    (limits.bufferSize < UInt64.size - 4 → 0 < b.size ∧ 4 ∣ b.size)
  | .texture _ => True

theorem allocateBuffer_within {b : Buffer} (h : allocateBuffer n d = .ok b d') :
    (Resource.buffer b).Within d.limits := by
  obtain ⟨hs, hl⟩ := allocateBuffer_ok h
  refine ⟨hl, fun hd => ?_⟩
  rw [hs] at hl ⊢
  obtain ⟨hpos, hdvd, -⟩ := alignedSize_sized (Nat.lt_of_le_of_lt hl hd)
  exact ⟨hpos, hdvd⟩

theorem bufferOfBytes_within {bytes : List UInt8} {b : Buffer}
    (h : bufferOfBytes bytes d = .ok b d') : (Resource.buffer b).Within d.limits := by
  obtain ⟨hs, hl⟩ := bufferOfBytes_ok h
  refine ⟨hl, fun hd => ?_⟩
  have hb : b.size < UInt64.size - 4 := Nat.lt_of_le_of_lt hl hd
  rw [hs, length_aligned] at hb
  obtain ⟨hpos, hdvd, hle⟩ := alignedSize_sized (n := bytes.length) (by omega)
  rw [hs, length_aligned, Nat.max_eq_right hle]
  exact ⟨hpos, hdvd⟩

theorem allocateTexture_ok {x : Texture} (h : allocateTexture width height format d = .ok x d') :
    (x.width = width ∧ x.height = height ∧ x.format = format) ∧
      emptyFault? width height = none := by
  rcases allocateTexture_cases width height format d with
    ⟨h', -⟩ | ⟨hw, hh, ⟨g, -, h'⟩ | ⟨g, -, h'⟩ | h'⟩ <;> rw [h'] at h <;> cases h
  exact ⟨⟨rfl, rfl, rfl⟩, by simp [emptyFault?, hw, hh]⟩

end Allocators

section Contents

variable {d d' : Device} {n : Nat} {bytes : List UInt8}

theorem bufferContents_congr (h : d'.buffers[n]? = d.buffers[n]?) :
    d'.bufferContents n = d.bufferContents n := by
  unfold bufferContents
  rw [h]

theorem lt_of_bufferContents (h : 0 < (d.bufferContents n).length) : n < d.buffers.length := by
  refine Nat.lt_of_not_le fun hn => ?_
  simp [bufferContents, List.getElem?_eq_none hn] at h

/-- What is written to a buffer is in the place of what it held at its start. -/
theorem contents_write (m : BufferMemory) (bytes : List UInt8) :
    (m.write bytes).contents = overwrite bytes m.contents := by
  simp only [BufferMemory.contents, filled, BufferMemory.write, overwrite, List.append_assoc,
    List.drop_append, List.length_append, List.length_drop, List.drop_replicate]
  congr 3
  omega

theorem bufferContents_modify (h : d'.buffers = d.buffers.modify n (·.write bytes))
    (hn : n < d.buffers.length) : d'.bufferContents n = overwrite bytes (d.bufferContents n) := by
  unfold bufferContents
  rw [h, List.getElem?_modify_eq, List.getElem?_eq_getElem hn]
  exact contents_write _ _

theorem withBuffer_contents (d : Device) (size : Nat) :
    (d.withBuffer size).bufferContents d.buffers.length = List.replicate size 0 := by
  have hb : (d.withBuffer size).buffers = d.buffers ++ [⟨size, []⟩] := rfl
  simp [bufferContents, hb, BufferMemory.contents, filled]

theorem allocateBuffer_contents {size : Nat} {b : Buffer} (h : allocateBuffer size d = .ok b d') :
    b.number < d'.buffers.length ∧ d'.bufferContents b.number = List.replicate b.size 0 := by
  rcases allocateBuffer_cases size d with ⟨f, -, h'⟩ | ⟨f, -, h'⟩ | ⟨-, h'⟩ <;>
    rw [h'] at h <;> cases h
  exact ⟨by simp [withBuffer, createBuffer, enter, record, attempted], withBuffer_contents d _⟩

end Contents

end Device

end ComputeKernel
