import ComputeKernel.Proofs.Preparation

/-!
# Refused arguments

Most of what can be wrong with the arguments of a run is found before anything is done, but not all
of it: an output may be too large to be counted, an image may be empty, and texels may be too many
to be counted, which stops the program. Such an argument is refused when it is bound (`refusal?`),
and the arguments before it are bound by then. What they leave behind is known from the state at the
start of the run (`memoryAtRefusal?`).
-/

namespace ComputeKernel

open Device

section Memory

/-- The memory of all resources. -/
structure Memory where
  buffers : List BufferMemory
  textures : List TextureMemory

/-- What can be read from the resources. -/
def Memory.contents (m : Memory) : List (List UInt8) × List (List (List UInt8)) :=
  (m.buffers.map (·.contents), m.textures.map (·.rows))

def Device.memory (d : Device) : Memory := ⟨d.buffers, d.textures⟩

theorem Device.allocated_congr {d d' : Device} (h : d'.memory = d.memory) {id : ResourceId} :
    d'.Allocated id ↔ d.Allocated id := by
  obtain ⟨hb, ht⟩ := Memory.mk.inj h
  cases id with
  | buffer n => rw [Allocated, Allocated, hb]
  | texture n => rw [Allocated, Allocated, ht]

theorem Kernel.memory_createPipeline (p : Pipeline) (d : Device) :
    (d.attempted (createPipeline p)).memory = d.memory := by
  obtain ⟨hb, ht⟩ := createPipeline_memory p d
  rw [memory, memory, hb, ht]

end Memory

namespace Kernel

open RunM

section Refusals

/-- What can be wrong with the arguments of a run: how they are used, or that they are too large to
be counted. -/
inductive Misuse : Failure → Prop
  | usage (f : UsageFault) : Misuse (.usage f)
  | overflow (c : Count) : Misuse (.overflow c)

theorem misuse_of_texels {image : Image} {format : ImageFormat} {f : Failure}
    (h : image.texels format = .error f) : Misuse f := by
  rcases Image.texels_eq_error h with ⟨-, rfl⟩ | ⟨-, rfl⟩ | ⟨-, rfl⟩
  · exact .overflow _
  · exact .usage _
  · exact .usage _

theorem misuse_of_argumentFault {slot : ParamSlot} {arg : Argument Resource} {f : Failure}
    (h : argumentFault? slot arg = some f) : Misuse f := by
  unfold argumentFault? at h
  simp only at h
  split at h
  · cases h
    exact .usage _
  · split at h
    · split at h <;> cases h
      exact .usage _
    · split at h <;> cases h
      rename_i ht
      rcases misuse_of_texels ht with g | c
      · exact .usage _
      · exact .overflow c
    · cases h

theorem misuse_of_argumentsFault {slots : List ParamSlot} {args : List (Argument Resource)}
    {f : Failure} (h : argumentsFault? slots args = some f) : Misuse f := by
  fun_induction argumentsFault? slots args with
  | case1 slot slots arg args ih =>
    exact (Option.or_eq_some_iff.1 h).elim misuse_of_argumentFault fun h => ih h.2
  | case2 => cases h

/-- Nothing but its arguments keeps a run from being started. -/
theorem misuse_of_checkRun {k : Kernel} {args : List (Argument Resource)} {f : Failure}
    (h : k.checkRun args = .error f) : Misuse f := by
  unfold checkRun at h
  rcases except_bind_eq_error h with h | ⟨run, -, h⟩
  · obtain ⟨g, -, rfl⟩ := mapError_eq_error_iff.1 h
    exact .usage g
  simp only at h
  split at h
  · rename_i ha
    cases h
    exact misuse_of_argumentsFault ha
  split at h
  · cases h
    exact .usage _
  split at h <;> cases h
  exact .usage _

/-- Why an argument is refused by a slot that holds `b`. -/
def refusal? (k : Kernel) (groups : Extent) (slot : ParamSlot) (b : Option Bound) :
    Argument Resource → Option Failure
  | .null =>
    match b, slot.kind with
    | some _, _ => none
    | none, .buffer type =>
      match k.program.layout.invocations with
      | .error f => some f
      | .ok n =>
        match outputSize? n groups type.elementBytes with
        | some _ => none
        | none => some (.usage (.outputTooLarge groups slot.name))
    | none, .texture .. => emptyFault? k.target.width k.target.height
  | .resource _ => none
  | .host data =>
    let length := data.toBytes.length
    if keepsSlot b (.host data) || decide (length ≤ alignedSize length) then none
    else some (.usage (.uploadTooLong length (alignedSize length)))
  | .image image =>
    match slot.kind with
    | .buffer _ =>
      some (.usage (.unbindableArgument (Argument.image image : Argument Resource).dump slot.name))
    | .texture _ format _ =>
      match image.texels format, b.bind (·.resource.texture?) with
      | .error f, _ => some f
      | .ok texels, none =>
        (emptyFault? image.width image.height).or
          (texelFault? format image.width image.height texels)
      | .ok texels, some x =>
        if x.fits image.width image.height then
          texelFault? x.format image.width image.height texels
        else (emptyFault? (max x.width image.width) (max x.height image.height)).or
          (texelFault? format image.width image.height texels)
  | arg => some (.usage (.unbindableArgument arg.dump slot.name))

/-- Whether a failure is found when a resource was already made for the argument. -/
def isLate : Failure → Bool
  | .usage (.uploadTooLong ..) | .usage (.texelLength ..) => true
  | .overflow .row | .overflow .region => true
  | _ => false

/-- The memory after an argument was bound to a slot that keeps what it holds. -/
def uploaded (slot : ParamSlot) (b : Option Bound) (arg : Argument Resource) (m : Memory) :
    Memory :=
  match arg, b, slot.kind with
  | .host data, some ⟨.buffer x, _⟩, _ =>
    if data.toBytes = [] then m
    else { m with buffers := m.buffers.modify x.number (·.write (aligned data.toBytes)) }
  | .image image, some ⟨.texture x, _⟩, .texture _ format _ =>
    match image.texels format with
    | .error _ => m
    | .ok texels => { m with
        textures := m.textures.modify x.number
          (·.write (rowBytes image.width x.format) texels) }
  | _, _, _ => m

/-- The memory when the first of some arguments is refused, if no slot was given another resource
up to then. -/
def memoryAtRefusal? (k : Kernel) (groups : Extent) : (index : Nat) → List ParamSlot →
    List (Argument Resource) → Memory → Option Memory
  | index, slot :: slots, arg :: args, m =>
    let b := k.bound? index
    match refusal? k groups slot b arg with
    | some f => if isLate f && !keepsSlot b arg then none else some m
    | none =>
      if keepsSlot b arg then
        memoryAtRefusal? k groups (index + 1) slots args (uploaded slot b arg m)
      else none
  | _, _, _, m => some m

end Refusals

section Turns

/-- How the binding of an argument ends. A slot that does not keep its resource holds another one
from then on, also if the argument is refused after all. -/
inductive TurnEnd (t : Turn) (groups : Extent) (arg : Argument Resource) (r : Running) :
    EStateM.Result Failure Running Unit → Prop
  | failed {f : Failure} (hf : Fault f) (r' : Running) : TurnEnd t groups arg r (.error f r')
  | refused {f : Failure}
    (h : refusal? r.kernel groups t.slot (r.kernel.bound? t.index) arg = some f)
    (hk : (isLate f && !keepsSlot (r.kernel.bound? t.index) arg) = false) :
    TurnEnd t groups arg r (.error f r)
  | late {f : Failure} {r' : Running}
    (h : refusal? r.kernel groups t.slot (r.kernel.bound? t.index) arg = some f)
    (hk : (isLate f && !keepsSlot (r.kernel.bound? t.index) arg) = true)
    (hb : r'.kernel.bound? t.index ≠ r.kernel.bound? t.index) :
    TurnEnd t groups arg r (.error f r')
  | kept {r' : Running}
    (h : refusal? r.kernel groups t.slot (r.kernel.bound? t.index) arg = none)
    (hk : keepsSlot (r.kernel.bound? t.index) arg = true) (hr : r'.kernel = r.kernel)
    (hm : r'.device.memory = uploaded t.slot (r.kernel.bound? t.index) arg r.device.memory) :
    TurnEnd t groups arg r (.ok () r')
  | moved {r' : Running}
    (h : refusal? r.kernel groups t.slot (r.kernel.bound? t.index) arg = none)
    (hk : keepsSlot (r.kernel.bound? t.index) arg = false)
    (hb : r'.kernel.bound? t.index ≠ r.kernel.bound? t.index) : TurnEnd t groups arg r (.ok () r')

variable {t : Turn} {groups : Extent} {arg : Argument Resource} {r : Running}

/-- A slot that is given a new resource did not hold it before. -/
theorem bound?_made {x : Resource} {d : Device} {o : Ownership}
    (hi : t.index < r.kernel.slots.length)
    (ha : ∀ y, r.kernel.bound? t.index = some y → r.device.Allocated y.resource.id)
    (hc : Creates r.device x d) :
    (replaced t ⟨x, o⟩ { r with device := d }).kernel.bound? t.index ≠ r.kernel.bound? t.index := by
  rw [bound?_replaced (r := { r with device := d }) hi]
  exact fun h => hc.fresh (ha _ h.symm)

theorem isLate_of_texels {image : Image} {format : ImageFormat} {f : Failure}
    (h : image.texels format = .error f) : isLate f = false := by
  rcases Image.texels_eq_error h with ⟨-, rfl⟩ | ⟨-, rfl⟩ | ⟨-, rfl⟩ <;> rfl

theorem Refuses.refusal? {k : Kernel} {slot : ParamSlot} {b : Option Bound} {f : Failure}
    (h : Refuses k groups slot b arg f) :
    Kernel.refusal? k groups slot b arg = some f ∧ isLate f = false := by
  cases h with
  | invocations hk hb h =>
    obtain ⟨-, rfl⟩ := counted_eq_error_iff.1 h
    exact ⟨by simp [Kernel.refusal?, hk, hb, h], rfl⟩
  | output hk hb hn h => exact ⟨by simp [Kernel.refusal?, hk, hb, hn, h], rfl⟩
  | texels hk h => exact ⟨by simp [Kernel.refusal?, hk, h], isLate_of_texels h⟩
  | image hk => exact ⟨by simp [Kernel.refusal?, hk], rfl⟩
  | trailer h => cases arg <;> cases h <;> exact ⟨rfl, rfl⟩

theorem misuse_of_emptyFault {width height : UInt32} {f : Failure}
    (h : emptyFault? width height = some f) : Misuse f := by
  unfold emptyFault? at h
  split at h <;> cases h
  exact .usage _

theorem misuse_of_texelFault {format : ImageFormat} {width height : UInt32} {texels : List UInt8}
    {f : Failure} (h : texelFault? format width height texels = some f) : Misuse f := by
  unfold texelFault? at h
  grind [Misuse]

theorem misuse_of_refusal {k : Kernel} {slot : ParamSlot} {b : Option Bound} {f : Failure}
    (h : refusal? k groups slot b arg = some f) : Misuse f := by
  have new : ∀ {width height : UInt32} {format : ImageFormat} {image : Image} {texels : List UInt8},
      (emptyFault? width height).or (texelFault? format image.width image.height texels) = some f →
      Misuse f := fun h =>
    (Option.or_eq_some_iff.1 h).elim misuse_of_emptyFault fun h => misuse_of_texelFault h.2
  cases arg with
  | null =>
    simp only [refusal?] at h
    split at h
    · cases h
    · split at h
      · rename_i g hn
        obtain ⟨-, rfl⟩ := counted_eq_error_iff.1 hn
        cases h
        exact .overflow _
      · split at h <;> cases h
        exact .usage _
    · exact misuse_of_emptyFault h
  | resource _ => cases h
  | host data =>
    simp only [refusal?] at h
    split at h <;> cases h
    exact .usage _
  | image image =>
    simp only [refusal?] at h
    split at h
    · cases h
      exact .usage _
    split at h
    · rename_i ht
      cases h
      exact misuse_of_texels ht
    · exact new h
    · split at h
      · exact misuse_of_texelFault h
      · exact new h
  | group _ | uniforms _ =>
    cases h
    exact .usage _

/-- An image that a slot has no room for goes into a new texture, which may not be empty. -/
theorem refusal?_image {k : Kernel} {g : Extent} {slot : ParamSlot} {b : Option Bound}
    {image : Image} {type : ParamType} {format : ImageFormat} {access : Access}
    {texels : List UInt8}
    (hs : slot.kind = .texture type format access) (ht : image.texels format = .ok texels)
    (hk : keepsSlot b (.image image) = false) :
    refusal? k g slot b (.image image) =
      (emptyFault? (grown b image).1 (grown b image).2).or
        (texelFault? format image.width image.height texels) := by
  unfold grown
  rcases hb : b.bind (·.resource.texture?) with _ | x
  · simp [refusal?, hs, ht, hb]
  · simp only [keepsSlot, hb, Option.any_some] at hk
    simp [refusal?, hs, ht, hb, hk]

theorem isLate_of_texelFault? {format : ImageFormat} {width height : UInt32} {texels : List UInt8}
    {f : Failure} (h : texelFault? format width height texels = some f) : isLate f = true := by
  unfold texelFault? at h
  grind [isLate]

theorem allocateTexture_turnEnd {width height : UInt32} {format : ImageFormat} {f : Failure}
    {d : Device} (h : allocateTexture width height format r.device = .error f d)
    (hn : ∀ g, emptyFault? width height = some g →
      refusal? r.kernel groups t.slot (r.kernel.bound? t.index) arg = some g) :
    TurnEnd t groups arg r (.error f { r with device := d }) := by
  rcases allocateTexture_cases width height format r.device with
    ⟨h', hz⟩ | ⟨-, -, ⟨g, hf, h'⟩ | ⟨g, hf, h'⟩ | h'⟩ <;> cases h.symm.trans h'
  · exact .refused (hn _ (if_pos hz)) rfl
  · exact .failed hf _
  · exact .failed hf _

theorem Asks.turnEnd {ask : Work Resource} {f : Failure} {d : Device}
    (ha : Asks r.kernel groups t.slot (r.kernel.bound? t.index) arg ask)
    (h : ask r.device = .error f d) : TurnEnd t groups arg r (.error f { r with device := d }) := by
  cases ha with
  | buffer _ _ _ _ => exact .failed (allocateBuffer_error (map_eq_error h)) _
  | texture hk hb =>
    refine allocateTexture_turnEnd (map_eq_error h) fun g hg => ?_
    rw [hb]
    simpa [refusal?, hk] using hg
  | host _ => exact .failed (allocateBuffer_error (map_eq_error h)) _
  | image hk ht hb =>
    refine allocateTexture_turnEnd (map_eq_error h) fun g hg => ?_
    rw [refusal?_image hk ht hb, hg, Option.some_or]

/-- A slot keeps what it holds. -/
theorem Sends.turnEnd {b : Bound} {send : Work Unit} (hs : Sends t.slot arg b.resource send)
    (hb : r.kernel.bound? t.index = some b) (hk : keepsSlot (some b) arg = true) :
    TurnEnd t groups arg r (onDevice send r) := by
  rw [← hb] at hk
  rcases b with ⟨x, o⟩
  cases hs with
  | null _ =>
    refine .kept ?_ hk rfl (by simp [uploaded])
    simp [refusal?, hb]
  | host data b =>
    have hn : refusal? r.kernel groups t.slot (r.kernel.bound? t.index) (.host data) = none := by
      simp [refusal?, hk]
    have hl : data.toBytes.length ≤ b.size := by simpa [keepsSlot, hb, Resource.buffer?] using hk
    rcases uploadBuffer_cases b data.toBytes r.device with
      ⟨hl', -⟩ | ⟨he, h⟩ | ⟨he, -, h | ⟨f, hf, h⟩⟩
    · exact absurd hl (Nat.not_le.2 hl')
    · rw [onDevice_of_ok h]
      exact .kept hn hk rfl (by simp [uploaded, hb, he])
    · have hm := uploadBuffer_ok h
      rw [if_neg he] at hm
      rw [onDevice_of_ok h]
      refine .kept hn hk rfl ?_
      simp only [uploaded, hb, if_neg he, memory, hm]
      rfl
    · rw [onDevice_of_error h]
      exact .failed hf _
  | @image image _ _ _ texels hs ht x =>
    have hf : x.fits image.width image.height = true := by
      simpa [keepsSlot, hb, Resource.texture?] using hk
    have hn : refusal? r.kernel groups t.slot (r.kernel.bound? t.index) (.image image) =
        texelFault? x.format image.width image.height texels := by
      simp [refusal?, hs, ht, hb, Resource.texture?, hf]
    rcases uploadTexture_cases x texels image.width image.height r.device with
      ⟨hf', -⟩ | ⟨-, f, hl, h⟩ | ⟨-, hl, h | ⟨f, hd, h⟩⟩
    · exact absurd (hf.symm.trans hf') (by simp)
    · rw [onDevice_of_error h]
      exact .refused (hn.trans hl) (by simp [hk])
    · have hm := uploadTexture_ok h
      rw [onDevice_of_ok h]
      refine .kept (hn.trans hl) hk rfl ?_
      simp only [uploaded, hb, hs, ht, memory, hm]
      rfl
    · rw [onDevice_of_error h]
      exact .failed hd _

theorem le_greater (a b : UInt32) : b ≤ max a b := by
  show b ≤ if a ≤ b then b else a
  split
  · exact UInt32.le_refl b
  · rename_i h
    exact UInt32.le_of_lt (UInt32.not_le.1 h)

theorem le_grown (b : Option Bound) (image : Image) :
    image.width ≤ (grown b image).1 ∧ image.height ≤ (grown b image).2 := by
  unfold grown
  rcases b.bind (·.resource.texture?) with _ | old
  · exact ⟨UInt32.le_refl _, UInt32.le_refl _⟩
  · exact ⟨le_greater _ _, le_greater _ _⟩

/-- A slot is given a resource that is made for the argument. -/
theorem made_turnEnd {ask : Work Resource} {send : Work Unit} {x : Resource} {d : Device}
    (hi : t.index < r.kernel.slots.length)
    (hy : ∀ y, r.kernel.bound? t.index = some y → r.device.Allocated y.resource.id)
    (ha : Asks r.kernel groups t.slot (r.kernel.bound? t.index) arg ask)
    (h : ask r.device = .ok x d) (hs : Sends t.slot arg x send) :
    TurnEnd t groups arg r
      (onDevice send (replaced t ⟨x, .owned⟩ { r with device := d })) := by
  have hb := bound?_made (o := .owned) hi hy (ha.creates h)
  cases ha with
  | buffer hk hn hi hz =>
    cases hs
    refine .moved ?_ (by rw [hn]; rfl) hb
    simp [refusal?, hn, hk, hi, hz]
  | texture hk hn =>
    cases hs
    obtain ⟨x, hx, rfl⟩ := map_eq_ok h
    obtain ⟨-, hz⟩ := allocateTexture_ok hx
    refine .moved ?_ (by rw [hn]; rfl) hb
    simpa [refusal?, hn, hk] using hz
  | @host data hk =>
    obtain ⟨b, hx, rfl⟩ := map_eq_ok h
    obtain ⟨hsize, -⟩ := allocateBuffer_ok hx
    cases hs
    have hn : refusal? r.kernel groups t.slot (r.kernel.bound? t.index) (.host data) =
        if data.toBytes.length ≤ b.size then none
        else some (.usage (.uploadTooLong data.toBytes.length b.size)) := by
      simp [refusal?, hk, hsize]
    rcases uploadBuffer_cases b data.toBytes
        (replaced t ⟨.buffer b, .owned⟩ { r with device := d }).device with
      ⟨hl, hu⟩ | ⟨hl, hu⟩ | ⟨-, hl, hu | ⟨f, hf, hu⟩⟩
    · rw [onDevice_of_error hu]
      rw [if_neg (Nat.not_le.2 hl)] at hn
      exact .late hn (by rw [hk]; rfl) hb
    · rw [onDevice_of_ok hu]
      rw [if_pos (by rw [hl]; exact Nat.zero_le _)] at hn
      exact .moved hn hk hb
    · rw [onDevice_of_ok hu]
      rw [if_pos hl] at hn
      exact .moved hn hk hb
    · rw [onDevice_of_error hu]
      exact .failed hf _
  | @image image _ _ _ texels hkind ht hk =>
    obtain ⟨x, hx, rfl⟩ := map_eq_ok h
    obtain ⟨⟨hw, hh, rfl⟩, hz⟩ := allocateTexture_ok hx
    obtain ⟨hgw, hgh⟩ := le_grown (r.kernel.bound? t.index) image
    have hn := refusal?_image (k := r.kernel) (g := groups) hkind ht hk
    rw [hz, Option.none_or] at hn
    cases hs with
    | image hkind' ht' _ =>
    cases hkind.symm.trans hkind'
    cases ht.symm.trans ht'
    rcases uploadTexture_cases x texels image.width image.height
        (replaced t ⟨.texture x, .owned⟩ { r with device := d }).device with
      ⟨hf, -⟩ | ⟨-, f, hl, hu⟩ | ⟨-, hl, hu | ⟨f, hf, hu⟩⟩
    · simp [Texture.fits, hw, hh, hgw, hgh] at hf
    · rw [onDevice_of_error hu]
      exact .late (hn.trans hl) (by rw [hk, isLate_of_texelFault? hl]; rfl) hb
    · rw [onDevice_of_ok hu]
      exact .moved (hn.trans hl) hk hb
    · rw [onDevice_of_error hu]
      exact .failed hf _

theorem replace_turnEnd (x : Resource) (hi : t.index < r.kernel.slots.length) :
    TurnEnd t groups (.resource x) r (.ok () (replaced t ⟨x, .borrowed⟩ r)) := by
  by_cases hb : r.kernel.bound? t.index = some ⟨x, .borrowed⟩
  · have hs : r.kernel.slots.set t.index (some ⟨x, .borrowed⟩) = r.kernel.slots := by
      refine List.ext_getElem? fun j => ?_
      rw [List.getElem?_set]
      split
      · rename_i hj
        subst hj
        exact (Option.join_eq_some_iff.1 hb).symm
      · rfl
    have hr : replaced t ⟨x, .borrowed⟩ r = r := by
      rw [replaced, hb]
      simp [rebound, hs]
    exact .kept rfl (by simp [keepsSlot, hb]) (by rw [hr]) (by rw [hr]; simp [uploaded])
  · refine .moved rfl (by simpa [keepsSlot] using hb) ?_
    rw [bound?_replaced hi]
    exact fun h => hb h.symm

/-- The binding of an argument to a slot whose resource the device has. -/
theorem bind_turnEnd (hi : t.index < r.kernel.slots.length)
    (hy : ∀ y, r.kernel.bound? t.index = some y → r.device.Allocated y.resource.id) :
    TurnEnd t groups arg r (bind t groups arg r) := by
  have hb := bind_binds t groups arg r
  generalize bind t groups arg r = x at hb ⊢
  cases hb with
  | refused h =>
    obtain ⟨hn, hl⟩ := h.refusal?
    exact .refused hn (by rw [hl]; rfl)
  | kept hb hk hs => exact hs.turnEnd hb hk
  | @adopted x ha =>
    rw [ha]
    exact replace_turnEnd x hi
  | unmade ha h => exact ha.turnEnd h
  | made ha h hs => exact made_turnEnd hi hy ha h hs

end Turns

section Binding

variable {others : List ResourceId} {groups : Extent}

theorem TurnStep.bound?_ne {t : Turn} {arg : Argument Resource} {r r' : Running}
    (h : TurnStep t arg r r') {j : Nat} (hj : j ≠ t.index) :
    r'.kernel.bound? j = r.kernel.bound? j := by
  have moved : ∀ (new : Bound) (r₁ : Running), r₁.kernel = r.kernel →
      (replaced t new r₁).kernel.bound? j = r.kernel.bound? j := by
    intro new r₁ hk
    rw [replaced_kernel]
    simp [bound?, rebound, hk, List.getElem?_set_ne (Ne.symm hj)]
  cases h with
  | lost _ => rfl
  | fill _ _ => exact moved _ _ rfl
  | write _ _ => rfl
  | adopt _ => exact moved _ _ rfl

theorem TurnStep.allocated {t : Turn} {arg : Argument Resource} {r r' : Running}
    (h : TurnStep t arg r r') {id : ResourceId} (hd : r.device.Allocated id) :
    r'.device.Allocated id := by
  have moved : ∀ (new : Bound) (r₁ : Running), r₁.device.Allocated id →
      (replaced t new r₁).device.Allocated id := by
    intro new r₁ hd
    rcases replaced_cases t new r₁ with h | ⟨old, -, -, -, h⟩ <;> rw [h]
    · exact hd
    · cases id <;> exact hd
  cases h with
  | lost h => exact h.allocated_iff.2 (.inl hd)
  | fill _ h => exact moved _ _ (h.allocated_iff.2 (.inl hd))
  | write _ h => exact h.allocated_iff.2 hd
  | adopt _ => exact moved _ _ hd

/-- The binding of arguments leaves the slots before theirs alone. -/
theorem bindAll_before : ∀ (slots : List ParamSlot) (args : List (Argument Resource)) (index : Nat)
    (r : Running), index + slots.length ≤ r.kernel.slots.length → ∀ j < index,
      (endState (bindAll others groups index slots args r)).kernel.bound? j = r.kernel.bound? j
  | [], _, _, _, _, _, _ => rfl
  | _ :: _, [], _, _, _, _, _ => rfl
  | slot :: slots, arg :: args, index, r, hl, j, hj => by
    rw [List.length_cons] at hl
    have hi : index < r.kernel.slots.length := by omega
    have hs := bind_steps ⟨index, slot, others, argumentIds args⟩ groups arg hi
    have hp : Prepares r (endState (bind ⟨index, slot, others, argumentIds args⟩ groups arg r)) :=
      bind_prepares hi
    unfold bindAll
    refine endState_bind (P := fun (r' : Running) => r'.kernel.bound? j = r.kernel.bound? j) ?_ ?_
    · exact kept_of_steps (P := fun (r' : Running) => r'.kernel.bound? j = r.kernel.bound? j)
        (fun h he => (h.bound?_ne (Nat.ne_of_lt hj)).trans he) hs rfl
    · intro _ r₁ h₁ he
      rw [h₁, endState_ok] at hp
      rw [bindAll_before slots args (index + 1) r₁ (by rw [hp.slots]; omega) j (by omega)]
      exact he

theorem TurnStep.kernel {t : Turn} {arg : Argument Resource} {r r' : Running}
    (h : TurnStep t arg r r') : ∃ slots, r'.kernel = { r.kernel with slots := slots } := by
  cases h with
  | lost _ => exact ⟨_, rfl⟩
  | fill _ _ => exact ⟨_, replaced_kernel _ _ _⟩
  | write _ _ => exact ⟨_, rfl⟩
  | adopt _ => exact ⟨_, replaced_kernel _ _ _⟩

/-- The binding of arguments changes nothing of a kernel but what is in its slots. -/
theorem bindAll_kernel {slots : List ParamSlot} {args : List (Argument Resource)} {index : Nat}
    {r : Running} (hi : index + slots.length ≤ r.kernel.slots.length) :
    ∃ bound, (endState (bindAll others groups index slots args r)).kernel =
      { r.kernel with slots := bound } := by
  rcases bindAll_turns others groups slots args index r with he | ⟨pending, ht⟩
  · exact ⟨_, by rw [he]⟩
  · refine turns_keep (I := fun _ r' => ∃ bound, r'.kernel = { r.kernel with slots := bound })
      (fun _ h => h) ?_ slots args index r hi ⟨_, rfl⟩ _ ht
    rintro t arg r₁ r₂ - h ⟨bound, hb⟩
    obtain ⟨bound', hb'⟩ := h.kernel
    exact ⟨bound', by rw [hb', hb]⟩

/-- Whether there is a pipeline does not matter for the binding of arguments. -/
theorem memoryAtRefusal?_pipeline (k : Kernel) (p : Option Pipeline) (slots : List ParamSlot)
    (args : List (Argument Resource)) (index : Nat) (m : Memory) :
    memoryAtRefusal? { k with pipeline := p } groups index slots args m =
      memoryAtRefusal? k groups index slots args m := by
  have refusal : ∀ slot b arg, refusal? { k with pipeline := p } groups slot b arg =
      refusal? k groups slot b arg := by
    intro slot b arg
    cases arg <;> rfl
  induction slots generalizing args index m with
  | nil => cases args <;> rfl
  | cons slot slots ih =>
    cases args with
    | nil => rfl
    | cons arg args =>
      unfold memoryAtRefusal?
      simp only [refusal, ih]
      rfl

/-- What the binding of arguments leaves behind when one of them is refused. -/
theorem bindAll_refused : ∀ (slots : List ParamSlot) (args : List (Argument Resource)) (index : Nat)
    {r r' : Running} {f : Failure}, index + slots.length ≤ r.kernel.slots.length →
    (∀ j y, index ≤ j → r.kernel.bound? j = some y → r.device.Allocated y.resource.id) →
    bindAll others groups index slots args r = .error f r' →
    Fault f ∨ Misuse f ∧
      ((memoryAtRefusal? r.kernel groups index slots args r.device.memory = some r'.device.memory ∧
          r'.kernel = r.kernel) ∨
        memoryAtRefusal? r.kernel groups index slots args r.device.memory = none ∧
          r'.kernel.slots ≠ r.kernel.slots)
  | [], _, _, _, _, _, _, _, h => by cases h
  | _ :: _, [], _, _, _, _, _, _, h => by cases h
  | slot :: slots, arg :: args, index, r, r', f, hl, ha, h => by
    rw [List.length_cons] at hl
    have hi : index < r.kernel.slots.length := by omega
    have hs := bind_steps ⟨index, slot, others, argumentIds args⟩ groups arg hi
    have ht : TurnEnd ⟨index, slot, others, argumentIds args⟩ groups arg r _ :=
      bind_turnEnd hi fun y => ha index y (Nat.le_refl index)
    have slots_ne : ∀ {k : Kernel}, k.bound? index ≠ r.kernel.bound? index →
        k.slots ≠ r.kernel.slots := by
      intro k hb he
      exact hb (by rw [bound?, bound?, he])
    unfold bindAll at h
    unfold memoryAtRefusal?
    rcases hr : bind ⟨index, slot, others, argumentIds args⟩ groups arg r with
      ⟨_, r₁⟩ | ⟨g, r₁⟩ <;> rw [hr] at ht hs
    · rw [endState_ok] at hs
      rw [bind_of_ok hr] at h
      have hl' : index + 1 + slots.length ≤ r₁.kernel.slots.length := by
        rw [(kept_of_steps (fun h hr => hr.trans h.prepares) hs (Prepares.refl r)).slots]
        omega
      have ha' : ∀ j y, index + 1 ≤ j → r₁.kernel.bound? j = some y →
          r₁.device.Allocated y.resource.id := by
        intro j y hj hy
        have hsame := kept_of_steps (P := fun (r' : Running) => r'.kernel.bound? j = _)
          (fun h he => (h.bound?_ne (show j ≠ index by omega)).trans he) hs rfl
        exact kept_of_steps (P := fun r => r.device.Allocated y.resource.id)
          (fun h => h.allocated) hs (ha j y (by omega) (hsame ▸ hy))
      refine (bindAll_refused slots args (index + 1) hl' ha' h).imp_right fun hlater => ?_
      obtain ⟨hf, ih⟩ := hlater
      refine ⟨hf, ?_⟩
      cases ht with
      | kept hn hk hkernel hm =>
        rw [hkernel, hm] at ih
        simpa only [hn, hk, if_true] using ih
      | moved hn hk hb =>
        have hsame : (endState (bindAll others groups (index + 1) slots args r₁)).kernel.bound?
            index = _ := bindAll_before slots args (index + 1) r₁ hl' index (Nat.lt_succ_self index)
        rw [h, endState_error] at hsame
        exact .inr ⟨by simp [hn, hk], slots_ne (hsame ▸ hb)⟩
    · rw [bind_of_error hr] at h
      cases h
      cases ht with
      | failed hf => exact .inl hf
      | refused hn hk =>
        refine .inr ⟨misuse_of_refusal hn, .inl ⟨?_, rfl⟩⟩
        simp only [hn, hk]
        rfl
      | late hn hk hb =>
        refine .inr ⟨misuse_of_refusal hn, .inr ⟨?_, slots_ne hb⟩⟩
        simp only [hn, hk]
        rfl

end Binding

section Uniforms

variable {r r' : Running} {f : Failure}

theorem length_flatMap_const {α : Type} {g : α → List UInt8} {n : Nat} (hg : ∀ a, (g a).length = n)
    (l : List α) : (l.flatMap g).length = l.length * n := by
  induction l with
  | nil => simp
  | cons a l ih =>
    rw [List.flatMap_cons, List.length_append, hg, ih, List.length_cons, Nat.succ_mul, Nat.add_comm]

/-- The values of a uniform fill it. -/
theorem length_uniformData (slot : UniformSlot) {values : List Binary64} (h : values.length ≤ 4) :
    (uniformData slot.kind values).toBytes.length = slot.byteSize := by
  have hl : (values ++ List.replicate (4 - values.length) Binary64.zero).length = 4 := by
    rw [List.length_append, List.length_replicate]
    omega
  unfold uniformData UniformSlot.byteSize
  cases slot.kind <;> simp only [HostData.toBytes]
  · rw [length_flatMap_const fun _ => Bytes.length_ofWord _, List.length_map, hl]
    rfl
  · rw [length_flatMap_const fun _ => Bytes.length_ofWord _, List.length_map, hl]
    rfl
  · rw [length_flatMap_const fun _ => Bytes.length_ofWord _, List.length_map, hl]
    rfl
  · rw [length_flatMap_const fun _ => Bytes.length_ofDoubleWord _, hl]
    rfl

/-- Values that were checked are given to a uniform unless the device fails. -/
theorem setUniform_fault {name : String} {values : List Binary64} (hs : Shaped r.kernel)
    (hv : r.kernel.uniformFault? name values = none)
    (h : setUniform name values r = .error f r') : Fault f := by
  unfold setUniform at h
  rw [get_bind] at h
  unfold uniformFault? at hv
  rcases hu : r.kernel.uniform? name with g | ⟨i, slot⟩ <;> rw [hu] at hv
  · cases hv
  rw [hu, bind_of_ok (show used (.ok (i, slot)) r = .ok (i, slot) r from rfl)] at h
  have hn : ¬4 < values.length := by
    intro hn
    simp [hn] at hv
  simp only [if_neg hn] at h
  have hi := uniform?_getElem hu
  rcases ensureUniform_steps hs.uniforms hi with ⟨g, r₁, he, hf, -⟩ | ⟨b, r₁, he, hr, hb⟩
  · rw [bind_of_error he] at h
    cases h
    exact hf
  · have hp := prepares_of_steps hr
    have hroom := (hp.shaped hs).room i slot b (hp.program ▸ hi) hb
    rw [← length_uniformData slot (Nat.le_of_not_lt hn)] at hroom
    rw [bind_of_ok he] at h
    rcases uploadBuffer_cases b (uniformData slot.kind values).toBytes r₁.device with
      ⟨hl, -⟩ | ⟨-, hu⟩ | ⟨-, -, hu | ⟨g, hf, hu⟩⟩
    · omega
    · rw [onDevice_of_ok hu] at h
      cases h
    · rw [onDevice_of_ok hu] at h
      cases h
    · rw [onDevice_of_error hu] at h
      cases h
      exact hf

theorem setUniforms_fault (values : List (String × List Binary64)) {r r' : Running}
    (hs : Shaped r.kernel) (hv : ∀ e ∈ values, r.kernel.uniformFault? e.1 e.2 = none)
    (h : setUniforms values r = .error f r') : Fault f := by
  induction values generalizing r with
  | nil => cases h
  | cons v values ih =>
    rcases bind_eq_error h with h | ⟨_, r₁, h₁, h⟩
    · exact setUniform_fault hs (hv v List.mem_cons_self) h
    · have hr := setUniform_steps v.1 v.2 hs.uniforms
      rw [h₁, endState_ok] at hr
      have hp := prepares_of_steps hr
      refine ih (hp.shaped hs) (fun e he => ?_) h
      rw [uniformFault?, uniform?, hp.program]
      exact hv e (List.mem_cons_of_mem v he)

/-- Once the uniforms of a run were checked, only the binding of its arguments can fail for another
reason than the device. -/
theorem bindRun_error {others : List ResourceId} {groups : Extent} {run : RunArgs}
    (hs : Shaped r.kernel) (hu : run.uniforms.bind r.kernel.uniformsFault? = none)
    (h : bindRun others groups run r = .error f r') : Fault f ∨
      bindAll others groups 0 r.kernel.program.layout.params run.params r = .error f r' := by
  unfold bindRun at h
  rw [get_bind] at h
  rcases bind_eq_error h with h | ⟨_, r₁, h₁, h⟩
  · exact .inr h
  refine .inl ?_
  have hl := hs.slots
  have hp₁ : Prepares r (endState (bindAll others groups 0 r.kernel.program.layout.params
      run.params r)) := bindAll_prepares (by omega)
  rw [h₁, endState_ok] at hp₁
  have hs₁ := hp₁.shaped hs
  rcases bind_eq_error h with h | ⟨_, r₂, h₂, h⟩
  · refine setUniforms_fault _ hs₁ (fun e he => ?_) h
    rcases hv : run.uniforms with _ | values <;> rw [hv] at hu he
    · cases he
    rw [uniformFault?, uniform?, hp₁.program]
    exact List.findSome?_eq_none_iff.1 hu e he
  · have hr₂ := setUniforms_steps ((run.uniforms.map (·.entries)).getD []) hs₁.uniforms
    rw [h₂, endState_ok] at hr₂
    have hp₂ := prepares_of_steps hr₂
    have hd : r₂.kernel.program.layout.uniforms.drop 0 = r.kernel.program.layout.uniforms := by
      rw [hp₂.program, hp₁.program, List.drop_zero]
    rcases fillUniforms_steps _ (hp₂.shaped hs₁).uniforms hd with
        ⟨g, r₃, hr₃, hf, -⟩ | ⟨r₃, hr₃, -⟩ <;>
      rw [hr₃] at h <;> cases h
    exact hf

end Uniforms

end Kernel

end ComputeKernel
