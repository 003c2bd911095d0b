import ComputeKernel.Proofs.Room
import ComputeKernel.Proofs.Texels

/-!
# Sizes that a word cannot count

The bytes of an image are counted in 64 bits, and those of the rows and the region of an upload in
32 bits. A check of their number is exact as long as its word can count them, and beyond that the
program stops before it has looked at the number (`ofPixels_eq_ok_iff`,
`checkFault_uploadTexture_iff`). For images this takes two extents above `2 ^ 30`. For uploads
extents of `2 ^ 14` are enough.

What is written for an image is never refused for its number of texels, since the pixels were
counted before (`length_texels`), but it may stop the program (`Writes.countFault_iff`). In the
whole life of a kernel that never happens on devices with a limit below `2 ^ 14`, and it does happen
on any other (`never_countFault_iff`).
-/

namespace ComputeKernel

open Device Relation RunM Shader

namespace Image

section Pixels

variable {width height : UInt32} {pixels : List UInt8} {image : Image} {format : ImageFormat}

/-- An image gets past the check of its pixels when it is to be uploaded. -/
def PassesCheck (image : Image) (format : ImageFormat) : Prop :=
  image.texels format = (convert format image.pixels).mapError .usage

/-- Both checks of the number of pixels are right about some pixels: an image is made of them if it
is not empty and they are all that it has, and they are uploaded if they are all. -/
structure JudgesPixels (width height : UInt32) (pixels : List UInt8) : Prop where
  made : (∃ image, ofPixels width height pixels = .ok image) ↔
    0 < width.toNat ∧ 0 < height.toNat ∧ pixels.length = pixelBytes width height
  uploaded : ∀ format, PassesCheck ⟨width, height, pixels⟩ format ↔
    pixels.length = pixelBytes width height

theorem ofPixels_of_le (h : UInt64.size ≤ pixelBytes width height) :
    ofPixels width height pixels = .error (.overflow .pixels) := by
  rw [ofPixels, counted_of_le h]
  rfl

theorem ofPixels_of_lt (h : pixelBytes width height < UInt64.size) :
    ofPixels width height pixels =
      if pixels.length = pixelBytes width height ∧ width ≠ 0 ∧ height ≠ 0 then
        .ok ⟨width, height, pixels⟩
      else .error (.usage (.rgbaLength width height (pixelBytes width height) pixels.length)) := by
  rw [ofPixels, counted_of_lt h]
  rfl

theorem ofPixels_eq_ok_iff : ofPixels width height pixels = .ok image ↔
    image = ⟨width, height, pixels⟩ ∧ 0 < width.toNat ∧ 0 < height.toNat ∧
      pixels.length = pixelBytes width height ∧ pixelBytes width height < 2 ^ 64 := by
  have pos : ∀ a : UInt32, 0 < a.toNat ↔ a ≠ 0 := by
    intro a
    rw [Nat.pos_iff_ne_zero, ne_eq, ne_eq, ← UInt32.toNat_inj]
    rfl
  rw [pos, pos]
  rcases Nat.lt_or_ge (pixelBytes width height) (2 ^ 64) with h | h
  · rw [ofPixels_of_lt h]
    split
    · rename_i hc
      rw [Except.ok.injEq]
      exact ⟨fun hi => ⟨hi.symm, hc.2.1, hc.2.2, hc.1, h⟩, fun hi => hi.1.symm⟩
    · rename_i hc
      refine iff_of_false (by simp) ?_
      rintro ⟨-, hw, hh, hl, -⟩
      exact hc ⟨hl, hw, hh⟩
  · rw [ofPixels_of_le h]
    refine iff_of_false (by simp) ?_
    rintro ⟨-, -, -, -, hlt⟩
    exact Nat.not_lt.2 h hlt

theorem ofPixels_stopped_iff : ofPixels width height pixels = .error (.overflow .pixels) ↔
    2 ^ 64 ≤ pixelBytes width height := by
  rcases Nat.lt_or_ge (pixelBytes width height) (2 ^ 64) with h | h
  · rw [ofPixels_of_lt h]
    refine iff_of_false ?_ (Nat.not_le.2 h)
    split <;> simp
  · exact iff_of_true (ofPixels_of_le h) h

theorem passesCheck_iff : PassesCheck image format ↔
    image.pixels.length = pixelBytes image.width image.height ∧
      pixelBytes image.width image.height < 2 ^ 64 := by
  have apart : ∀ {f : Failure}, f ≠ .usage (.noImageUpload format) →
      .error f ≠ (convert format image.pixels).mapError .usage := by
    intro f hf he
    cases format <;> cases he <;> exact hf rfl
  unfold PassesCheck
  rcases Nat.lt_or_ge (pixelBytes image.width image.height) (2 ^ 64) with h | h
  · rw [texels_of_lt h]
    by_cases hl : image.pixels.length = pixelBytes image.width image.height
    · rw [if_neg (not_not_intro hl)]
      exact iff_of_true rfl ⟨hl, h⟩
    · rw [if_pos hl]
      exact iff_of_false (apart (by simp)) fun h => hl h.1
  · rw [texels_of_le h]
    exact iff_of_false (apart (by simp)) fun h' => Nat.not_lt.2 h h'.2

theorem texels_stopped_iff : image.texels format = .error (.overflow .pixels) ↔
    2 ^ 64 ≤ pixelBytes image.width image.height := by
  refine ⟨fun h => ?_, texels_of_le⟩
  rcases texels_eq_error h with ⟨hle, -⟩ | ⟨-, hf⟩ | ⟨-, hf⟩
  · exact hle
  · cases hf
  · cases hf

/-- Pixels that are as many as a word can count are judged by their number. -/
theorem judgesPixels_of_lt (h : pixels.length < 2 ^ 64) : JudgesPixels width height pixels := by
  refine ⟨?_, fun format => ?_⟩
  · simp only [ofPixels_eq_ok_iff, exists_eq_left]
    refine and_congr_right fun _ => and_congr_right fun _ => and_iff_left_of_imp fun hl => ?_
    rwa [← hl]
  · rw [passesCheck_iff]
    exact and_iff_left_of_imp fun hl => hl ▸ h

/-- 64 bits are enough if one extent is at most `2 ^ 30`. -/
theorem pixelBytes_lt (h : width.toNat ≤ 2 ^ 30 ∨ height.toNat ≤ 2 ^ 30) :
    pixelBytes width height < 2 ^ 64 := by
  have hw := width.toNat_lt
  have hh := height.toNat_lt
  rw [pixelBytes]
  rcases h with h | h
  · have := Nat.mul_le_mul h (Nat.le_sub_one_of_lt hh)
    omega
  · have := Nat.mul_le_mul (Nat.le_sub_one_of_lt hw) h
    omega

/-- The two checks of the number of pixels, for every image. An image is made of pixels and they are
uploaded if they are all that it has and 64 bits can count them, so both checks are right about all
pixels that there can be. But they do not always get to an answer: if 64 bits cannot count the
pixels of the image, the program stops, whatever it is given. That needs two extents above
`2 ^ 30`. -/
theorem pixels_judged (width height : UInt32) (pixels : List UInt8) :
    (∀ image, ofPixels width height pixels = .ok image ↔
      image = ⟨width, height, pixels⟩ ∧ 0 < width.toNat ∧ 0 < height.toNat ∧
        pixels.length = pixelBytes width height ∧ pixelBytes width height < 2 ^ 64) ∧
    (∀ format, PassesCheck ⟨width, height, pixels⟩ format ↔
      pixels.length = pixelBytes width height ∧ pixelBytes width height < 2 ^ 64) ∧
    (pixels.length < 2 ^ 64 → JudgesPixels width height pixels) ∧
    (ofPixels width height pixels = .error (.overflow .pixels) ↔
      2 ^ 64 ≤ pixelBytes width height) ∧
    (∀ format, texels ⟨width, height, pixels⟩ format = .error (.overflow .pixels) ↔
      2 ^ 64 ≤ pixelBytes width height) ∧
    (width.toNat ≤ 2 ^ 30 ∨ height.toNat ≤ 2 ^ 30 → pixelBytes width height < 2 ^ 64) :=
  ⟨fun _ => ofPixels_eq_ok_iff, fun _ => passesCheck_iff, judgesPixels_of_lt, ofPixels_stopped_iff,
    fun _ => texels_stopped_iff, pixelBytes_lt⟩

/-- No bytes at all are no image of the largest extents, but they are not refused. -/
theorem ofPixels_stopped :
    let image : Image := ⟨4294967295, 4294967295, []⟩
    pixelBytes image.width image.height = 73786976260478468100 ∧
      ofPixels image.width image.height image.pixels = .error (.overflow .pixels) ∧
      image.texels .rgba8unorm = .error (.overflow .pixels) :=
  ⟨by decide, rfl, rfl⟩

end Pixels

end Image

namespace Device

section Regions

variable {t : Texture} {width height : UInt32} {format : ImageFormat} {texels : List UInt8}
  {d d' : Device} {f : Failure} {P : Failure → Prop}

/-- The bytes of all texels of a region. -/
def regionBytes (format : ImageFormat) (width height : UInt32) : Nat :=
  width.toNat * height.toNat * format.texelBytes

/-- 32 bits can count the bytes of a row of a region and those of the whole region. -/
def Countable (format : ImageFormat) (width height : UInt32) : Prop :=
  rowBytes width format < 2 ^ 32 ∧ regionBytes format width height < 2 ^ 32

/-- There are too many or too few texels. -/
inductive LengthFault : Failure → Prop
  | intro (expected got : Nat) : LengthFault (.usage (.texelLength expected got))

/-- The program stops when it counts texels. -/
inductive CountFault : Failure → Prop
  | row : CountFault (.overflow .row)
  | region : CountFault (.overflow .region)

/-- The check of the number of texels fails. -/
def CheckFault (f : Failure) : Prop := LengthFault f ∨ CountFault f

/-- A computation fails in one of some ways. -/
def FailsBy {σ : Type} (P : Failure → Prop) (result : EStateM.Result Failure σ Unit) : Prop :=
  ∃ f s, P f ∧ result = .error f s

/-- The check of the number of texels is right about a region of a texture, whatever is uploaded. -/
def ChecksExactly (t : Texture) (width height : UInt32) : Prop :=
  ∀ texels d, ¬ FailsBy CheckFault (uploadTexture t texels width height d) ↔
    texels.length = regionBytes t.format width height

/-- A texture with extents from 1 up to a limit. -/
structure Texture.UpTo (limit : UInt32) (t : Texture) : Prop where
  width_pos : 1 ≤ t.width
  height_pos : 1 ≤ t.height
  width_le : t.width ≤ limit
  height_le : t.height ≤ limit

/-- A resource that is no texture beyond a limit. -/
def Resource.UpTo (limit : UInt32) : Resource → Prop
  | .buffer _ => True
  | .texture x => x.UpTo limit

theorem rowBytes_mul (format : ImageFormat) (width height : UInt32) :
    rowBytes width format * height.toNat = regionBytes format width height := by
  rw [rowBytes, regionBytes, Nat.mul_right_comm]

theorem texelFault?_of_countable (h : Countable format width height) :
    texelFault? format width height texels =
      if texels.length = regionBytes format width height then none
      else some (.usage (.texelLength (regionBytes format width height) texels.length)) := by
  have hrow : ¬ UInt32.size ≤ rowBytes width format := Nat.not_le.2 h.1
  have hregion : ¬ UInt32.size ≤ regionBytes format width height := Nat.not_le.2 h.2
  simp only [texelFault?, rowBytes_mul]
  rw [if_neg hrow, if_neg hregion]

theorem texelFault?_of_not_countable (texels : List UInt8)
    (h : ¬ Countable format width height) :
    ∃ f, CountFault f ∧ texelFault? format width height texels = some f := by
  simp only [texelFault?, rowBytes_mul]
  by_cases hr : UInt32.size ≤ rowBytes width format
  · exact ⟨_, .row, if_pos hr⟩
  · have hs : UInt32.size ≤ regionBytes format width height :=
      Nat.le_of_not_lt fun hs => h ⟨Nat.not_le.1 hr, hs⟩
    exact ⟨_, .region, by rw [if_neg hr, if_pos hs]⟩

/-- How texels fail the check. -/
theorem texelFault?_eq_some (h : texelFault? format width height texels = some f) :
    (¬ Countable format width height ∧ CountFault f) ∨
      Countable format width height ∧ texels.length ≠ regionBytes format width height ∧
        LengthFault f := by
  by_cases hc : Countable format width height
  · rw [texelFault?_of_countable hc] at h
    split at h
    · cases h
    · rename_i hl
      cases h
      exact .inr ⟨hc, hl, .intro _ _⟩
  · obtain ⟨g, hg, he⟩ := texelFault?_of_not_countable texels hc
    cases h.symm.trans he
    exact .inl ⟨hc, hg⟩

theorem not_checkFault_of_fault (h : Fault f) : ¬ CheckFault f := by
  rintro (hl | hc) <;> cases h <;> contradiction

/-- An upload that fits fails the check as its texels do. -/
theorem failsBy_uploadTexture_iff (hf : t.fits width height = true) (hP : ∀ f, P f → CheckFault f) :
    FailsBy P (uploadTexture t texels width height d) ↔
      ∃ f, P f ∧ texelFault? t.format width height texels = some f := by
  rcases uploadTexture_cases t texels width height d with
    ⟨hf', -⟩ | ⟨-, g, hg, h⟩ | ⟨-, hn, h | ⟨g, hg, h⟩⟩
  · cases hf.symm.trans hf'
  · simp [FailsBy, h, hg]
  · simp [FailsBy, h, hn]
  · rw [h, hn]
    refine iff_of_false ?_ (by simp)
    rintro ⟨f, s, hp, he⟩
    cases he
    exact not_checkFault_of_fault hg (hP _ hp)

theorem countFault_uploadTexture_iff (hf : t.fits width height = true) :
    FailsBy CountFault (uploadTexture t texels width height d) ↔
      ¬ Countable t.format width height := by
  rw [failsBy_uploadTexture_iff hf fun _ => .inr]
  constructor
  · rintro ⟨f, hc, hf⟩
    rcases texelFault?_eq_some hf with ⟨hn, -⟩ | ⟨-, -, ⟨⟩⟩
    · exact hn
    · cases hc
  · exact texelFault?_of_not_countable texels

theorem lengthFault_uploadTexture_iff (hf : t.fits width height = true) :
    FailsBy LengthFault (uploadTexture t texels width height d) ↔
      Countable t.format width height ∧ texels.length ≠ regionBytes t.format width height := by
  rw [failsBy_uploadTexture_iff hf fun _ => .inl]
  constructor
  · rintro ⟨f, ⟨⟩, hf⟩
    rcases texelFault?_eq_some hf with ⟨-, ⟨⟩⟩ | ⟨hc, hl, -⟩
    exact ⟨hc, hl⟩
  · rintro ⟨hc, hl⟩
    exact ⟨_, .intro _ _, by rw [texelFault?_of_countable hc, if_neg hl]⟩

theorem checkFault_uploadTexture_iff (hf : t.fits width height = true) :
    ¬ FailsBy CheckFault (uploadTexture t texels width height d) ↔
      Countable t.format width height ∧ texels.length = regionBytes t.format width height := by
  have hor : FailsBy CheckFault (uploadTexture t texels width height d) ↔
      FailsBy LengthFault (uploadTexture t texels width height d) ∨
        FailsBy CountFault (uploadTexture t texels width height d) := by
    simp only [FailsBy, CheckFault, or_and_right, exists_or]
  rw [hor, lengthFault_uploadTexture_iff hf, countFault_uploadTexture_iff hf]
  grind

theorem checksExactly_iff (hf : t.fits width height = true) :
    ChecksExactly t width height ↔ Countable t.format width height := by
  constructor
  · intro h
    -- The right number of texels passes the check, so they were counted.
    have hn := h (List.replicate (regionBytes t.format width height) 0) Session.sample.device
    exact ((checkFault_uploadTexture_iff hf).1 (hn.2 List.length_replicate)).1
  · intro h texels d
    rw [checkFault_uploadTexture_iff hf]
    exact and_iff_right h

theorem fits_iff : t.fits width height = true ↔ width ≤ t.width ∧ height ≤ t.height := by
  simp [Texture.fits]

/-- A region of a texture with extents below `2 ^ 14` can be counted. -/
theorem countable_of_limit {limit : UInt32} (format : ImageFormat) (hl : limit.toNat < 2 ^ 14)
    (ht : t.UpTo limit) (hf : t.fits width height = true) : Countable format width height := by
  obtain ⟨hw, hh⟩ := fits_iff.1 hf
  have hw := UInt32.le_iff_toNat_le.1 (UInt32.le_trans hw ht.width_le)
  have hh := UInt32.le_iff_toNat_le.1 (UInt32.le_trans hh ht.height_le)
  have hrow := rowBytes_le width format
  have harea : width.toNat * height.toNat ≤ (2 ^ 14 - 1) * (2 ^ 14 - 1) :=
    Nat.mul_le_mul (by omega) (by omega)
  refine ⟨by omega, ?_⟩
  calc regionBytes format width height
      ≤ (2 ^ 14 - 1) * (2 ^ 14 - 1) * 16 := Nat.mul_le_mul harea (texelBytes_le format)
    _ < 2 ^ 32 := by decide

/-- The check is right about all textures up to a limit if the limit is below `2 ^ 14`. -/
theorem checksExactly_iff_limit (limit : UInt32) :
    (∀ t : Texture, t.UpTo limit → ∀ width height, t.fits width height = true →
      ChecksExactly t width height) ↔ limit.toNat < 2 ^ 14 := by
  constructor
  · intro h
    refine Nat.lt_of_not_le fun hle => ?_
    have hle : (16384 : UInt32) ≤ limit := UInt32.le_iff_toNat_le.2 hle
    let t : Texture := ⟨0, 16384, 16384, .rgba32float⟩
    have hf : t.fits 16384 16384 = true := by decide
    have ht : t.UpTo limit := ⟨by decide, by decide, hle, hle⟩
    exact absurd ((checksExactly_iff hf).1 (h t ht _ _ hf)).2 (by decide)
  · intro hl t ht width height hf
    exact (checksExactly_iff hf).2 (countable_of_limit t.format hl ht hf)

/-- A texture is made within the limit of the device. -/
theorem allocateTexture_upTo {x : Texture} (h : allocateTexture width height format d = .ok x d') :
    x.UpTo d.limits.textureExtent := by
  obtain ⟨hw, hh⟩ := allocateTexture_sized h
  obtain ⟨⟨rfl, rfl, -⟩, hz⟩ := allocateTexture_ok h
  have hl : ¬ (d.limits.textureExtent < x.width ∨ d.limits.textureExtent < x.height) := by
    intro hl
    have hz : ¬ (x.width = 0 ∨ x.height = 0) := by
      simpa [emptyFault?] using hz
    unfold allocateTexture at h
    simp only [beq_iff_eq, Bool.or_eq_true, hz, if_false, decide_eq_true_eq, get_bind, hl,
      if_true] at h
    cases h
  obtain ⟨hl₁, hl₂⟩ := not_or.1 hl
  exact ⟨hw, hh, UInt32.not_lt.1 hl₁, UInt32.not_lt.1 hl₂⟩

/-- A texture within the limit of the device is made if no error waits for it. -/
theorem allocateTexture_of_quiet (hw : width ≠ 0) (hh : height ≠ 0)
    (hlw : width ≤ d.limits.textureExtent) (hlh : height ≤ d.limits.textureExtent)
    (hq : d.queued.any (·.isDue .createTexture) = false) :
    ∃ x, allocateTexture width height format d = .ok x (d.withTexture width height format) := by
  have hl : ¬ (d.limits.textureExtent < width ∨ d.limits.textureExtent < height) :=
    not_or.2 ⟨UInt32.not_lt.2 hlw, UInt32.not_lt.2 hlh⟩
  unfold allocateTexture
  simp only [beq_iff_eq, Bool.or_eq_true, hw, hh, or_self, if_false, decide_eq_true_eq, get_bind,
    hl]
  rcases checked_cases d .allocateTexture (·.createTexture width height format) with h | ⟨e, h⟩
  · exact ⟨_, bind_of_ok h⟩
  · exact absurd ((error?_enter d .createTexture).2 hq) (checked_scope.2 h)

end Regions

end Device

namespace Kernel

section Writes

variable {t : Turn} {groups : Extent} {arg : Argument Resource} {r r' : Running} {image : Image}
  {format : ImageFormat} {texels : List UInt8} {x : Texture} {limit : UInt32} {f : Failure}
  {P : Failure → Prop}

/-- The texels of an image are as many as its region has. -/
theorem length_texels (h : image.texels format = .ok texels) :
    texels.length = regionBytes format image.width image.height := by
  obtain ⟨-, hl, hc⟩ := Image.texels_eq_ok_iff.1 h
  rw [Image.pixelBytes] at hl
  unfold regionBytes
  cases format <;> cases hc <;> simp only [ImageFormat.texelBytes]
  · exact hl
  all_goals
    rw [HostData.toBytes, length_flatMap_const fun _ => Bytes.length_ofWord _, List.length_map, hl]
    omega

/-- What is written for an image when it is bound, and where: to the texture in the slot if that has
room, and otherwise to one that is made. -/
inductive Writes (t : Turn) (r : Running) (image : Image) (texels : List UInt8) : Texture → Prop
  | kept {type : ParamType} {format : ImageFormat} {access : Access} {x : Texture} {o : Ownership}
    (hk : t.slot.kind = .texture type format access) (ht : image.texels format = .ok texels)
    (hb : r.kernel.bound? t.index = some ⟨.texture x, o⟩)
    (hf : x.fits image.width image.height = true) : Writes t r image texels x
  | made {type : ParamType} {format : ImageFormat} {access : Access} {x : Texture} {d : Device}
    (hk : t.slot.kind = .texture type format access) (ht : image.texels format = .ok texels)
    (hb : keepsSlot (r.kernel.bound? t.index) (.image image) = false)
    (h : allocateTexture (grown (r.kernel.bound? t.index) image).1
      (grown (r.kernel.bound? t.index) image).2 format r.device = .ok x d) :
    Writes t r image texels x

theorem Writes.fits (h : Writes t r image texels x) : x.fits image.width image.height = true := by
  cases h with
  | kept _ _ _ hf => exact hf
  | made _ _ _ h =>
    obtain ⟨⟨hw, hh, -⟩, -⟩ := allocateTexture_ok h
    exact fits_iff.2 ⟨hw ▸ (le_grown _ image).1, hh ▸ (le_grown _ image).2⟩

/-- The texels are of the format of the texture if the slot holds what it may hold. -/
theorem Writes.texels_eq (h : Writes t r image texels x)
    (hb : ∀ b, r.kernel.bound? t.index = some b → t.slot.kind.Fits b.resource) :
    image.texels x.format = .ok texels := by
  cases h with
  | kept hk ht hx _ =>
    have hfits := hb _ hx
    rw [hk] at hfits
    cases hfits
    exact ht
  | made _ ht _ h =>
    obtain ⟨⟨-, -, rfl⟩, -⟩ := allocateTexture_ok h
    exact ht

theorem Writes.upTo (h : Writes t r image texels x) (hd : r.device.limits.textureExtent = limit)
    (hb : ∀ y o, r.kernel.bound? t.index = some ⟨.texture y, o⟩ → y.UpTo limit) : x.UpTo limit := by
  cases h with
  | kept _ _ hx _ => exact hb _ _ hx
  | made _ _ _ h => exact hd ▸ allocateTexture_upTo h

/-- To bind an image is to write it, once there is a texture for it. -/
theorem Writes.bind_eq (groups : Extent) (h : Writes t r image texels x) :
    ∃ r₁, bind t groups (.image image) r =
      onDevice (uploadTexture x texels image.width image.height) r₁ := by
  have hok : orFail (.ok texels) r = .ok texels r := rfl
  cases h with
  | kept hk ht hb hf =>
    refine ⟨r, ?_⟩
    have hc : Option.filter (·.fits image.width image.height)
        ((r.kernel.bound? t.index).bind (·.resource.texture?)) = some x := by
      simp [hb, Resource.texture?, Option.filter, hf]
    unfold Kernel.bind
    simp only [hk]
    unfold uploadImage
    rw [ht, bind_of_ok hok, get_bind]
    simp only [hc]
  | @made _ format _ _ d hk ht hb h =>
    refine ⟨replaced t ⟨.texture x, .owned⟩ { r with device := d }, ?_⟩
    have hc : Option.filter (·.fits image.width image.height)
        ((r.kernel.bound? t.index).bind (·.resource.texture?)) = none := by
      rwa [keepsSlot, ← Option.isSome_filter, Option.isSome_eq_false_iff, Option.isNone_iff_eq_none]
        at hb
    unfold Kernel.bind
    simp only [hk]
    unfold uploadImage
    rw [ht, bind_of_ok hok, get_bind]
    simp only [hc]
    exact (bind_of_ok (onDevice_of_ok h)).trans (bind_of_ok (replace_eq _ _ _))

theorem failsBy_onDevice {w : Work Unit} : FailsBy P (onDevice w r) ↔ FailsBy P (w r.device) := by
  unfold onDevice
  rcases w r.device with ⟨_, d⟩ | ⟨f, d⟩ <;> simp [FailsBy]

theorem Writes.countFault_iff (groups : Extent) (h : Writes t r image texels x) :
    FailsBy CountFault (bind t groups (.image image) r) ↔
      ¬ Countable x.format image.width image.height := by
  obtain ⟨r₁, hr⟩ := h.bind_eq groups
  rw [hr, failsBy_onDevice, countFault_uploadTexture_iff h.fits]

/-- What is written for an image has as many texels as the check asks for. -/
theorem Writes.not_lengthFault (groups : Extent) (h : Writes t r image texels x)
    (hb : ∀ b, r.kernel.bound? t.index = some b → t.slot.kind.Fits b.resource) :
    ¬ FailsBy LengthFault (bind t groups (.image image) r) := by
  obtain ⟨r₁, hr⟩ := h.bind_eq groups
  rw [hr, failsBy_onDevice, lengthFault_uploadTexture_iff h.fits]
  exact fun hn => hn.2 (length_texels (h.texels_eq hb))

theorem Refuses.not_checkFault {k : Kernel} {b : Option Bound}
    (h : Refuses k groups t.slot b arg f) : ¬ CheckFault f := by
  cases h with
  | invocations _ _ h =>
    obtain ⟨-, rfl⟩ := counted_eq_error_iff.1 h
    rintro (h | h) <;> cases h
  | texels _ h =>
    rcases Image.texels_eq_error h with ⟨-, rfl⟩ | ⟨-, rfl⟩ | ⟨-, rfl⟩ <;>
      rintro (h | h) <;> cases h
  | output _ _ _ _ | image _ | trailer _ => rintro (h | h) <;> cases h

theorem Asks.not_checkFault {k : Kernel} {b : Option Bound} {ask : Work Resource} {d d' : Device}
    (h : Asks k groups t.slot b arg ask) (hf : ask d = .error f d') : ¬ CheckFault f := by
  have texture : ∀ {width height : UInt32} {format : ImageFormat},
      allocateTexture width height format d = .error f d' → ¬ CheckFault f := by
    intro width height format h
    rcases allocateTexture_cases width height format d with
      ⟨h', -⟩ | ⟨-, -, ⟨g, hg, h'⟩ | ⟨g, hg, h'⟩ | h'⟩ <;> cases h.symm.trans h'
    · rintro (h | h) <;> cases h
    · exact not_checkFault_of_fault hg
    · exact not_checkFault_of_fault hg
  cases h with
  | buffer _ _ _ _ | host _ =>
    exact not_checkFault_of_fault (allocateBuffer_error (map_eq_error hf))
  | texture _ _ | image _ _ _ => exact texture (map_eq_error hf)

/-- Only an image can fail the check of its texels once it is sent to its resource. -/
theorem Sends.isImage_of_checkFault {y : Resource} {send : Work Unit} {d d' : Device}
    (hs : Sends t.slot arg y send) (ht : CheckFault f) (hf : send d = .error f d') :
    ∃ image, arg = .image image := by
  cases hs with
  | null _ => cases hf
  | host data b =>
    rcases uploadBuffer_cases b data.toBytes d with ⟨-, h⟩ | ⟨-, h⟩ | ⟨-, -, h | ⟨g, hg, h⟩⟩ <;>
      cases hf.symm.trans h
    · rcases ht with h | h <;> cases h
    · exact absurd ht (not_checkFault_of_fault hg)
  | image _ _ _ => exact ⟨_, rfl⟩

/-- The binding of an argument fails the check only if it writes an image. -/
theorem exists_writes_of_checkFault (ht : CheckFault f) (h : bind t groups arg r = .error f r') :
    ∃ image texels x, arg = .image image ∧ Writes t r image texels x := by
  have hb := bind_binds t groups arg r
  rw [h] at hb
  generalize hz : (EStateM.Result.error f r' : EStateM.Result Failure Running Unit) = z at hb
  cases hb with
  | refused hr =>
    cases hz
    exact absurd ht hr.not_checkFault
  | @kept b _ hb hk hs =>
    obtain ⟨d, hd, -⟩ := onDevice_eq_error hz.symm
    obtain ⟨image, rfl⟩ := hs.isImage_of_checkFault ht hd
    rcases b with ⟨y, o⟩
    cases hs with
    | image hkind htexels x =>
      have hf : x.fits image.width image.height = true := by
        simpa [keepsSlot, Resource.texture?] using hk
      exact ⟨image, _, x, rfl, .kept hkind htexels hb hf⟩
  | adopted _ => cases hz
  | unmade ha hf =>
    cases hz
    exact absurd ht (ha.not_checkFault hf)
  | made ha hx hs =>
    obtain ⟨d, hd, -⟩ := onDevice_eq_error hz.symm
    obtain ⟨image, rfl⟩ := hs.isImage_of_checkFault ht hd
    cases ha with
    | image hkind htexels hb =>
      obtain ⟨x, hy, rfl⟩ := map_eq_ok hx
      exact ⟨image, _, x, rfl, .made hkind htexels hb hy⟩

/-- No argument is refused for the number of its texels. -/
theorem bind_not_lengthFault
    (hf : ∀ b, r.kernel.bound? t.index = some b → t.slot.kind.Fits b.resource) :
    ¬ FailsBy LengthFault (bind t groups arg r) := by
  intro h
  obtain ⟨f, r', hl, he⟩ := id h
  obtain ⟨image, texels, x, rfl, hw⟩ := exists_writes_of_checkFault (.inl hl) he
  exact hw.not_lengthFault groups hf h

/-- No argument stops the program at its texels on a device with a limit below `2 ^ 14`. -/
theorem bind_not_countFault (hl : limit.toNat < 2 ^ 14)
    (hd : r.device.limits.textureExtent = limit)
    (hb : ∀ y o, r.kernel.bound? t.index = some ⟨.texture y, o⟩ → y.UpTo limit) :
    ¬ FailsBy CountFault (bind t groups arg r) := by
  intro h
  obtain ⟨f, r', hc, he⟩ := id h
  obtain ⟨image, texels, x, rfl, hw⟩ := exists_writes_of_checkFault (.inr hc) he
  exact (hw.countFault_iff groups).1 h (countable_of_limit x.format hl (hw.upTo hd hb) hw.fits)

end Writes

section Runs

variable {others : List ResourceId} {groups : Extent} {args : List (Argument Resource)}
  {r : Running} {limit : UInt32} {program : Program} {k : Kernel} {P : Failure → Prop}

theorem not_failsBy_iff {σ : Type} {x : EStateM.Result Failure σ Unit} :
    ¬ FailsBy P x ↔ Ends (fun _ => True) (fun f _ => ¬ P f) x := by
  cases x with
  | ok _ _ => simp [FailsBy, Ends]
  | error f s => simp [FailsBy, Ends]

/-- What fails the check in no turn of a run that was accepted fails it in no such run. A turn
starts from what its slot held at the start, since each slot has one turn. -/
theorem run_not_failsBy (others : List ResourceId) (hc : Coherent r.kernel)
    (hP : ∀ f, P f → CheckFault f) (ha : ∃ accepted, r.kernel.checkRun args = .ok accepted)
    (hbind : ∀ (t : Turn) (groups : Extent) (arg : Argument Resource) (r₁ : Running),
      r.kernel.program.layout.params[t.index]? = some t.slot →
      r₁.device.limits = r.device.limits →
      r₁.kernel.bound? t.index = r.kernel.bound? t.index → ¬ FailsBy P (bind t groups arg r₁)) :
    ¬ FailsBy P (run others args r) := by
  refine not_failsBy_iff.2 (run_ends hc (fun f hcheck => ?_) (fun f r₁ he => ?_)
    (fun run groups r₁ _ he hs => ?_) (fun _ _ => trivial) (fun _ _ => trivial)
    fun hfault _ hp => not_checkFault_of_fault hfault (hP _ hp))
  · obtain ⟨_, ha⟩ := ha
    cases ha.symm.trans hcheck
  · intro hp
    rcases ensurePipeline_cases r with ⟨p, -, h⟩ | ⟨-, ⟨g, h⟩ | ⟨l, -, ⟨m, h⟩ | h⟩⟩ <;>
      cases he.symm.trans h <;> rcases hP _ hp with h | h <;> cases h
  · obtain ⟨⟨p, hk⟩, hsetup, -⟩ := ensurePipeline_frame he
    have hall : Ends _ _ (bindAll others groups 0 r₁.kernel.program.layout.params run.params r₁) :=
      bindAll_leaving (J := fun _ _ => True) (F := fun f _ => ¬ P f) (Nat.le_of_eq hs.slots.symm)
        (fun t arg r₂ hslot _ _ hL hown _ => not_failsBy_iff.1 <| hbind t groups arg r₂
          (by rw [hk] at hslot; exact hslot) (hL.limits.trans (limits_of_setup hsetup))
          (hown.trans (by rw [hk]; rfl))) trivial
    rcases hr : bindAll others groups 0 r₁.kernel.program.layout.params run.params r₁ with
      ⟨_, r₂⟩ | ⟨f, r₂⟩ <;> rw [hr] at hall
    · trivial
    · exact hall.2

/-- The devices with some limit and the arguments with textures up to it. -/
def AdmittedUpTo (limit : UInt32) (d : Device) (args : List (Argument Resource)) : Prop :=
  d.limits.textureExtent = limit ∧ ∀ x, .resource x ∈ args → x.UpTo limit

theorem Leaves.upTo {limits : Limits} {slot : ParamSlot} {arg : Argument Resource}
    {b b' : Option Bound} (h : Leaves k groups limits slot b arg b')
    (hl : limits.textureExtent = limit) (ha : ∀ x, arg = .resource x → x.UpTo limit)
    (hb : ∀ y, b = some y → y.resource.UpTo limit) : ∀ y, b' = some y → y.resource.UpTo limit := by
  cases h with
  | kept => exact hb
  | adopted hx =>
    rintro y ⟨⟩
    exact ha _ hx
  | @made ask x d d' hd hask hx =>
    rintro y ⟨⟩
    subst hl hd
    cases hask with
    | buffer _ _ _ _ | host _ =>
      obtain ⟨b, -, rfl⟩ := map_eq_ok hx
      trivial
    | texture _ _ | image _ _ _ =>
      obtain ⟨x, hy, rfl⟩ := map_eq_ok hx
      exact allocateTexture_upTo hy

theorem keeps_upTo {l : Layout} {d : Device} (h : AdmittedUpTo limit d args) :
    Keeps (fun _ x => x.UpTo limit) l d.limits args := by
  intro k groups slot arg b b' _ harg _ hl
  exact hl.upTo h.1 fun x hx => h.2 x (hx ▸ harg)

/-- No run of a kernel whose arguments are accepted fails in one of some ways, as long as the kernel
is used on devices with some limit and with textures up to it. -/
def Never (P : Failure → Prop) (limit : UInt32) : Prop :=
  ∀ (frontEnd : FrontEnd) (source : KernelSource) (config : Config) (program : Program)
    (lines : List LogLine) (k : Kernel),
    (source.compile frontEnd config).outcome = (.ok program, lines) →
    Lived program (AdmittedUpTo limit) k →
    ∀ others args device log, AdmittedUpTo limit device args →
      (∃ accepted, k.checkRun args = .ok accepted) →
      ¬ FailsBy P (run others args ⟨k, device, log⟩)

theorem never_lengthFault (limit : UInt32) : Never LengthFault limit := by
  intro frontEnd source config program lines k hp hk others args device log ha hc
  have hu : ∀ p, groupLayouts program = .ok p → _ := fun p => compile_uniforms hp
  have hfits : Holding SlotKind.Fits k :=
    hk.holding hu fun _ _ _ => keeps_fits (compile_plain hp)
  refine run_not_failsBy (r := ⟨k, device, log⟩) others (hk.coherent hu).1 (fun _ => .inl) hc ?_
  intro t groups arg r₁ hslot _ hown
  refine bind_not_lengthFault fun b hb => ?_
  obtain ⟨slot, hslot', hfit⟩ := hfits _ b (hown ▸ hb)
  cases hslot.symm.trans hslot'
  exact hfit

theorem never_countFault_of_lt (hl : limit.toNat < 2 ^ 14) : Never CountFault limit := by
  intro frontEnd source config program lines k hp hk others args device log ha hc
  have hu : ∀ p, groupLayouts program = .ok p → _ := fun p => compile_uniforms hp
  have hupTo : Holding (fun _ x => x.UpTo limit) k := hk.holding hu fun _ _ => keeps_upTo
  refine run_not_failsBy (r := ⟨k, device, log⟩) others (hk.coherent hu).1 (fun _ => .inr) hc ?_
  intro t groups arg r₁ _ hlimits hown
  refine bind_not_countFault hl (by rw [hlimits]; exact ha.1) fun y o hb => ?_
  obtain ⟨_, -, hy⟩ := hupTo _ _ (hown ▸ hb)
  exact hy

/-- A run fails as its first argument does. -/
theorem run_of_bind_error {accepted : RunArgs} {p : Pipeline} {r₁ r₂ : Running} {slot : ParamSlot}
    {slots : List ParamSlot} {arg : Argument Resource} {rest : List (Argument Resource)}
    {f : Failure} (hc : r.kernel.checkRun args = .ok (accepted, groups))
    (hp : ensurePipeline r = .ok p r₁)
    (hs : r₁.kernel.program.layout.params = slot :: slots) (ha : accepted.params = arg :: rest)
    (h : bind ⟨0, slot, others, argumentIds rest⟩ groups arg r₁ = .error f r₂) :
    run others args r = .error f r₂ := by
  have hbind : bindRun others groups accepted r₁ = .error f r₂ := by
    unfold bindRun
    rw [get_bind, hs, ha]
    unfold bindAll
    exact bind_of_error (bind_of_error h)
  refine bind_of_error ?_
  rcases prepare_cases others args r with
    ⟨f, hf, -⟩ | ⟨_, _, hcheck, ⟨f, r', he, -⟩ | ⟨p', r', he, ⟨f, r'', hb, hprep⟩ | ⟨r'', hb, -⟩⟩⟩
  · cases hc.symm.trans hf
  · cases hp.symm.trans he
  · cases hc.symm.trans hcheck
    cases hp.symm.trans he
    cases hbind.symm.trans hb
    exact hprep
  · cases hc.symm.trans hcheck
    cases hp.symm.trans he
    cases hbind.symm.trans hb

/-- A shader with a texture of the widest format. -/
def pictureModule : ShaderModule where
  vars := [⟨some "picture", .handle, some ⟨0, 0⟩,
    .image .d2 false (.storage (some .rgba32float) ⟨true, false⟩)⟩]
  entryPoints := [⟨"main", .compute, ⟨1, 1, 1⟩⟩]

def pictureSlot : ParamSlot := ⟨"picture", 0, .texture (.image .f32) .rgba32float .read⟩

/-- The program of that shader. -/
def pictureProgram : Program where
  dialect := .wgsl
  source := ""
  layout := ⟨[pictureSlot], [], ⟨1, 1, 1⟩⟩
  module := pictureModule
  isLiteral := true

theorem bound_picture :
    pictureModule.bound 0 = pictureModule.vars ∧ pictureModule.bound 1 = [] :=
  ⟨bound_eq_of_perm _ _ (.refl _) (by decide), bound_eq_of_perm _ _ (.refl _) (by decide)⟩

theorem compile_picture :
    ((KernelSource.literal "").compile (fun _ _ => .ok pictureModule) default).outcome =
      (.ok pictureProgram, [literalLine ⟨.wgsl, "", pictureProgram.layout⟩]) := by
  have hl : pictureModule.layout [] = .ok pictureProgram.layout [] := by
    rw [layout_eq_ok_iff, ComputeKernel.paramGroup, ComputeKernel.uniformGroup, bound_picture.1,
      bound_picture.2]
    decide
  exact outcome_of_ok (ofLiteral_of_layout "" .wgsl hl)

/-- A kernel of that program that was not run yet. -/
def pictureKernel : Kernel := fresh pictureProgram none ⟨8, 6⟩

/-- A device with some limit for the extents of textures. -/
def deviceUpTo (limit : UInt32) : Device :=
  { Session.sample.device with limits := ⟨standardBufferSize, limit⟩ }

theorem checkRun_picture {image : Image} {texels : List UInt8}
    (h : image.texels .rgba32float = .ok texels) : ∃ groups,
      pictureKernel.checkRun [.image image] = .ok (⟨[.image image], none, none⟩, groups) := by
  have hsplit : (RunArgs.split pictureKernel.program.layout.params.length
      [.image image]).mapError Failure.usage = .ok ⟨[.image image], none, none⟩ := rfl
  have hf : argumentsFault? pictureKernel.program.layout.params [.image image] = none := by
    have hfault : argumentFault? pictureSlot (.image image) = none := by
      simp only [argumentFault?, pictureSlot, h]
      rfl
    exact congrArg (Option.or · none) hfault
  unfold checkRun
  rw [hsplit]
  simp only [Bind.bind, Except.bind, hf]
  exact ⟨_, rfl⟩

/-- An image that a device has a texture for stops the program if its texels cannot be counted. -/
theorem run_picture_countFault {image : Image} {texels : List UInt8}
    (ht : image.texels .rgba32float = .ok texels) (hw : image.width ≠ 0) (hh : image.height ≠ 0)
    (hlw : image.width ≤ limit) (hlh : image.height ≤ limit)
    (hlong : ¬ Countable .rgba32float image.width image.height) :
    FailsBy CountFault (run [] [.image image] ⟨pictureKernel, deviceUpTo limit, []⟩) := by
  let p : Pipeline := ⟨[⟨0, .storageTexture .rgba32float .read⟩], []⟩
  let r : Running := ⟨{ pictureKernel with pipeline := some p },
    (deviceUpTo limit).attempted (createPipeline p), []⟩
  have hbound : r.kernel.bound? 0 = none := rfl
  have hlayouts : groupLayouts pictureProgram = .ok p := by
    have hps : pictureModule.entries 0 = .ok p.params := by
      rw [entries_eq_ok_iff, bound_picture.1]
      rfl
    have hus : pictureModule.entries 1 = .ok p.uniforms := by
      rw [entries_eq_ok_iff, bound_picture.2]
      rfl
    unfold groupLayouts pictureProgram ComputeKernel.paramGroup ComputeKernel.uniformGroup
    rw [hps, hus]
    rfl
  have hbuild : buildPipeline pictureProgram (deviceUpTo limit) = .ok p r.device := by
    unfold buildPipeline
    rw [hlayouts]
    rfl
  have hp : ensurePipeline ⟨pictureKernel, deviceUpTo limit, []⟩ = .ok p r := by
    unfold ensurePipeline
    rw [get_bind]
    exact bind_of_ok (onDevice_of_ok hbuild)
  obtain ⟨groups, hc⟩ := checkRun_picture ht
  obtain ⟨x, hx⟩ : ∃ x, allocateTexture image.width image.height .rgba32float r.device = .ok x _ :=
    allocateTexture_of_quiet hw hh hlw hlh rfl
  have hwrites : Writes ⟨0, pictureSlot, [], []⟩ r image texels x := .made rfl ht rfl hx
  obtain ⟨⟨-, -, hformat⟩, -⟩ := allocateTexture_ok hx
  obtain ⟨f, r₂, hf, hbind⟩ := (hwrites.countFault_iff groups).2 (hformat ▸ hlong)
  exact ⟨f, r₂, hf, run_of_bind_error hc hp rfl rfl hbind⟩

/-- There is an image of `2 ^ 14` pixels a side. -/
theorem exists_long_image : ∃ (image : Image) (texels : List UInt8),
    image.width = 16384 ∧ image.height = 16384 ∧ image.texels .rgba32float = .ok texels := by
  -- Its pixels are too many to be looked at one by one.
  obtain ⟨pixels, hpixels⟩ : ∃ pixels : List UInt8, pixels.length = Image.pixelBytes 16384 16384 :=
    ⟨List.replicate _ 0, List.length_replicate⟩
  have hcount : Image.pixelBytes 16384 16384 < UInt64.size := by decide
  exact ⟨⟨16384, 16384, pixels⟩, _, rfl, rfl, Image.texels_eq_ok_iff.2 ⟨hcount, hpixels, rfl⟩⟩

/-- On devices with some limit, images that are accepted never stop the program at their texels if
the limit is below `2 ^ 14`. -/
theorem never_countFault_iff (limit : UInt32) : Never CountFault limit ↔ limit.toNat < 2 ^ 14 := by
  refine ⟨fun hnever => Nat.lt_of_not_le fun hle => ?_, never_countFault_of_lt⟩
  have hle : (16384 : UInt32) ≤ limit := UInt32.le_iff_toNat_le.2 hle
  obtain ⟨image, texels, hw, hh, ht⟩ := exists_long_image
  obtain ⟨groups, hc⟩ := checkRun_picture ht
  have hk : Lived pictureProgram (AdmittedUpTo limit) pictureKernel :=
    .create (d := deviceUpTo limit) (k := pictureKernel) rfl
  refine hnever _ _ _ _ _ _ compile_picture hk [] [.image image] (deviceUpTo limit) []
    ⟨rfl, by simp⟩ ⟨_, hc⟩ ?_
  refine run_picture_countFault ht (hw ▸ by decide) (hh ▸ by decide) (hw ▸ hle) (hh ▸ hle) ?_
  rw [hw, hh]
  exact fun h => absurd h.2 (by decide)

/-- The check of the number of texels, for every limit of a device. An upload that fits stops the
program if 32 bits cannot count a row or all of its region; otherwise it is refused if its texels
are not as many as the region has. So the check is right about a region if 32 bits can count it, and
about all regions of all textures up to the limit if and only if the limit is below `2 ^ 14`.

What is written for an image is never refused by this check, but stops the program if it cannot be
counted. So in the life of a kernel an image that is accepted is never refused there, and whether it
never stops the program depends on the limit alone, which has to be below `2 ^ 14`. -/
theorem texels_counted (limit : UInt32) :
    (∀ (t : Texture) (width height : UInt32), t.fits width height = true →
      (∀ texels d, FailsBy CountFault (uploadTexture t texels width height d) ↔
        ¬ Countable t.format width height) ∧
      (∀ texels d, FailsBy LengthFault (uploadTexture t texels width height d) ↔
        Countable t.format width height ∧
          texels.length ≠ regionBytes t.format width height) ∧
      (ChecksExactly t width height ↔ Countable t.format width height)) ∧
    ((∀ t : Texture, t.UpTo limit → ∀ width height, t.fits width height = true →
      ChecksExactly t width height) ↔ limit.toNat < 2 ^ 14) ∧
    (∀ (t : Turn) (groups : Extent) (r : Running) (image : Image) (texels : List UInt8)
      (x : Texture),
      (∀ b, r.kernel.bound? t.index = some b → t.slot.kind.Fits b.resource) →
      Writes t r image texels x →
      ¬ FailsBy LengthFault (bind t groups (.image image) r) ∧
        (FailsBy CountFault (bind t groups (.image image) r) ↔
          ¬ Countable x.format image.width image.height)) ∧
    Never LengthFault limit ∧ (Never CountFault limit ↔ limit.toNat < 2 ^ 14) :=
  ⟨fun _ _ _ hf => ⟨fun _ _ => countFault_uploadTexture_iff hf,
      fun _ _ => lengthFault_uploadTexture_iff hf, checksExactly_iff hf⟩,
    checksExactly_iff_limit limit,
    fun _ groups _ _ _ _ hb hw => ⟨hw.not_lengthFault groups hb, hw.countFault_iff groups⟩,
    never_lengthFault limit, never_countFault_iff limit⟩

/-- No texels are as many as a region without rows has, but the program stops at its width. -/
theorem uploadTexture_stopped :
    let x : Texture := ⟨0, 268435456, 1, .rgba32float⟩
    x.UpTo 4294967295 ∧ x.fits 268435456 0 = true ∧ regionBytes x.format 268435456 0 = 0 ∧
      uploadTexture x [] 268435456 0 Session.sample.device =
        .error (.overflow .row) Session.sample.device :=
  ⟨⟨by decide, by decide, by decide, by decide⟩, by decide, by decide, rfl⟩

end Runs

end Kernel

end ComputeKernel
