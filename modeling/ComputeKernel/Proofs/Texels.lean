import ComputeKernel.Proofs.HostBytes

/-!
# Texels of a texture

Texels go through three layouts on their way to a texture and back: the rows of an upload are as
wide as its region, the rows of the texture as wide as the texture, and the rows of a staging buffer
start at multiples of 256 bytes. A row that is written changes the front of a row of the texture
(`getElem?_rows_write`). What stands between the rows of a staging buffer is dropped, whatever it is
(`withoutPadding_of_staged`), and that nothing is dropped where rows follow each other makes no
difference. So a texel that is read is the texel of the upload at its place, and outside of the
region the texel that was there before (`upload_texture_readback`).
-/

namespace ComputeKernel

namespace Bytes

variable {width : Nat} {bytes : List UInt8} {rows : List (List UInt8)}

/-- The bytes of the cell with some number, where every cell has `width` bytes. -/
def cell (width : Nat) (bytes : List UInt8) (i : Nat) : List UInt8 :=
  (bytes.drop (i * width)).take width

theorem length_cell {i : Nat} (h : (i + 1) * width ≤ bytes.length) :
    (cell width bytes i).length = width := by
  rw [Nat.succ_mul] at h
  rw [cell, List.length_take, List.length_drop]
  omega

/-- A cell within a row is a cell of the whole. -/
theorem cell_cell {columns x : Nat} (y : Nat) (hx : x < columns) :
    cell width (cell (columns * width) bytes y) x = cell width bytes (y * columns + x) := by
  have hle : x * width + width ≤ columns * width := by
    rw [← Nat.succ_mul]
    exact Nat.mul_le_mul_right width hx
  have hat : (y * columns + x) * width = y * (columns * width) + x * width := by
    rw [Nat.add_mul, Nat.mul_assoc]
  rw [cell, cell, cell, List.drop_take, List.drop_drop, List.take_take, hat,
    Nat.min_eq_left (by omega)]

theorem cell_flatten (h : ∀ r ∈ rows, r.length = width) {y : Nat} {r : List UInt8}
    (hr : rows[y]? = some r) : cell width rows.flatten y = r := by
  induction rows generalizing y with
  | nil => simp at hr
  | cons row rows ih =>
    obtain ⟨hrow, hrows⟩ := List.forall_mem_cons.1 h
    cases y with
    | zero =>
      cases hr
      rw [cell, Nat.zero_mul, List.drop_zero, List.flatten_cons, List.take_left' hrow]
    | succ y =>
      rw [← ih hrows hr, cell, cell, Nat.succ_mul, Nat.add_comm, ← List.drop_drop,
        List.flatten_cons, List.drop_left' hrow]

theorem getElem?_pieces (hw : 0 < width) (y : Nat) : (pieces width bytes)[y]? =
    if (y + 1) * width ≤ bytes.length then some (cell width bytes y) else none := by
  fun_induction pieces width bytes generalizing y with
  | case1 bytes piece h ih =>
    have hle : width ≤ bytes.length := by
      have := h.2
      rw [List.length_take] at this
      omega
    cases y with
    | zero => simp [cell, piece, hle]
    | succ y =>
      have hroom : (y + 1) * width ≤ (bytes.drop width).length ↔
          (y + 1 + 1) * width ≤ bytes.length := by
        rw [List.length_drop, Nat.succ_mul (y + 1)]
        omega
      have hcell : cell width (bytes.drop width) y = cell width bytes (y + 1) := by
        rw [cell, cell, List.drop_drop, Nat.succ_mul, Nat.add_comm]
      rw [List.getElem?_cons_succ, ih, hcell]
      simp only [hroom]
  | case2 bytes piece h =>
    have hlt : bytes.length < width := by
      simp only [hw, true_and, piece, List.length_take] at h
      omega
    rw [if_neg]
    · simp
    · rw [Nat.succ_mul]
      omega

end Bytes

namespace Device

section Rows

variable {m : TextureMemory} {length row y : Nat} {bytes old : List UInt8}
  {rows olds : List (List UInt8)}

theorem length_filled (h : bytes.length ≤ length) : (filled length bytes).length = length := by
  rw [filled, List.length_append, List.length_replicate]
  omega

theorem filled_overwrite : filled length (overwrite bytes old) =
    overwrite bytes (filled length old) := by
  rw [filled, overwrite, overwrite, filled, List.append_assoc, List.length_append,
    List.length_drop, List.drop_append, List.drop_replicate]
  congr 3
  omega

theorem getD_overwriteRows : (overwriteRows rows olds).getD y [] =
    overwrite (rows.getD y []) (olds.getD y []) := by
  fun_induction overwriteRows rows olds generalizing y with
  | case1 olds => simp [overwrite]
  | case2 r rows ih =>
    cases y with
    | zero => simp [overwrite]
    | succ y => simpa using ih
  | case3 r rows o olds ih =>
    cases y with
    | zero => simp
    | succ y => simpa using ih

theorem length_overwriteRows :
    (overwriteRows rows olds).length = max rows.length olds.length := by
  fun_induction overwriteRows rows olds with
  | case1 olds => simp
  | case2 r rows ih => simp [ih]
  | case3 r rows o olds ih => simp [ih, Nat.succ_max_succ]

namespace TextureMemory

/-- The bytes that were written to a texture lie within it. -/
structure Bounded (m : TextureMemory) : Prop where
  height : m.heads.length ≤ m.height.toNat
  width : ∀ y, (m.heads.getD y []).length ≤ m.rowLength

/-- The texel of a texture in some column and row. -/
def texel (m : TextureMemory) (x y : Nat) : List UInt8 :=
  Bytes.cell m.format.texelBytes (m.rows.getD y []) x

theorem length_rows (h : m.Bounded) : m.rows.length = m.height.toNat := by
  have := h.height
  rw [rows, List.length_map, List.length_append, List.length_replicate]
  omega

theorem getElem?_rows (hy : y < m.height.toNat) :
    m.rows[y]? = some (filled m.rowLength (m.heads.getD y [])) := by
  rw [rows, List.getElem?_map, List.getD_eq_getElem?_getD]
  by_cases hh : y < m.heads.length
  · rw [List.getElem?_append_left hh, List.getElem?_eq_getElem hh]
    rfl
  · rw [List.getElem?_append_right (by omega), List.getElem?_replicate_of_lt (by omega),
      List.getElem?_eq_none (by omega)]
    rfl

theorem getD_rows (hy : y < m.height.toNat) :
    m.rows.getD y [] = filled m.rowLength (m.heads.getD y []) := by
  rw [List.getD_eq_getElem?_getD, getElem?_rows hy]
  rfl

theorem length_of_mem_rows (h : m.Bounded) {r : List UInt8} (hr : r ∈ m.rows) :
    r.length = m.rowLength := by
  obtain ⟨y, hy⟩ := List.mem_iff_getElem?.1 hr
  have hlt := (List.getElem?_eq_some_iff.1 hy).1
  rw [length_rows h] at hlt
  rw [getElem?_rows hlt] at hy
  cases hy
  exact length_filled (h.width y)

/-- Bytes that are written to a texture change the fronts of its rows. -/
theorem getElem?_rows_write (hy : y < m.height.toNat) :
    (m.write row bytes).rows[y]? =
      some (overwrite ((Bytes.pieces row bytes).getD y []) (m.rows.getD y [])) := by
  rw [getElem?_rows (m := m.write row bytes) hy, getD_rows hy, ← filled_overwrite,
    ← getD_overwriteRows]
  rfl

end TextureMemory

end Rows

section Regions

variable {m : TextureMemory} {columns lines size x y : Nat} {bytes front old : List UInt8}

theorem cell_overwrite_front (h : (x + 1) * size ≤ front.length) :
    Bytes.cell size (overwrite front old) x = Bytes.cell size front x := by
  rw [Nat.succ_mul] at h
  rw [Bytes.cell, overwrite, List.drop_append_of_le_length (by omega),
    List.take_append_of_le_length (by rw [List.length_drop]; omega), Bytes.cell]

theorem cell_overwrite_behind (h : front.length ≤ x * size) :
    Bytes.cell size (overwrite front old) x = Bytes.cell size old x := by
  rw [Bytes.cell, overwrite, List.drop_append, List.drop_eq_nil_of_le h, List.nil_append,
    List.drop_drop, Nat.add_sub_cancel' h, Bytes.cell]

/-- The rows of an upload are its cells of the width of a row. -/
theorem getD_pieces (h : bytes.length = lines * size) :
    (Bytes.pieces size bytes).getD y [] = if y < lines then Bytes.cell size bytes y else [] := by
  rcases Nat.eq_zero_or_pos size with rfl | hs
  · rw [Bytes.pieces]
    simp [Bytes.cell]
  · rw [List.getD_eq_getElem?_getD, Bytes.getElem?_pieces hs, h]
    simp only [Nat.mul_le_mul_right_iff hs, Nat.succ_le_iff]
    split <;> rfl

theorem length_pieces_le (h : bytes.length = lines * size) :
    (Bytes.pieces size bytes).length ≤ lines := by
  rcases Nat.eq_zero_or_pos size with rfl | hs
  · rw [Bytes.pieces]
    simp
  · refine Nat.le_of_eq ?_
    rw [Bytes.length_pieces hs, h, Nat.mul_div_cancel _ hs]

namespace TextureMemory

/-- Bytes that are written within a texture leave it so. -/
theorem Bounded.write (h : m.Bounded) (hb : bytes.length = lines * size)
    (hlines : lines ≤ m.height.toNat) (hsize : size ≤ m.rowLength) :
    (m.write size bytes).Bounded := by
  constructor
  · have := length_pieces_le hb
    have := h.height
    show (overwriteRows _ _).length ≤ m.height.toNat
    rw [length_overwriteRows]
    omega
  · intro y
    have hold := h.width y
    have hnew : ((Bytes.pieces size bytes).getD y []).length ≤ m.rowLength := by
      rw [getD_pieces hb]
      split
      · rw [Bytes.cell, List.length_take]
        omega
      · exact Nat.zero_le _
    show ((overwriteRows _ _).getD y []).length ≤ m.rowLength
    rw [getD_overwriteRows, overwrite, List.length_append, List.length_drop]
    omega

/-- A texel after a region is written: inside of the region it is the texel of the upload, outside
of it the one from before. -/
theorem texel_write (hb : bytes.length = lines * (columns * m.format.texelBytes))
    (hy : y < m.height.toNat) :
    (m.write (columns * m.format.texelBytes) bytes).texel x y =
      if x < columns ∧ y < lines then Bytes.cell m.format.texelBytes bytes (y * columns + x)
      else m.texel x y := by
  have hrow : (m.write (columns * m.format.texelBytes) bytes).rows.getD y [] =
      overwrite (if y < lines then Bytes.cell (columns * m.format.texelBytes) bytes y else [])
        (m.rows.getD y []) := by
    rw [List.getD_eq_getElem?_getD, getElem?_rows_write hy, getD_pieces hb]
    rfl
  rw [texel, texel, hrow]
  show Bytes.cell m.format.texelBytes _ x = _
  by_cases hl : y < lines
  · have hlength : (Bytes.cell (columns * m.format.texelBytes) bytes y).length =
        columns * m.format.texelBytes := by
      refine Bytes.length_cell ?_
      rw [hb]
      exact Nat.mul_le_mul_right _ hl
    rw [if_pos hl]
    by_cases hc : x < columns
    · rw [if_pos ⟨hc, hl⟩, cell_overwrite_front, Bytes.cell_cell y hc]
      rw [hlength]
      exact Nat.mul_le_mul_right _ hc
    · rw [if_neg fun h => hc h.1, cell_overwrite_behind]
      rw [hlength]
      exact Nat.mul_le_mul_right _ (Nat.le_of_not_lt hc)
  · rw [if_neg hl, if_neg fun h => hl h.2, cell_overwrite_behind (Nat.zero_le _)]

end TextureMemory

end Regions

section Staging

variable {row pitch : Nat} {rows : List (List UInt8)} {staged : List UInt8}

/-- A staging buffer that holds rows at a distance of `pitch` bytes, with anything between them. -/
structure Staged (pitch : Nat) (rows : List (List UInt8)) (staged : List UInt8) : Prop where
  length : staged.length = rows.length * pitch
  row : ∀ y r, rows[y]? = some r → (staged.drop (y * pitch)).take r.length = r

theorem Staged.map_take (h : Staged pitch rows staged) (hr : ∀ r ∈ rows, r.length = row)
    (hp : 0 < pitch) (hle : row ≤ pitch) : (Bytes.pieces pitch staged).map (·.take row) = rows := by
  refine List.ext_getElem? fun y => ?_
  rw [List.getElem?_map, Bytes.getElem?_pieces hp, h.length]
  simp only [Nat.mul_le_mul_right_iff hp, Nat.succ_le_iff]
  by_cases hy : y < rows.length
  · have hat := h.row y _ (List.getElem?_eq_getElem hy)
    rw [hr _ (List.getElem_mem hy)] at hat
    rw [if_pos hy, Option.map_some, Bytes.cell, List.take_take, Nat.min_eq_left hle, hat,
      List.getElem?_eq_getElem hy]
  · rw [if_neg hy, List.getElem?_eq_none (Nat.le_of_not_lt hy)]
    rfl

/-- What stands between the rows of a staging buffer is dropped, whatever it is. -/
theorem withoutPadding_of_staged (h : Staged pitch rows staged) (hr : ∀ r ∈ rows, r.length = row)
    (hle : row ≤ pitch) : withoutPadding row pitch staged = rows.flatten := by
  unfold withoutPadding
  split
  · rename_i he
    subst he
    -- The rows follow each other, so the buffer is all of them: as many bytes, and each row the
    -- same.
    rcases Nat.eq_zero_or_pos row with rfl | hp
    · have hflat := Bytes.length_flatten_pieces hr
      rw [Nat.mul_zero] at hflat
      rw [List.eq_nil_of_length_eq_zero h.length, List.eq_nil_of_length_eq_zero hflat]
    · have hwhole := Bytes.flatten_pieces hp staged
      rw [h.length, Nat.mul_mod_left, Nat.sub_zero, ← h.length, List.take_length] at hwhole
      obtain ⟨-, -, -, hpieces⟩ := Bytes.exists_pieces hp staged
      have hsame : (Bytes.pieces row staged).map (·.take row) = Bytes.pieces row staged := by
        refine (List.map_congr_left fun p hp => ?_).trans (List.map_id _)
        exact List.take_of_length_le (Nat.le_of_eq (hpieces p hp))
      rw [← h.map_take hr hp hle, hsame, hwhole]
  · rename_i hne
    have hp : 0 < pitch := by omega
    have hwhole : staged.length % pitch = 0 := by rw [h.length, Nat.mul_mod_left]
    rw [Bytes.chunks_eq_pieces hp hwhole, List.flatMap_def, h.map_take hr hp hle]

theorem staged_filled (hr : ∀ r ∈ rows, r.length = row) (hle : row ≤ pitch) :
    Staged pitch rows (rows.flatMap (filled pitch)) := by
  have hfilled : ∀ r ∈ rows.map (filled pitch), r.length = pitch := by
    intro _ hmem
    obtain ⟨r, hrow, rfl⟩ := List.mem_map.1 hmem
    exact length_filled (by rw [hr r hrow]; exact hle)
  rw [List.flatMap_def]
  refine ⟨by rw [Bytes.length_flatten_pieces hfilled, List.length_map], fun y r hy => ?_⟩
  have hcell := Bytes.cell_flatten hfilled (y := y) (r := filled pitch r)
    (by rw [List.getElem?_map, hy]; rfl)
  have hlen : r.length ≤ pitch := by rw [hr r (List.mem_of_getElem? hy)]; exact hle
  rw [← Nat.min_eq_left hlen, ← List.take_take, ← Bytes.cell, hcell, filled, List.take_left]

end Staging

section Transfers

variable {d d' : Device} {t : Texture} {m : TextureMemory} {texels : List UInt8}
  {width height : UInt32}

/-- A texture of a device with its memory. -/
structure HoldsTexture (d : Device) (t : Texture) (m : TextureMemory) : Prop where
  memory : d.textures[t.number]? = some m
  width : m.width = t.width
  height : m.height = t.height
  format : m.format = t.format
  bounded : m.Bounded

theorem HoldsTexture.rowLength (h : d.HoldsTexture t m) :
    m.rowLength = rowBytes t.width t.format := by
  rw [TextureMemory.rowLength, h.width, h.format, rowBytes]

theorem texelBytes_le (f : ImageFormat) : f.texelBytes ≤ 16 := by cases f <;> decide

theorem rowBytes_le (width : UInt32) (f : ImageFormat) : rowBytes width f ≤ 16 * width.toNat := by
  rw [rowBytes, Nat.mul_comm]
  exact Nat.mul_le_mul_right _ (texelBytes_le f)

theorem pitch_lt {width : UInt32} {f : ImageFormat} (h : 16 * width.toNat < 2 ^ 32 - 256) :
    pitch (rowBytes width f) < UInt32.size := by
  have hle := rowBytes_le width f
  simp only [pitch, UInt32.size]
  omega

/-- An upload is made if it fits, its length is right and no error waits for it. -/
theorem uploadTexture_of_quiet (hf : t.fits width height = true)
    (hl : texelFault? t.format width height texels = none)
    (hq : d.queued.any (·.isDue .writeTexture) = false) :
    uploadTexture t texels width height d = .ok ()
      (d.attempted (·.writeTexture t.number width height (rowBytes width t.format) texels)) := by
  rw [uploadTexture_of_fits _ _ hf, hl]
  rcases checked_cases d .uploadTexture fun d =>
      ((), d.writeTexture t.number width height (rowBytes width t.format) texels) with h | ⟨e, h⟩
  · exact h
  · exact absurd ((error?_enter d .writeTexture).2 hq) (checked_scope.2 h)

/-- A texture is read through a staging buffer, to which its rows are copied. -/
theorem readTexture_of_maps (h : d.Maps) (hm : d.textures[t.number]? = some m)
    (hp : pitch (rowBytes t.width t.format) < UInt32.size) :
    ∃ d', readTexture t d = .ok (withoutPadding (rowBytes t.width t.format)
      (pitch (rowBytes t.width t.format))
      (filled (pitch (rowBytes t.width t.format) * t.height.toNat)
        (m.packed (pitch (rowBytes t.width t.format))))) d' := by
  have hmaps : Maps (stagedTexture t d) :=
    ((h.enter .createBuffer (by decide) (by decide)).enter .submit (by decide)
      (by decide)).of_queued rfl
  obtain ⟨d', hr⟩ := mapped_of_maps hmaps d.buffers.length
  have hstaged : (stagedTexture t d).bufferContents d.buffers.length =
      filled (pitch (rowBytes t.width t.format) * t.height.toNat)
        (m.packed (pitch (rowBytes t.width t.format))) := by
    simp [stagedTexture, submitTextureCopy, hm, bufferContents, createBuffer, enter, record,
      updateBuffer, BufferMemory.write, BufferMemory.contents, overwrite]
  rw [hstaged] at hr
  rw [readTexture_of_lt hp]
  exact ⟨d', bind_of_ok hr⟩

/-- The rows of a texture are found in a staging buffer, with anything between them. -/
theorem HoldsTexture.withoutPadding (hm : d.HoldsTexture t m) {staged : List UInt8}
    (hs : Staged (pitch (rowBytes t.width t.format)) m.rows staged) :
    Device.withoutPadding (rowBytes t.width t.format) (pitch (rowBytes t.width t.format)) staged =
      m.rows.flatten := by
  refine withoutPadding_of_staged hs (fun r hr => ?_) (le_pitch _)
  rw [TextureMemory.length_of_mem_rows hm.bounded hr, hm.rowLength]

/-- A texture is read row by row. -/
theorem readTexture_eq (h : d.Maps) (hm : d.HoldsTexture t m)
    (hp : pitch (rowBytes t.width t.format) < UInt32.size) :
    ∃ d', readTexture t d = .ok m.rows.flatten d' := by
  obtain ⟨d', hr⟩ := readTexture_of_maps h hm.memory hp
  have hs : Staged (pitch (rowBytes t.width t.format)) m.rows
      (m.packed (pitch (rowBytes t.width t.format))) := by
    refine staged_filled (fun r hr => TextureMemory.length_of_mem_rows hm.bounded hr) ?_
    rw [hm.rowLength]
    exact le_pitch _
  have hsize : (m.packed (pitch (rowBytes t.width t.format))).length =
      pitch (rowBytes t.width t.format) * t.height.toNat := by
    rw [hs.length, TextureMemory.length_rows hm.bounded, hm.height, Nat.mul_comm]
  rw [← hsize, filled, Nat.sub_self, List.replicate_zero, List.append_nil,
    hm.withoutPadding hs] at hr
  exact ⟨d', hr⟩

theorem HoldsTexture.length_flatten (hm : d.HoldsTexture t m) : m.rows.flatten.length =
    t.width.toNat * t.height.toNat * t.format.texelBytes := by
  rw [Bytes.length_flatten_pieces fun r hr => TextureMemory.length_of_mem_rows hm.bounded hr,
    TextureMemory.length_rows hm.bounded, hm.height, hm.rowLength, rowBytes, ← Nat.mul_assoc,
    Nat.mul_comm t.height.toNat]

theorem HoldsTexture.cell_flatten (hm : d.HoldsTexture t m) {x y : Nat}
    (hx : x < t.width.toNat) (hy : y < t.height.toNat) :
    Bytes.cell t.format.texelBytes m.rows.flatten (y * t.width.toNat + x) = m.texel x y := by
  have hrows : y < m.height.toNat := by rw [hm.height]; exact hy
  have hlength : ∀ r ∈ m.rows, r.length = t.width.toNat * t.format.texelBytes := fun r hr => by
    rw [TextureMemory.length_of_mem_rows hm.bounded hr, hm.rowLength, rowBytes]
  rw [← Bytes.cell_cell y hx, Bytes.cell_flatten hlength (TextureMemory.getElem?_rows hrows),
    TextureMemory.texel, hm.format, TextureMemory.getD_rows hrows]

/-- The texture after an upload that was made. -/
theorem HoldsTexture.upload (hm : d.HoldsTexture t m) (hw : width ≤ t.width)
    (hh : height ≤ t.height) (hl : texels.length = height.toNat * rowBytes width t.format)
    (hd : d'.textures = d.textures.modify t.number (·.write (rowBytes width t.format) texels)) :
    d'.HoldsTexture t (m.write (rowBytes width t.format) texels) where
  memory := by simp [hd, hm.memory]
  width := hm.width
  height := hm.height
  format := hm.format
  bounded := by
    refine hm.bounded.write hl ?_ ?_
    · rw [hm.height]
      exact hh
    · rw [hm.rowLength]
      exact Nat.mul_le_mul_right _ hw

/-- Texels that are uploaded to a region of a texture are read back at their places, and the other
texels are read as they were before. The texture is read row by row, and what stands between its
rows in the staging buffer does not matter. -/
theorem upload_texture_readback (hm : d.HoldsTexture t m)
    (hwidth : 16 * t.width.toNat < 2 ^ 32 - 256) (hw : width ≤ t.width) (hh : height ≤ t.height)
    (hl : texels.length = width.toNat * height.toNat * t.format.texelBytes)
    (hsize : texels.length < 2 ^ 32) (hquiet : d.queued.any (·.isDue .writeTexture) = false)
    (hmaps : d.Maps) :
    ∃ d₁, uploadTexture t texels width height d = .ok () d₁ ∧
      ∃ m₁, d₁.HoldsTexture t m₁ ∧
        ∃ bytes, (∃ d₂, readTexture t d₁ = .ok bytes d₂) ∧
          (∀ staged, Staged (pitch (rowBytes t.width t.format)) m₁.rows staged →
            withoutPadding (rowBytes t.width t.format) (pitch (rowBytes t.width t.format)) staged =
              bytes) ∧
          bytes.length = t.width.toNat * t.height.toNat * t.format.texelBytes ∧
          ∀ x y, x < t.width.toNat → y < t.height.toNat →
            Bytes.cell t.format.texelBytes bytes (y * t.width.toNat + x) =
              if x < width.toNat ∧ y < height.toNat then
                Bytes.cell t.format.texelBytes texels (y * width.toNat + x)
              else m.texel x y := by
  have hle : width.toNat ≤ t.width.toNat := hw
  have hlines : texels.length = height.toNat * rowBytes width t.format := by
    rw [hl, rowBytes, Nat.mul_comm width.toNat, Nat.mul_assoc]
  have hcounted : texelFault? t.format width height texels = none := by
    have hrow := rowBytes_le width t.format
    refine texelFault?_eq_none ?_ hsize (hlines.trans (Nat.mul_comm _ _))
    simp only [UInt32.size]
    omega
  have hfits : t.fits width height = true := by
    simp only [Texture.fits, hw, hh, decide_true, Bool.and_self]
  have hup := uploadTexture_of_quiet hfits hcounted hquiet
  have hm₁ := hm.upload hw hh hlines (uploadTexture_ok hup)
  have hmaps₁ : Maps (d.attempted
      (·.writeTexture t.number width height (rowBytes width t.format) texels)) :=
    (hmaps.enter .writeTexture (by decide) (by decide)).of_queued rfl
  refine ⟨_, hup, _, hm₁, _, readTexture_eq hmaps₁ hm₁ (pitch_lt hwidth),
    fun staged hs => hm₁.withoutPadding hs, hm₁.length_flatten, fun x y hx hy => ?_⟩
  rw [hm₁.cell_flatten hx hy, rowBytes, ← hm.format, TextureMemory.texel_write]
  · rw [hm.format]
    exact hlines
  · rw [hm.height]
    exact hy

/-- A texture of two rows of three texels, of which only the first was written to. -/
def threeByTwo : TextureMemory where
  width := 3
  height := 2
  format := .r32uint
  heads := [[9, 0, 0, 0, 8, 0, 0, 0, 7, 0, 0, 0]]

theorem upload_texture_readback_column :
    let d : Device :=
      { adapterName := "Fake", hasDoubles := false, limits := ⟨1024, 8192⟩,
        textures := [threeByTwo] }
    let t : Texture := ⟨0, 3, 2, .r32uint⟩
    d.HoldsTexture t threeByTwo ∧
      ∃ d₁ d₂ bytes, uploadTexture t [1, 2, 3, 4, 5, 6, 7, 8] 1 2 d = .ok () d₁ ∧
        readTexture t d₁ = .ok bytes d₂ ∧ bytes.length = 24 ∧
        Bytes.cell 4 bytes 0 = [1, 2, 3, 4] ∧ Bytes.cell 4 bytes 1 = [8, 0, 0, 0] ∧
        Bytes.cell 4 bytes 3 = [5, 6, 7, 8] ∧ Bytes.cell 4 bytes 4 = [0, 0, 0, 0] := by
  intro d t
  have hm : d.HoldsTexture t threeByTwo := by
    refine ⟨rfl, rfl, rfl, rfl, by decide, fun y => ?_⟩
    cases y with
    | zero => decide
    | succ y => exact Nat.zero_le _
  obtain ⟨d₁, hup, m₁, -, bytes, ⟨d₂, hread⟩, -, hlength, hcell⟩ :=
    @upload_texture_readback d t threeByTwo [1, 2, 3, 4, 5, 6, 7, 8] 1 2 hm
      (by decide) (by decide) (by decide) (by decide) (by decide) rfl ⟨rfl, rfl⟩
  exact ⟨hm, d₁, d₂, bytes, hup, hread, hlength, hcell 0 0 (by decide) (by decide),
    hcell 1 0 (by decide) (by decide), hcell 0 1 (by decide) (by decide),
    hcell 1 1 (by decide) (by decide)⟩

end Transfers

end Device

end ComputeKernel
