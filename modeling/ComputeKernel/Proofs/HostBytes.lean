import Mathlib.Algebra.Group.Nat.Defs
import ComputeKernel.Proofs.Use

/-!
# Host data as bytes

Values are laid out one after the other, each in as many bytes as its scalar has, so bytes are read
as values piece by piece (`Codec`). The bytes of some data are read as the data, whatever follows
them (`take_ofBytes_append`), and of other bytes only an incomplete last value is lost
(`toBytes_ofBytes`). What a buffer is read back as depends on its contents and nothing else
(`readBuffer_of_maps`), and what is read into other data does not depend on that (`refill_eq`).
-/

namespace ComputeKernel

namespace Bytes

variable {width : Nat} {bytes : List UInt8}

theorem pieces_append {p : List UInt8} (hw : 0 < width) (hp : p.length = width)
    (rest : List UInt8) : pieces width (p ++ rest) = p :: pieces width rest := by
  rw [pieces]
  simp [hp, hw]

/-- Bytes are pieces of one width, and some bytes that are too few for another one. -/
theorem exists_pieces (hw : 0 < width) (bytes : List UInt8) :
    ∃ last, bytes = (pieces width bytes).flatten ++ last ∧ last.length < width ∧
      ∀ p ∈ pieces width bytes, p.length = width := by
  fun_induction pieces width bytes with
  | case1 bytes piece h ih =>
    obtain ⟨last, hb, hl, hp⟩ := ih
    refine ⟨last, ?_, hl, ?_⟩
    · rw [List.flatten_cons, List.append_assoc, ← hb, List.take_append_drop]
    · simpa [h.2] using hp
  | case2 bytes piece h =>
    refine ⟨bytes, rfl, ?_, by simp⟩
    simp only [hw, true_and, piece, List.length_take] at h
    omega

theorem length_flatten_pieces {ps : List (List UInt8)} (h : ∀ p ∈ ps, p.length = width) :
    ps.flatten.length = ps.length * width := by
  induction ps with
  | nil => simp
  | cons p ps ih =>
    rw [List.flatten_cons, List.length_append, List.length_cons, h p List.mem_cons_self,
      ih fun q hq => h q (List.mem_cons_of_mem _ hq), Nat.succ_mul, Nat.add_comm]

theorem length_pieces (hw : 0 < width) (bytes : List UInt8) :
    (pieces width bytes).length = bytes.length / width := by
  obtain ⟨last, hb, hl, hp⟩ := exists_pieces hw bytes
  have h := congrArg List.length hb
  rw [List.length_append, length_flatten_pieces hp] at h
  rw [h, Nat.add_comm, Nat.add_mul_div_right _ _ hw, Nat.div_eq_of_lt hl, Nat.zero_add]

/-- Where pieces of one width are all there is, no shorter one is left. -/
theorem chunks_eq_pieces (hw : 0 < width) (h : bytes.length % width = 0) :
    chunks width bytes = pieces width bytes := by
  have hall : (pieces width bytes).length * width = bytes.length := by
    rw [length_pieces hw, Nat.div_mul_cancel (Nat.dvd_of_mod_eq_zero h)]
  simp only [chunks, hall, List.drop_length, List.isEmpty_nil, if_true]

theorem flatten_pieces (hw : 0 < width) (bytes : List UInt8) :
    (pieces width bytes).flatten = bytes.take (bytes.length - bytes.length % width) := by
  obtain ⟨last, hb, hl, hp⟩ := exists_pieces hw bytes
  have hn := length_flatten_pieces hp
  have h : bytes.length = _ := congrArg List.length hb
  rw [List.length_append, hn] at h
  have hmod : bytes.length % width = last.length := by
    rw [h, Nat.add_comm, Nat.add_mul_mod_self_right, Nat.mod_eq_of_lt hl]
  rw [hmod, h, Nat.add_sub_cancel, ← hn]
  calc (pieces width bytes).flatten
      = ((pieces width bytes).flatten ++ last).take (pieces width bytes).flatten.length :=
        List.take_left.symm
    _ = _ := by rw [← hb]

theorem ofNat_toNat (bytes : List UInt8) : ofNat bytes.length (toNat bytes) = bytes := by
  induction bytes with
  | nil => rfl
  | cons b r ih =>
    have hb := b.toNat_lt
    have hhead : UInt8.ofNat (b.toNat + 256 * toNat r) = b := by
      rw [← UInt8.toNat_inj, UInt8.toNat_ofNat']
      omega
    have htail : (b.toNat + 256 * toNat r) / 256 = toNat r := by omega
    rw [List.length_cons, toNat, ofNat, hhead, htail, ih]

theorem toNat_lt (bytes : List UInt8) : toNat bytes < 256 ^ bytes.length := by
  induction bytes with
  | nil => simp [toNat]
  | cons b r ih =>
    have hb := b.toNat_lt
    rw [List.length_cons, Nat.pow_succ, toNat]
    omega

theorem ofWord_word (h : bytes.length = 4) : ofWord (word bytes) = bytes := by
  have hlt := toNat_lt bytes
  rw [h] at hlt
  rw [ofWord, word, UInt32.toNat_ofNat_of_lt' hlt, ← h, ofNat_toNat]

theorem ofDoubleWord_doubleWord (h : bytes.length = 8) :
    ofDoubleWord (doubleWord bytes) = bytes := by
  have hlt := toNat_lt bytes
  rw [h] at hlt
  rw [ofDoubleWord, doubleWord, UInt64.toNat_ofNat_of_lt' hlt, ← h, ofNat_toNat]

/-- Values that are laid out in `width` bytes each. -/
structure Codec {α : Type} (width : Nat) (encode : α → List UInt8) (decode : List UInt8 → α) :
    Prop where
  pos : 0 < width
  length : ∀ v, (encode v).length = width
  decode_encode : ∀ v, decode (encode v) = v
  encode_decode : ∀ p, p.length = width → encode (decode p) = p

section Codecs

variable {α : Type} {encode : α → List UInt8} {decode : List UInt8 → α}

theorem Codec.decode_append (h : Codec width encode decode) (vs : List α) (rest : List UInt8) :
    (pieces width (vs.flatMap encode ++ rest)).map decode =
      vs ++ (pieces width rest).map decode := by
  induction vs with
  | nil => rfl
  | cons v vs ih =>
    rw [List.flatMap_cons, List.append_assoc, pieces_append h.pos (h.length v), List.map_cons,
      h.decode_encode, ih, List.cons_append]

theorem Codec.decode_encoded (h : Codec width encode decode) (vs : List α) :
    (pieces width (vs.flatMap encode)).map decode = vs := by
  have hd := h.decode_append vs []
  rw [List.append_nil] at hd
  rw [hd, pieces]
  simp [Nat.ne_of_lt h.pos]

theorem Codec.length_decoded (h : Codec width encode decode) (bytes : List UInt8) :
    ((pieces width bytes).map decode).length = bytes.length / width := by
  rw [List.length_map, length_pieces h.pos]

theorem Codec.encode_decoded (h : Codec width encode decode) (bytes : List UInt8) :
    ((pieces width bytes).map decode).flatMap encode =
      bytes.take (bytes.length - bytes.length % width) := by
  obtain ⟨-, -, -, hp⟩ := exists_pieces h.pos bytes
  have hmap : (pieces width bytes).map (encode ∘ decode) = pieces width bytes :=
    (List.map_congr_left fun p hm => h.encode_decode p (hp p hm)).trans (List.map_id _)
  rw [← flatten_pieces h.pos, List.flatMap_def, List.map_map, hmap]

end Codecs

theorem codec_word : Codec 4 ofWord word where
  pos := by decide
  length := length_ofWord
  decode_encode := word_ofWord
  encode_decode _ := ofWord_word

theorem codec_doubleWord : Codec 8 ofDoubleWord doubleWord where
  pos := by decide
  length := length_ofDoubleWord
  decode_encode := doubleWord_ofDoubleWord
  encode_decode _ := ofDoubleWord_doubleWord

/-- Values that stand for others are laid out as those. -/
theorem Codec.via {α β : Type} {encode : α → List UInt8} {decode : List UInt8 → α}
    (h : Codec width encode decode) {f : β → α} {g : α → β} (hg : ∀ v, g (f v) = v)
    (hf : ∀ v, f (g v) = v) : Codec width (fun v => encode (f v)) fun p => g (decode p) where
  pos := h.pos
  length v := h.length (f v)
  decode_encode v := by rw [h.decode_encode, hg]
  encode_decode p hp := by rw [hf, h.encode_decode p hp]

end Bytes

namespace HostData

open Bytes

/-- The first values. -/
def take (n : Nat) : HostData → HostData
  | u8 vs => u8 (vs.take n)
  | u32 vs => u32 (vs.take n)
  | i32 vs => i32 (vs.take n)
  | f32 vs => f32 (vs.take n)
  | f64 vs => f64 (vs.take n)

theorem codec_int : Codec 4 (fun v : Int32 => ofWord v.toUInt32) fun p => (word p).toInt32 :=
  codec_word.via (fun _ => rfl) fun _ => rfl

theorem codec_binary32 : Codec 4 (fun v : Binary32 => ofWord v.bits) fun p => ⟨word p⟩ :=
  codec_word.via (fun _ => rfl) fun _ => rfl

theorem codec_binary64 :
    Codec 8 (fun v : Binary64 => ofDoubleWord v.bits) fun p => ⟨doubleWord p⟩ :=
  codec_doubleWord.via (fun _ => rfl) fun _ => rfl

variable (s : HostScalar) (bytes : List UInt8)

@[simp] theorem scalar_ofBytes : (ofBytes s bytes).scalar = s := by
  cases s <;> rfl

theorem length_ofBytes : (ofBytes s bytes).length = bytes.length / s.byteSize := by
  cases s with
  | u8 => exact (Nat.div_one _).symm
  | u32 => exact codec_word.length_decoded bytes
  | i32 => exact codec_int.length_decoded bytes
  | f32 => exact codec_binary32.length_decoded bytes
  | f64 => exact codec_binary64.length_decoded bytes

/-- Only an incomplete last value is lost. -/
theorem toBytes_ofBytes :
    (ofBytes s bytes).toBytes = bytes.take (bytes.length - bytes.length % s.byteSize) := by
  cases s with
  | u8 => simp [ofBytes, toBytes, HostScalar.byteSize, Nat.mod_one]
  | u32 => exact codec_word.encode_decoded bytes
  | i32 => exact codec_int.encode_decoded bytes
  | f32 => exact codec_binary32.encode_decoded bytes
  | f64 => exact codec_binary64.encode_decoded bytes

/-- The bytes of some data are read as the data, and what follows them as further values. -/
theorem take_ofBytes_append (x : HostData) (rest : List UInt8) :
    (ofBytes x.scalar (x.toBytes ++ rest)).take x.length = x := by
  cases x with
  | u8 vs => exact congrArg u8 List.take_left
  | u32 vs => simp [ofBytes, toBytes, scalar, take, length, codec_word.decode_append]
  | i32 vs => simp [ofBytes, toBytes, scalar, take, length, codec_int.decode_append]
  | f32 vs => simp [ofBytes, toBytes, scalar, take, length, codec_binary32.decode_append]
  | f64 vs => simp [ofBytes, toBytes, scalar, take, length, codec_binary64.decode_append]

theorem ofBytes_toBytes (x : HostData) : ofBytes x.scalar x.toBytes = x := by
  cases x with
  | u8 vs => rfl
  | u32 vs => exact congrArg u32 (codec_word.decode_encoded vs)
  | i32 vs => exact congrArg i32 (codec_int.decode_encoded vs)
  | f32 vs => exact congrArg f32 (codec_binary32.decode_encoded vs)
  | f64 vs => exact congrArg f64 (codec_binary64.decode_encoded vs)

/-- What is read into some data depends on its scalar only. -/
theorem refill_eq (old : HostData) : old.refill bytes = ofBytes old.scalar bytes := by
  have hwhole : ofBytes old.scalar
      (bytes.take (bytes.length - bytes.length % old.scalar.byteSize)) =
      ofBytes old.scalar bytes := by
    have h := ofBytes_toBytes (ofBytes old.scalar bytes)
    rwa [scalar_ofBytes, toBytes_ofBytes] at h
  unfold refill
  simp only
  split
  · rename_i h
    rw [← h, List.drop_length, List.append_nil, hwhole]
  · exact hwhole

end HostData

section Reading

namespace Device

variable {d : Device} {call call' : Call}

/-- A device on which the next mapping completes, and without an error. -/
structure Maps (d : Device) : Prop where
  returns : d.queued.any (·.isDue .lostMap) = false
  succeeds : d.queued.any (·.isDue .map) = false

/-- A call does not bring errors for other calls nearer. -/
theorem isDue_pass (h : call' ≠ call) (e : WaitingError) :
    (e.pass call).isDue call' = e.isDue call' := by
  unfold WaitingError.pass
  split
  · rename_i he
    have hne : (call == call') = false := by simpa using Ne.symm h
    simp [WaitingError.isDue, he, hne]
  · rfl

theorem isDue_enter (h : call' ≠ call) :
    (d.enter call).queued.any (·.isDue call') = d.queued.any (·.isDue call') := by
  show ((d.queued.filter (!·.isDue call)).map (·.pass call)).any _ = _
  rw [List.any_map, List.any_filter]
  congr 1
  funext e
  rw [Function.comp_apply, isDue_pass h]
  by_cases he : e.call = call
  · have hne : (call == call') = false := by simpa using Ne.symm h
    simp [WaitingError.isDue, he, hne]
  · simp [WaitingError.isDue, he]

theorem isDue_takeQueued (h : call' ≠ call) (hn : d.queued.any (·.isDue call) = false) :
    (d.takeQueued call).2.queued.any (·.isDue call') = d.queued.any (·.isDue call') := by
  show ((d.queued.eraseP (·.isDue call)).map (·.pass call)).any _ = _
  rw [List.eraseP_of_forall_not fun e he hd => by simp_all, List.any_map]
  congr 1
  funext e
  exact isDue_pass h e

theorem Maps.of_queued {d' : Device} (h : Maps d) (hq : d'.queued = d.queued) : Maps d' :=
  ⟨by rw [hq, h.returns], by rw [hq, h.succeeds]⟩

theorem Maps.enter (h : Maps d) (call : Call) (h₁ : call ≠ .lostMap) (h₂ : call ≠ .map) :
    Maps (d.enter call) :=
  ⟨by rw [isDue_enter h₁.symm, h.returns], by rw [isDue_enter h₂.symm, h.succeeds]⟩

theorem mapped_of_maps (h : Maps d) (n : Nat) :
    ∃ d', Work.mapped n d = .ok (d.bufferContents n) d' := by
  have h₁ : (d.record (.map n)).queued.any (·.isDue .lostMap) = false := h.returns
  have h₂ : ((d.record (.map n)).takeQueued .lostMap).2.queued.any (·.isDue .map) = false :=
    (isDue_takeQueued (by decide) h₁).trans h.succeeds
  let d₂ := (((d.record (.map n)).takeQueued .lostMap).2.takeQueued .map).2
  refine ⟨d₂.record (.unmap n), ?_⟩
  unfold Work.mapped
  simp only [takeQueued] at h₂ ⊢
  simp only [h₁, h₂]
  rfl

/-- A buffer is read as what it holds, cut off or filled up with zeros at its size. -/
theorem readBuffer_of_maps (h : Maps d) {b : Buffer} (hb : b.number < d.buffers.length) :
    ∃ d', readBuffer b d =
      .ok (filled b.size ((d.bufferContents b.number).take b.size)) d' := by
  have h₁ : Maps (d.createBuffer b.size "webcs_staging").2 :=
    (h.enter .createBuffer (by decide) (by decide)).of_queued rfl
  have h₂ : Maps ((d.createBuffer b.size "webcs_staging").2
      |>.submitBufferCopy b.number d.buffers.length b.size) :=
    (h₁.enter .submit (by decide) (by decide)).of_queued rfl
  obtain ⟨d', hr⟩ := mapped_of_maps h₂ d.buffers.length
  refine ⟨d', ?_⟩
  rw [readBuffer_eq, hr]
  congr 1
  have hsame : (d.createBuffer b.size "webcs_staging").2.bufferContents b.number =
      d.bufferContents b.number := by
    simp [bufferContents, createBuffer, enter, record, List.getElem?_append_left hb]
  unfold submitBufferCopy
  rw [hsame]
  simp [bufferContents, createBuffer, enter, record, updateBuffer, BufferMemory.write,
    BufferMemory.contents, overwrite]

end Device

end Reading

end ComputeKernel
