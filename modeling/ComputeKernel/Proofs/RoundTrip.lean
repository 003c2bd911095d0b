import ComputeKernel.Proofs.HostBytes
import ComputeKernel.Proofs.Uploads

/-!
# From the host to a buffer and back

Host data that is an argument of a run ends up at the start of the buffer in its slot
(`Reached.received`). A buffer is read back as what it holds, as far as whole numbers go
(`read_of_maps`), and reading into data that is there already gives the same (`readInto_eq`). So the
data is found again at the start of what is read (`upload_readback`).
-/

namespace ComputeKernel

open Device Relation RunM Shader

namespace Kernel

section Hosts

variable {args : List (Argument Resource)} {others : List ResourceId} {r r' : Running}

theorem run_host (hc : Coherent r.kernel) (h : run others args r = .ok () r') {j : Nat}
    {data : HostData} (hj : args[j]? = some (.host data)) :
    ∃ b own, r'.kernel.bound? j = some ⟨.buffer b, own⟩ := by
  have hcheck : Ends (fun _ => ∃ run groups, r.kernel.checkRun args = .ok (run, groups))
      (fun _ _ => True) (run others args r) := by
    refine run_ends hc (fun _ _ => trivial) (fun _ _ _ => trivial)
      (fun run groups r₁ hcheck _ _ => ?_) (fun _ hI => hI) (fun _ hI => hI) fun _ _ => trivial
    cases bindAll others groups 0 r₁.kernel.program.layout.params run.params r₁ with
    | ok _ _ => exact ⟨run, groups, hcheck⟩
    | error _ _ => trivial
  have hleaves : Ends _ _ (run others args r) := run_leaves hc
  rw [h] at hcheck hleaves
  obtain ⟨run, groups, hcheck⟩ := hcheck
  have hlt : j < r.kernel.program.layout.params.length := by
    refine Nat.lt_of_not_le fun hle => ?_
    have hm : .host data ∈ args.drop r.kernel.program.layout.params.length := by
      refine List.mem_of_getElem? (i := j - r.kernel.program.layout.params.length) ?_
      rw [List.getElem?_drop, Nat.add_sub_cancel' hle, hj]
    cases (isParamValue_of_split (checkRun_eq_ok hcheck).1).2 _ hm
  obtain ⟨arg, b, harg, hb, hfits⟩ := (hleaves j).2 _ (List.getElem?_eq_getElem hlt)
  cases hj.symm.trans harg
  obtain ⟨x, own⟩ := b
  cases x with
  | buffer b => exact ⟨b, own, hb⟩
  | texture _ => simp [keepsSlot, Resource.buffer?] at hfits

end Hosts

section Reading

variable {k : Kernel} {d : Device} {name : String} {hint : Option String} {j : Nat}
  {slot : ParamSlot} {scalar : HostScalar} {b : Buffer} {own : Ownership}

theorem read_of_maps (hp : k.param? name = .ok (j, slot)) (hs : readScalar slot hint = .ok scalar)
    (hb : k.bound? j = some ⟨.buffer b, own⟩) (hm : d.Maps) (hh : d.Houses b) :
    ∃ d', k.read name hint d =
      .ok (HostData.ofBytes scalar (d.bufferContents b.number)) d' := by
  obtain ⟨d', hr⟩ := readBuffer_of_maps hm hh.lt
  have hall : filled b.size ((d.bufferContents b.number).take b.size) =
      d.bufferContents b.number := by
    rw [← hh.length, List.take_length, filled, Nat.sub_self, List.replicate_zero, List.append_nil]
  rw [hall] at hr
  have ho : k.occupied name j = .ok (.buffer b) := by rw [occupied, hb]
  refine ⟨d', ?_⟩
  unfold read
  simp only [hp, hs, ho, usedOnDevice, pure_bind]
  rw [bind_of_ok (show readResource (.buffer b) d = _ from hr)]
  rfl

/-- What the data held before that is read into does not matter. -/
theorem readInto_eq {old : HostData} (hp : k.param? name = .ok (j, slot))
    (hs : readScalar slot hint = .ok old.scalar) : k.readInto name old = k.read name hint := by
  unfold readInto read
  simp only [hp, usedOnDevice, pure_bind, hs, HostData.refill_eq]

end Reading

end Kernel

section Sessions

variable {frontEnd : FrontEnd} {s : Session} {h : History} {i : Nat} {k : Kernel}
  {args : List (Argument Handle)} {resources : List (Argument Resource)}

/-- Which handles stand for the resources of a run does not matter for its host arguments. -/
theorem uploadsTo_resolved {f : Handle → Option Resource} {n index : Nat}
    (h : args.map (Argument.resolve? f) = resources.map some) :
    uploadsTo k n index resources = uploadsTo k n index args := by
  induction args generalizing resources index with
  | nil =>
    cases List.map_eq_nil_iff.1 h.symm
    rfl
  | cons arg args ih =>
    obtain ⟨x, rest, rfl, hx, hrest⟩ := List.map_eq_cons_iff.1 h.symm
    have ih : uploadsTo k n (index + 1) rest = uploadsTo k n (index + 1) args := ih hrest.symm
    cases arg with
    | host data =>
      cases hx
      simp only [uploadsTo, ih]
    | resource a =>
      obtain ⟨y, -, rfl⟩ := Option.map_eq_some_iff.1 hx.symm
      exact ih
    | _ =>
      cases hx
      exact ih

theorem host_resolved {f : Handle → Option Resource} {j : Nat} {data : HostData}
    (h : args.map (Argument.resolve? f) = resources.map some) (hj : args[j]? = some (.host data)) :
    resources[j]? = some (.host data) := by
  have hm := congrArg (·[j]?) h
  simp only [List.getElem?_map, hj, Option.map_some, Argument.resolve?] at hm
  obtain ⟨y, hy, he⟩ := Option.map_eq_some_iff.1 hm.symm
  cases he
  exact hy

theorem Reached.received (hs : Reached frontEnd s h) {given : List Handle} {s' : Session}
    {slots : List (Option Bound)} {builds : Nat}
    (hr : (s.perform frontEnd (.run i args given)).1.reply = .ran slots builds none)
    (he : (s.perform frontEnd (.run i args given)).2 = s') :
    ∃ k, s'.kernels[i]? = some k ∧ k.Received args s.device s'.device ∧
      ∀ j data, args[j]? = some (.host data) →
        ∃ b own, k.bound? j = some ⟨.buffer b, own⟩ := by
  have hst := hs.stocked.quiet
  have ha : Accounted h s.quiet := hs.accounted.same rfl fun _ => rfl
  rcases s.quiet.run_step i args given with
    ⟨-, hn⟩ | ⟨resources, k, hargs, hk, hsession, slots, builds, hreply⟩
  · cases hr.symm.trans (congrArg Session.Step.reply hn)
  have hrun := hr.symm.trans hreply
  have hfinish := he.symm.trans hsession
  rcases hx : Kernel.run ((s.quiet.releaseAll given).heldOutside i) resources
      (s.quiet.starting k) with ⟨_, r⟩ | ⟨f, r⟩ <;> rw [hx] at hrun hfinish
  case error => cases hrun
  replace hk := Session.getElem?_of_kernel? hk
  have hc := (ha.kept i k hk).toCoherent
  have hmap := map_of_mapM_eq_some hargs
  have hi : i < s.kernels.length := (List.getElem?_eq_some_iff.1 hk).1
  refine ⟨r.kernel, ?_, ?_, fun j data hj => Kernel.run_host hc hx (host_resolved hmap hj)⟩
  · rw [hfinish]
    show ((s.quiet.releaseAll given).kernels.set i r.kernel)[i]? = _
    rw [Session.releaseAll_kernels]
    exact List.getElem?_set_self hi
  · rw [Session.heldOutside_releaseAll] at hx
    have hrec := Kernel.run_received hc hst.bounded (hst.kernels k (List.mem_of_getElem? hk))
      (fun x hx => (Session.exists_handle hargs hx).elim fun _ => hst.resource)
      (hs.sound.starting hk hargs given) hx
    rw [hfinish]
    intro j b own hj
    rw [← uploadsTo_resolved hmap]
    exact hrec j b own hj

variable {name : String} {hint : Option String} {j : Nat} {slot : ParamSlot} {scalar : HostScalar}

theorem Reached.read (hs : Reached frontEnd s h) (hk : s.kernels[i]? = some k)
    (hp : k.param? name = .ok (j, slot)) (hscalar : Kernel.readScalar slot hint = .ok scalar)
    {b : Buffer} {own : Ownership} (hb : k.bound? j = some ⟨.buffer b, own⟩)
    (hm : s.device.Maps) :
    (s.device.bufferContents b.number).length = b.size ∧
      (s.perform frontEnd (.read i name hint)).1.reply =
        .data (.ofBytes scalar (s.device.bufferContents b.number)) := by
  have hh := ((hs.stocked.quiet.kernels k (List.mem_of_getElem? hk)).slots j _ hb).1
  have hm : s.quiet.device.Maps := hm.of_queued rfl
  obtain ⟨d', hr⟩ := Kernel.read_of_maps hp hscalar hb hm hh
  refine ⟨hh.length, ?_⟩
  show (s.quiet.withKernel i fun k => s.quiet.worked (k.read name hint) .data).reply = _
  rw [Session.withKernel, show s.quiet.kernel? i = some k from hs.kernel?_of_bound hk hb]
  simp only [Session.worked, Session.work, hr]
  rfl

theorem perform_readInto (hk : s.kernels[i]? = some k) (hp : k.param? name = .ok (j, slot))
    {old : HostData} (hscalar : Kernel.readScalar slot hint = .ok old.scalar) :
    s.perform frontEnd (.readInto i name old) = s.perform frontEnd (.read i name hint) := by
  have hstep : s.quiet.step frontEnd (.readInto i name old) =
      s.quiet.step frontEnd (.read i name hint) := by
    show s.quiet.withKernel i (fun k => s.quiet.worked (k.readInto name old) .data) =
      s.quiet.withKernel i fun k => s.quiet.worked (k.read name hint) .data
    rcases hk' : s.quiet.kernel? i with _ | k'
    · simp only [Session.withKernel, hk']
    · cases hk.symm.trans (Session.getElem?_of_kernel? hk')
      simp only [Session.withKernel, hk', Kernel.readInto_eq hp hscalar]
  unfold Session.perform
  exact congrArg (fun step : Session.Step =>
    ((⟨step.reply, step.session.device.events, warnings step.log⟩ : Session.Outcome),
      step.session)) hstep

/-- What is in the slot of host data that no later argument overwrites. -/
theorem Kernel.Received.host {d d' : Device} (hr : k.Received args d d') {data : HostData}
    (hj : args[j]? = some (.host data)) {b : Buffer} {own : Ownership}
    (hb : k.bound? j = some ⟨.buffer b, own⟩)
    (hlast : ∀ j' data', j < j' → args[j']? = some (.host data') → ¬ k.HoldsBuffer j' b.number) :
    d'.bufferContents b.number = received
      ((uploadsTo k b.number 0 (args.take j)).foldl received (d.heldBefore b)) data.toBytes := by
  have hlt := (List.getElem?_eq_some_iff.1 hj).1
  have hargs : args = args.take j ++ .host data :: args.drop (j + 1) := by
    rw [← (List.getElem?_eq_some_iff.1 hj).2, ← List.drop_eq_getElem_cons hlt,
      List.take_append_drop]
  have hrest : uploadsTo k b.number (j + 1) (args.drop (j + 1)) = [] := by
    refine uploadsTo_eq_nil fun j' data' hj' => hlast _ data' (by omega) ?_
    rwa [List.getElem?_drop] at hj'
  have hhere : k.HoldsBuffer j b.number := by
    rw [HoldsBuffer, hb]
    rfl
  have hall : uploadsTo k b.number 0 args =
      uploadsTo k b.number 0 (args.take j) ++ [data.toBytes] := by
    conv => lhs; rw [hargs]
    rw [uploadsTo_append, List.length_take, Nat.zero_add, Nat.min_eq_left (Nat.le_of_lt hlt)]
    simp only [uploadsTo, hhere, if_true, hrest]
  rw [hr j b own hb, hall, List.foldl_append, List.foldl_cons, List.foldl_nil]

/-- Bytes as numbers of a scalar, as many as are whole. -/
structure HostData.Views (got : HostData) (kind : HostScalar) (bytes : List UInt8) : Prop where
  scalar : got.scalar = kind
  length : got.length = bytes.length / kind.byteSize
  toBytes : got.toBytes = bytes.take (bytes.length - bytes.length % kind.byteSize)

/-- Host data is what its bytes are read as. A parameter that holds a buffer is read as all the
whole numbers that are in the buffer, also into data that held something before. After a run that
succeeds, the slot of a host argument holds a buffer with the bytes of the argument at its start,
zeros up to the next multiple of four, and then what was in the buffer when the argument was bound,
unless a later argument went to the same buffer. So the argument is found at the start of what is
read from there. -/
theorem upload_readback (hs : Reached frontEnd s h) :
    (∀ x : HostData, HostData.ofBytes x.scalar x.toBytes = x) ∧
      (∀ i k name j slot hint scalar, s.kernels[i]? = some k → k.param? name = .ok (j, slot) →
        Kernel.readScalar slot hint = .ok scalar →
        (∀ old : HostData, old.scalar = scalar →
          s.perform frontEnd (.readInto i name old) = s.perform frontEnd (.read i name hint)) ∧
        ∀ b own, k.bound? j = some ⟨.buffer b, own⟩ → s.device.Maps →
          (s.device.bufferContents b.number).length = b.size ∧
          ∃ got, (s.perform frontEnd (.read i name hint)).1.reply = .data got ∧
            got.Views scalar (s.device.bufferContents b.number)) ∧
      ∀ i args given slots builds s',
        (s.perform frontEnd (.run i args given)).1.reply = .ran slots builds none →
        (s.perform frontEnd (.run i args given)).2 = s' →
        ∃ k, s'.kernels[i]? = some k ∧ ∀ j data, args[j]? = some (.host data) →
          ∃ b own, k.bound? j = some ⟨.buffer b, own⟩ ∧
            ((∀ j' data', j < j' → args[j']? = some (.host data') →
                ¬ k.HoldsBuffer j' b.number) →
              s'.device.bufferContents b.number = received
                ((uploadsTo k b.number 0 (args.take j)).foldl received (s.device.heldBefore b))
                data.toBytes ∧
              ∀ name slot hint, k.param? name = .ok (j, slot) →
                Kernel.readScalar slot hint = .ok data.scalar → s'.device.Maps →
                ∃ got, (s'.perform frontEnd (.read i name hint)).1.reply = .data got ∧
                  got.take data.length = data) := by
  refine ⟨HostData.ofBytes_toBytes, ?_, ?_⟩
  · intro i k name j slot hint scalar hk hp hscalar
    refine ⟨fun old ho => perform_readInto hk hp (ho ▸ hscalar), fun b own hb hm => ?_⟩
    obtain ⟨hl, hr⟩ := hs.read hk hp hscalar hb hm
    exact ⟨hl, _, hr, HostData.scalar_ofBytes _ _, HostData.length_ofBytes _ _,
      HostData.toBytes_ofBytes _ _⟩
  · intro i args given slots builds s' hreply hs'
    obtain ⟨k, hk, hrec, hhost⟩ := hs.received hreply hs'
    refine ⟨k, hk, fun j data hj => ?_⟩
    obtain ⟨b, own, hb⟩ := hhost j data hj
    refine ⟨b, own, hb, fun hlast => ?_⟩
    have hcontents := hrec.host hj hb hlast
    refine ⟨hcontents, fun name slot hint hp hscalar hm => ?_⟩
    have hread := ((hs' ▸ hs.perform (.run i args given)).read hk hp hscalar hb hm).2
    rw [hcontents, received, List.append_assoc] at hread
    exact ⟨_, hread, HostData.take_ofBytes_append data _⟩

/-- A session in which a kernel was run with three numbers. -/
def threeCells : Session × History :=
  Session.sample.replay Session.sampleFrontEnd [
    .createKernel (.literal "") none,
    .run 0 [.host (.u32 [1, 2, 3]), .group 1, .group 1, .group 1]]

theorem upload_readback_bytes :
    let data := HostData.u8 [9, 8, 7, 6, 5]
    let run := Command.run 0 [.host data, .group 1, .group 1, .group 1]
    let (o, s) := threeCells.1.perform Session.sampleFrontEnd run
    Reached Session.sampleFrontEnd threeCells.1 threeCells.2 ∧
      o.reply = .ran [some ⟨.buffer ⟨0, 12⟩, .owned⟩] 2 none ∧
      s.device.bufferContents 0 = [9, 8, 7, 6, 5, 0, 0, 0, 3, 0, 0, 0] ∧
      s.device.Maps ∧
      ∃ got, (s.perform Session.sampleFrontEnd (.read 0 "cells" (some "u8"))).1.reply =
        .data got ∧ got.take 5 = data := by
  intro data run
  let s := (threeCells.1.perform Session.sampleFrontEnd run).2
  have hs : Reached Session.sampleFrontEnd threeCells.1 threeCells.2 := Session.reached_sample _
  have hr : (threeCells.1.perform Session.sampleFrontEnd run).1.reply =
      .ran [some ⟨.buffer ⟨0, 12⟩, .owned⟩] 2 none := by decide +kernel
  have hm : s.device.Maps := ⟨by decide +kernel, by decide +kernel⟩
  obtain ⟨-, -, hrun⟩ := upload_readback hs
  obtain ⟨k, hk, hhost⟩ := hrun _ _ _ _ _ s hr rfl
  obtain ⟨b, own, hb, h⟩ := hhost 0 data rfl
  have hslot : s.kernels[0]?.bind (·.bound? 0) = some ⟨.buffer ⟨0, 12⟩, .owned⟩ := by
    decide +kernel
  have hparam : s.kernels[0]?.map (·.param? "cells") =
      some (.ok (0, ⟨"cells", 0, .buffer (.buffer .u32)⟩)) := by decide +kernel
  rw [hk] at hslot hparam
  cases hb.symm.trans hslot
  obtain ⟨hcontents, hread⟩ := h fun j' data' hj' ha => by
    rcases j' with _ | _ | _ | _ | j' <;> simp at hj' ha
  have hnow : received (threeCells.1.device.heldBefore ⟨0, 12⟩) data.toBytes =
      [9, 8, 7, 6, 5, 0, 0, 0, 3, 0, 0, 0] := by decide +kernel
  refine ⟨hs, hr, hcontents.trans ?_, hm,
    hread "cells" _ (some "u8") (Option.some.inj hparam) rfl hm⟩
  rw [List.take_zero, uploadsTo, List.foldl_nil, hnow]

end Sessions

end ComputeKernel
