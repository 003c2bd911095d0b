import ComputeKernel.Proofs.Coherence

/-!
# Lifetimes of kernels

A kernel is created from a program, and from then on it is run and its uniforms and group counts are
set, on a device in any state and with any errors waiting (`Lived`). It stays coherent
(`Lived.coherent`), so its bind groups have a resource for each entry of their layouts. For a
complete shader the entries are read off the shader itself; they agree with the slots of its layout,
and a resource at some position of a bind group is bound where the shader declares the slot at that
position (`literal_entries_agree`).
-/

namespace ComputeKernel

open Device Relation Shader

/-- The layout that a pipeline declares for the bind groups of a label. -/
def Pipeline.layoutOf? (p : Pipeline) (label : String) : Option (List Entry) :=
  if label = "webcs_params" then some p.params
  else if label = "webcs_uniforms" then some p.uniforms
  else none

namespace Kernel

section Lives

/-- The kernels that come about from a program. `admits` says on what devices and with what
arguments they are used. -/
inductive Lived (program : Program) (admits : Device → List (Argument Resource) → Prop) :
    Kernel → Prop
  | create {groups : Option Extent} {target : RenderTarget} {k : Kernel} {d d' : Device}
    (h : create program groups target d = .ok k d') : Lived program admits k
  | run {k : Kernel} (h : Lived program admits k) {d : Device} {args : List (Argument Resource)}
    (ha : admits d args) (others : List ResourceId) (log : List LogLine) :
    Lived program admits (endState (run others args ⟨k, d, log⟩)).kernel
  | setUniform {k : Kernel} (h : Lived program admits k) {d : Device} (ha : admits d [])
    (name : String) (values : List Binary64) (log : List LogLine) :
    Lived program admits (endState (setUniform name values ⟨k, d, log⟩)).kernel
  | setGroups {k : Kernel} (h : Lived program admits k) (groups : Extent) :
    Lived program admits { k with groups := some groups }

variable {program : Program} {admits : Device → List (Argument Resource) → Prop} {k : Kernel}

theorem create_eq_ok {groups : Option Extent} {target : RenderTarget} {d d' : Device}
    (h : create program groups target d = .ok k d') : k = fresh program groups target := by
  obtain ⟨d₁, -, ⟨f, h'⟩ | h'⟩ := create_cases program groups target d <;> cases h.symm.trans h'
  rfl

theorem run_program {r : Running} (others : List ResourceId) (args : List (Argument Resource))
    (hc : Coherent r.kernel) :
    (endState (run others args r)).kernel.program = r.kernel.program := by
  rcases run_cases others args hc with
    ⟨f, r', -, hr, hp, -⟩ | ⟨p, groups, r₁, es, -, hp, -, -, hl, -⟩
  · rw [hr]
    exact hp.program
  · obtain ⟨_, _, _, hk⟩ := hl.launches.kernel
    rw [hk]
    exact hp.program

/-- A kernel stays coherent over its whole life. -/
theorem Lived.coherent (h : Lived program admits k)
    (hp : ∀ p, groupLayouts program = .ok p → p.uniforms.length = program.layout.uniforms.length) :
    Coherent k ∧ k.program = program := by
  induction h with
  | create h =>
    rw [create_eq_ok h]
    exact ⟨(kept_fresh hp).toCoherent, rfl⟩
  | @run k _ d args _ others log ih =>
    obtain ⟨es, -, -, hc⟩ := run_accounts (r := ⟨k, d, log⟩) others args ih.1
    exact ⟨hc, (run_program (r := ⟨k, d, log⟩) others args ih.1).trans ih.2⟩
  | @setUniform k _ d _ name values log ih =>
    have hr := prepares_of_steps (setUniform_steps (r := ⟨k, d, log⟩) name values ih.1.uniforms)
    exact ⟨hr.coherent ih.1, hr.program.trans ih.2⟩
  | setGroups _ groups ih => exact ⟨{ ih.1 with }, ih.2⟩

end Lives

section Bindings

variable {k : Kernel} {p : Pipeline}

theorem Ready.length_resources (h : Ready k p) :
    k.resources.length = k.program.layout.params.length := by
  have hl := congrArg List.length h.map_resources
  rw [List.length_map, slotIdentity, List.length_map, h.slots] at hl
  exact hl

theorem Ready.length_uniformIds (h : Ready k p) :
    k.uniformIds.length = k.program.layout.uniforms.length := by
  have hl := congrArg List.length h.map_uniformIds
  rw [List.length_map, uniformIdentity, List.length_map, h.uniforms] at hl
  exact hl

/-- The bind groups of a launch have a resource for each slot or uniform of the layout. -/
theorem LaunchEvent.length_group {label : String} {group : BindGroup} (hr : Ready k p)
    (h : LaunchEvent p k (.createBindGroup label group)) :
    (p.layoutOf? label = some p.params ∧ group.length = k.program.layout.params.length) ∨
      p.layoutOf? label = some p.uniforms ∧ group.length = k.program.layout.uniforms.length := by
  cases h with
  | params => exact .inl ⟨rfl, hr.length_resources⟩
  | uniforms => exact .inr ⟨rfl, hr.length_uniformIds⟩

/-- The bind groups that a run asks for. -/
theorem run_groups {r : Running} (others : List ResourceId) (args : List (Argument Resource))
    (hc : Coherent r.kernel) :
    ∃ es, (endState (run others args r)).device.events = r.device.events ++ es ∧
      ∀ label group, .createBindGroup label group ∈ es →
        ∃ p k, groupLayouts r.kernel.program = .ok p ∧ k.program = r.kernel.program ∧ Ready k p ∧
          LaunchEvent p k (.createBindGroup label group) := by
  rcases run_cases others args hc with
    ⟨f, r', -, hr, hp, -⟩ | ⟨p, groups, r₁, es, -, hp, hready, hc₁, hl, -⟩
  · obtain ⟨es, he, hn⟩ := hp.events
    rw [hr]
    exact ⟨es, he, fun label group hm => absurd (hn _ hm) (by simp [Event.usesGroups])⟩
  · obtain ⟨es₀, he, hn⟩ := hp.events
    refine ⟨es₀ ++ es, by rw [hl.launches.events, he, List.append_assoc], fun label group hm => ?_⟩
    rcases List.mem_append.1 hm with hm | hm
    · exact absurd (hn _ hm) (by simp [Event.usesGroups])
    · refine ⟨p, r₁.kernel, ?_, hp.program, hready, hl.launches.launch _ hm⟩
      rw [← hp.program]
      exact hc₁.pipeline p hready.pipeline

/-- In the bind groups that are asked for, the resource at a position has the entry of the program
whose binding is that position. -/
def Placed (program : Program) (es : List Event) : Prop :=
  ∀ label group, .createBindGroup label group ∈ es → ∃ p entries, groupLayouts program = .ok p ∧
    p.layoutOf? label = some entries ∧ entries.map (·.binding) = List.range group.length

/-- The slots of a complete shader and the layouts of its bind groups agree. Every shader that has a
layout has entries for both groups, and they agree with its slots. So the pipeline of a program that
was made from a complete shader is never turned down for its layouts, and in the bind groups of all
runs the resource at a position has the entry whose binding is the position. -/
theorem literal_entries_agree :
    (∀ {m : ShaderModule} {l : Layout} {log log' : List LogLine}, m.layout log = .ok l log' →
      ∃ ps us, m.entries ComputeKernel.paramGroup = .ok ps ∧
        m.entries ComputeKernel.uniformGroup = .ok us ∧ Agree m l ps us) ∧
    ∀ {frontEnd : FrontEnd} {text : String} {d : Dialect} {log log' : List LogLine}
      {program : Program}, Program.ofLiteral frontEnd text d log = .ok program log' →
      (∀ device f device', buildPipeline program device ≠ .error (.configuration f) device') ∧
      ∀ {admits : Device → List (Argument Resource) → Prop} {k : Kernel}, Lived program admits k →
        ∀ others args device log, ∃ es, Placed program es ∧
          (endState (run others args ⟨k, device, log⟩)).device.events = device.events ++ es := by
  refine ⟨fun h => entries_agree h, fun {_ _ _ _ _ program} h => ?_⟩
  obtain ⟨p, hp, ha⟩ := groupLayouts_agree h
  refine ⟨fun device f device' hb => ?_, fun hk others args device log => ?_⟩
  · rcases buildPipeline_cases program device with ⟨g, hg, -⟩ | ⟨l, -, hb' | ⟨e, hb'⟩⟩
    · cases hp.symm.trans hg
    · cases hb.symm.trans hb'
    · cases hb.symm.trans hb'
  · have hl : ∀ q, groupLayouts program = .ok q →
        q.uniforms.length = program.layout.uniforms.length := by
      intro q hq
      cases hp.symm.trans hq
      exact ha.uniforms_length
    obtain ⟨hc, rfl⟩ := hk.coherent hl
    obtain ⟨es, he, hes⟩ := run_groups (r := ⟨_, device, log⟩) others args hc
    refine ⟨es, fun label group hm => ?_, he⟩
    obtain ⟨q, k', hq, hk', hready, hevent⟩ := hes label group hm
    cases hp.symm.trans hq
    rcases hevent.length_group hready with ⟨hlabel, hlength⟩ | ⟨hlabel, hlength⟩
    · exact ⟨p, p.params, hp, hlabel, by rw [hlength, hk', ha.bindings.1]⟩
    · exact ⟨p, p.uniforms, hp, hlabel, by rw [hlength, hk', ha.bindings.2]⟩

/-- A shader that declares its variables in another order than that of their bindings, with one in
a group that has no slots. -/
def shuffled : ShaderModule where
  vars := [
    ⟨some "block", .uniform, some ⟨1, 0⟩, .struct [(some "scale", .vector 4 .f32)]⟩,
    ⟨some "picture", .handle, some ⟨0, 2⟩, .image .d2 false (.sampled .u32 false)⟩,
    ⟨some "stray", .invocation, some ⟨3, 7⟩, .sampler⟩,
    ⟨some "sums", .handle, some ⟨0, 1⟩, .image .d2 false (.storage (some .r32float) ⟨false, true⟩)⟩,
    ⟨some "cells", .storage ⟨true, false⟩, some ⟨0, 0⟩,
      .struct [(some "count", .scalar .u32), (some "data", .array (.scalar .f32) none)]⟩]
  entryPoints := [⟨"main", .compute, ⟨8, 8, 1⟩⟩]

theorem literal_entries_agree_shuffled :
    ∃ program log, Program.ofLiteral (fun _ _ => .ok shuffled) "" .wgsl [] = .ok program log ∧
      program.layout.params.map (·.name) = ["cells", "sums", "picture"] ∧
      (∃ ps us, shuffled.entries 0 = .ok ps ∧ shuffled.entries 1 = .ok us ∧
        ps = [⟨0, .storage true⟩, ⟨1, .storageTexture .r32float .write⟩, ⟨2, .texture .u32 false⟩] ∧
        Agree shuffled program.layout ps us) ∧
      ∀ device f device', buildPipeline program device ≠ .error (.configuration f) device' := by
  let l : Layout := ⟨[⟨"cells", 0, .buffer (.buffer .f32)⟩,
    ⟨"sums", 1, .texture (.image .f32) .r32float .write⟩,
    ⟨"picture", 2, .texture (.image .u32) .rgba32uint .read⟩], [⟨"scale", .f32, 0⟩], ⟨8, 8, 1⟩⟩
  let log : List LogLine := [⟨.warn, .reflection, "ignoring binding group 3 in literal kernel"⟩]
  have hparams := bound_eq_of_perm shuffled 0 (List.reverse_perm _) (by decide)
  have huniforms := bound_eq_of_perm shuffled 1 (.refl _) (by decide)
  have hl : shuffled.layout [] = .ok l log := by
    rw [layout_eq_ok_iff, ComputeKernel.paramGroup, ComputeKernel.uniformGroup, hparams, huniforms]
    decide +kernel
  have he : shuffled.entries 0 = .ok [⟨0, .storage true⟩, ⟨1, .storageTexture .r32float .write⟩,
    ⟨2, .texture .u32 false⟩] := entries_eq_ok_iff.2 (hparams ▸ rfl)
  have hp := ofLiteral_of_layout "" .wgsl hl
  obtain ⟨ps, us, hps, hus, ha⟩ := literal_entries_agree.1 hl
  exact ⟨_, _, hp, rfl, ⟨ps, us, hps, hus, Except.ok.inj (hps.symm.trans he), ha⟩,
    (literal_entries_agree.2 hp).1⟩

end Bindings

end Kernel

end ComputeKernel
