import ComputeKernel.Proofs.Destruction
import ComputeKernel.Proofs.Refusal

/-!
# Refused runs

A run is refused if it is not used as it should be or if its pipeline does not link. It dispatches
nothing then, and it leaves its uniforms, its group counts and its bind groups alone. Whether it
leaves its slots and the memory of the device alone is known from how it starts: a run whose
pipeline does not link does, and so does one whose arguments are found wrong before the first of
them is bound, but one of whose arguments is refused only when it is bound does so exactly if the
arguments before it keep the slots and write what is there already
(`untouched_iff_of_refused`).
-/

namespace ComputeKernel

open Device Shader

namespace Kernel

section Refused

/-- A run that comes to nothing: it dispatches nothing and leaves the group counts, the uniforms and
the bind groups alone. -/
structure Idle (r r' : Running) : Prop where
  groups : r'.kernel.groups = r.kernel.groups
  uniformBuffers : r'.kernel.uniformBuffers = r.kernel.uniformBuffers
  paramGroup : r'.kernel.paramGroup = r.kernel.paramGroup
  uniformGroup : r'.kernel.uniformGroup = r.kernel.uniformGroup
  builds : r'.kernel.builds = r.kernel.builds
  undispatched : ∃ es, r'.device.events = r.device.events ++ es ∧
    ∀ groups params uniforms, .dispatch groups params uniforms ∉ es

/-- A run that comes to nothing and leaves the slots and the contents of all resources alone. -/
structure Untouched (r r' : Running) : Prop extends Idle r r' where
  slots : r'.kernel.slots = r.kernel.slots
  contents : r'.device.memory.contents = r.device.memory.contents

/-- The memory that a run leaves behind when it is not used as it should be, if no slot is given
another resource. -/
def memoryOfMisuse? (k : Kernel) (args : List (Argument Resource)) (m : Memory) : Option Memory :=
  match k.checkRun args with
  | .error _ => some m
  | .ok (run, groups) => memoryAtRefusal? k groups 0 k.program.layout.params run.params m

variable {others : List ResourceId} {args : List (Argument Resource)} {r r' : Running} {f : Failure}

theorem Prepares.idle (h : Prepares r r') (hg : r'.kernel.groups = r.kernel.groups)
    (hu : r'.kernel.uniformBuffers = r.kernel.uniformBuffers) : Idle r r' where
  groups := hg
  uniformBuffers := hu
  paramGroup := h.paramGroup
  uniformGroup := h.uniformGroup
  builds := h.builds
  undispatched := by
    obtain ⟨es, he, hn⟩ := h.events
    exact ⟨es, he, fun groups params uniforms hm => absurd (hn _ hm) (by simp [Event.usesGroups])⟩

/-- How a run ends that is refused. -/
inductive Refused (args : List (Argument Resource)) (r : Running) : Failure → Running → Prop
  /-- The pipeline does not link. -/
  | unlinked {diagnostics : String} {r' : Running} (hk : r'.kernel = r.kernel)
    (hm : r'.device.memory = r.device.memory) : Refused args r (.shaderLink diagnostics) r'
  /-- The slots hold what they held. -/
  | kept {f : Failure} {r' : Running} (hf : f.kind = .usage)
    (hm : memoryOfMisuse? r.kernel args r.device.memory = some r'.device.memory)
    (hs : r'.kernel.slots = r.kernel.slots) : Refused args r f r'
  /-- A slot holds something else. -/
  | moved {f : Failure} {r' : Running} (hf : f.kind = .usage)
    (hm : memoryOfMisuse? r.kernel args r.device.memory = none)
    (hs : r'.kernel.slots ≠ r.kernel.slots) : Refused args r f r'

theorem Misuse.kind_eq (h : Misuse f) (hf : f.kind = .usage ∨ f.kind = .shaderLink) :
    f.kind = .usage := by
  cases h with
  | usage g => rfl
  | overflow c =>
    -- A program that was stopped was not refused.
    simp [Failure.kind] at hf

/-- A run that gets to its arguments and fails there for another reason than the device. -/
theorem bindRun_refused {run : RunArgs} {groups : Extent} {p : Pipeline} {r₁ : Running}
    (hs : Shaped r.kernel)
    (ha : ∀ j y, r.kernel.bound? j = some y → r.device.Allocated y.resource.id)
    (hc : r.kernel.checkRun args = .ok (run, groups)) (hp : ensurePipeline r = .ok p r₁)
    (h : bindRun others groups run r₁ = .error f r')
    (hf : f.kind = .usage ∨ f.kind = .shaderLink) :
    (∃ q slots, r'.kernel = { r.kernel with pipeline := q, slots := slots }) ∧
      Refused args r f r' := by
  obtain ⟨⟨q, hk⟩, -, hbuffers, htextures⟩ := ensurePipeline_frame (congrArg endState hp)
  rw [endState_ok] at hk
  have hm : r₁.device.memory = r.device.memory := congrArg₂ Memory.mk hbuffers htextures
  have hprep := prepares_pipeline r
  rw [hp, endState_ok] at hprep
  have hs₁ := hprep.shaped hs
  have hl : 0 + r₁.kernel.program.layout.params.length ≤ r₁.kernel.slots.length := by
    have hl := hs₁.slots
    omega
  have ha₁ : ∀ j y, 0 ≤ j → r₁.kernel.bound? j = some y → r₁.device.Allocated y.resource.id := by
    intro j y _ hy
    rw [hk] at hy
    exact (allocated_congr hm).2 (ha j y hy)
  have hu : run.uniforms.bind r₁.kernel.uniformsFault? = none := by
    rw [hk]
    exact (checkRun_eq_ok hc).2.2
  rcases bindRun_error hs₁ hu h with hd | hb
  · exact absurd hf hd.kind_ne
  have hmemory : memoryAtRefusal? r₁.kernel groups 0 r₁.kernel.program.layout.params run.params
      r₁.device.memory = memoryOfMisuse? r.kernel args r.device.memory := by
    rw [hk, hm, memoryAtRefusal?_pipeline, memoryOfMisuse?, hc]
  obtain ⟨slots, hslots⟩ : ∃ slots, (endState (bindAll others groups 0 _ run.params r₁)).kernel =
    { r₁.kernel with slots := slots } := bindAll_kernel hl
  rw [hb, endState_error, hk] at hslots
  refine ⟨⟨q, slots, hslots⟩, ?_⟩
  rcases bindAll_refused _ _ 0 hl ha₁ hb with hd | ⟨hmisuse, hend⟩
  · exact absurd hf hd.kind_ne
  replace hf := hmisuse.kind_eq hf
  rw [hmemory, hk] at hend
  rcases hend with ⟨hm, hk'⟩ | ⟨hm, hne⟩
  · exact .kept hf hm (by rw [hk'])
  · exact .moved hf hm hne

theorem run_refused (hc : Coherent r.kernel)
    (ha : ∀ j y, r.kernel.bound? j = some y → r.device.Allocated y.resource.id)
    (h : run others args r = .error f r') (hf : f.kind = .usage ∨ f.kind = .shaderLink) :
    Idle r r' ∧ Refused args r f r' := by
  rcases run_cases others args hc with
    ⟨g, r₁, hp, hr, hprep, -⟩ | ⟨p, groups, r₁, es, -, -, -, -, hl, -⟩
  · rw [hr] at h
    cases h
    rcases prepare_cases others args r with
      ⟨g, hcheck, hr⟩ | ⟨run, groups, hcheck, ⟨g, r₁, he, hr⟩ |
        ⟨p, r₁, he, ⟨g, r₂, hb, hr⟩ | ⟨r₂, -, hr⟩⟩⟩ <;> rw [hr] at hp <;> cases hp
    · exact ⟨hprep.idle rfl rfl,
        .kept ((misuse_of_checkRun hcheck).kind_eq hf) (by rw [memoryOfMisuse?, hcheck]) rfl⟩
    · rcases ensurePipeline_cases r with ⟨p, -, he'⟩ | ⟨-, ⟨g, he'⟩ | ⟨l, -, ⟨m, he'⟩ | he'⟩⟩ <;>
        rw [he'] at he <;> cases he
      · simp [Failure.kind] at hf
      · exact ⟨hprep.idle rfl rfl, .unlinked rfl (memory_createPipeline _ _)⟩
    · obtain ⟨⟨q, slots, hk⟩, href⟩ := bindRun_refused hc.toShaped ha hcheck he hb hf
      exact ⟨hprep.idle (by rw [hk]) (by rw [hk]), href⟩
  · -- A launch fails at the device only.
    exact absurd hf (hl.fails f (by rw [h]; rfl)).kind_ne

theorem Refused.untouched_iff (h : Refused args r f r') (hi : Idle r r') :
    Untouched r r' ↔ f.kind = .shaderLink ∨
      (r.kernel.memoryOfMisuse? args r.device.memory).map Memory.contents =
        some r.device.memory.contents := by
  cases h with
  | unlinked hk hm => exact ⟨fun _ => .inl rfl, fun _ => ⟨hi, by rw [hk], by rw [hm]⟩⟩
  | kept hf hm hs =>
    rw [hm, Option.map_some, Option.some.injEq]
    refine ⟨fun hu => .inr hu.contents, ?_⟩
    rintro (hkind | hcontents)
    · cases hf.symm.trans hkind
    · exact ⟨hi, hs, hcontents⟩
  | moved hf hm hs =>
    rw [hm]
    refine ⟨fun hu => absurd hu.slots hs, ?_⟩
    rintro (hkind | hcontents)
    · cases hf.symm.trans hkind
    · cases hcontents

end Refused

end Kernel

section Sessions

open Kernel

variable {frontEnd : FrontEnd} {s : Session} {h : History} {i : Nat} {k : Kernel}

theorem Reached.allocated (hs : Reached frontEnd s h) (hk : s.kernels[i]? = some k) {j : Nat}
    {b : Bound} (hb : k.bound? j = some b) : s.device.Allocated b.resource.id := by
  have hm : b.resource.id ∈ k.resources :=
    List.mem_filterMap.2 ⟨some b, List.mem_of_getElem? (Option.join_eq_some_iff.1 hb), rfl⟩
  have hl := hs.sound.live b.resource.id
    (List.mem_append_left _ (List.mem_flatMap.2 ⟨k, List.mem_of_getElem? hk, hm⟩))
  exact (allocated_congr rfl).1 ((hs.sound.allocated _).2 hl.1)

/-- A refused run of a kernel of a session, on a device in any state in which it has the resources
of the session. The run comes to nothing, but it leaves the slots and the contents of the resources
alone only if its pipeline does not link or nothing was bound and nothing new was written before it
was refused. -/
theorem untouched_iff_of_refused (hs : Reached frontEnd s h) {r r' : Running}
    (hk : s.kernels[i]? = some r.kernel) (hd : ∀ id, s.device.Allocated id → r.device.Allocated id)
    {others : List ResourceId} {args : List (Argument Resource)} {f : Failure}
    (hr : Kernel.run others args r = .error f r') (hf : f.kind = .usage ∨ f.kind = .shaderLink) :
    Idle r r' ∧ (Untouched r r' ↔ f.kind = .shaderLink ∨
      (r.kernel.memoryOfMisuse? args r.device.memory).map Memory.contents =
        some r.device.memory.contents) := by
  have hc := (hs.accounted.kept i r.kernel hk).toCoherent
  obtain ⟨hidle, href⟩ := run_refused hc (fun j y hy => hd _ (hs.allocated hk hy)) hr hf
  exact ⟨hidle, href.untouched_iff hidle⟩

/-- A session with a kernel of two buffers. -/
def twoBuffers : Session × History :=
  Session.sample.replay Session.sampleFrontEnd [.createKernel (.body ["A", "B"] "") none]

/-- As many groups as can be asked for, more than any buffer has elements for. -/
def allGroups : List (Argument Resource) := List.replicate 3 (.group 4294967295)

theorem eq_error_of_failure? {x : EStateM.Result Failure Running Unit} {f : Failure}
    (h : failure? x = some f) : x = .error f (endState x) := by
  cases x with
  | ok _ _ => cases h
  | error g r => rw [Option.some.inj h]; rfl

/-- The first output of a run is too large. -/
theorem untouched_iff_of_refused_first : ∃ k r', twoBuffers.1.kernels[0]? = some k ∧
    Kernel.run [] (.null :: .null :: allGroups) (twoBuffers.1.starting k) =
      .error (.usage (.outputTooLarge ⟨4294967295, 4294967295, 4294967295⟩ "A")) r' ∧
    Untouched (twoBuffers.1.starting k) r' := by
  obtain ⟨k, hk, hv⟩ := Option.map_eq_some_iff.1 (show (twoBuffers.1.kernels[0]?).map (fun k =>
      (failure? (Kernel.run [] (.null :: .null :: allGroups) (twoBuffers.1.starting k)),
        decide ((k.memoryOfMisuse? (.null :: .null :: allGroups) twoBuffers.1.device.memory).map
          Memory.contents = some twoBuffers.1.device.memory.contents))) =
      some (some (.usage (.outputTooLarge ⟨4294967295, 4294967295, 4294967295⟩ "A")), true) by
    decide +kernel)
  obtain ⟨hf, hm⟩ := Prod.mk.inj hv
  have hr := eq_error_of_failure? hf
  have hiff := untouched_iff_of_refused (Session.reached_sample _) (r := twoBuffers.1.starting k) hk
    (fun _ hid => hid) hr (.inl rfl)
  exact ⟨k, _, hk, hr, hiff.2.2 (.inr (of_decide_eq_true hm))⟩

/-- The second output of a run is too large, but the first argument is bound by then. -/
theorem touched_of_refused_second : Reached Session.sampleFrontEnd twoBuffers.1 twoBuffers.2 ∧
    ∃ k r', twoBuffers.1.kernels[0]? = some k ∧
      Kernel.run [] (.host (.f32 [⟨0x3f800000⟩]) :: .null :: allGroups) (twoBuffers.1.starting k) =
        .error (.usage (.outputTooLarge ⟨4294967295, 4294967295, 4294967295⟩ "B")) r' ∧
      r'.kernel.slots = [some ⟨.buffer ⟨0, 4⟩, .owned⟩, none] ∧
      ¬Untouched (twoBuffers.1.starting k) r' := by
  refine ⟨Session.reached_sample _, ?_⟩
  obtain ⟨k, hk, hv⟩ := Option.map_eq_some_iff.1 (show (twoBuffers.1.kernels[0]?).map (fun k =>
      let x := Kernel.run [] (.host (.f32 [⟨0x3f800000⟩]) :: .null :: allGroups)
        (twoBuffers.1.starting k)
      (failure? x, k.slots, (endState x).kernel.slots)) =
      some (some (.usage (.outputTooLarge ⟨4294967295, 4294967295, 4294967295⟩ "B")),
        [none, none], [some ⟨.buffer ⟨0, 4⟩, .owned⟩, none]) by decide +kernel)
  obtain ⟨hf, hv⟩ := Prod.mk.inj hv
  obtain ⟨hs, hs'⟩ := Prod.mk.inj hv
  refine ⟨k, _, hk, eq_error_of_failure? hf, hs', fun hu => ?_⟩
  have he : k.slots = _ := hu.slots.symm.trans hs'
  rw [hs] at he
  cases he

end Sessions

end ComputeKernel
