import ComputeKernel.Proofs.Reflection
import ComputeKernel.Proofs.Use
import ComputeKernel.Session.Perform

/-!
# Histories of sessions

A history is what a caller sees of a session: the commands that were performed since it was opened,
with their outcomes (`Reached`). Errors that are queued for calls of the device are commands like
all others, so a history may have a failure at any call. A run that gets to its kernel is a run as
in `Kernel.run_cases` (`run_step`), and every other command is a sequence of moves (`step_moves`).
-/

namespace ComputeKernel

open Device Relation Shader

/-- The commands that were performed, with their outcomes, the first one first. -/
abbrev History := List (Command × Session.Outcome)

/-- The sessions that can come about, with their histories. -/
inductive Reached (frontEnd : FrontEnd) : Session → History → Prop
  | start {adapter : Option Adapter} {options : Options} {o o' : Opening} {s : Session}
    (h : Session.start adapter options o = .ok s o') : Reached frontEnd s []
  | perform {s : Session} {h : History} (hs : Reached frontEnd s h) (c : Command) :
    Reached frontEnd (s.perform frontEnd c).2 (h ++ [(c, (s.perform frontEnd c).1)])

namespace Session

/-- A session starts on a device without resources, with the limits that are asked for. -/
structure Empty (s : Session) : Prop where
  kernels : s.kernels = []
  handles : s.buffers = [] ∧ s.textures = []
  memory : s.device.buffers = [] ∧ s.device.textures = []
  limit : s.device.limits.bufferSize = standardBufferSize

/-- Nothing is there at the start of a session. -/
theorem start_empty {adapter : Option Adapter} {options : Options} {o o' : Opening} {s : Session}
    (h : start adapter options o = .ok s o') : Empty s := by
  unfold start at h
  obtain ⟨d, o₁, hd, h⟩ := bind_eq_ok h
  cases h
  suffices hm : (d.buffers = [] ∧ d.textures = []) ∧ d.limits.bufferSize = standardBufferSize from
    ⟨rfl, ⟨rfl, rfl⟩, hm.1, hm.2⟩
  unfold request at hd
  simp only at hd
  split at hd
  · cases hd
  rw [modify_bind] at hd
  rcases adapter with _ | a
  · cases hd
  rcases hr : a.refusal with _ | reason <;> simp only [hr] at hd <;> split at hd <;> cases hd
  all_goals exact ⟨⟨rfl, rfl⟩, rfl⟩

section Releasing

variable {s : Session}

theorem release_kernels (x : Handle) : (s.release x).kernels = s.kernels := by
  cases x <;> rfl

theorem release_device (x : Handle) : (s.release x).device = s.device := by
  cases x <;> rfl

theorem releaseAll_kernels (given : List Handle) : (s.releaseAll given).kernels = s.kernels := by
  induction given generalizing s with
  | nil => rfl
  | cons x given ih => exact (ih (s := s.release x)).trans (release_kernels x)

theorem releaseAll_device (given : List Handle) : (s.releaseAll given).device = s.device := by
  induction given generalizing s with
  | nil => rfl
  | cons x given ih => exact (ih (s := s.release x)).trans (release_device x)

end Releasing

/-- A session whose device has recorded nothing yet. Each command starts from it. -/
def quiet (s : Session) : Session := { s with device := { s.device with events := [] } }

/-- How a run failed, if the outcome is that of a run. -/
def Outcome.failure? (o : Outcome) : Option Failure :=
  match o.reply with
  | .ran _ _ failure => failure
  | _ => none

section Running

variable (s : Session) (i : Nat)

/-- The start of a run of a kernel. -/
def starting (k : Kernel) : Running := ⟨k, s.device, []⟩

/-- The session after a computation on one of its kernels. -/
def finish (r : Running) : Session :=
  { s with device := r.device, kernels := s.kernels.set i r.kernel }

theorem running_session (k : Kernel) (x : RunM Unit) :
    (s.running i k x).2.2.2 = s.finish i (endState (x (s.starting k))) := by
  unfold running starting
  rcases x ⟨k, s.device, []⟩ with ⟨_, r⟩ | ⟨f, r⟩ <;> rfl

theorem getElem?_of_kernel? {s : Session} {i : Nat} {k : Kernel} (h : s.kernel? i = some k) :
    s.kernels[i]? = some k := by
  unfold kernel? at h
  split at h
  · cases h
  · exact h

/-- A run that names a handle or a kernel that is not there does nothing. Any other is a run of the
kernel, after the caller has given up some handles. -/
theorem run_step (args : List (Argument Handle)) (given : List Handle) :
    (args.mapM (Argument.resolve? s.resource?) = none ∨ s.kernel? i = none) ∧
        s.run i args given = .answer s .noHandle ∨
      ∃ resources k, args.mapM (Argument.resolve? s.resource?) = some resources ∧
        s.kernel? i = some k ∧
        (s.run i args given).session = (s.releaseAll given).finish i
          (endState (Kernel.run ((s.releaseAll given).heldOutside i) resources (s.starting k))) ∧
        ∃ slots builds, (s.run i args given).reply = .ran slots builds (Kernel.failure?
          (Kernel.run ((s.releaseAll given).heldOutside i) resources (s.starting k))) := by
  unfold run withKernel
  rcases ha : args.mapM (Argument.resolve? s.resource?) with _ | resources
  · exact .inl ⟨.inl rfl, rfl⟩
  rcases hk : s.kernel? i with _ | k
  · exact .inl ⟨.inr rfl, rfl⟩
  refine .inr ⟨resources, k, rfl, rfl, ?_⟩
  unfold running starting
  simp only [releaseAll_device]
  rcases Kernel.run ((s.releaseAll given).heldOutside i) resources ⟨k, s.device, []⟩ with
    ⟨_, r⟩ | ⟨f, r⟩
  · exact ⟨rfl, _, _, rfl⟩
  · exact ⟨rfl, _, _, rfl⟩

end Running

section Moves

/-- The resources in the slots of the kernels and those that the caller holds. -/
def referenced (s : Session) : List ResourceId := s.kernels.flatMap Kernel.resources ++ s.held

/-- What a command other than a run does, one thing at a time. -/
inductive Move (frontEnd : FrontEnd) (c : Command) : Session → Session → Prop
  /-- The device uses resources that someone refers to. -/
  | use {s : Session} {d : Device} {ids : List ResourceId} (h : Works ids s.device d)
    (hi : ∀ x ∈ ids, x ∈ s.referenced) : Move frontEnd c s { s with device := d }
  /-- A drawing pipeline is there from now on. -/
  | blits {s : Session} (blits : List TargetFormat) : Move frontEnd c s { s with blits := blits }
  /-- A resource is made, and the caller holds it. -/
  | make {s : Session} {x : Resource} {d : Device} (h : Creates s.device x d)
    (hx : x.Within s.device.limits) :
    Move frontEnd c s ({ s with device := d }.hold x)
  /-- The caller holds what is in a slot. -/
  | take {s : Session} {i j : Nat} {k : Kernel} {b : Bound} (hk : s.kernels[i]? = some k)
    (hb : k.bound? j = some b) : Move frontEnd c s (s.hold b.resource)
  | drop {s : Session} (x : Handle) : Move frontEnd c s (s.release x)
  /-- A kernel is dropped, and nothing is in its slots any more. -/
  | dropKernel {s : Session} {i : Nat} {k : Kernel} (hk : s.kernels[i]? = some k) :
    Move frontEnd c s
      { s with kernels := s.kernels.set i k.emptied, dropped := i :: s.dropped }
  /-- A kernel is made from a program that compiled. -/
  | kernel {s : Session} {source : KernelSource} {config : Config} {program : Program}
    {log : List LogLine} (h : (source.compile frontEnd config).outcome = (.ok program, log)) :
    Move frontEnd c s
      { s with kernels := s.kernels ++ [.fresh program config.groups s.target] }
  | groups {s : Session} {i : Nat} {k : Kernel} (hk : s.kernels[i]? = some k) (g : Extent) :
    Move frontEnd c s { s with kernels := s.kernels.set i { k with groups := some g } }
  | uniform {s : Session} {i : Nat} {k : Kernel} {name : String} {values : List Binary64}
    (hc : c = .setUniform i name values) (hk : s.kernels[i]? = some k) :
    Move frontEnd c s (s.finish i (endState (Kernel.setUniform name values (s.starting k))))

variable {frontEnd : FrontEnd} {c : Command} {s : Session}

/-- The device uses nothing that someone refers to. -/
theorem idle_move {d : Device} (h : Works [] s.device d) :
    Move frontEnd c s { s with device := d } := .use h (by simp)

theorem work_eq {α : Type} (w : Work α) :
    (s.work w).2 = { s with device := endState (w s.device) } := by
  unfold work
  split <;> rename_i h <;> rw [h] <;> rfl

theorem work_move {α : Type} {w : Work α} {ids : List ResourceId}
    (h : Works ids s.device (endState (w s.device))) (hi : ∀ x ∈ ids, x ∈ s.referenced) :
    Move frontEnd c s (s.work w).2 := by
  rw [work_eq]
  exact .use h hi

theorem ofExcept_session {α : Type} (reply : α → Reply) (x : Except Failure α) :
    (Step.ofExcept s reply x).session = s := by
  cases x <;> rfl

theorem worked_move {α : Type} {w : Work α} {ids : List ResourceId} (reply : α → Reply)
    (h : Works ids s.device (endState (w s.device))) (hi : ∀ x ∈ ids, x ∈ s.referenced) :
    Move frontEnd c s (s.worked w reply).session := by
  have hm : Move frontEnd c s (s.work w).2 := work_move h hi
  unfold worked
  rcases hw : s.work w with ⟨_, s'⟩
  rw [hw] at hm
  simpa only [ofExcept_session] using hm

/-- A resource is made and then held, which are two moves. -/
theorem create_moves {α : Type} {w : Work α} {resource : α → Resource}
    (h : Allocates w resource)
    (hx : ∀ d a d', w d = .ok a d' → (resource a).Within d.limits) :
    ReflTransGen (Move frontEnd c) s (s.create (resource <$> w)).session := by
  unfold create work
  rcases h s.device with ⟨f, h⟩ | ⟨f, x, d, h, hc⟩ | ⟨a, d, h, hc⟩
  · rw [show (resource <$> w) s.device = .error f s.device from bind_of_error h]
    exact .refl
  · rw [show (resource <$> w) s.device = .error f d from bind_of_error h]
    exact .single (idle_move ⟨hc.uses, hc.grows⟩)
  · rw [show (resource <$> w) s.device = .ok (resource a) d from bind_of_ok h]
    exact .single (.make hc (hx _ _ _ h))

/-- A command on a kernel that was dropped or never made is turned down. -/
theorem withKernel_cases (s : Session) (i : Nat) (f : Kernel → Step) :
    s.withKernel i f = .answer s .noHandle ∨
      ∃ k, s.kernel? i = some k ∧ s.withKernel i f = f k := by
  unfold withKernel
  rcases hk : s.kernel? i with _ | k
  · exact .inl rfl
  · exact .inr ⟨k, rfl, rfl⟩

theorem withKernel_moves {i : Nat} {f : Kernel → Step}
    (h : ∀ k, s.kernels[i]? = some k → ReflTransGen (Move frontEnd c) s (f k).session) :
    ReflTransGen (Move frontEnd c) s (s.withKernel i f).session := by
  rcases withKernel_cases s i f with hk | ⟨k, hk, hf⟩
  · rw [hk]
    exact .refl
  · rw [hf]
    exact h k (getElem?_of_kernel? hk)

theorem dropKernel_eq {i : Nat} {k : Kernel} (hk : s.kernels[i]? = some k) : s.dropKernel i =
    { s with kernels := s.kernels.set i k.emptied, dropped := i :: s.dropped } := by
  have : Inhabited Kernel := ⟨k⟩
  simp only [dropKernel, List.modify_eq_set, hk, Option.getD_some]

/-- What a kernel has in its slots is referenced. -/
theorem mem_referenced {i : Nat} {k : Kernel} (hk : s.kernels[i]? = some k) :
    ∀ x ∈ k.resources, x ∈ s.referenced := fun _ hx =>
  List.mem_append_left _ (List.mem_flatMap.2 ⟨k, List.mem_of_getElem? hk, hx⟩)

/-- A kernel comes into a session only if its program compiled and the device took the program. -/
theorem createKernel_moves (source : KernelSource) (config : Option String) :
    ReflTransGen (Move frontEnd c) s (s.createKernel frontEnd source config).session := by
  unfold createKernel
  rcases (config.map Config.parse).getD (.ok default) with f | config
  · exact .refl
  simp only
  rcases hp : (source.compile frontEnd config).outcome with ⟨f | program, log⟩
  · exact .refl
  obtain ⟨d, hu, ⟨f, hk⟩ | hk⟩ := Kernel.create_cases program config.groups s.target s.device
  · simp only [work, hk]
    exact .single (idle_move hu)
  · simp only [work, hk]
    exact .tail (.single (idle_move hu)) (.kernel hp)

theorem held_texture {i : Nat} {t : Texture} (ht : s.texture? i = some t) :
    .texture t.number ∈ s.held := by
  have hm : some t ∈ s.textures := List.mem_of_getElem? (Option.join_eq_some_iff.1 ht)
  exact List.mem_append_right _ (List.mem_filterMap.2 ⟨some t, hm, rfl⟩)

theorem draw_moves {i : Nat} {t : Texture} (target : Target) (ht : s.texture? i = some t) :
    ReflTransGen (Move frontEnd c) s (s.draw t target).2 := by
  have hp : Move frontEnd c s
      (s.work (do checkDisplayable t; ensureBlit s.blits target.format)).2 := by
    rw [work_eq]
    refine idle_move ?_
    unfold checkDisplayable
    split
    · exact ensureBlit_works _ _
    · exact .refl _ _
  unfold draw
  rcases hw : s.work (do checkDisplayable t; ensureBlit s.blits target.format) with
    ⟨f | blits, s'⟩ <;> rw [hw] at hp
  · exact .single hp
  · have hs : s' = _ := (congrArg Prod.snd hw).symm.trans (work_eq _)
    refine .tail (.tail (.single hp) (.blits blits)) (work_move (blit_works t target) ?_)
    intro x hx
    rw [List.mem_singleton.1 hx, hs]
    exact List.mem_append_right _ (held_texture ht)

theorem withTexture_moves {i : Nat} {f : Texture → Step}
    (h : ∀ t, s.texture? i = some t → ReflTransGen (Move frontEnd c) s (f t).session) :
    ReflTransGen (Move frontEnd c) s (s.withTexture i f).session := by
  unfold withTexture
  rcases ht : s.texture? i with _ | t
  · exact .refl
  · exact h t ht

theorem present_moves {i : Nat} {t : Texture} (target : Target) (error : Option SurfaceError)
    (ht : s.texture? i = some t) :
    ReflTransGen (Move frontEnd c) s (s.present t target error).session := by
  cases error with
  | some e => exact .refl
  | none =>
    have hd : ReflTransGen (Move frontEnd c) s (s.draw t target).2 := draw_moves target ht
    unfold present
    rcases hw : s.draw t target with ⟨f | _, s'⟩ <;> rw [hw] at hd
    · exact hd
    · refine hd.tail (idle_move (works_idle [.present] rfl ?_ rfl rfl rfl))
      simp [Event.created?, Event.destroyed?, Event.touched]

theorem take_moves {i : Nat} {k : Kernel} (name : String) (hk : s.kernels[i]? = some k) :
    ReflTransGen (Move frontEnd c) s (match k.boundAt name with
      | .error f => .answer s (.failed (.usage f))
      | .ok none => .answer s (.resource none)
      | .ok (some b) =>
        .answer (s.hold b.resource) (.resource (some b.resource)) : Step).session := by
  unfold Kernel.boundAt
  rcases k.param? name with f | ⟨j, slot⟩
  · exact .refl
  rcases hb : k.bound? j with _ | b
  · simp only [Except.map, hb]
    exact .refl
  · simp only [Except.map, hb]
    exact .single (.take hk hb)

/-- A command other than a run is a sequence of moves. -/
theorem step_moves (hc : ∀ i args given, c ≠ .run i args given) :
    ReflTransGen (Move frontEnd c) s (s.step frontEnd c).session := by
  cases c with
  | createKernel source config => exact createKernel_moves source config
  | run i args given => exact absurd rfl (hc i args given)
  | groups i => exact withKernel_moves fun k _ => .refl
  | setGroups i groups => exact withKernel_moves fun k hk => .single (.groups hk groups)
  | setUniform i name values =>
    refine withKernel_moves fun k hk => .single ?_
    simp only [ofExcept_session, running_session]
    exact .uniform rfl hk
  | read i name hint =>
    exact withKernel_moves fun k hk =>
      .single (worked_move _ (Kernel.read_works name hint) (mem_referenced hk))
  | readInto i name old =>
    exact withKernel_moves fun k hk =>
      .single (worked_move _ (Kernel.readInto_works name old) (mem_referenced hk))
  | inspect i name =>
    refine withKernel_moves fun k _ => ?_
    rw [ofExcept_session]
  | take i name => exact withKernel_moves fun k hk => take_moves name hk
  | createBuffer size =>
    exact create_moves (allocateBuffer_allocates size) fun _ _ _ h => allocateBuffer_within h
  | createBufferInit data =>
    exact create_moves (bufferOfBytes_allocates data.toBytes) fun _ _ _ h => bufferOfBytes_within h
  | createTexture width height format =>
    exact create_moves (allocateTexture_allocates _ _ _) fun _ _ _ _ => trivial
  | createRenderTexture =>
    exact create_moves (allocateTexture_allocates _ _ _) fun _ _ _ _ => trivial
  | drop handle =>
    simp only [step]
    split
    · exact .single (.drop handle)
    · exact .refl
  | dropKernel i =>
    refine withKernel_moves fun k hk => .single ?_
    show Move _ _ s (s.dropKernel i)
    rw [dropKernel_eq hk]
    exact .dropKernel hk
  | queueError error delay =>
    exact .single (idle_move (works_quiet rfl rfl rfl rfl))
  | present i target error => exact withTexture_moves fun t ht => present_moves target error ht
  | presentTo i target =>
    refine withTexture_moves fun t ht => ?_
    rw [ofExcept_session]
    exact draw_moves target ht
  | info =>
    refine .single (idle_move (works_idle [.requestAdapter .none] rfl ?_ rfl rfl rfl))
    simp [Event.created?, Event.destroyed?, Event.touched]
  | dump i => exact withKernel_moves fun k _ => .refl

end Moves

section Replay

/-- Performs commands one after another. -/
def replay (frontEnd : FrontEnd) : Session → List Command → Session × History
  | s, [] => (s, [])
  | s, c :: cs =>
    let (o, s') := s.perform frontEnd c
    let (s'', h) := s'.replay frontEnd cs
    (s'', (c, o) :: h)

/-- The sessions that commands lead to can come about. -/
theorem reached_replay {frontEnd : FrontEnd} {s : Session} {h : History}
    (hs : Reached frontEnd s h) (cs : List Command) :
    Reached frontEnd (s.replay frontEnd cs).1 (h ++ (s.replay frontEnd cs).2) := by
  induction cs generalizing s h with
  | nil => simpa [replay] using hs
  | cons c cs ih => simpa [replay] using ih (hs.perform c)

/-- A shader with a buffer and a uniform. -/
def sampleModule : ShaderModule where
  vars := [
    ⟨some "cells", .storage ⟨true, true⟩, some ⟨0, 0⟩, .array (.scalar .u32) none⟩,
    ⟨some "scale", .uniform, some ⟨1, 0⟩, .vector 4 .f32⟩]
  entryPoints := [⟨"main", .compute, ⟨1, 1, 1⟩⟩]

/-- A front end for which every text is that shader. -/
def sampleFrontEnd : FrontEnd := fun _ _ => .ok sampleModule

/-- The program of that shader. -/
def sampleProgram : Program where
  dialect := .wgsl
  source := ""
  layout := ⟨[⟨"cells", 0, .buffer (.buffer .u32)⟩], [⟨"scale", .f32, 0⟩], ⟨1, 1, 1⟩⟩
  module := sampleModule
  isLiteral := true

theorem compile_sample : ((KernelSource.literal "").compile sampleFrontEnd default).outcome =
    (.ok sampleProgram, [literalLine ⟨.wgsl, "", sampleProgram.layout⟩]) := by
  have hl : sampleModule.layout [] = .ok sampleProgram.layout [] := by
    rw [layout_eq_ok_iff, bound_eq_of_perm sampleModule paramGroup (.refl _) (by decide),
      bound_eq_of_perm sampleModule uniformGroup (.refl _) (by decide)]
    decide
  exact outcome_of_ok (ofLiteral_of_layout "" .wgsl hl)

/-- A session on an adapter of default limits. -/
def sample : Session where
  device := { adapterName := "Fake", hasDoubles := false, limits := ⟨standardBufferSize, 8192⟩ }
  target := ⟨512, 512⟩

theorem reached_sample (cs : List Command) : Reached sampleFrontEnd
    (sample.replay sampleFrontEnd cs).1 (sample.replay sampleFrontEnd cs).2 := by
  have hs : start (some ⟨"Fake", "", "", "", "", false, 8192, none, false⟩) { } { } =
      .ok sample _ := rfl
  exact reached_replay (.start hs) cs

end Replay

end Session

end ComputeKernel
