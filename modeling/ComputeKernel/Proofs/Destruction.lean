import ComputeKernel.Proofs.Coherence
import ComputeKernel.Proofs.Ownership
import Mathlib.Data.List.Pairwise

/-!
# What is destroyed in a session

Over whole histories of a session, with failures of the device anywhere, nothing is destroyed twice,
only what a kernel made is destroyed, and only while nobody refers to it: no slot of any kernel, no
handle of the caller, no argument that a run has still to bind (`destroyed_unreferenced`). The
invariant is `Sound` of the log of a history. Each move keeps it, and so does each run.
-/

namespace ComputeKernel

open Device Relation Shader

section Holding

namespace Session

variable {s : Session} {id : ResourceId}

theorem mem_held_hold {x : Resource} (h : id ∈ (s.hold x).held) : id = x.id ∨ id ∈ s.held := by
  cases x <;> simp only [hold, held, List.filterMap_append, List.mem_append] at h ⊢
  · rcases h with (h | h) | h
    · exact .inr (.inl h)
    · exact .inl (by simpa [Resource.id] using h)
    · exact .inr (.inr h)
  · rcases h with h | h | h
    · exact .inr (.inl h)
    · exact .inr (.inr h)
    · exact .inl (by simpa [Resource.id] using h)

theorem filterMap_set_none {α β : Type} {f : Option α → Option β} (hf : f none = none)
    {l : List (Option α)} {i : Nat} {x : β} (h : x ∈ (l.set i none).filterMap f) :
    x ∈ l.filterMap f := by
  rcases filterMap_set_cases f l i none with hs | ⟨rest, hr, hs⟩
  · exact hs ▸ h
  · have hx := hs.mem_iff.1 h
    rw [hf] at hx
    exact hr.subset hx

theorem mem_held_release {x : Handle} (h : id ∈ (s.release x).held) : id ∈ s.held := by
  cases x with
  | buffer i =>
    exact (List.mem_append.1 h).elim
      (fun h => List.mem_append_left _ (filterMap_set_none rfl h)) (List.mem_append_right _)
  | texture i =>
    exact (List.mem_append.1 h).elim (List.mem_append_left _)
      fun h => List.mem_append_right _ (filterMap_set_none rfl h)

theorem mem_held_releaseAll {given : List Handle} (h : id ∈ (s.releaseAll given).held) :
    id ∈ s.held := by
  induction given generalizing s with
  | nil => exact h
  | cons x given ih => exact mem_held_release (ih (s := s.release x) h)

theorem releaseAll_quiet (given : List Handle) :
    s.quiet.releaseAll given = (s.releaseAll given).quiet := by
  induction given generalizing s with
  | nil => rfl
  | cons x given ih =>
    have hx : s.quiet.release x = (s.release x).quiet := by cases x <;> rfl
    exact (congrArg (fun s : Session => s.releaseAll given) hx).trans (ih (s := s.release x))

theorem held_resource {x : Handle} {r : Resource} (h : s.resource? x = some r) : r.id ∈ s.held := by
  cases x with
  | buffer i =>
    obtain ⟨b, hb, rfl⟩ := Option.map_eq_some_iff.1 h
    have hm : some b ∈ s.buffers := List.mem_of_getElem? (Option.join_eq_some_iff.1 hb)
    exact List.mem_append_left _ (List.mem_filterMap.2 ⟨some b, hm, rfl⟩)
  | texture i =>
    obtain ⟨t, ht, rfl⟩ := Option.map_eq_some_iff.1 h
    exact held_texture ht

/-- The resources among the arguments of a run are those of handles. -/
theorem exists_handle {args : List (Argument Handle)} {resources : List (Argument Resource)}
    (h : args.mapM (Argument.resolve? s.resource?) = some resources) {x : Resource}
    (hx : .resource x ∈ resources) : ∃ a, s.resource? a = some x := by
  have hm : some (.resource x) ∈ args.map (Argument.resolve? s.resource?) := by
    rw [map_of_mapM_eq_some h]
    exact List.mem_map_of_mem hx
  obtain ⟨a, -, ha⟩ := List.mem_map.1 hm
  cases a with
  | resource handle =>
    obtain ⟨r, hr, he⟩ := Option.map_eq_some_iff.1 ha
    cases he
    exact ⟨handle, hr⟩
  | _ => cases ha

/-- What the arguments of a run hand over is what the caller held before it. -/
theorem held_arguments {args : List (Argument Handle)} {resources : List (Argument Resource)}
    (h : args.mapM (Argument.resolve? s.resource?) = some resources)
    (hid : id ∈ Kernel.argumentIds resources) : id ∈ s.held := by
  obtain ⟨a, ha, hid⟩ := List.mem_filterMap.1 hid
  cases a with
  | resource x =>
    obtain ⟨handle, hx⟩ := exists_handle h ha
    cases hid
    exact held_resource hx
  | _ => cases hid

end Session

end Holding

section Histories

variable {frontEnd : FrontEnd} {past : List Event} {made : List ResourceId} {s s' : Session}
  {h : History}

/-- A session is sound with respect to the events before its last command and to the resources that
kernels made. -/
def SessionSound (past : List Event) (made : List ResourceId) (s : Session) : Prop :=
  Sound past made s.device s.kernels s.held

theorem SessionSound.hold {x : Resource} {d : Device} (hs : Sound past made d s.kernels s.held)
    (hl : Live (past ++ d.events) x.id) (hn : x.id ∉ s.kernels.flatMap Kernel.uniformIds) :
    SessionSound past made ({ s with device := d }.hold x) := by
  have hx : Sound past made d s.kernels ({ s with device := d }.hold x).held := by
    refine hs.refer (fun id hid => ?_) (fun id hid => (hs.uniforms id hid).1) hs.once hs.owned
    rcases List.mem_append.1 hid with hid | hid
    · exact hs.apart (List.mem_append_left _ hid)
    · rcases Session.mem_held_hold hid with rfl | hid
      · exact ⟨hl, hn⟩
      · exact hs.apart (List.mem_append_right _ hid)
  cases x <;> exact hx

/-- A kernel of a session, apart from the others. -/
theorem Sound.pick {d : Device} {kernels : List Kernel} {held : List ResourceId} {i : Nat}
    {k : Kernel} (hs : Sound past made d kernels held) (hk : kernels[i]? = some k) :
    Sound past made d (k :: kernels.eraseIdx i) held := by
  obtain ⟨hi, rfl⟩ := List.getElem?_eq_some_iff.1 hk
  exact hs.of_perm (List.getElem_cons_eraseIdx_perm hi) (fun _ hid => hid) fun _ hid => hid

theorem Sound.put {d : Device} {kernels : List Kernel} {held : List ResourceId} {i : Nat}
    {k k' : Kernel} (hk : kernels[i]? = some k)
    (hs : Sound past made d (k' :: kernels.eraseIdx i) held) :
    Sound past made d (kernels.set i k') held :=
  hs.of_perm (List.set_perm_cons_eraseIdx (List.getElem?_eq_some_iff.1 hk).1 k')
    (fun _ hid => hid) fun _ hid => hid

/-- A kernel may give up what is in its slots. -/
theorem Sound.emptied {d : Device} {kernels : List Kernel} {held : List ResourceId} {k : Kernel}
    (hs : Sound past made d (k :: kernels) held) :
    Sound past made d (k.emptied :: kernels) held := by
  have hr : k.emptied.resources = [] := by simp [Kernel.resources, Kernel.emptied]
  have ho : k.emptied.ownedIds = [] := by simp [Kernel.ownedIds, Kernel.emptied]
  refine hs.refer (fun id hid => hs.apart ?_) (fun id hid => (hs.uniforms id hid).1) ?_ ?_
  · rcases mem_inUse_cons.1 hid with hid | hid
    · simp [hr] at hid
    · exact mem_inUse_cons.2 (.inr hid)
  · rw [List.flatMap_cons, ho]
    exact (List.nodup_append.1 hs.once).2.1
  · intro id hid
    rw [List.flatMap_cons, ho] at hid
    exact hs.owned id (List.mem_append_right _ hid)

theorem fresh_holds_nothing (program : Program) (groups : Option Extent) (target : RenderTarget) :
    (Kernel.fresh program groups target).resources = [] ∧
      (Kernel.fresh program groups target).uniformIds = [] ∧
      (Kernel.fresh program groups target).ownedIds = [] := by
  refine ⟨?_, ?_, ?_⟩
  · simp [Kernel.resources, Kernel.fresh]
  · simp [uniformIds_eq, Kernel.fresh]
  · simp [Kernel.ownedIds, Kernel.fresh]

/-- A session is sound after each move. That the kernel of a uniform has its shape is known from the
account of its bind groups. -/
theorem SessionSound.move {c : Command} (hs : SessionSound past made s) (ha : Accounted h s)
    (hm : Session.Move frontEnd c s s') : SessionSound past made s' := by
  cases hm with
  | use hw hi => exact (hs.uses hw.uses fun id hid => hs.live id (hi id hid)).1
  | blits _ => exact hs
  | make hc _ =>
    obtain ⟨e, he, hid⟩ := hc.events
    obtain ⟨hs₁, hl, -, hn⟩ := hs.create he hid hc.fresh fun _ => hc.allocated_iff
    exact SessionSound.hold hs₁ hl hn
  | @take i j k b hk hb =>
    have hid := Session.mem_referenced hk _ (Kernel.mem_resources hb)
    exact SessionSound.hold hs (hs.live _ hid) (hs.apart hid).2
  | drop x =>
    unfold SessionSound
    rw [Session.release_kernels, Session.release_device]
    exact hs.of_perm (.refl _) (fun _ => Session.mem_held_release) fun _ hid => hid
  | dropKernel hk => exact Sound.put hk (hs.pick hk).emptied
  | @kernel source config program log _ =>
    obtain ⟨hr, hu, ho⟩ := fresh_holds_nothing program config.groups s.target
    refine hs.congr ?_ ?_ ?_
    · simp [hr]
    · simp [hu]
    · simp [ho]
  | @groups i k hk g => exact Sound.put hk ((hs.pick hk).congr_head rfl rfl)
  | @uniform i k name values _ hk =>
    have hu := Kernel.setUniform_steps (r := s.starting k) name values (ha.kept _ _ hk).uniforms
    exact Sound.put hk (kept_of_steps
      (P := fun r => Sound past made r.device (r.kernel :: s.kernels.eraseIdx i) s.held)
      (fun hu hs => hu.sound hs) hu (hs.pick hk))

/-- What the commands of a history made the device do. -/
def History.log (h : History) : List Event := h.flatMap (·.2.events)

/-- What the runs of a history made. -/
def History.kernelMade (h : History) : List ResourceId :=
  h.flatMap fun
    | (.run _ _ _, o) => createdIn o.events
    | _ => []

/-- The state of a session after each argument that a run binds, with what its arguments refer to
that are not bound yet. -/
def Session.turns (s : Session) (i : Nat) (args : List (Argument Handle)) (given : List Handle) :
    List (Running × List ResourceId) :=
  match args.mapM (Argument.resolve? s.resource?), s.kernel? i with
  | some resources, some k =>
    Kernel.runTurns ((s.releaseAll given).heldOutside i) resources (s.starting k)
  | _, _ => []

section Runs

variable {i : Nat} {k : Kernel} {args : List (Argument Handle)}
  {resources : List (Argument Resource)}

theorem Session.heldOutside_releaseAll (given : List Handle) :
    (s.releaseAll given).heldOutside i =
      (s.kernels.eraseIdx i).flatMap Kernel.resources ++ (s.releaseAll given).held := by
  rw [heldOutside, releaseAll_kernels]

/-- What the caller gives away is still referred to by the arguments. -/
theorem SessionSound.starting (hs : SessionSound past made s) (hk : s.kernels[i]? = some k)
    (ha : args.mapM (Argument.resolve? s.resource?) = some resources) (given : List Handle) :
    RunSound past made (s.kernels.eraseIdx i) (s.releaseAll given).held
      (Kernel.argumentIds resources) (s.starting k) := by
  refine (hs.pick hk).of_perm (.refl _) (fun id hid => ?_) fun _ hid => List.mem_append_left _ hid
  rcases List.mem_append.1 hid with hid | hid
  · exact Session.mem_held_releaseAll hid
  · exact Session.held_arguments ha hid

theorem SessionSound.turns (hs : SessionSound past made s) (ha : Accounted h s)
    (args : List (Argument Handle)) (given : List Handle) :
    ∀ t ∈ s.turns i args given, ∃ k, s.kernels[i]? = some k ∧
      RunSound past made (s.kernels.eraseIdx i) (s.releaseAll given).held t.2 t.1 := by
  intro t ht
  unfold Session.turns at ht
  split at ht
  · rename_i resources k hargs hk
    replace hk := Session.getElem?_of_kernel? hk
    rw [Session.heldOutside_releaseAll] at ht
    have hr := (hs.starting hk hargs given).runTurns (ha.kept i k hk).toShaped
    exact ⟨k, hk, hr t ht⟩
  · simp at ht

theorem SessionSound.run (hs : SessionSound past made s) (ha : Accounted h s)
    (args : List (Argument Handle)) (given : List Handle) :
    SessionSound past (made ++ createdIn (s.run i args given).session.device.events)
      (s.run i args given).session := by
  rcases s.run_step i args given with ⟨-, hn⟩ | ⟨resources, k, hargs, hk, hr, -⟩
  · rw [hn]
    exact hs.of_perm (.refl _) (fun _ hid => hid) fun _ hid => List.mem_append_left _ hid
  · replace hk := Session.getElem?_of_kernel? hk
    have hrun := (hs.starting hk hargs given).run (ha.kept i k hk).toCoherent
    rw [← Session.heldOutside_releaseAll] at hrun
    rw [hr]
    unfold SessionSound Session.finish
    rw [Session.releaseAll_kernels]
    refine Sound.put hk (hrun.of_perm (.refl _) (fun id hid => ?_) fun _ hid => hid)
    rw [List.append_nil]
    exact hid

/-- What a run destroys is destroyed when it binds an argument. -/
theorem Accounted.run_destroys (ha : Accounted h s) (hq : s.device.events = [])
    (args : List (Argument Handle)) (given : List Handle) {id : ResourceId}
    (hid : id ∈ destroyedIn (s.run i args given).session.device.events) :
    ∃ t ∈ s.turns i args given, id ∈ destroyedIn t.1.device.events := by
  rcases s.run_step i args given with ⟨-, hn⟩ | ⟨resources, k, hargs, hk, hr, -⟩
  · rw [hn] at hid
    simp [Session.Step.answer, hq, destroyedIn] at hid
  · rw [hr] at hid
    unfold Session.turns
    simp only [hargs, hk]
    refine (ComputeKernel.run_destroys _
      (ha.kept i k (Session.getElem?_of_kernel? hk)).toCoherent hid).resolve_left ?_
    simp [Session.starting, hq, destroyedIn]

end Runs

theorem Session.Move.destroyedIn {c : Command} (hm : Session.Move frontEnd c s s')
    (ha : Accounted h s) :
    destroyedIn s'.device.events = destroyedIn s.device.events := by
  cases hm with
  | use hw _ => exact hw.uses.destroyedIn
  | blits _ => rfl
  | @make x d hc _ =>
    have hu : Uses [] s.device d := hc.uses
    rw [← hu.destroyedIn]
    cases x <;> rfl
  | @take i j k b _ _ =>
    rcases b with ⟨_ | _, _⟩ <;> rfl
  | drop x => rw [Session.release_device]
  | dropKernel _ => rfl
  | kernel _ => rfl
  | groups _ _ => rfl
  | @uniform i k name values _ hk =>
    have hu := Kernel.setUniform_steps (r := s.starting k) name values (ha.kept _ _ hk).uniforms
    exact kept_of_steps
      (P := fun r => destroyedIn r.device.events = destroyedIn s.device.events)
      (fun hu hs => by
        obtain ⟨ids, hu⟩ := hu.uses
        rw [hu.destroyedIn, hs]) hu rfl

theorem SessionSound.quiet (hs : SessionSound past made s) :
    SessionSound (past ++ s.device.events) made s.quiet := by
  have hl : past ++ s.device.events ++ s.quiet.device.events = past ++ s.device.events :=
    List.append_nil _
  exact {
    allocated := by rw [hl]; exact hs.allocated
    fresh := by rw [hl]; exact hs.fresh
    safe := by rw [hl]; exact hs.safe
    live := by rw [hl]; exact hs.live
    uniforms := by rw [hl]; exact hs.uniforms
    once := hs.once
    owned := hs.owned
    destroyed := by rw [hl]; exact hs.destroyed }

theorem log_append (c : Command) (o : Session.Outcome) :
    History.log (h ++ [(c, o)]) = h.log ++ o.events := by
  simp [History.log]

theorem kernelMade_append (c : Command) (o : Session.Outcome) :
    History.kernelMade (h ++ [(c, o)]) = h.kernelMade ++ History.kernelMade [(c, o)] := by
  simp [History.kernelMade]

theorem kernelMade_run (i : Nat) (args : List (Argument Handle)) (given : List Handle)
    (o : Session.Outcome) : History.kernelMade [(.run i args given, o)] = createdIn o.events :=
  List.append_nil _

theorem createdIn_log (h : History) :
    createdIn h.log = h.flatMap fun e => createdIn e.2.events := by
  induction h with
  | nil => rfl
  | cons e h ih =>
    rw [List.flatMap_cons, ← ih]
    exact createdIn_append

theorem sound_start (he : Session.Empty s) : SessionSound [] [] s.quiet := by
  have hh : s.quiet.held = [] := by simp [Session.held, Session.quiet, he.handles]
  unfold SessionSound
  rw [hh, show s.quiet.kernels = [] from he.kernels]
  refine ⟨fun id => ?_, List.nodup_nil, fun before e after hl => ?_, by simp [inUse], by simp,
    List.nodup_nil, by simp, by simp [Session.quiet, destroyedIn]⟩
  · cases id <;> simp [Allocated, Session.quiet, he.memory, createdIn]
  · simp [Session.quiet] at hl

theorem SessionSound.perform (hs : SessionSound h.log h.kernelMade s.quiet) (ha : Accounted h s)
    (c : Command) :
    SessionSound (History.log (h ++ [(c, (s.perform frontEnd c).1)]))
      (History.kernelMade (h ++ [(c, (s.perform frontEnd c).1)]))
      (s.perform frontEnd c).2.quiet := by
  rw [log_append, kernelMade_append]
  refine SessionSound.quiet ?_
  have hq : Accounted h s.quiet := ha.same rfl fun _ => rfl
  by_cases hc : ∃ i args given, c = .run i args given
  · obtain ⟨i, args, given, rfl⟩ := hc
    rw [kernelMade_run]
    exact hs.run hq args given
  · have hm : ReflTransGen (Session.Move frontEnd c) s.quiet (s.quiet.step frontEnd c).session :=
      Session.step_moves fun i args given he => hc ⟨i, args, given, he⟩
    have hk := (kept_of_steps (P := fun s => SessionSound h.log h.kernelMade s ∧ Accounted h s)
      (fun hm hp => ⟨hp.1.move hp.2 hm, hp.2.move hm⟩) hm ⟨hs, hq⟩).1
    exact hk.of_perm (.refl _) (fun _ hid => hid) fun _ hid => List.mem_append_left _ hid

theorem Reached.sound (hs : Reached frontEnd s h) : SessionSound h.log h.kernelMade s.quiet := by
  induction hs with
  | start hs => exact sound_start (Session.start_empty hs)
  | perform hs c ih => exact ih.perform hs.accounted c

/-- What a command destroys is destroyed when a run binds an argument. -/
theorem Accounted.destroys (ha : Accounted h s) (c : Command) :
    ∀ id ∈ destroyedIn (s.perform frontEnd c).1.events, ∃ i args given, c = .run i args given ∧
      ∃ t ∈ s.quiet.turns i args given, id ∈ destroyedIn t.1.device.events := by
  intro id hid
  have hq : Accounted h s.quiet := ha.same rfl fun _ => rfl
  by_cases hc : ∃ i args given, c = .run i args given
  · obtain ⟨i, args, given, rfl⟩ := hc
    exact ⟨i, args, given, rfl, hq.run_destroys rfl args given hid⟩
  · have hm : ReflTransGen (Session.Move frontEnd c) s.quiet (s.quiet.step frontEnd c).session :=
      Session.step_moves fun i args given he => hc ⟨i, args, given, he⟩
    have hn := (kept_of_steps (P := fun s => destroyedIn s.device.events = [] ∧ Accounted h s)
      (fun hm hp => ⟨(hm.destroyedIn hp.2).trans hp.1, hp.2.move hm⟩) hm ⟨rfl, hq⟩).1
    rw [show destroyedIn (s.perform frontEnd c).1.events = [] from hn] at hid
    simp at hid

/-- What a kernel made nobody else made. -/
theorem run_of_kernelMade (hn : (createdIn h.log).Nodup) {id : ResourceId} (hid : id ∈ h.kernelMade)
    {c : Command} {o : Session.Outcome} (hm : (c, o) ∈ h) (hc : id ∈ createdIn o.events) :
    ∃ i args given, c = .run i args given := by
  obtain ⟨⟨c', o'⟩, hm', hid'⟩ := List.mem_flatMap.1 hid
  cases c' with
  | run i args given =>
    rw [createdIn_log] at hn
    have hd := (List.nodup_flatMap.1 hn).2
    have : Std.Symm (Function.onFun List.Disjoint
        fun e : Command × Session.Outcome => createdIn e.2.events) :=
      ⟨fun _ _ hd _ ha hb => hd hb ha⟩
    by_contra hne
    refine (hd.forall hm hm' fun he => hne ?_) hc hid'
    exact ⟨i, args, given, congrArg Prod.fst he⟩
  | _ => simp at hid'

/-- Everything that is referred to was made and is not destroyed, and each resource is owned by one
slot at most. -/
structure Intact (log : List Event) (kernels : List Kernel) (held : List ResourceId) : Prop where
  live : ∀ id ∈ inUse kernels held, Live log id
  once : (kernels.flatMap Kernel.ownedIds).Nodup

/-- What is destroyed in a session is destroyed once, was made by a run of a kernel and by nothing
else, and is never touched again. It is destroyed when a run binds an argument, and after each
argument nothing is destroyed that is in a slot of any kernel, that the caller holds or that an
argument has still to hand over. -/
theorem destroyed_unreferenced (hs : Reached frontEnd s h) :
    (destroyedIn h.log).Nodup ∧ SafeLog h.log ∧
      (∀ id ∈ destroyedIn h.log, id ∈ h.kernelMade ∧ ∀ c o, (c, o) ∈ h →
        id ∈ createdIn o.events → ∃ i args given, c = .run i args given) ∧
      Intact h.log s.kernels s.held ∧
      (∀ i args given, ∀ t ∈ s.quiet.turns i args given,
        Intact (h.log ++ t.1.device.events) (s.kernels.set i t.1.kernel)
          ((s.releaseAll given).held ++ t.2)) ∧
      ∀ c, ∀ id ∈ destroyedIn (s.perform frontEnd c).1.events, ∃ i args given,
        c = .run i args given ∧
          ∃ t ∈ s.quiet.turns i args given, id ∈ destroyedIn t.1.device.events := by
  have hsound := hs.sound
  have hl : h.log ++ s.quiet.device.events = h.log := List.append_nil _
  have hsafe : SafeLog h.log := hl ▸ hsound.safe
  refine ⟨hsafe.destroyed_nodup, hsafe, fun id hid => ?_, ?_, fun i args given t ht => ?_,
    hs.accounted.destroys⟩
  · have hm : id ∈ h.kernelMade := hsound.destroyed id (hl.symm ▸ hid)
    exact ⟨hm, fun c o => run_of_kernelMade (hl ▸ hsound.fresh) hm⟩
  · have hlive := hsound.live
    rw [hl] at hlive
    exact ⟨hlive, hsound.once⟩
  · have hq : Accounted h s.quiet := hs.accounted.same rfl fun _ => rfl
    obtain ⟨k, hk, hr⟩ := hsound.turns hq args given t ht
    have hput := Sound.put hk hr
    rw [Session.releaseAll_quiet] at hput
    exact ⟨hput.live, hput.once⟩

/-- A session in which a buffer of one kernel is taken and lent to another one, and the first kernel
grows out of its buffers twice. -/
def shared : Session × History :=
  Session.sample.replay Session.sampleFrontEnd [
    .createKernel (.literal "") none,
    .createKernel (.literal "") none,
    .run 0 [.host (.u32 [1]), .group 1, .group 1, .group 1],
    .take 0 "cells",
    .run 1 [.resource (.buffer 0), .group 1, .group 1, .group 1] [.buffer 0],
    .run 0 [.host (.u32 [1, 2]), .group 1, .group 1, .group 1],
    .run 0 [.host (.u32 [1, 2, 3]), .group 1, .group 1, .group 1]]

theorem destroyed_unreferenced_shared :
    Reached Session.sampleFrontEnd shared.1 shared.2 ∧
      destroyedIn shared.2.log = [.buffer 3] ∧
      createdIn shared.2.log = [.buffer 0, .buffer 1, .buffer 2, .buffer 3, .buffer 4] ∧
      Intact shared.2.log shared.1.kernels shared.1.held ∧ SafeLog shared.2.log ∧
      inUse shared.1.kernels shared.1.held = [.buffer 4, .buffer 0] := by
  have hs : Reached Session.sampleFrontEnd shared.1 shared.2 := Session.reached_sample _
  obtain ⟨-, hsafe, -, hintact, -⟩ := destroyed_unreferenced hs
  exact ⟨hs, by decide +kernel, by decide +kernel, hintact, hsafe, by decide +kernel⟩

end Histories

end ComputeKernel
