import ComputeKernel.Proofs.History
import ComputeKernel.Proofs.Reflection

/-!
# Coherence of bind groups

Over whole histories of a session, with failures of the device anywhere, every dispatch is made with
bind groups that hold what the slots and the uniforms hold at that moment, although bind groups are
kept from one run to the next (`dispatched_groups_current`).
-/

namespace ComputeKernel

open Device Relation Shader

section Accounts

open Kernel

/-- The bind groups that were made in the runs of a kernel. -/
def History.madeBy (i : Nat) (h : History) : List (String × BindGroup) :=
  h.flatMap fun
    | (.run j _ _, o) => if j = i then madeGroups o.failure? o.events else []
    | _ => []

/-- A kernel that keeps account of the bind groups that were made in its runs. -/
structure Kept (made : List (String × BindGroup)) (k : Kernel) : Prop extends Coherent k where
  builds : k.builds = made.length
  params : k.paramGroup.map (·.group) = lastParamGroup? made
  uniformGroups : k.uniformGroup.toList.length = uniformGroups made

variable {made made' : List (String × BindGroup)} {k k' : Kernel}

/-- The account goes on with the bind groups of another run. -/
theorem Kept.append (h : Kept made k) (ha : Accounts made' k k') (hc : Coherent k') :
    Kept (made ++ made') k' where
  toCoherent := hc
  builds := by rw [ha.builds, h.builds, List.length_append]
  params := by
    rw [ha.params, h.params]
    simp [lastParamGroup?]
  uniformGroups := by
    rw [ha.uniforms, h.uniformGroups]
    simp [Kernel.uniformGroups]

theorem Kept.prepares {r r' : Running} (h : Kept made r.kernel) (hp : Prepares r r') :
    Kept made r'.kernel := by
  have ha := h.append (.nil hp.builds hp.paramGroup hp.uniformGroup) (hp.coherent h.toCoherent)
  rwa [List.append_nil] at ha

/-- A kernel that is dropped made its bind groups all the same. -/
theorem Kept.emptied (h : Kept made k) : Kept made k.emptied :=
  { h with slots := (List.length_map _).trans h.slots }

theorem bound?_emptied (k : Kernel) (i : Nat) : k.emptied.bound? i = none := by
  unfold bound? Kernel.emptied
  rw [List.getElem?_map]
  cases k.slots[i]? <;> rfl

theorem bound?_fresh (program : Program) (groups : Option Extent) (target : RenderTarget)
    (i : Nat) : (fresh program groups target).bound? i = none := by
  unfold bound? fresh
  rw [List.getElem?_map]
  cases program.layout.params[i]? <;> rfl

theorem uniformBuffer?_fresh (program : Program) (groups : Option Extent) (target : RenderTarget)
    (i : Nat) : (fresh program groups target).uniformBuffer? i = none := by
  unfold uniformBuffer? fresh
  rw [List.getElem?_map]
  cases program.layout.uniforms[i]? <;> rfl

theorem kept_fresh {program : Program} {groups : Option Extent} {target : RenderTarget}
    (h : ∀ p, groupLayouts program = .ok p → p.uniforms.length = program.layout.uniforms.length) :
    Kept [] (fresh program groups target) where
  slots := by simp [fresh]
  uniforms := by simp [fresh]
  room i slot b hi hb := by
    rw [uniformBuffer?_fresh] at hb
    cases hb
  laid p hp := by
    have hl := h p hp
    unfold Pipeline.hasUniforms fresh
    cases hu : p.uniforms <;> cases hp : program.layout.uniforms <;> simp_all
  pipeline := by simp [fresh]
  paramGroup := by simp [fresh]
  uniformGroup := by simp [fresh]
  builds := rfl
  params := rfl
  uniformGroups := rfl

/-- The kernels of a session keep account of the bind groups that were made in their runs. -/
structure Accounted (h : History) (s : Session) : Prop where
  kept : ∀ i k, s.kernels[i]? = some k → Kept (h.madeBy i) k
  absent : ∀ i, s.kernels.length ≤ i → h.madeBy i = []

variable {frontEnd : FrontEnd} {h h' : History} {s s' : Session} {i : Nat}

theorem Accounted.same (ha : Accounted h s) (hk : s'.kernels = s.kernels)
    (hm : ∀ i, h'.madeBy i = h.madeBy i) : Accounted h' s' where
  kept j := by rw [hk, hm]; exact ha.kept j
  absent j := by rw [hk, hm]; exact ha.absent j

theorem Accounted.set (ha : Accounted h s) (hs : s'.kernels = s.kernels.set i k')
    (hk : s.kernels[i]? = some k) (hk' : Kept (h'.madeBy i) k')
    (hm : ∀ j, j ≠ i → h'.madeBy j = h.madeBy j) : Accounted h' s' where
  kept j kj hj := by
    rw [hs, List.getElem?_set] at hj
    split at hj
    · rename_i hij
      subst hij
      split at hj <;> cases hj
      exact hk'
    · rename_i hij
      rw [hm j (Ne.symm hij)]
      exact ha.kept j kj hj
  absent j hj := by
    rw [hs, List.length_set] at hj
    obtain ⟨hi, -⟩ := List.getElem?_eq_some_iff.1 hk
    rw [hm j (by omega)]
    exact ha.absent j hj

theorem hold_kernels (x : Resource) : (s.hold x).kernels = s.kernels := by
  cases x <;> rfl

/-- Only runs make bind groups. -/
theorem Accounted.move {c : Command} (ha : Accounted h s) (hm : Session.Move frontEnd c s s') :
    Accounted h s' := by
  cases hm with
  | use _ _ => exact ha.same rfl fun _ => rfl
  | blits _ => exact ha.same rfl fun _ => rfl
  | make _ _ => exact ha.same (hold_kernels _) fun _ => rfl
  | take _ _ => exact ha.same (hold_kernels _) fun _ => rfl
  | drop x => exact ha.same (Session.release_kernels x) fun _ => rfl
  | dropKernel hk => exact ha.set rfl hk (ha.kept _ _ hk).emptied fun _ _ => rfl
  | @kernel source config program log hc =>
    refine ⟨fun j kj hj => ?_, fun j hj => ha.absent j ?_⟩
    · rw [List.getElem?_append] at hj
      split at hj
      · exact ha.kept j kj hj
      · rename_i hl
        rw [ha.absent j (by omega), List.mem_singleton.1 (List.mem_of_getElem? hj)]
        exact kept_fresh fun p hp => compile_uniforms hc hp
    · simp at hj
      omega
  | @groups i k hk g =>
    exact ha.set rfl hk { ha.kept _ _ hk with } fun _ _ => rfl
  | @uniform i k name values _ hk =>
    have hr := Kernel.prepares_of_steps (Kernel.setUniform_steps (r := s.starting k) name values
      (ha.kept _ _ hk).uniforms)
    exact ha.set rfl hk ((ha.kept _ _ hk).prepares (r := s.starting k) hr) fun _ _ => rfl

theorem madeBy_append (c : Command) (o : Session.Outcome) (j : Nat) :
    History.madeBy j (h ++ [(c, o)]) = h.madeBy j ++ History.madeBy j [(c, o)] := by
  simp [History.madeBy]

/-- What a run shows to have been made is what its kernel counts. -/
theorem Accounted.run (ha : Accounted h s) (hq : s.device.events = [])
    (args : List (Argument Handle)) (given : List Handle) {o : Session.Outcome}
    (hr : o.reply = (s.run i args given).reply)
    (he : o.events = (s.run i args given).session.device.events) :
    Accounted (h ++ [(.run i args given, o)]) (s.run i args given).session := by
  rcases s.run_step i args given with ⟨-, hn⟩ | ⟨resources, k, -, hk, hs, slots, builds, hr'⟩
  · refine ha.same (by rw [hn]; rfl) fun j => ?_
    rw [hn] at hr he
    have he' : o.events = [] := he.trans hq
    simp [History.madeBy, madeGroups, he']
  · replace hk := Session.getElem?_of_kernel? hk
    have hf : o.failure? = failure?
        (Kernel.run ((s.releaseAll given).heldOutside i) resources (s.starting k)) := by
      rw [Session.Outcome.failure?, hr, hr']
    obtain ⟨es, hd, hacc, hc⟩ := run_accounts (r := s.starting k)
      ((s.releaseAll given).heldOutside i) resources (ha.kept i k hk).toCoherent
    have he' : o.events = es := by
      rw [he, hs]
      exact hd.trans (by rw [Session.starting, hq, List.nil_append])
    rw [hs]
    refine ha.set (by rw [Session.finish, Session.releaseAll_kernels]) hk ?_ fun j hj => ?_
    · rw [madeBy_append]
      simpa [History.madeBy, hf, he'] using (ha.kept i k hk).append hacc hc
    · simp [History.madeBy, Ne.symm hj]

theorem Accounted.perform (ha : Accounted h s) (c : Command) :
    Accounted (h ++ [(c, (s.perform frontEnd c).1)]) (s.perform frontEnd c).2 := by
  have hq : Accounted h s.quiet := ha.same rfl fun _ => rfl
  by_cases hc : ∃ i args given, c = .run i args given
  · obtain ⟨i, args, given, rfl⟩ := hc
    exact hq.run rfl args given rfl rfl
  · have hm : ReflTransGen (Session.Move frontEnd c) s.quiet (s.quiet.step frontEnd c).session :=
      Session.step_moves fun i args given he => hc ⟨i, args, given, he⟩
    refine (kept_of_steps (fun hm ha => ha.move hm) hm hq).same rfl fun j => ?_
    rw [madeBy_append]
    cases c with
    | run i args given => exact absurd ⟨i, args, given, rfl⟩ hc
    | _ => simp [History.madeBy]

theorem Reached.accounted (hs : Reached frontEnd s h) : Accounted h s := by
  induction hs with
  | start hs =>
    have hk := (Session.start_empty hs).kernels
    exact ⟨by simp [hk], fun _ _ => rfl⟩
  | perform _ c ih => exact ih.perform c

end Accounts

section Dispatches

open Kernel

/-- The state of a run once it got past the binding of its arguments, if it gets there. -/
def Session.prepared? (s : Session) (i : Nat) (args : List (Argument Handle))
    (given : List Handle) : Option Running :=
  match args.mapM (Argument.resolve? s.resource?), s.kernel? i with
  | some resources, some k =>
    match prepare ((s.releaseAll given).heldOutside i) resources (s.starting k) with
    | .ok _ r => some r
    | .error _ _ => none
  | _, _ => none

variable {frontEnd : FrontEnd} {h : History} {s : Session} {i : Nat} {k : Kernel}

/-- The bind groups of a dispatch are current: they hold what is in the slots, and the buffers of
the uniforms if there are any. -/
structure Current (k : Kernel) (params : BindGroup) (uniforms : Option BindGroup) : Prop where
  slots : params.map some = k.slotIdentity
  grouped : uniforms.isSome ↔ k.program.layout.uniforms ≠ []
  buffers : ∀ g, uniforms = some g → g.map some = k.uniformIdentity

theorem Kernel.LaunchEvent.current {p : Pipeline} {groups : Extent} {params : BindGroup}
    {uniforms : Option BindGroup} (hr : Ready k p) (hc : Coherent k)
    (h : LaunchEvent p k (.dispatch groups params uniforms)) : Current k params uniforms := by
  cases h
  have hu := hc.laid p (hc.pipeline p hr.pipeline)
  refine ⟨hr.map_resources, ?_, ?_⟩
  · cases hl : k.program.layout.uniforms <;> simp [hu, hl]
  · intro g hg
    split at hg <;> cases hg
    exact hr.map_uniformIds

/-- The group of the slots is stale exactly if the last one that was made is not of what is in them.
-/
theorem Kept.isStale_iff {made : List (String × BindGroup)} (hk : Kept made k)
    {identity : List (Option ResourceId)} : isStale k.paramGroup identity = true ↔
      ∀ g, lastParamGroup? made = some g → g.map some ≠ identity := by
  rw [← hk.params]
  cases hp : k.paramGroup with
  | none => simp [isStale]
  | some c => simp [isStale, hk.paramGroup c hp]

/-- What the events of a run say about the bind groups of its kernel, which ends as `k'`. The run
gets past the binding of its arguments in the state `prepared`, if it gets there. -/
structure Shows (made : List (String × BindGroup)) (prepared : Option Running)
    (o : Session.Outcome) (k' : Kernel) : Prop where
  current : ∀ groups params uniforms, .dispatch groups params uniforms ∈ o.events →
    ∃ r, prepared = some r ∧ k'.slots = r.kernel.slots ∧
      k'.uniformBuffers = r.kernel.uniformBuffers ∧ Current k' params uniforms
  dispatched : ∀ slots builds, o.reply = .ran slots builds none →
    ∃ groups params uniforms, .dispatch groups params uniforms ∈ o.events
  asked : ∀ r, prepared = some r → ((∃ g, .createBindGroup "webcs_params" g ∈ o.events) ↔
    ∀ g, lastParamGroup? made = some g → g.map some ≠ r.kernel.slotIdentity)

/-- A run that does not get to its bind groups shows none. -/
theorem shows_unprepared {made : List (String × BindGroup)} {o : Session.Outcome}
    (he : ∀ e ∈ o.events, Event.usesGroups e = false)
    (hr : ∀ slots builds, o.reply ≠ .ran slots builds none) : Shows made none o k where
  current groups params uniforms hm := by simpa [Event.usesGroups] using he _ hm
  dispatched slots builds h := absurd h (hr slots builds)
  asked := by simp

theorem run_shows {made : List (String × BindGroup)} (hq : s.device.events = [])
    (hk : s.kernels[i]? = some k) (hkept : Kept made k) (args : List (Argument Handle))
    (given : List Handle) {o : Session.Outcome} (hr : o.reply = (s.run i args given).reply)
    (he : o.events = (s.run i args given).session.device.events) :
    ∃ k', (s.run i args given).session.kernels[i]? = some k' ∧
      Shows made (s.prepared? i args given) o k' := by
  unfold Session.prepared?
  rcases s.run_step i args given with
    ⟨hn, hs⟩ | ⟨resources, k₀, ha, hk₀, hs, slots, builds, hr'⟩
  · rw [hs] at hr he
    refine ⟨k, by rw [hs]; exact hk, ?_⟩
    have hshow : Shows made none o k :=
      shows_unprepared (by rw [he]; simp [Session.Step.answer, hq])
        (by simp [hr, Session.Step.answer])
    rcases hn with ha | hn
    · rw [ha]
      exact hshow
    · rw [hn]
      split
      · rename_i hk'
        cases hk'
      · exact hshow
  cases hk.symm.trans (Session.getElem?_of_kernel? hk₀)
  have hi : i < (s.releaseAll given).kernels.length := by
    rw [Session.releaseAll_kernels]
    exact (List.getElem?_eq_some_iff.1 hk).1
  refine ⟨_, by rw [hs]; exact List.getElem?_set_self hi, ?_⟩
  rw [hr'] at hr
  rw [hs] at he
  simp only [ha, hk₀]
  rcases run_cases (r := s.starting k) ((s.releaseAll given).heldOutside i) resources
    hkept.toCoherent with
    ⟨f, r', hp, hx, hpr, -⟩ | ⟨p, groups, r₁, es, hp, hpr, hready, hc, hl, hst⟩
  · obtain ⟨es, hes, hn⟩ := hpr.events
    have he' : o.events = es := by
      rw [he, hx]
      exact hes.trans (by rw [Session.starting, hq, List.nil_append])
    simp only [hp]
    exact shows_unprepared (he' ▸ hn) (by simp [hr, hx, failure?])
  · obtain ⟨es₀, hes₀, hn⟩ := hpr.events
    obtain ⟨_, _, _, hkernel⟩ := hl.launches.kernel
    have he' : o.events = es₀ ++ es := by
      rw [he]
      refine hl.launches.events.trans ?_
      rw [hes₀, Session.starting, hq, List.nil_append]
    have hmem : ∀ e, Event.usesGroups e = true → (e ∈ o.events ↔ e ∈ es) := by
      intro e hg
      rw [he', List.mem_append, or_iff_right]
      exact fun hm => absurd (hn e hm) (by simp [hg])
    simp only [hp]
    refine ⟨fun groups params uniforms hd => ?_, fun slots' builds' hr₀ => ?_, fun r hr₀ => ?_⟩
    · have hcur := (hl.launches.launch _ ((hmem _ rfl).1 hd)).current hready hc
      refine ⟨r₁, rfl, by rw [hkernel], by rw [hkernel], ?_⟩
      rw [hkernel]
      exact ⟨hcur.slots, hcur.grouped, hcur.buffers⟩
    · rw [hr, Reply.ran.injEq] at hr₀
      obtain ⟨groups', params, uniforms, hd⟩ := hl.dispatches hr₀.2.2
      exact ⟨groups', params, uniforms, (hmem _ rfl).2 hd⟩
    · cases hr₀
      have hgroup : r₁.kernel.paramGroup = k.paramGroup := hpr.paramGroup
      rw [← hkept.isStale_iff, ← hgroup, ← hst]
      exact exists_congr fun g => hmem _ rfl

/-- Bind groups stay coherent over a whole session. The bind groups of every dispatch are current.
A kernel counts the bind groups that were made in its runs, of which at most one is for its
uniforms, and a run that gets past the binding of its arguments asks for one for the slots exactly
if the last one that was made holds something else. -/
theorem dispatched_groups_current (hs : Reached frontEnd s h) (hk : s.kernels[i]? = some k) :
    k.builds = (h.madeBy i).length ∧ uniformGroups (h.madeBy i) ≤ 1 ∧
      ∀ args given, ∃ k', (s.perform frontEnd (.run i args given)).2.kernels[i]? = some k' ∧
        Shows (h.madeBy i) (s.quiet.prepared? i args given)
          (s.perform frontEnd (.run i args given)).1 k' := by
  have hkept := hs.accounted.kept i k hk
  refine ⟨hkept.builds, ?_, fun args given => ?_⟩
  · rw [← hkept.uniformGroups]
    cases k.uniformGroup <;> simp
  · exact run_shows (s := s.quiet) rfl hk hkept args given rfl rfl

/-- A session in which a run failed at the bind group of the uniforms. -/
def interrupted : Session × History :=
  Session.sample.replay Session.sampleFrontEnd [
    .createKernel (.literal "") none,
    .queueError ⟨.createBindGroup, .outOfMemory⟩ 1,
    .run 0 [.host (.u32 [1, 2]), .group 1, .group 1, .group 1]]

theorem dispatched_groups_current_retried :
    let args := [.host (.u32 [3, 4, 5]), .group 1, .group 1, .group 1]
    let (o, s) := interrupted.1.perform Session.sampleFrontEnd (.run 0 args)
    ∃ k k', interrupted.1.kernels[0]? = some k ∧ s.kernels[0]? = some k' ∧
      k.builds = (interrupted.2.madeBy 0).length ∧ (interrupted.2.madeBy 0).length = 1 ∧
      Shows (interrupted.2.madeBy 0) (interrupted.1.quiet.prepared? 0 args []) o k' ∧
      .dispatch ⟨1, 1, 1⟩ [.buffer 2] (some [.buffer 1]) ∈ o.events := by
  intro args
  obtain ⟨k, hk⟩ := Option.isSome_iff_exists.1
    (show (interrupted.1.kernels[0]?).isSome = true by decide +kernel)
  obtain ⟨hb, -, hrun⟩ := dispatched_groups_current (Session.reached_sample _) hk
  obtain ⟨k', hk', hshow⟩ := hrun args []
  exact ⟨k, k', hk, hk', hb, by decide +kernel, hshow, by decide +kernel⟩

end Dispatches

end ComputeKernel
