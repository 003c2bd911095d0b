import ComputeKernel.Proofs.Preparation

/-!
# Bind groups

A kernel that is ready is launched with bind groups that hold exactly what is in its slots and the
buffers of its uniforms. A bind group is asked for only if what it has to hold is not what the last
one held, and the kernel keeps it only if the device makes it (`Launches`).
-/

namespace ComputeKernel

open Device RunM

namespace Kernel

section Identity

/-- The buffers of the uniforms that have one. -/
def uniformIds (k : Kernel) : List ResourceId := k.uniformIdentity.filterMap id

theorem map_some_filterMap {α β : Type} {f : α → β} :
    ∀ (l : List (Option α)), (∀ i < l.length, ((l[i]?).join).isSome) →
      (l.filterMap fun x => x.map f).map some = l.map fun x => x.map f
  | [], _ => rfl
  | none :: l, h => absurd (h 0 (by simp)) (by simp)
  | some x :: l, h => by
    have ih := map_some_filterMap (f := f) l fun i hi => by
      simpa using h (i + 1) (by simpa using hi)
    simp [ih]

variable {k : Kernel} {p : Pipeline}

theorem Ready.map_resources (h : Ready k p) : k.resources.map some = k.slotIdentity :=
  map_some_filterMap k.slots h.occupied

theorem Ready.map_uniformIds (h : Ready k p) : k.uniformIds.map some = k.uniformIdentity := by
  unfold uniformIds uniformIdentity
  rw [List.filterMap_map]
  exact map_some_filterMap k.uniformBuffers h.filled

theorem slotGroup_eq :
    ∀ (params : List ParamSlot) (slots : List (Option Bound)), params.length = slots.length →
      (∀ i < slots.length, ((slots[i]?).join).isSome) →
      slotGroup params slots = .ok (slots.filterMap fun b => b.map (·.resource.id))
  | [], [], _, _ => rfl
  | [], _ :: _, h, _ => absurd h (by simp)
  | _ :: _, [], h, _ => absurd h (by simp)
  | _ :: _, none :: _, _, h => absurd (h 0 (by simp)) (by simp)
  | param :: params, some b :: slots, hl, h => by
    have ih := slotGroup_eq params slots (by simpa using hl) fun i hi => by
      simpa using h (i + 1) (by simpa using hi)
    simp [slotGroup, ih, Except.map]

theorem Ready.slotGroup (h : Ready k p) :
    slotGroup k.program.layout.params k.slots = .ok k.resources :=
  slotGroup_eq _ _ h.slots.symm h.occupied

end Identity

section Refreshing

variable (r : Running)

/-- The state after the device was asked for a bind group. -/
def asked (label : String) (group : BindGroup) : Running :=
  { r with device := r.device.attempted (·.createBindGroup label group) }

/-- The state after a bind group for the slots was made. -/
def withParamGroup : Running :=
  { asked r "webcs_params" r.kernel.resources with
    kernel := { r.kernel with
      paramGroup := some ⟨r.kernel.slotIdentity, r.kernel.resources⟩
      builds := r.kernel.builds + 1 } }

/-- The state after a bind group for the uniforms was made. -/
def withUniformGroup : Running :=
  { asked r "webcs_uniforms" r.kernel.uniformIds with
    kernel := { r.kernel with
      uniformGroup := some ⟨r.kernel.uniformIdentity, r.kernel.uniformIds⟩
      builds := r.kernel.builds + 1 } }

theorem buildGroup_cases (label : String) (group : BindGroup) :
    buildGroup label group r = .ok () (asked r label group) ∨
      ∃ e, buildGroup label group r =
        .error (.backend (.raised .createBindGroup e)) (asked r label group) := by
  unfold buildGroup
  rcases checked_cases r.device .createBindGroup
    (fun d => ((), d.createBindGroup label group)) with h | ⟨e, h⟩
  · exact .inl (onDevice_of_ok h)
  · exact .inr ⟨e, onDevice_of_error h⟩

variable {r} {p : Pipeline}

theorem refreshParamGroup_cases (hr : Ready r.kernel p) :
    (isStale r.kernel.paramGroup r.kernel.slotIdentity = false ∧
        refreshParamGroup r = .ok () r) ∨
      isStale r.kernel.paramGroup r.kernel.slotIdentity = true ∧
        (refreshParamGroup r = .ok () (withParamGroup r) ∨
          ∃ e, refreshParamGroup r = .error (.backend (.raised .createBindGroup e))
            (asked r "webcs_params" r.kernel.resources)) := by
  unfold refreshParamGroup
  rw [get_bind]
  simp only [hr.slotGroup]
  cases hs : isStale r.kernel.paramGroup r.kernel.slotIdentity with
  | false => exact .inl ⟨rfl, rfl⟩
  | true =>
    refine .inr ⟨rfl, ?_⟩
    rcases buildGroup_cases r "webcs_params" r.kernel.resources with h | ⟨e, h⟩
    · exact .inl (bind_of_ok h)
    · exact .inr ⟨e, bind_of_error h⟩

theorem refreshUniformGroup_cases (r : Running) :
    (isStale r.kernel.uniformGroup r.kernel.uniformIdentity = false ∧
        refreshUniformGroup r = .ok () r) ∨
      isStale r.kernel.uniformGroup r.kernel.uniformIdentity = true ∧
        (refreshUniformGroup r = .ok () (withUniformGroup r) ∨
          ∃ e, refreshUniformGroup r = .error (.backend (.raised .createBindGroup e))
            (asked r "webcs_uniforms" r.kernel.uniformIds)) := by
  unfold refreshUniformGroup
  rw [get_bind]
  simp only
  cases hs : isStale r.kernel.uniformGroup r.kernel.uniformIdentity with
  | false => exact .inl ⟨rfl, rfl⟩
  | true =>
    refine .inr ⟨rfl, ?_⟩
    rcases buildGroup_cases r "webcs_uniforms" r.kernel.uniformIds with h | ⟨e, h⟩
    · exact .inl (bind_of_ok h)
    · exact .inr ⟨e, bind_of_error h⟩

/-- The state after a kernel was dispatched. -/
def dispatched (groups : Extent) (params : BindGroup) (uniforms : Option BindGroup)
    (r : Running) : Running :=
  { r with device := r.device.attempted (·.submitDispatch groups params uniforms) }

theorem dispatch_cases (p : Pipeline) (groups : Extent) {c : CachedGroup}
    (hc : r.kernel.paramGroup = some c) :
    let r' := dispatched groups c.group
      (if p.hasUniforms then r.kernel.uniformGroup.map (·.group) else none) r
    dispatch p groups r = .ok () r' ∨
      ∃ e, dispatch p groups r = .error (.backend (.raised .dispatch e)) r' := by
  intro r'
  unfold dispatch
  rw [get_bind]
  simp only [hc]
  rcases checked_cases r.device .dispatch (fun d => ((), d.submitDispatch groups c.group
      (if p.hasUniforms then r.kernel.uniformGroup.map (·.group) else none))) with h | ⟨e, h⟩
  · exact .inl (onDevice_of_ok h)
  · exact .inr ⟨e, onDevice_of_error h⟩

end Refreshing

section Accounting

/-- The bind group that an event asks for, with its label. -/
def Event.bindGroup? : Event → Option (String × BindGroup)
  | .createBindGroup label group => some (label, group)
  | _ => none

/-- Whether a run failed at the making of a bind group. -/
def failedBuild : Option Failure → Bool
  | some (.backend (.raised .createBindGroup _)) => true
  | _ => false

/-- The bind groups that were made, given how a run failed: if it failed at the making of one, this
is the last that was asked for. -/
def madeGroups (failure : Option Failure) (es : List Event) : List (String × BindGroup) :=
  let asked := es.filterMap Event.bindGroup?
  if failedBuild failure then asked.dropLast else asked

/-- The last bind group that was made for the slots. -/
def lastParamGroup? (made : List (String × BindGroup)) : Option BindGroup :=
  ((made.filter (·.1 == "webcs_params")).map (·.2)).getLast?

/-- How many bind groups were made for the uniforms. -/
def uniformGroups (made : List (String × BindGroup)) : Nat := made.countP (·.1 == "webcs_uniforms")

/-- What a kernel keeps of the bind groups that are made. -/
structure Accounts (made : List (String × BindGroup)) (k k' : Kernel) : Prop where
  builds : k'.builds = k.builds + made.length
  params : k'.paramGroup.map (·.group) = (lastParamGroup? made).or (k.paramGroup.map (·.group))
  uniforms : k'.uniformGroup.toList.length = k.uniformGroup.toList.length + uniformGroups made

theorem Accounts.nil {k k' : Kernel} (hb : k'.builds = k.builds)
    (hp : k'.paramGroup = k.paramGroup) (hu : k'.uniformGroup = k.uniformGroup) :
    Accounts [] k k' := ⟨hb, by rw [hp]; rfl, by rw [hu]; rfl⟩

theorem Accounts.append {made made' : List (String × BindGroup)} {k₁ k₂ k₃ : Kernel}
    (h : Accounts made k₁ k₂) (h' : Accounts made' k₂ k₃) : Accounts (made ++ made') k₁ k₃ where
  builds := by rw [h'.builds, h.builds, List.length_append, Nat.add_assoc]
  params := by
    rw [h'.params, h.params]
    simp [lastParamGroup?, Option.or_assoc]
  uniforms := by
    rw [h'.uniforms, h.uniforms]
    simp [uniformGroups, Nat.add_assoc]

/-- The bind groups of a kernel hold what they were made for, that of the uniforms holds the
buffers that the uniforms have, and the pipeline has uniforms if the layout has. -/
structure Coherent (k : Kernel) : Prop extends Shaped k where
  laid : ∀ p, groupLayouts k.program = .ok p → p.hasUniforms = !k.program.layout.uniforms.isEmpty
  pipeline : ∀ p, k.pipeline = some p → groupLayouts k.program = .ok p
  paramGroup : ∀ c, k.paramGroup = some c → c.group.map some = c.identity
  uniformGroup : ∀ c, k.uniformGroup = some c →
    c.group.map some = c.identity ∧ c.identity = k.uniformIdentity

/-- The events of the launch of a kernel: they ask for a bind group of what is in the slots or of
the buffers of the uniforms, or they dispatch with the two. -/
inductive LaunchEvent (p : Pipeline) (k : Kernel) : Event → Prop
  | params : LaunchEvent p k (.createBindGroup "webcs_params" k.resources)
  | uniforms : LaunchEvent p k (.createBindGroup "webcs_uniforms" k.uniformIds)
  | dispatch (groups : Extent) : LaunchEvent p k
      (.dispatch groups k.resources (if p.hasUniforms then some k.uniformIds else none))

/-- What a part of the launch of a kernel does. -/
structure Launches (p : Pipeline) (es : List Event) (made : List (String × BindGroup))
    (r r' : Running) : Prop extends Accounts made r.kernel r'.kernel where
  kernel : ∃ params uniforms builds, r'.kernel =
    { r.kernel with paramGroup := params, uniformGroup := uniforms, builds := builds }
  ready : Ready r'.kernel p
  coherent : Coherent r'.kernel
  memory : r'.device.buffers = r.device.buffers ∧ r'.device.textures = r.device.textures
  setup : r'.device.setup = r.device.setup
  log : r'.log = r.log
  events : r'.device.events = r.device.events ++ es
  launch : ∀ e ∈ es, LaunchEvent p r.kernel e

theorem Launches.append {p : Pipeline} {es es' : List Event}
    {made made' : List (String × BindGroup)} {r₁ r₂ r₃ : Running}
    (h : Launches p es made r₁ r₂) (h' : Launches p es' made' r₂ r₃) :
    Launches p (es ++ es') (made ++ made') r₁ r₃ where
  toAccounts := h.toAccounts.append h'.toAccounts
  kernel := by
    obtain ⟨_, _, _, hk⟩ := h.kernel
    obtain ⟨params, uniforms, builds, hk'⟩ := h'.kernel
    exact ⟨params, uniforms, builds, by rw [hk', hk]⟩
  ready := h'.ready
  coherent := h'.coherent
  memory := ⟨h'.memory.1.trans h.memory.1, h'.memory.2.trans h.memory.2⟩
  setup := h'.setup.trans h.setup
  log := h'.log.trans h.log
  events := by rw [h'.events, h.events, List.append_assoc]
  launch e he := by
    rcases List.mem_append.1 he with he | he
    · exact h.launch e he
    · have hl := h'.launch e he
      obtain ⟨_, _, _, hk⟩ := h.kernel
      rw [hk] at hl
      cases hl
      · exact .params
      · exact .uniforms
      · exact .dispatch _

end Accounting

section Launching

variable {p : Pipeline} {r : Running}

/-- A call that records one event of a launch. -/
theorem launches_call {calls : Device → Device} {e : Event} (hr : Ready r.kernel p)
    (hc : Coherent r.kernel) (he : LaunchEvent p r.kernel e)
    (hm : (r.device.attempted calls).buffers = r.device.buffers ∧
      (r.device.attempted calls).textures = r.device.textures)
    (hs : (r.device.attempted calls).setup = r.device.setup)
    (hd : (r.device.attempted calls).events = r.device.events ++ [e]) :
    Launches p [e] [] r { r with device := r.device.attempted calls } where
  toAccounts := .nil rfl rfl rfl
  kernel := ⟨_, _, _, rfl⟩
  ready := hr
  coherent := hc
  memory := hm
  setup := hs
  log := rfl
  events := hd
  launch := by simpa using he

theorem launches_asked {label : String} {group : BindGroup} (hr : Ready r.kernel p)
    (hc : Coherent r.kernel) (he : LaunchEvent p r.kernel (.createBindGroup label group)) :
    Launches p [.createBindGroup label group] [] r (asked r label group) :=
  launches_call hr hc he ⟨rfl, rfl⟩ rfl rfl

theorem launches_params (hr : Ready r.kernel p) (hc : Coherent r.kernel) :
    Launches p [.createBindGroup "webcs_params" r.kernel.resources]
      [("webcs_params", r.kernel.resources)] r (withParamGroup r) where
  builds := rfl
  params := rfl
  uniforms := rfl
  kernel := ⟨_, _, _, rfl⟩
  ready := { hr with }
  coherent :=
    { hc with
      paramGroup := by
        intro c h
        cases h
        exact hr.map_resources }
  memory := ⟨rfl, rfl⟩
  setup := rfl
  log := rfl
  events := rfl
  launch := by simpa using LaunchEvent.params

theorem launches_uniforms (hr : Ready r.kernel p) (hc : Coherent r.kernel)
    (hn : r.kernel.uniformGroup = none) :
    Launches p [.createBindGroup "webcs_uniforms" r.kernel.uniformIds]
      [("webcs_uniforms", r.kernel.uniformIds)] r (withUniformGroup r) where
  builds := rfl
  params := rfl
  uniforms := by rw [hn]; rfl
  kernel := ⟨_, _, _, rfl⟩
  ready := { hr with }
  coherent :=
    { hc with
      uniformGroup := by
        intro c h
        cases h
        exact ⟨hr.map_uniformIds, rfl⟩ }
  memory := ⟨rfl, rfl⟩
  setup := rfl
  log := rfl
  events := rfl
  launch := by simpa using LaunchEvent.uniforms

/-- A bind group that is not stale is there and was made for the same resources. -/
theorem exists_of_isStale {cached : Option CachedGroup} {identity : List (Option ResourceId)}
    (h : isStale cached identity = false) : ∃ c, cached = some c ∧ c.identity = identity := by
  cases cached with
  | none => cases h
  | some c => exact ⟨c, rfl, by simpa [isStale] using h⟩

theorem Coherent.isStale_uniforms {k : Kernel} (hc : Coherent k) :
    isStale k.uniformGroup k.uniformIdentity = k.uniformGroup.isNone := by
  cases hu : k.uniformGroup with
  | none => rfl
  | some c => simp [isStale, (hc.uniformGroup c hu).2]

/-- How a computation failed. -/
def failure? {α : Type} : EStateM.Result Failure Running α → Option Failure
  | .ok _ _ => none
  | .error f _ => some f

/-- The rest of a launch, which ends with some result. It makes all the bind groups it asks for
unless it fails at the last of them, and it dispatches if the device does not fail. -/
structure LaunchEnd (p : Pipeline) (es : List Event) (r : Running)
    (x : EStateM.Result Failure Running Unit) : Prop where
  made : ∃ made, Launches p es made r (endState x) ∧
    (failedBuild (failure? x) = false ∧ es.filterMap Event.bindGroup? = made ∨
      failedBuild (failure? x) = true ∧ ∃ g, es.filterMap Event.bindGroup? = made ++ [g])
  dispatches : failure? x = none → ∃ groups params uniforms, .dispatch groups params uniforms ∈ es
  fails : ∀ f, failure? x = some f → Fault f

theorem LaunchEnd.launches {es : List Event} {x : EStateM.Result Failure Running Unit}
    (h : LaunchEnd p es r x) : Launches p es (madeGroups (failure? x) es) r (endState x) := by
  obtain ⟨made, h, ⟨hf, hm⟩ | ⟨hf, g, hm⟩⟩ := h.made
  · simpa [madeGroups, hf, hm] using h
  · simpa [madeGroups, hf, hm] using h

/-- The end of a launch comes after parts that make all they ask for. -/
theorem LaunchEnd.after {es es' : List Event} {r₁ : Running}
    {x : EStateM.Result Failure Running Unit}
    (h : Launches p es (es.filterMap Event.bindGroup?) r r₁) (h' : LaunchEnd p es' r₁ x) :
    LaunchEnd p (es ++ es') r x where
  made := by
    obtain ⟨made, hm, ⟨hf, ha⟩ | ⟨hf, g, ha⟩⟩ := h'.made
    · exact ⟨_, h.append hm, .inl ⟨hf, by rw [List.filterMap_append, ha]⟩⟩
    · exact ⟨_, h.append hm, .inr ⟨hf, g, by rw [List.filterMap_append, ha, List.append_assoc]⟩⟩
  dispatches hf := by
    obtain ⟨groups, params, uniforms, hd⟩ := h'.dispatches hf
    exact ⟨groups, params, uniforms, List.mem_append_right _ hd⟩
  fails := h'.fails

theorem dispatch_launches {groups : Extent} (hr : Ready r.kernel p) (hc : Coherent r.kernel)
    (hp : isStale r.kernel.paramGroup r.kernel.slotIdentity = false)
    (hu : p.hasUniforms = true → isStale r.kernel.uniformGroup r.kernel.uniformIdentity = false) :
    LaunchEnd p [.dispatch groups r.kernel.resources
      (if p.hasUniforms then some r.kernel.uniformIds else none)] r (dispatch p groups r) := by
  have some_inj : ∀ {a b : BindGroup}, a.map some = b.map some → a = b := fun h =>
    (List.map_inj_right fun _ _ => Option.some.inj).1 h
  obtain ⟨c, hp, hi⟩ := exists_of_isStale hp
  have hg : c.group = r.kernel.resources :=
    some_inj ((hc.paramGroup c hp).trans (hi.trans hr.map_resources.symm))
  have hg' : (if p.hasUniforms then r.kernel.uniformGroup.map (·.group) else none) =
      if p.hasUniforms then some r.kernel.uniformIds else none := by
    cases hh : p.hasUniforms with
    | false => rfl
    | true =>
      obtain ⟨c', hu, hi'⟩ := exists_of_isStale (hu hh)
      rw [hu]
      exact congrArg some
        (some_inj ((hc.uniformGroup c' hu).1.trans (hi'.trans hr.map_uniformIds.symm)))
  have hl : Launches p _ [] r (dispatched groups r.kernel.resources
      (if p.hasUniforms then some r.kernel.uniformIds else none) r) :=
    launches_call hr hc (.dispatch groups) ⟨rfl, rfl⟩ rfl rfl
  have hd := dispatch_cases p groups hp
  simp only [hg, hg'] at hd
  rcases hd with h | ⟨e, h⟩ <;> rw [h] <;>
    exact ⟨⟨[], hl, .inl ⟨rfl, rfl⟩⟩, fun _ => ⟨_, _, _, List.mem_singleton_self _⟩,
      by simp [failure?, Fault.raised]⟩

/-- The part of a launch that comes after the bind group of the slots. -/
theorem uniforms_launches (groups : Extent) (hr : Ready r.kernel p) (hc : Coherent r.kernel)
    (hp : isStale r.kernel.paramGroup r.kernel.slotIdentity = false) :
    ∃ es, LaunchEnd p es r ((do
        if p.hasUniforms then refreshUniformGroup
        dispatch p groups : RunM Unit) r) ∧
      ∀ g, .createBindGroup "webcs_params" g ∉ es := by
  cases hh : p.hasUniforms with
  | false => exact ⟨_, dispatch_launches hr hc hp (by simp [hh]), by simp⟩
  | true =>
    have hs := hc.isStale_uniforms
    simp only [if_true]
    rcases refreshUniformGroup_cases r with ⟨hu, h⟩ | ⟨hu, h | ⟨e, h⟩⟩
    · rw [bind_of_ok h]
      exact ⟨_, dispatch_launches hr hc hp fun _ => hu, by simp⟩
    · rw [bind_of_ok h]
      have hl := launches_uniforms hr hc (by simpa [hs] using hu)
      exact ⟨_, .after hl (dispatch_launches hl.ready hl.coherent hp fun _ => by
        simp [withUniformGroup, isStale, uniformIdentity]), by simp⟩
    · rw [bind_of_error h]
      refine ⟨_, ⟨⟨[], launches_asked hr hc .uniforms, .inr ⟨rfl, _, rfl⟩⟩, ?_, ?_⟩, by simp⟩ <;>
        simp [failure?, Fault.raised]

/-- A launch asks for a bind group of the slots if the last one was made for other resources. -/
theorem launch_launches (groups : Extent) (hr : Ready r.kernel p) (hc : Coherent r.kernel) :
    ∃ es, LaunchEnd p es r (launch p groups r) ∧
      ((∃ g, .createBindGroup "webcs_params" g ∈ es) ↔
        isStale r.kernel.paramGroup r.kernel.slotIdentity = true) := by
  unfold launch
  rcases refreshParamGroup_cases hr with ⟨hp, h⟩ | ⟨hp, h | ⟨e, h⟩⟩
  · obtain ⟨es, hl, hn⟩ := uniforms_launches groups hr hc hp
    rw [bind_of_ok h]
    exact ⟨es, hl, by simp [hp, hn]⟩
  · have hl := launches_params hr hc
    obtain ⟨es, hl', hn⟩ := uniforms_launches groups hl.ready hl.coherent
      (by simp [withParamGroup, isStale, slotIdentity])
    rw [bind_of_ok h]
    exact ⟨_, .after hl hl', by simp [hp]⟩
  · rw [bind_of_error h]
    refine ⟨_, ⟨⟨[], launches_asked hr hc .params, .inr ⟨rfl, _, rfl⟩⟩, ?_, ?_⟩, by simp [hp]⟩ <;>
      simp [failure?, Fault.raised]

end Launching

section Runs

variable {others : List ResourceId} {args : List (Argument Resource)} {r r' : Running}

/-- Once all uniforms have buffers, a preparation leaves them alone. -/
theorem Prepares.uniformIdentity {ids : List ResourceId} (h : Prepares r r')
    (hi : ids.map some = r.kernel.uniformIdentity) :
    r'.kernel.uniformIdentity = r.kernel.uniformIdentity := by
  have hb : r'.kernel.uniformBuffers = r.kernel.uniformBuffers := by
    refine List.ext_getElem? fun i => ?_
    by_cases hl : i < r.kernel.uniformBuffers.length
    · have hs := congrArg (·[i]?) hi
      rcases hx : r.kernel.uniformBuffers[i]? with _ | _ | b
      · exact absurd hx (by simp [hl])
      · simp [Kernel.uniformIdentity, hx] at hs
      · have hu := h.uniforms i b (by simp [uniformBuffer?, hx])
        simpa [uniformBuffer?, Option.join_eq_some_iff] using hu
    · rw [List.getElem?_eq_none (by rw [h.uniformBuffers]; omega), List.getElem?_eq_none (by omega)]
  unfold Kernel.uniformIdentity
  rw [hb]

theorem Prepares.coherent (h : Prepares r r') (hc : Coherent r.kernel) : Coherent r'.kernel where
  toShaped := h.shaped hc.toShaped
  laid := by rw [h.program]; exact hc.laid
  pipeline p hp := by
    rw [h.program]
    rcases h.pipeline with he | ⟨-, p', hl, he⟩
    · exact hc.pipeline p (he ▸ hp)
    · rw [he, Option.some.injEq] at hp
      exact hp ▸ hl
  paramGroup := by rw [h.paramGroup]; exact hc.paramGroup
  uniformGroup c hu := by
    rw [h.uniformGroup] at hu
    obtain ⟨hg, hi⟩ := hc.uniformGroup c hu
    exact ⟨hg, by rw [h.uniformIdentity (hg.trans hi), hi]⟩

/-- What a run does: it asks for bind groups and dispatches only if it is prepared, and what it
does then is a launch. -/
theorem run_cases (others : List ResourceId) (args : List (Argument Resource))
    (hc : Coherent r.kernel) :
    (∃ f r', prepare others args r = .error f r' ∧ run others args r = .error f r' ∧
        Prepares r r' ∧ Coherent r'.kernel) ∨
      ∃ p groups r₁ es, prepare others args r = .ok (p, groups) r₁ ∧ Prepares r r₁ ∧
        Ready r₁.kernel p ∧ Coherent r₁.kernel ∧ LaunchEnd p es r₁ (run others args r) ∧
        ((∃ g, .createBindGroup "webcs_params" g ∈ es) ↔
          isStale r₁.kernel.paramGroup r₁.kernel.slotIdentity = true) := by
  have hp := prepare_prepares others args hc.toShaped
  unfold run
  rcases hr : prepare others args r with ⟨⟨p, groups⟩, r₁⟩ | ⟨f, r₁⟩ <;> rw [hr] at hp
  · have hready := prepare_ready hc.toShaped hr
    obtain ⟨es, hl, hs⟩ := launch_launches groups hready (hp.coherent hc)
    exact .inr ⟨p, groups, r₁, es, rfl, hp, hready, hp.coherent hc, by rwa [bind_of_ok hr], hs⟩
  · exact .inl ⟨f, r₁, rfl, bind_of_error hr, hp, hp.coherent hc⟩

theorem bindGroup?_of_usesGroups {es : List Event} (h : ∀ e ∈ es, Event.usesGroups e = false) :
    es.filterMap Event.bindGroup? = [] := by
  refine List.filterMap_eq_nil_iff.2 fun e he => ?_
  have hu := h e he
  cases e <;> simp_all [Event.usesGroups, Event.bindGroup?]

theorem madeGroups_append {failure : Option Failure} {es es' : List Event}
    (h : es.filterMap Event.bindGroup? = []) :
    madeGroups failure (es ++ es') = madeGroups failure es' := by
  simp [madeGroups, h]

/-- A kernel keeps account of the bind groups that are made in a run, wherever the run fails. -/
theorem run_accounts (others : List ResourceId) (args : List (Argument Resource))
    (hc : Coherent r.kernel) :
    ∃ es, (endState (run others args r)).device.events = r.device.events ++ es ∧
      Accounts (madeGroups (failure? (run others args r)) es) r.kernel
        (endState (run others args r)).kernel ∧
      Coherent (endState (run others args r)).kernel := by
  rcases run_cases others args hc with
    ⟨f, r', -, hr, hp, hc'⟩ | ⟨p, groups, r₁, es', -, hp, -, -, hl, -⟩
  · obtain ⟨es, he, hn⟩ := hp.events
    rw [hr]
    refine ⟨es, he, ?_, hc'⟩
    simpa [madeGroups, bindGroup?_of_usesGroups hn] using
      Accounts.nil hp.builds hp.paramGroup hp.uniformGroup
  · obtain ⟨es, he, hn⟩ := hp.events
    have hl := hl.launches
    refine ⟨es ++ es', by rw [hl.events, he, List.append_assoc], ?_, hl.coherent⟩
    rw [madeGroups_append (bindGroup?_of_usesGroups hn)]
    exact Accounts.append (.nil hp.builds hp.paramGroup hp.uniformGroup) hl.toAccounts

end Runs

end Kernel

end ComputeKernel
