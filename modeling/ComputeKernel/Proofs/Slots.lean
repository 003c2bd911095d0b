import ComputeKernel.Proofs.Launch
import ComputeKernel.Proofs.Refusal

/-!
# What a run leaves in the slots

A run binds its arguments one after the other, and each of them changes its own slot only
(`bind_turned`). So what is in a slot after the run is told from what was there before, the argument
for the slot and nothing else: it is the same, or the argument, or a resource that the slot asked
for (`Leaves`). This holds wherever the run fails, and after a run that succeeds, what is in a slot
has room for its argument (`run_leaves`). What else a run does is told by the same rule
(`run_ends`): it holds after each turn, and the work on uniforms and the launch keep it.
-/

namespace ComputeKernel

open Device Relation RunM

namespace Kernel

section Turns

/-- What can be in a slot that held `b` once an argument was bound to it, or was to be. -/
inductive Leaves (k : Kernel) (groups : Extent) (limits : Limits) (slot : ParamSlot)
    (b : Option Bound) (arg : Argument Resource) : Option Bound → Prop
  | kept : Leaves k groups limits slot b arg b
  | adopted {x : Resource} (h : arg = .resource x) :
    Leaves k groups limits slot b arg (some ⟨x, .borrowed⟩)
  | made {ask : Work Resource} {x : Resource} {d d' : Device} (hl : d.limits = limits)
    (ha : Asks k groups slot b arg ask) (h : ask d = .ok x d') :
    Leaves k groups limits slot b arg (some ⟨x, .owned⟩)

variable {t : Turn} {arg : Argument Resource} {r r' : Running}

theorem bind_leaves (groups : Extent) (arg : Argument Resource)
    (hi : t.index < r.kernel.slots.length) :
    Leaves r.kernel groups r.device.limits t.slot (r.kernel.bound? t.index) arg
      ((endState (bind t groups arg r)).kernel.bound? t.index) := by
  have hb := bind_binds t groups arg r
  generalize bind t groups arg r = x at hb ⊢
  cases hb with
  | refused _ => exact .kept
  | kept _ _ _ =>
    rw [endState_onDevice]
    exact .kept
  | adopted h =>
    rw [endState_ok, bound?_replaced hi]
    exact .adopted h
  | unmade _ _ => exact .kept
  | @made _ _ x d ha h _ =>
    rw [endState_onDevice]
    have hx : (replaced t ⟨x, .owned⟩ { r with device := d }).kernel.bound? t.index = _ :=
      bound?_replaced hi
    rw [hx]
    exact .made rfl ha h

/-- What the binding of an argument to a slot leaves alone. -/
structure Turned (t : Turn) (r r' : Running) : Prop where
  kernel : ∃ slots, r'.kernel = { r.kernel with slots := slots }
  length : r'.kernel.slots.length = r.kernel.slots.length
  others : ∀ j, j ≠ t.index → r'.kernel.bound? j = r.kernel.bound? j
  limits : r'.device.limits = r.device.limits

theorem TurnStep.limits (h : TurnStep t arg r r') : r'.device.limits = r.device.limits := by
  have moved : ∀ (new : Bound) (r₁ : Running),
      (replaced t new r₁).device.limits = r₁.device.limits := fun new r₁ =>
    limits_of_setup (replaced_frame t new r₁).2.1
  cases h with
  | lost h => exact h.limits
  | fill _ h => exact (moved _ _).trans h.limits
  | write _ h => exact h.limits
  | adopt _ => exact moved _ _

theorem bind_turned (groups : Extent) (arg : Argument Resource)
    (hi : t.index < r.kernel.slots.length) :
    Turned t r (endState (bind t groups arg r)) := by
  refine kept_of_steps (P := Turned t r) (fun h hr => ?_) (bind_steps t groups arg hi)
    ⟨⟨_, rfl⟩, rfl, fun _ _ => rfl, rfl⟩
  obtain ⟨slots, hk⟩ := hr.kernel
  obtain ⟨slots', hk'⟩ := h.kernel
  refine ⟨⟨slots', by rw [hk', hk]⟩, h.prepares.slots.trans hr.length, fun j hj => ?_,
    h.limits.trans hr.limits⟩
  rw [h.bound?_ne hj, hr.others j hj]

end Turns

section Arguments

variable {others : List ResourceId} {groups : Extent}

/-- A computation ends in a state of which `I` holds, or it fails as `E` says. -/
def Ends {σ ε α : Type} (I : σ → Prop) (E : ε → σ → Prop) : EStateM.Result ε σ α → Prop
  | .ok _ s => I s
  | .error e s => E e s

/-- What each turn takes to the next holds once all arguments are bound. -/
theorem bindAll_ends {I : Nat → Running → Prop} {E : Failure → Running → Prop} :
    ∀ (slots : List ParamSlot) (args : List (Argument Resource)) (index : Nat) (r : Running),
      (∀ (j : Nat) (arg : Argument Resource) (t : Turn) (r : Running),
        slots[j]? = some t.slot → args[j]? = some arg → t.index = index + j → I t.index r →
        Ends (I (t.index + 1)) E (bind t groups arg r)) →
      I index r →
      Ends (I (index + min slots.length args.length)) E (bindAll others groups index slots args r)
  | [], _, _, _, _, h => by
    rw [List.length_nil, Nat.zero_min]
    exact h
  | _ :: _, [], _, _, _, h => by
    rw [List.length_nil, Nat.min_zero]
    exact h
  | slot :: slots, arg :: args, index, r, ht, h => by
    have hb := ht 0 arg ⟨index, slot, others, argumentIds args⟩ r rfl rfl rfl h
    unfold bindAll
    rcases hr : bind ⟨index, slot, others, argumentIds args⟩ groups arg r with
      ⟨_, r₁⟩ | ⟨f, r₁⟩ <;> rw [hr] at hb
    · rw [bind_of_ok hr]
      have hrest := bindAll_ends (I := I) slots args (index + 1) r₁ (fun j arg t r hs ha hj hI =>
        ht (j + 1) arg t r hs ha (by omega) hI) hb
      rwa [show index + 1 + min slots.length args.length =
        index + min (slot :: slots).length (arg :: args).length by simp; omega] at hrest
    · rw [bind_of_error hr]
      exact hb

/-- What the binding of arguments to slots, numbered from 0 on, makes of a state, wherever it
fails. -/
structure Leaving (groups : Extent) (slots : List ParamSlot) (args : List (Argument Resource))
    (r r' : Running) : Prop where
  kernel : ∃ slots, r'.kernel = { r.kernel with slots := slots }
  length : r'.kernel.slots.length = r.kernel.slots.length
  limits : r'.device.limits = r.device.limits
  outside : ∀ i : Nat, slots[i]? = none ∨ args[i]? = none →
    r'.kernel.bound? i = r.kernel.bound? i
  leaves : ∀ (i : Nat) (slot : ParamSlot) (arg : Argument Resource), slots[i]? = some slot →
    args[i]? = some arg → Leaves r.kernel groups r.device.limits slot (r.kernel.bound? i) arg
      (r'.kernel.bound? i)

theorem Leaving.shaped {slots : List ParamSlot} {args : List (Argument Resource)} {r r' : Running}
    (h : Leaving groups slots args r r') (hs : Shaped r.kernel) : Shaped r'.kernel := by
  obtain ⟨s, hk⟩ := h.kernel
  have hl := h.length.trans hs.slots
  rw [hk] at hl ⊢
  exact ⟨hl, hs.uniforms, hs.room⟩

theorem Asks.congr {k k' : Kernel} {slot : ParamSlot} {b : Option Bound} {arg : Argument Resource}
    {ask : Work Resource} (hp : k'.program = k.program) (ht : k'.target = k.target)
    (h : Asks k' groups slot b arg ask) : Asks k groups slot b arg ask := by
  cases h with
  | buffer hk hb hn h => exact .buffer hk hb (hp ▸ hn) h
  | texture hk hb =>
    rw [ht]
    exact .texture hk hb
  | host hb => exact .host hb
  | image hk ht hb => exact .image hk ht hb

theorem Leaves.congr {k k' : Kernel} {limits : Limits} {slot : ParamSlot} {b b' : Option Bound}
    {arg : Argument Resource} (hp : k'.program = k.program) (ht : k'.target = k.target)
    (h : Leaves k' groups limits slot b arg b') : Leaves k groups limits slot b arg b' := by
  cases h with
  | kept => exact .kept
  | adopted h => exact .adopted h
  | made hl ha h => exact .made hl (ha.congr hp ht) h

/-- To bind all arguments, each turn may start from what the turns before it made of the other
slots, while its own slot holds what it held at the start. -/
theorem bindAll_leaving {J : Nat → Running → Prop} {F : Failure → Running → Prop}
    {slots : List ParamSlot} {args : List (Argument Resource)} {r : Running}
    (hl : slots.length ≤ r.kernel.slots.length)
    (hturn : ∀ (t : Turn) (arg : Argument Resource) (r₁ : Running), slots[t.index]? = some t.slot →
      args[t.index]? = some arg → t.index < r₁.kernel.slots.length →
      Leaving groups slots args r r₁ → r₁.kernel.bound? t.index = r.kernel.bound? t.index →
      J t.index r₁ → Ends (J (t.index + 1)) F (bind t groups arg r₁))
    (h : J 0 r) :
    Ends (fun r' => Leaving groups slots args r r' ∧ J (min slots.length args.length) r')
      (fun f r' => Leaving groups slots args r r' ∧ F f r')
      (bindAll others groups 0 slots args r) := by
  -- Before a turn, the slots that are still to come hold what they held at the start.
  let I : Nat → Running → Prop := fun j r' => Leaving groups slots args r r' ∧
    (∀ i, j ≤ i → r'.kernel.bound? i = r.kernel.bound? i) ∧ J j r'
  have hstep : ∀ (j : Nat) (arg : Argument Resource) (t : Turn) (r₁ : Running),
      slots[j]? = some t.slot → args[j]? = some arg → t.index = 0 + j → I t.index r₁ →
      Ends (I (t.index + 1)) (fun f r' => Leaving groups slots args r r' ∧ F f r')
        (bind t groups arg r₁) := by
    intro j arg t r₁ hs ha hj hI
    obtain rfl : t.index = j := by omega
    obtain ⟨hL, hahead, hJ⟩ := hI
    obtain ⟨s, hk⟩ := hL.kernel
    have hi : t.index < r₁.kernel.slots.length := by
      rw [hL.length]
      have := (List.getElem?_eq_some_iff.1 hs).1
      omega
    have hown := hahead _ (Nat.le_refl t.index)
    have hend := hturn t arg r₁ hs ha hi hL hown hJ
    have hT := bind_turned groups arg hi
    have hleaves : Leaving groups slots args r (endState (bind t groups arg r₁)) := by
      obtain ⟨s', hk'⟩ := hT.kernel
      refine ⟨⟨s', by rw [hk', hk]⟩, hT.length.trans hL.length, hT.limits.trans hL.limits, ?_, ?_⟩
      · intro i ho
        have hne : i ≠ t.index := by
          rintro rfl
          simp [hs, ha] at ho
        rw [hT.others i hne, hL.outside i ho]
      · intro i slot' arg' hs' ha'
        by_cases hij : i = t.index
        · subst hij
          cases hs.symm.trans hs'
          cases ha.symm.trans ha'
          have hb := bind_leaves groups arg hi
          rw [hown, hL.limits] at hb
          exact hb.congr (by rw [hk]) (by rw [hk])
        · rw [hT.others i hij]
          exact hL.leaves i slot' arg' hs' ha'
    rcases hr : bind t groups arg r₁ with ⟨_, r₂⟩ | ⟨f, r₂⟩ <;> rw [hr] at hend hT hleaves
    · refine ⟨hleaves, fun i hi' => ?_, hend⟩
      rw [← hahead i (by omega)]
      exact hT.others i (by omega)
    · exact ⟨hleaves, hend⟩
  have hstart : I 0 r :=
    ⟨⟨⟨_, rfl⟩, rfl, rfl, fun _ _ => rfl, fun _ _ _ _ _ => .kept⟩, fun _ _ => rfl, h⟩
  have hend : Ends _ _ (bindAll others groups 0 slots args r) :=
    bindAll_ends slots args 0 r hstep hstart
  rw [Nat.zero_add] at hend
  rcases hr : bindAll others groups 0 slots args r with ⟨_, r'⟩ | ⟨f, r'⟩ <;> rw [hr] at hend
  · exact ⟨hend.1, hend.2.2⟩
  · exact hend

end Arguments

section Runs

variable {others : List ResourceId} {groups : Extent} {args : List (Argument Resource)}
  {r r' : Running}

/-- An argument that was found right for a slot before the run did anything. -/
structure Passes (slot : ParamSlot) (arg : Argument Resource) : Prop where
  fault : argumentFault? slot arg = none
  value : arg.isParamValue = true

theorem argumentFault?_of_arguments : ∀ {slots : List ParamSlot} {args : List (Argument Resource)},
    argumentsFault? slots args = none → ∀ (i : Nat) (slot : ParamSlot) (arg : Argument Resource),
      slots[i]? = some slot → args[i]? = some arg → argumentFault? slot arg = none
  | [], _, _, _, _, _, hs, _ => by simp at hs
  | _ :: _, [], _, _, _, _, _, ha => by simp at ha
  | slot :: slots, arg :: args, h, i, slot', arg', hs, ha => by
    obtain ⟨h₁, h₂⟩ := Option.or_eq_none_iff.1 h
    cases i with
    | zero =>
      cases hs
      cases ha
      exact h₁
    | succ i => exact argumentFault?_of_arguments h₂ i slot' arg' hs ha

theorem isParamValue_of_params : ∀ {args : List (Argument Resource)} {position : Nat},
    RunArgs.paramsFault? position args = none → ∀ a ∈ args, a.isParamValue = true
  | [], _, _, _, ha => by simp at ha
  | arg :: args, position, h, a, ha => by
    unfold RunArgs.paramsFault? at h
    by_cases hv : arg.isParamValue = true
    · rw [if_pos hv] at h
      rcases List.mem_cons.1 ha with rfl | ha
      · exact hv
      · exact isParamValue_of_params h a ha
    · rw [if_neg hv] at h
      cases h

theorem isParamValue_of_groupCounts {arity : UsageFault} {trailer : List (Argument Resource)}
    {groups : Option Extent} (h : RunArgs.groupCounts arity trailer = .ok groups) :
    ∀ a ∈ trailer, a.isParamValue = false := by
  have group : ∀ {a : Argument Resource} {n}, RunArgs.groupCount a = .ok n →
      a.isParamValue = false := by
    intro a n h
    cases a <;> simp_all [RunArgs.groupCount, Argument.isParamValue]
  unfold RunArgs.groupCounts at h
  split at h
  · simp
  · obtain ⟨x, hx, h⟩ := except_bind_eq_ok h
    obtain ⟨y, hy, h⟩ := except_bind_eq_ok h
    obtain ⟨z, hz, -⟩ := except_bind_eq_ok h
    simp [group hx, group hy, group hz]
  · cases h

/-- What stands for the parameters, and what follows them. -/
theorem isParamValue_of_split {count : Nat} {run : RunArgs}
    (h : RunArgs.split count args = .ok run) : (∀ a ∈ run.params, a.isParamValue = true) ∧
      ∀ a ∈ args.drop count, a.isParamValue = false := by
  obtain ⟨-, -, hf, -, arity, hg⟩ := split_eq_ok h
  refine ⟨isParamValue_of_params hf, ?_⟩
  have ht := isParamValue_of_groupCounts hg
  unfold RunArgs.splitUniforms at ht
  split at ht
  · rename_i values hl
    intro a ha
    obtain ⟨trailer, he⟩ := List.getLast?_eq_some_iff.1 hl
    rw [he, List.dropLast_concat] at ht
    rw [he] at ha
    rcases List.mem_append.1 ha with ha | ha
    · exact ht a ha
    · rw [List.mem_singleton.1 ha]
      rfl
  · exact ht

theorem checkRun_passes {k : Kernel} {run : RunArgs} (h : k.checkRun args = .ok (run, groups))
    {i : Nat} {slot : ParamSlot} {arg : Argument Resource}
    (hs : k.program.layout.params[i]? = some slot) (ha : run.params[i]? = some arg) :
    Passes slot arg ∧ args[i]? = some arg := by
  obtain ⟨hsplit, hf, -⟩ := checkRun_eq_ok h
  refine ⟨⟨argumentFault?_of_arguments hf i slot arg hs ha,
    (isParamValue_of_split hsplit).1 arg (List.mem_of_getElem? ha)⟩, ?_⟩
  rw [(split_params hsplit).1, List.getElem?_take] at ha
  split at ha
  · exact ha
  · cases ha

/-- What holds once the arguments of a run are bound and is kept by the work on uniforms, which
fails at the device only. -/
theorem bindRun_ends {I : Running → Prop} {E : Failure → Running → Prop} {run : RunArgs}
    (hs : Shaped r.kernel) (hu : run.uniforms.bind r.kernel.uniformsFault? = none)
    (hI : ∀ {r₁ r₂}, UniformStep r₁ r₂ → I r₁ → I r₂) (hE : ∀ {f r₁}, Fault f → I r₁ → E f r₁)
    (h : Ends I E (bindAll others groups 0 r.kernel.program.layout.params run.params r)) :
    Ends I E (bindRun others groups run r) := by
  have hl := hs.slots
  have hp : Prepares r (endState (bindAll others groups 0 r.kernel.program.layout.params
      run.params r)) := bindAll_prepares (by omega)
  have herror : ∀ f r', bindRun others groups run r = .error f r' → _ := fun _ _ =>
    bindRun_error hs hu
  unfold bindRun at herror ⊢
  rw [get_bind] at herror ⊢
  rcases hx : bindAll others groups 0 r.kernel.program.layout.params run.params r with
    ⟨_, r₁⟩ | ⟨f, r₁⟩ <;> rw [hx] at h hp herror
  · rw [bind_of_ok hx] at herror ⊢
    rw [endState_ok] at hp
    have hend := kept_of_steps (P := I) hI (uniforms_steps ((run.uniforms.map (·.entries)).getD [])
      (hp.shaped hs) (congrArg (·.layout.uniforms) hp.program)) h
    generalize (do
      setUniforms ((run.uniforms.map (·.entries)).getD [])
      fillUniforms 0 r.kernel.program.layout.uniforms : RunM Unit) r₁ = x at hend herror ⊢
    cases x with
    | ok _ r₂ => exact hend
    | error f r₂ =>
      rcases herror f r₂ rfl with hf | hf
      · exact hE hf hend
      · cases hf
  · rw [bind_of_error hx]
    exact h

/-- What holds of a run that was checked once its arguments are bound, and is kept by the work on
uniforms and by a launch, which both fail at the device only. -/
theorem run_ends {I : Running → Prop} {E : Failure → Running → Prop} (hc : Coherent r.kernel)
    (hcheck : ∀ f, r.kernel.checkRun args = .error f → E f r)
    (hpipeline : ∀ f r₁, ensurePipeline r = .error f r₁ → E f r₁)
    (hbind : ∀ run groups r₁, r.kernel.checkRun args = .ok (run, groups) →
      endState (ensurePipeline r) = r₁ → Shaped r₁.kernel →
      Ends I E (bindAll others groups 0 r₁.kernel.program.layout.params run.params r₁))
    (huniform : ∀ {r₁ r₂}, UniformStep r₁ r₂ → I r₁ → I r₂)
    (hlaunch : ∀ {p es made r₁ r₂}, Launches p es made r₁ r₂ → I r₁ → I r₂)
    (hfault : ∀ {f r₁}, Fault f → I r₁ → E f r₁) : Ends I E (run others args r) := by
  have hprep : Ends I E (prepare others args r) := by
    rcases prepare_cases others args r with
      ⟨f, hf, hr⟩ | ⟨run, groups, hcheck, ⟨f, r₁, he, hr⟩ | ⟨p, r₁, he, hr⟩⟩
    · rw [hr]
      exact hcheck f hf
    · rw [hr]
      exact hpipeline f r₁ he
    · have hs := (prepares_pipeline r).shaped hc.toShaped
      obtain ⟨⟨q, hk⟩, -⟩ := ensurePipeline_frame (congrArg endState he)
      rw [endState_ok] at hk
      rw [he, endState_ok] at hs
      have hb : Ends I E (bindRun others groups run r₁) := by
        refine bindRun_ends hs ?_ huniform hfault
          (hbind run groups r₁ hcheck (congrArg endState he) hs)
        rw [hk]
        exact (checkRun_eq_ok hcheck).2.2
      rcases hr with ⟨f, r₂, hx, hr⟩ | ⟨r₂, hx, hr⟩ <;> rw [hr] <;> rw [hx] at hb <;> exact hb
  rcases run_cases others args hc with
    ⟨f, r', hp, hr, -⟩ | ⟨p, groups, r₁, es, hp, -, -, -, hl, -⟩ <;> rw [hp] at hprep
  · rw [hr]
    exact hprep
  · have hend := hlaunch hl.launches hprep
    rcases hr : run others args r with ⟨_, r₂⟩ | ⟨f, r₂⟩ <;> rw [hr] at hend hl
    · exact hend
    · exact hfault (hl.fails f rfl) hend

/-- What can be in a slot after a run that held `b` before it. -/
def RunLeaves (r : Running) (args : List (Argument Resource)) (i : Nat) (b' : Option Bound) :
    Prop :=
  b' = r.kernel.bound? i ∨ ∃ groups slot arg,
    r.kernel.program.layout.params[i]? = some slot ∧ args[i]? = some arg ∧ Passes slot arg ∧
    Leaves r.kernel groups r.device.limits slot (r.kernel.bound? i) arg b'

/-- After a run that succeeds, what is in a slot has room for its argument. -/
def RunFits (r : Running) (args : List (Argument Resource)) (i : Nat) (b' : Option Bound) : Prop :=
  ∀ slot, r.kernel.program.layout.params[i]? = some slot → ∃ arg b, args[i]? = some arg ∧
    b' = some b ∧ keepsSlot (some b) arg = true

theorem Leaving.runLeaves {run : RunArgs} {r₁ : Running}
    (hc : r.kernel.checkRun args = .ok (run, groups)) (he : endState (ensurePipeline r) = r₁)
    (hL : Leaving groups r₁.kernel.program.layout.params run.params r₁ r') (i : Nat) :
    RunLeaves r args i (r'.kernel.bound? i) := by
  obtain ⟨⟨p, hk⟩, hsetup, -⟩ := ensurePipeline_frame he
  have hprogram : r₁.kernel.program = r.kernel.program := by rw [hk]
  have hsame : r₁.kernel.bound? i = r.kernel.bound? i := by
    rw [hk]
    rfl
  rcases hslot : r₁.kernel.program.layout.params[i]? with _ | slot
  · exact .inl ((hL.outside i (.inl hslot)).trans hsame)
  rcases harg : run.params[i]? with _ | arg
  · exact .inl ((hL.outside i (.inr harg)).trans hsame)
  have hleaves := hL.leaves i slot arg hslot harg
  rw [hsame, limits_of_setup hsetup] at hleaves
  rw [hprogram] at hslot
  obtain ⟨hpass, harg'⟩ := checkRun_passes hc hslot harg
  exact .inr ⟨groups, slot, arg, hslot, harg', hpass, hleaves.congr hprogram (by rw [hk])⟩

/-- What is in a slot after a run, wherever the run fails. -/
theorem run_leaves (hc : Coherent r.kernel) :
    Ends (fun r' => ∀ i, RunLeaves r args i (r'.kernel.bound? i) ∧
        RunFits r args i (r'.kernel.bound? i))
      (fun _ r' => ∀ i, RunLeaves r args i (r'.kernel.bound? i))
      (run others args r) := by
  refine run_ends hc (fun _ _ _ => .inl rfl) (fun f r₁ he i => ?_)
    (fun run groups r₁ hcheck he hs => ?_) (fun h hI i => ?_) (fun h hI i => ?_)
    (fun _ hI i => (hI i).1)
  · obtain ⟨⟨q, hk⟩, -⟩ := ensurePipeline_frame (congrArg endState he)
    rw [endState_error] at hk
    rw [hk]
    exact .inl rfl
  · -- After each turn, the slots whose turn is over have room for their arguments.
    have hl : r₁.kernel.program.layout.params.length ≤ r₁.kernel.slots.length := by
      have := hs.slots
      omega
    have hall : Ends _ _ (bindAll others groups 0 r₁.kernel.program.layout.params run.params r₁) :=
      bindAll_leaving (F := fun _ _ => True) (J := fun j r' => ∀ i arg, i < j →
        run.params[i]? = some arg →
          ∃ b, r'.kernel.bound? i = some b ∧ keepsSlot (some b) arg = true)
        hl ?_ (fun i arg hi => by omega)
    · rcases hx : bindAll others groups 0 r₁.kernel.program.layout.params run.params r₁ with
        ⟨_, r₂⟩ | ⟨f, r₂⟩ <;> rw [hx] at hall
      · refine fun i => ⟨hall.1.runLeaves hcheck he i, fun slot hslot => ?_⟩
        obtain ⟨⟨p, hk⟩, -⟩ := ensurePipeline_frame he
        have hprogram : r₁.kernel.program = r.kernel.program := by rw [hk]
        obtain ⟨hparams, hlength⟩ := split_params (checkRun_eq_ok hcheck).1
        have hi := (List.getElem?_eq_some_iff.1 hslot).1
        have hi' : i < run.params.length := by
          rw [hparams, List.length_take]
          omega
        have harg := List.getElem?_eq_getElem hi'
        obtain ⟨b, hb, hfits⟩ := hall.2 i _ (by rw [hprogram]; omega) harg
        exact ⟨_, b, (checkRun_passes hcheck hslot harg).2, hb, hfits⟩
      · exact fun i => hall.1.runLeaves hcheck he i
    · intro t arg r₂ hs ha hi hL hown hJ
      have hT := bind_turned groups arg hi
      rcases hr : bind t groups arg r₂ with ⟨_, r₃⟩ | ⟨f, r₃⟩
      · rw [hr, endState_ok] at hT
        intro i arg' hi' ha'
        by_cases hij : i = t.index
        · subst hij
          cases ha.symm.trans ha'
          exact bind_occupied hi hr
        · rw [hT.others i hij]
          exact hJ i arg' (by omega) ha'
      · exact trivial
  · rw [bound?, h.slots]
    exact hI i
  · obtain ⟨_, _, _, hk⟩ := h.kernel
    rw [hk]
    exact hI i

theorem run_slot (others : List ResourceId) (args : List (Argument Resource)) (i : Nat)
    (hc : Coherent r.kernel) :
    RunLeaves r args i ((endState (run others args r)).kernel.bound? i) := by
  have hend : Ends _ _ (run others args r) := run_leaves hc
  rcases hr : run others args r with ⟨_, r'⟩ | ⟨f, r'⟩ <;> rw [hr] at hend
  · exact (hend i).1
  · exact hend i

end Runs

end Kernel

end ComputeKernel
