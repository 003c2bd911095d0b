import ComputeKernel.Proofs.Uniforms

/-!
# Persistence of uniforms

Over whole histories of a session, with failures of the device anywhere, every dispatch finds in
each of its uniforms the values that were last accepted for it, and zeros if there were none.
Nothing else changes a uniform. A uniform that has a buffer keeps it, so a run warns of a uniform
that was never set only until its buffer was made (`uniforms_persist`).
-/

namespace ComputeKernel

open Device Relation RunM Shader

namespace Session

/-- The values for uniforms that a command gets accepted. -/
def accepted (s : Session) : Command → List UniformWrite
  | .setUniform i name values =>
    match s.kernel? i with
    | some k => acceptedWrites i [(name, values)] (s.starting k)
    | none => []
  | .run i args given =>
    match args.mapM (Argument.resolve? s.resource?), s.kernel? i with
    | some resources, some k =>
      runWrites i ((s.releaseAll given).heldOutside i) resources (s.starting k)
    | _, _ => []
  | _ => []

/-- The values for uniforms that commands get accepted, one command after another. -/
def writes (frontEnd : FrontEnd) : Session → List Command → List UniformWrite
  | _, [] => []
  | s, c :: cs => s.quiet.accepted c ++ (s.perform frontEnd c).2.writes frontEnd cs

/-- The state of a run that starts to make buffers for the uniforms that have none. -/
def filling? (s : Session) (i : Nat) (args : List (Argument Handle)) (given : List Handle) :
    Option Running :=
  match args.mapM (Argument.resolve? s.resource?), s.kernel? i with
  | some resources, some k =>
    ComputeKernel.filling? ((s.releaseAll given).heldOutside i) resources (s.starting k)
  | _, _ => none

end Session

section Moves

variable {frontEnd : FrontEnd} {h : History} {past : List Event} {made : List ResourceId}
  {ws : List UniformWrite} {s s' : Session} {c : Command}

theorem hold_device (x : Resource) : (s.hold x).device = s.device := by
  cases x <;> rfl

/-- A new kernel has no buffers for its uniforms yet. -/
theorem uniformAt_append_fresh (kernels : List Kernel) (program : Program) (groups : Option Extent)
    (target : RenderTarget) (i j : Nat) :
    uniformAt (kernels ++ [.fresh program groups target]) i j = uniformAt kernels i j := by
  unfold uniformAt
  rw [List.getElem?_append]
  split
  · rfl
  · rename_i hi
    rw [List.getElem?_eq_none (Nat.le_of_not_lt hi)]
    rcases hk : [Kernel.fresh program groups target][i - kernels.length]? with _ | k
    · rfl
    · rw [List.mem_singleton.1 (List.mem_of_getElem? hk)]
      exact uniformBuffer?_fresh _ _ _ _

/-- A session on a device that discards the writes it turns down. -/
structure Persistent (h : History) (past : List Event) (made : List ResourceId)
    (ws : List UniformWrite) (s : Session) : Prop where
  accounted : Accounted h s
  sound : SessionSound past made s
  discards : s.device.discards = true
  stored : Stored s.kernels s.device ws

/-- What the device does outside of runs leaves the uniforms alone. -/
theorem Persistent.grows {d : Device} (hp : Persistent h past made ws s) (hg : Grows s.device d) :
    d.discards = true ∧ Stored s.kernels d ws := by
  refine ⟨(discards_of_setup hg.setup).trans hp.discards,
    hp.stored.frame (fun _ _ => rfl) (fun _ _ _ _ => rfl) fun i j b hat => ?_⟩
  exact hg.getElem? (Sound.uniformAt hp.sound hat).1

theorem Persistent.move (hp : Persistent h past made ws s) (hm : Session.Move frontEnd c s s')
    (hc : ∀ i name values, c ≠ .setUniform i name values) : Persistent h past made ws s' := by
  suffices hs : s'.device.discards = true ∧ Stored s'.kernels s'.device ws from
    ⟨hp.accounted.move hm, hp.sound.move hp.accounted hm, hs.1, hs.2⟩
  have stay : ∀ {kernels}, (∀ i j, uniformAt kernels i j = uniformAt s.kernels i j) →
      (∀ i j b, uniformAt s.kernels i j = some b →
        uniformSlotAt kernels i j = uniformSlotAt s.kernels i j) →
      s.device.discards = true ∧ Stored kernels s.device ws := fun hu hs =>
    ⟨hp.discards, hp.stored.frame hu hs fun _ _ _ _ => rfl⟩
  have replaceKernel : ∀ {i k k'}, s.kernels[i]? = some k → k'.uniformBuffers = k.uniformBuffers →
      k'.program = k.program →
      s.device.discards = true ∧ Stored (s.kernels.set i k') s.device ws := by
    intro i k k' hk hu hprogram
    have hi := (List.getElem?_eq_some_iff.1 hk).1
    refine stay (fun i' j => ?_) fun i' j b _ => ?_
    · rw [uniformAt_set hi]
      split
      · rename_i he
        rw [he, uniformAt, hk, Kernel.uniformBuffer?, hu]
        rfl
      · rfl
    · rw [uniformSlotAt_set hi]
      split
      · rename_i he
        rw [he, uniformSlotAt, hk, hprogram]
        rfl
      · rfl
  cases hm with
  | use hw _ => exact hp.grows hw.grows
  | blits _ => exact ⟨hp.discards, hp.stored⟩
  | @make x d hx _ =>
    rw [hold_device, hold_kernels]
    exact hp.grows hx.grows
  | take _ _ =>
    rw [hold_device, hold_kernels]
    exact ⟨hp.discards, hp.stored⟩
  | drop x =>
    rw [Session.release_device, Session.release_kernels]
    exact ⟨hp.discards, hp.stored⟩
  | dropKernel hk => exact replaceKernel hk rfl rfl
  | kernel _ =>
    refine stay (uniformAt_append_fresh _ _ _ _) fun i j b hb => ?_
    obtain ⟨k, hk, -⟩ := Option.bind_eq_some_iff.1 hb
    unfold uniformSlotAt
    rw [List.getElem?_append_left (List.getElem?_eq_some_iff.1 hk).1]
  | groups hk g => exact replaceKernel hk rfl rfl
  | uniform he _ => exact absurd he (hc _ _ _)

end Moves

section Histories

open Kernel

variable {frontEnd : FrontEnd} {h : History} {past : List Event} {made : List ResourceId}
  {ws : List UniformWrite} {s : Session} {i : Nat} {k : Kernel}

theorem Persistent.starting (hp : Persistent h past made ws s) (hk : s.kernels[i]? = some k)
    {args : List (Argument Handle)} {resources : List (Argument Resource)}
    (ha : args.mapM (Argument.resolve? s.resource?) = some resources) (given : List Handle) :
    Tracking past made s.kernels i (s.releaseAll given).held ws (argumentIds resources)
      (s.starting k) where
  sound := hp.sound.starting hk ha given
  shaped := (hp.accounted.kept i k hk).toShaped
  discards := hp.discards
  stored := by
    obtain ⟨hi, rfl⟩ := List.getElem?_eq_some_iff.1 hk
    show Stored (s.kernels.set i s.kernels[i]) s.device ws
    rw [List.set_getElem_self]
    exact hp.stored

theorem Session.run_log {args : List (Argument Handle)} {resources : List (Argument Resource)}
    (ha : args.mapM (Argument.resolve? s.resource?) = some resources) (hk : s.kernel? i = some k)
    (given : List Handle) :
    (s.run i args given).log =
      (endState (Kernel.run ((s.releaseAll given).heldOutside i) resources
        (s.starting k))).log := by
  unfold run withKernel
  simp only [ha, hk]
  unfold running starting
  simp only [releaseAll_device]
  rcases Kernel.run ((s.releaseAll given).heldOutside i) resources ⟨k, s.device, []⟩ with
    ⟨_, r⟩ | ⟨f, r⟩ <;> rfl

/-- What a run leaves in the uniforms, and what it warns of. -/
theorem Persistent.run (hp : Persistent h past made ws s) (args : List (Argument Handle))
    (given : List Handle) :
    (s.run i args given).session.device.discards = true ∧
      Stored (s.run i args given).session.kernels (s.run i args given).session.device
        (ws ++ s.accepted (.run i args given)) ∧
      ∃ warned, (s.run i args given).log = warned.map (fun u => unsetLine u.1) ∧
        Warns (s.filling? i args given) warned
          (uniformAt (s.run i args given).session.kernels i)
          ((s.prepared? i args given).isSome = true) := by
  unfold Session.accepted Session.filling? Session.prepared?
  rcases s.run_step i args given with ⟨hn, hs⟩ | ⟨resources, k, ha, hk, hs, -⟩
  · rw [hs]
    have hnone : Stored s.kernels s.device (ws ++ []) := by simpa using hp.stored
    rcases ha : args.mapM (Argument.resolve? s.resource?) with _ | resources
    · simp only [ha]
      exact ⟨hp.discards, hnone, [], rfl, .nil (by simp)⟩
    · simp only [ha, hn.resolve_left (by simp [ha])]
      exact ⟨hp.discards, hnone, [], rfl, .nil (by simp)⟩
  · have hk' := Session.getElem?_of_kernel? hk
    have hi := (List.getElem?_eq_some_iff.1 hk').1
    obtain ⟨ht, warned, hl, hw⟩ := (hp.starting hk' ha given).run hi
      (hp.accounted.kept i k hk').toCoherent (Session.heldOutside_releaseAll given)
    simp only [ha, hk, hs, Session.finish, Session.releaseAll_kernels]
    refine ⟨ht.discards, ht.stored, warned, ?_, ?_⟩
    · rw [Session.run_log ha hk, hl]
      rfl
    · have hu : uniformAt (s.kernels.set i (endState (Kernel.run
          ((s.releaseAll given).heldOutside i) resources (s.starting k))).kernel) i =
          (endState (Kernel.run ((s.releaseAll given).heldOutside i) resources
            (s.starting k))).kernel.uniformBuffer? := by
        funext j
        rw [uniformAt_set hi, if_pos rfl]
      rw [hu]
      refine { hw with all := fun hprep => hw.all ?_ }
      rcases hr : Kernel.prepare ((s.releaseAll given).heldOutside i) resources (s.starting k) with
        ⟨a, r⟩ | ⟨f, r⟩ <;> simp only [hr] at hprep
      · exact ⟨a, r, rfl⟩
      · cases hprep

theorem Persistent.setUniform (hp : Persistent h past made ws s) (name : String)
    (values : List Binary64) :
    (s.setUniform i name values).session.device.discards = true ∧
      Stored (s.setUniform i name values).session.kernels
        (s.setUniform i name values).session.device
        (ws ++ s.accepted (.setUniform i name values)) ∧
      (s.setUniform i name values).log = [] := by
  unfold Session.setUniform Session.accepted Session.withKernel
  rcases hk : s.kernel? i with _ | k
  · simp only [hk, List.append_nil]
    exact ⟨hp.discards, hp.stored, rfl⟩
  have hk' := Session.getElem?_of_kernel? hk
  have hi := (List.getElem?_eq_some_iff.1 hk').1
  have ha : ([] : List (Argument Handle)).mapM (Argument.resolve? s.resource?) = some [] := rfl
  simp only [Session.ofExcept_session, Session.running_session, Session.finish]
  unfold Session.running acceptedWrites
  rcases (hp.starting hk' ha []).setUniform hi name values with
    ⟨f, r, he, hl, ht⟩ | ⟨j, slot, r, hu, he, hl, ht⟩
  · simp only [Session.starting] at he hl ht ⊢
    simp only [hk, he, List.append_nil]
    exact ⟨ht.discards, ht.stored, hl⟩
  · simp only [Session.starting] at he hl ht hu ⊢
    simp only [hk, he, hu, acceptedWrites]
    exact ⟨ht.discards, ht.stored, hl⟩

/-- A command leaves in the uniforms what was accepted last. -/
theorem Persistent.step (frontEnd : FrontEnd) (hp : Persistent h past made ws s) (c : Command) :
    (s.step frontEnd c).session.device.discards = true ∧
      Stored (s.step frontEnd c).session.kernels (s.step frontEnd c).session.device
        (ws ++ s.accepted c) := by
  by_cases hr : ∃ i args given, c = .run i args given
  · obtain ⟨i, args, given, rfl⟩ := hr
    obtain ⟨hd, hs, -⟩ := hp.run (i := i) args given
    exact ⟨hd, hs⟩
  by_cases hu : ∃ i name values, c = .setUniform i name values
  · obtain ⟨i, name, values, rfl⟩ := hu
    obtain ⟨hd, hs, -⟩ := hp.setUniform (i := i) name values
    exact ⟨hd, hs⟩
  have ha : s.accepted c = [] := by
    cases c with
    | run i args given => exact absurd ⟨i, args, given, rfl⟩ hr
    | setUniform i name values => exact absurd ⟨i, name, values, rfl⟩ hu
    | _ => rfl
  have hm : ReflTransGen (Session.Move frontEnd c) s (s.step frontEnd c).session :=
    Session.step_moves fun i args given he => hr ⟨i, args, given, he⟩
  have hp' := kept_of_steps (P := Persistent h past made ws)
    (fun hm hp => hp.move hm fun i name values he => hu ⟨i, name, values, he⟩) hm hp
  rw [ha, List.append_nil]
  exact ⟨hp'.discards, hp'.stored⟩

theorem Reached.persistent (hs : Reached frontEnd s h) (hd : s.device.discards = true)
    (hst : Stored s.kernels s.device ws) : Persistent h h.log h.kernelMade ws s.quiet :=
  ⟨hs.accounted.same rfl fun _ => rfl, hs.sound, hd,
    hst.frame (fun _ _ => rfl) (fun _ _ _ _ => rfl) fun _ _ _ _ => rfl⟩

/-- What commands get accepted is stored on top of what was stored before them. -/
theorem Reached.replay_stored (hs : Reached frontEnd s h) (hd : s.device.discards = true)
    (hst : Stored s.kernels s.device ws) (cs : List Command) :
    (s.replay frontEnd cs).1.device.discards = true ∧
      Stored (s.replay frontEnd cs).1.kernels (s.replay frontEnd cs).1.device
        (ws ++ s.writes frontEnd cs) := by
  induction cs generalizing s h ws with
  | nil => exact ⟨hd, by simpa [Session.writes, Session.replay] using hst⟩
  | cons c cs ih =>
    obtain ⟨hd', hst'⟩ := (hs.persistent hd hst).step frontEnd c
    have hr := ih (hs.perform c) hd' hst'
    rwa [List.append_assoc] at hr

end Histories

section Buffers

open Kernel

variable {frontEnd : FrontEnd} {h : History} {s s₁ s' : Session} {i j : Nat} {b : Buffer}

/-- Kernels stay in their places with their programs, and uniforms keep their buffers. -/
def Continues (s s' : Session) : Prop :=
  ∀ (i : Nat) (k : Kernel), s.kernels[i]? = some k → ∃ k' : Kernel, s'.kernels[i]? = some k' ∧
    k'.program = k.program ∧ ∀ j b, k.uniformBuffer? j = some b → k'.uniformBuffer? j = some b

theorem Continues.of_eq (hk : s'.kernels = s.kernels) : Continues s s' := by
  intro i k h
  exact ⟨k, by rwa [hk], rfl, fun _ _ hb => hb⟩

theorem Continues.trans (h : Continues s s₁) (h' : Continues s₁ s') : Continues s s' := by
  intro i k hk
  obtain ⟨k₁, hk₁, hp₁, hu₁⟩ := h i k hk
  obtain ⟨k', hk', hp', hu'⟩ := h' i k₁ hk₁
  exact ⟨k', hk', hp'.trans hp₁, fun j b hb => hu' j b (hu₁ j b hb)⟩

theorem Continues.uniformAt (h : Continues s s') (hb : uniformAt s.kernels i j = some b) :
    ComputeKernel.uniformAt s'.kernels i j = some b := by
  obtain ⟨k, hk, hb⟩ := Option.bind_eq_some_iff.1 hb
  obtain ⟨k', hk', -, hu⟩ := h i k hk
  simp [ComputeKernel.uniformAt, hk', hu j b hb]

theorem Continues.slotAt {slot : UniformSlot} (h : Continues s s')
    (hs : uniformSlotAt s.kernels i j = some slot) : uniformSlotAt s'.kernels i j = some slot := by
  obtain ⟨k, hk, hs⟩ := Option.bind_eq_some_iff.1 hs
  obtain ⟨k', hk', hp, -⟩ := h i k hk
  simp [uniformSlotAt, hk', hp, hs]

theorem continues_set {k k' : Kernel} (hk : s.kernels[i]? = some k)
    (hs : s'.kernels = s.kernels.set i k') (hp : k'.program = k.program)
    (hu : ∀ j b, k.uniformBuffer? j = some b → k'.uniformBuffer? j = some b) : Continues s s' := by
  intro i' k₁ hk₁
  rw [hs]
  by_cases hi : i' = i
  · subst hi
    cases hk.symm.trans hk₁
    exact ⟨k', List.getElem?_set_self (List.getElem?_eq_some_iff.1 hk).1, hp, hu⟩
  · rw [List.getElem?_set_ne (Ne.symm hi)]
    exact ⟨k₁, hk₁, rfl, fun _ _ hb => hb⟩

/-- No command moves a kernel or takes a buffer from a uniform. -/
theorem Session.Move.continues {c : Command} (hm : Session.Move frontEnd c s s')
    (ha : Accounted h s) : Continues s s' := by
  cases hm with
  | use _ _ | blits _ => exact .of_eq rfl
  | make _ _ | take _ _ => exact .of_eq (hold_kernels _)
  | drop x => exact .of_eq (Session.release_kernels x)
  | dropKernel hk => exact continues_set hk rfl rfl fun _ _ hb => hb
  | kernel _ =>
    intro i k hk
    refine ⟨k, ?_, rfl, fun _ _ hb => hb⟩
    rwa [List.getElem?_append_left (List.getElem?_eq_some_iff.1 hk).1]
  | groups hk g => exact continues_set hk rfl rfl fun _ _ hb => hb
  | @uniform i k name values _ hk =>
    have hp := prepares_of_steps (setUniform_steps (r := s.starting k) name values
      (ha.kept _ _ hk).uniforms)
    exact continues_set hk rfl hp.program hp.uniforms

theorem run_continues (ha : Accounted h s) (args : List (Argument Handle)) (given : List Handle) :
    Continues s (s.run i args given).session := by
  rcases s.run_step i args given with ⟨-, hs⟩ | ⟨resources, k, -, hk, hs, -⟩ <;> rw [hs]
  · exact .of_eq rfl
  replace hk := Session.getElem?_of_kernel? hk
  have hset : ((s.releaseAll given).finish i (endState (Kernel.run
      ((s.releaseAll given).heldOutside i) resources (s.starting k)))).kernels = _ :=
    congrArg (fun kernels : List Kernel => kernels.set i _) (Session.releaseAll_kernels given)
  rcases run_cases (r := s.starting k) ((s.releaseAll given).heldOutside i) resources
    (ha.kept i k hk).toCoherent with
    ⟨f, r', -, hx, hp, -⟩ | ⟨p, groups, r₁, es, -, hp, -, -, hl, -⟩
  · exact continues_set hk hset (by rw [hx]; exact hp.program) (by rw [hx]; exact hp.uniforms)
  · obtain ⟨_, _, _, hk'⟩ := hl.launches.kernel
    exact continues_set hk hset (by rw [hk']; exact hp.program) (by rw [hk']; exact hp.uniforms)

theorem Reached.continues (hs : Reached frontEnd s h) (cs : List Command) :
    Continues s (s.replay frontEnd cs).1 := by
  induction cs generalizing s h with
  | nil => exact .of_eq rfl
  | cons c cs ih =>
    have hq : Accounted h s.quiet := hs.accounted.same rfl fun _ => rfl
    have hc : Continues s (s.perform frontEnd c).2 := by
      by_cases hr : ∃ i args given, c = .run i args given
      · obtain ⟨i, args, given, rfl⟩ := hr
        exact run_continues hq args given
      · have hm : ReflTransGen (Session.Move frontEnd c) s.quiet
            (s.quiet.step frontEnd c).session :=
          Session.step_moves fun i args given he => hr ⟨i, args, given, he⟩
        exact (kept_of_steps (P := fun s' => Accounted h s' ∧ Continues s s')
          (fun hm hp => ⟨hp.1.move hm, hp.2.trans (hm.continues hp.1)⟩) hm ⟨hq, .of_eq rfl⟩).2
    exact hc.trans (ih (hs.perform c))

theorem Accounted.filling_uniform (ha : Accounted h s) {args : List (Argument Handle)}
    {given : List Handle} {r : Running} (hr : s.filling? i args given = some r)
    (hb : uniformAt s.kernels i j = some b) : r.kernel.uniformBuffer? j = some b := by
  unfold Session.filling? at hr
  split at hr
  · rename_i resources k _ hk
    replace hk := Session.getElem?_of_kernel? hk
    rw [uniformAt, hk] at hb
    exact (filling?_prepares (ha.kept i k hk).toShaped hr).uniforms _ _ hb
  · cases hr

end Buffers

section Lines

variable {α β : Type} {p : LogLine → Prop}

/-- A computation that only adds lines of which something holds. -/
def Logs (p : LogLine → Prop) (x : Logged α) : Prop :=
  ∀ log, (∀ l ∈ log, p l) → ∀ l ∈ endState (x log), p l

theorem Logs.bind {x : Logged α} {f : α → Logged β} (hx : Logs p x) (hf : ∀ a, Logs p (f a)) :
    Logs p (x >>= f) := fun log hl =>
  endState_bind (P := fun log => ∀ l ∈ log, p l) (hx log hl) fun a log₁ _ h => hf a log₁ h

theorem logs_add {lines : List LogLine} (h : ∀ l ∈ lines, p l) : Logs p (Logged.add lines) := by
  intro log hl l hm
  rcases List.mem_append.1 hm with hm | hm
  · exact hl l hm
  · exact h l hm

theorem logs_pure (a : α) : Logs p (pure a) := fun _ hl => hl

theorem logs_throw (f : Failure) : Logs p (throw f : Logged α) := fun _ hl => hl

theorem logs_ofExcept (x : Except Failure α) : Logs p (Logged.ofExcept x) := by
  cases x <;> exact fun _ hl => hl

theorem logs_configured (x : Except ConfigurationFault α) : Logs p (Logged.configured x) := by
  cases x <;> exact fun _ hl => hl

theorem logs_refuse (f : Option ConfigurationFault) : Logs p (Logged.refuse f) := by
  cases f <;> exact fun _ hl => hl

theorem logs_foldlM {f : β → α → Logged β} (hf : ∀ b a, Logs p (f b a)) (xs : List α) (b : β) :
    Logs p (xs.foldlM f b) := by
  induction xs generalizing b with
  | nil => exact logs_pure b
  | cons x xs ih =>
    rw [List.foldlM_cons]
    exact (hf b x).bind ih

theorem addVar_logs (slots : Slots) (v : GlobalVar) :
    Logs (fun l => l.origin ≠ .kernel) (addVar slots v) := by
  unfold addVar
  split
  · exact logs_pure _
  · simp only
    split
    · split
      · exact logs_pure _
      · exact logs_throw _
    · split
      · split
        · exact logs_pure _
        · exact logs_throw _
      · exact (logs_add (by simp)).bind fun _ => logs_pure _

theorem layout_logs (m : ShaderModule) : Logs (fun l => l.origin ≠ .kernel) m.layout := by
  refine (logs_foldlM addVar_logs _ _).bind fun slots => ?_
  refine (logs_refuse _).bind fun _ => (logs_refuse _).bind fun _ => ?_
  split
  · exact logs_pure _
  · exact logs_throw _

theorem draft_logs (names : List String) (body : List Char) (config : Config) :
    Logs (fun l => l.origin ≠ .kernel) (draft names body config) := by
  have hd : ∀ text, Logs (fun l => l.origin ≠ .kernel) (declareParams names config text) := by
    intro text
    have hl : ∀ l ∈ declarationLines (Body.paramDeclarations names text), l.origin ≠ .kernel :=
      List.forall_mem_map.2 fun _ _ => by simp
    refine (logs_add hl).bind fun _ => (logs_configured _).bind ?_
    rintro ⟨text, hints⟩
    refine (logs_add (by simp [strayLines])).bind fun _ => (logs_configured _).bind fun _ => ?_
    exact logs_pure _
  refine (logs_refuse _).bind fun _ => (logs_refuse _).bind fun _ => (hd _).bind ?_
  rintro ⟨text, _, decls⟩
  refine (logs_add (by simp [uniformLine])).bind fun _ => (logs_configured _).bind fun _ => ?_
  exact (logs_add (by simp [slotLine])).bind fun _ => logs_pure _

/-- To compile a kernel is to say nothing about its uniforms. -/
theorem compile_logs (frontEnd : FrontEnd) (source : KernelSource) (config : Config) :
    ∀ l ∈ (source.compile frontEnd config).outcome.2, l.origin ≠ .kernel := by
  suffices hl : Logs (fun l => l.origin ≠ .kernel) (source.compile frontEnd config) by
    have := hl [] (by simp)
    unfold Logged.outcome EStateM.run
    rcases hr : source.compile frontEnd config [] with ⟨p, log⟩ | ⟨f, log⟩ <;> rw [hr] at this <;>
      exact this
  cases source with
  | literal text =>
    refine (logs_ofExcept _).bind fun m => (layout_logs m).bind fun _ => ?_
    exact (logs_add (by simp [literalLine])).bind fun _ => logs_pure _
  | body names text =>
    refine (draft_logs _ _ _).bind fun d => (logs_ofExcept _).bind fun m => ?_
    exact (logs_add (by simp [assembledLine])).bind fun _ => logs_pure _

variable {frontEnd : FrontEnd} {s : Session}

namespace Session

theorem ofExcept_log (reply : α → Reply) (x : Except Failure α) :
    (Step.ofExcept s reply x).log = [] := by
  cases x <;> rfl

theorem worked_log (w : Work α) (reply : α → Reply) : (s.worked w reply).log = [] :=
  ofExcept_log _ _

theorem create_log (w : Work Resource) : (s.create w).log = [] := by
  unfold create
  split <;> rfl

theorem withKernel_log {i : Nat} {f : Kernel → Step} (h : ∀ k, (f k).log = []) :
    (s.withKernel i f).log = [] := by
  unfold withKernel
  split
  · exact h _
  · rfl

theorem withTexture_log {i : Nat} {f : Texture → Step} (h : ∀ t, (f t).log = []) :
    (s.withTexture i f).log = [] := by
  unfold withTexture
  split
  · exact h _
  · rfl

theorem createKernel_log (source : KernelSource) (config : Option String) :
    ∀ l ∈ (s.createKernel frontEnd source config).log, l.origin ≠ .kernel := by
  unfold createKernel
  split
  · simp [Step.answer]
  rename_i config' _
  have hl := compile_logs frontEnd source config'
  split <;> rename_i hc <;> rw [hc] at hl
  · exact hl
  · split <;> exact hl

/-- A command that is no run and that sets no uniform has nothing to say about uniforms. -/
theorem step_log {c : Command} (hr : ∀ i args given, c ≠ .run i args given)
    (hu : ∀ i name values, c ≠ .setUniform i name values) :
    ∀ l ∈ (s.step frontEnd c).log, l.origin ≠ .kernel := by
  suffices hl : (∀ source config, c ≠ .createKernel source config) →
      (s.step frontEnd c).log = [] by
    by_cases hk : ∃ source config, c = .createKernel source config
    · obtain ⟨source, config, rfl⟩ := hk
      exact createKernel_log source config
    · rw [hl fun source config he => hk ⟨source, config, he⟩]
      simp
  intro hk
  cases c with
  | createKernel source config => exact absurd rfl (hk source config)
  | run i args given => exact absurd rfl (hr i args given)
  | setUniform i name values => exact absurd rfl (hu i name values)
  | groups i | setGroups i g | dropKernel i | dump i => exact withKernel_log fun k => rfl
  | read i name hint => exact withKernel_log fun k => worked_log _ _
  | readInto i name old => exact withKernel_log fun k => worked_log _ _
  | inspect i name => exact withKernel_log fun k => ofExcept_log _ _
  | take i name =>
    refine withKernel_log fun k => ?_
    split <;> rfl
  | createBuffer size => exact create_log _
  | createBufferInit data => exact create_log _
  | createTexture width height format => exact create_log _
  | createRenderTexture => exact create_log _
  | drop handle =>
    simp only [step]
    split <;> rfl
  | queueError error delay | info => rfl
  | present i target error =>
    refine withTexture_log fun t => ?_
    unfold present
    split
    · rfl
    · split <;> rfl
  | presentTo i target => exact withTexture_log fun t => ofExcept_log _ _

end Session

end Lines

section Dispatches

open Kernel

variable {frontEnd : FrontEnd} {h : History} {s : Session} {i : Nat}

/-- The uniforms of a dispatch are there if the kernel has any, each is bound in its place, and it
holds the values that it was given last. -/
structure Delivers (k : Kernel) (d : Device) (last? : Nat → Option (List Binary64))
    (uniforms : Option BindGroup) : Prop where
  grouped : uniforms.isSome ↔ k.program.layout.uniforms ≠ []
  length : ∀ g, uniforms = some g → g.length = k.program.layout.uniforms.length
  values : ∀ (g : BindGroup) (j : Nat) (slot : UniformSlot), uniforms = some g →
    k.program.layout.uniforms[j]? = some slot →
    ∃ n, g[j]? = some (.buffer n) ∧ d.bufferContents n = slot.contents (last? j)

/-- Current bind groups deliver what is stored for the uniforms. -/
theorem Stored.delivers {ws : List UniformWrite} {d : Device} {kernels : List Kernel} {k : Kernel}
    {params : BindGroup} {uniforms : Option BindGroup} (hst : Stored kernels d ws)
    (hk : kernels[i]? = some k) (hs : Shaped k) (hc : Current k params uniforms) :
    Delivers k d (lastWrite? ws i) uniforms where
  grouped := hc.grouped
  length g hg := by
    have hl := congrArg List.length (hc.buffers g hg)
    simpa [uniformIdentity, hs.uniforms] using hl
  values g j slot hg hj := by
    have hb := congrArg (·[j]?) (hc.buffers g hg)
    have hlt : j < k.uniformBuffers.length := by
      rw [hs.uniforms]
      exact (List.getElem?_eq_some_iff.1 hj).1
    have hl : g.length = k.uniformBuffers.length := by
      simpa [uniformIdentity] using congrArg List.length (hc.buffers g hg)
    simp only [uniformIdentity, List.getElem?_map, List.getElem?_eq_getElem hlt,
      List.getElem?_eq_getElem (hl ▸ hlt), Option.map_some, Option.some.injEq] at hb
    obtain ⟨b, hb', hn⟩ := Option.map_eq_some_iff.1 hb.symm
    have hat : uniformAt kernels i j = some b := by
      simp [uniformAt, hk, uniformBuffer?, List.getElem?_eq_getElem hlt, hb']
    refine ⟨b.number, by rw [List.getElem?_eq_getElem (hl ▸ hlt), hn], ?_⟩
    exact hst.held hat (by simp [uniformSlotAt, hk, hj])

/-- The bind groups and the dispatch of a run leave all buffers as they are. -/
theorem Accounted.prepared_buffers (ha : Accounted h s) {args : List (Argument Handle)}
    {given : List Handle} {r : Running} (hr : s.prepared? i args given = some r) :
    (s.run i args given).session.device.buffers = r.device.buffers := by
  unfold Session.prepared? at hr
  rcases s.run_step i args given with ⟨hn, -⟩ | ⟨resources, k, hargs, hk, hs, -⟩
  · split at hr
    · rename_i hargs hk
      rcases hn with hn | hn
      · cases hargs.symm.trans hn
      · cases hk.symm.trans hn
    · cases hr
  · simp only [hargs, hk] at hr
    replace hk := Session.getElem?_of_kernel? hk
    rw [hs]
    rcases run_cases (r := s.starting k) ((s.releaseAll given).heldOutside i) resources
      (ha.kept i k hk).toCoherent with ⟨f, r', hp, -⟩ | ⟨p, groups, r₁, es, hp, -, -, -, hl, -⟩ <;>
      simp only [hp] at hr <;> cases hr
    exact hl.launches.memory.1

theorem Reached.delivers {ws : List UniformWrite} (hs : Reached frontEnd s h)
    (hd : s.device.discards = true) (hst : Stored s.kernels s.device ws)
    {args : List (Argument Handle)} {given : List Handle} {groups : Extent} {params : BindGroup}
    {uniforms : Option BindGroup} (hm : .dispatch groups params uniforms ∈
      (s.perform frontEnd (.run i args given)).1.events) :
    ∃ r k, s.quiet.prepared? i args given = some r ∧
      (s.perform frontEnd (.run i args given)).2.device.buffers = r.device.buffers ∧
      (s.perform frontEnd (.run i args given)).2.kernels[i]? = some k ∧
      k.uniformBuffers = r.kernel.uniformBuffers ∧
      Delivers k (s.perform frontEnd (.run i args given)).2.device
        (lastWrite? (ws ++ s.quiet.accepted (.run i args given)) i) uniforms := by
  have hp := hs.persistent hd hst
  rcases hk : s.quiet.kernels[i]? with _ | k
  · have hn : s.quiet.run i args given = .answer s.quiet .noHandle := by
      rcases s.quiet.run_step i args given with ⟨-, hn⟩ | ⟨_, k, -, hk', -⟩
      · exact hn
      · cases hk.symm.trans (Session.getElem?_of_kernel? hk')
    have he : .dispatch groups params uniforms ∈ (s.quiet.run i args given).session.device.events :=
      hm
    rw [hn] at he
    cases he
  obtain ⟨k', hk', hshow⟩ := run_shows (s := s.quiet) rfl hk (hp.accounted.kept i k hk) args given
    (o := (s.perform frontEnd (.run i args given)).1) rfl rfl
  obtain ⟨r, hr, -, hu, hc⟩ := hshow.current groups params uniforms hm
  obtain ⟨-, hst', -⟩ := hp.run (i := i) args given
  exact ⟨r, k', hr, hp.accounted.prepared_buffers hr, hk', hu,
    hst'.delivers hk' ((hs.perform (.run i args given)).accounted.kept i k' hk').toShaped hc⟩

theorem Accounted.slotAt (ha : Accounted h s) {j : Nat} {b : Buffer}
    (hb : uniformAt s.kernels i j = some b) : ∃ slot, uniformSlotAt s.kernels i j = some slot := by
  obtain ⟨k, hk, hb⟩ := Option.bind_eq_some_iff.1 hb
  have hj : j < k.program.layout.uniforms.length := by
    rw [← (ha.kept i k hk).uniforms]
    exact (List.getElem?_eq_some_iff.1 (Option.join_eq_some_iff.1 hb)).1
  exact ⟨_, by rw [uniformSlotAt, hk]; exact List.getElem?_eq_getElem hj⟩

/-- What a uniform holds stays until other values are accepted for it. -/
theorem Reached.contents_replay {ws : List UniformWrite} {j : Nat} {b : Buffer}
    {cs : List Command} (hs : Reached frontEnd s h) (hd : s.device.discards = true)
    (hst : Stored s.kernels s.device ws) (hb : uniformAt s.kernels i j = some b)
    (hw : ∀ w ∈ s.writes frontEnd cs, ¬(w.kernel = i ∧ w.uniform = j)) :
    (s.replay frontEnd cs).1.device.bufferContents b.number = s.device.bufferContents b.number := by
  obtain ⟨slot, hslot⟩ := hs.accounted.slotAt hb
  have hc := hs.continues cs
  rw [(hs.replay_stored hd hst cs).2.held (hc.uniformAt hb) (hc.slotAt hslot), hst.held hb hslot,
    lastWrite?_append, lastWrite?_eq_none hw, Option.none_or]

/-- Only runs warn of uniforms that were never set. -/
theorem Persistent.run_of_unset {past : List Event} {made : List ResourceId}
    {ws : List UniformWrite} (hp : Persistent h past made ws s) {c : Command} {slot : UniformSlot}
    (hm : unsetLine slot ∈ (s.step frontEnd c).log) : ∃ i args given, c = .run i args given := by
  by_contra hr
  by_cases hu : ∃ i name values, c = .setUniform i name values
  · obtain ⟨i, name, values, rfl⟩ := hu
    have hl : (s.step frontEnd (.setUniform i name values)).log = [] :=
      (hp.setUniform name values).2.2
    rw [hl] at hm
    cases hm
  · exact Session.step_log (fun i args given he => hr ⟨i, args, given, he⟩)
      (fun i name values he => hu ⟨i, name, values, he⟩) _ hm rfl

theorem stored_start {adapter : Option Adapter} {options : Options} {o o' : Opening}
    (hs : Session.start adapter options o = .ok s o') : Stored s.kernels s.device [] := by
  have hk := (Session.start_empty hs).kernels
  refine ⟨?_, ?_, fun _ => rfl, by simp⟩ <;> simp [hk, uniformAt]

theorem replay_append (frontEnd : FrontEnd) (s : Session) (cs cs' : List Command) :
    (s.replay frontEnd (cs ++ cs')).1 = ((s.replay frontEnd cs).1.replay frontEnd cs').1 ∧
      s.writes frontEnd (cs ++ cs') =
        s.writes frontEnd cs ++ (s.replay frontEnd cs).1.writes frontEnd cs' := by
  induction cs generalizing s with
  | nil => exact ⟨rfl, rfl⟩
  | cons c cs ih =>
    obtain ⟨hr, hw⟩ := ih (s.perform frontEnd c).2
    refine ⟨hr, ?_⟩
    simp only [List.cons_append, Session.writes, Session.replay, hw, List.append_assoc]

/-- Over a whole session, on a device that discards the writes it turns down, every dispatch finds
in each uniform the values that were last accepted for it. A uniform keeps its buffer, and what is
in it stays until other values are accepted. Only runs warn of uniforms that were never set, and
only of those that have no buffer when the run makes them one. -/
theorem uniforms_persist {adapter : Option Adapter} {options : Options} {o o' : Opening}
    {s₀ : Session} (hs₀ : Session.start adapter options o = .ok s₀ o')
    (hd : s₀.device.discards = true) (frontEnd : FrontEnd) (cs : List Command) {s : Session}
    (hs : (s₀.replay frontEnd cs).1 = s) :
    (∀ i args given groups params uniforms,
        .dispatch groups params uniforms ∈ (s.perform frontEnd (.run i args given)).1.events →
        ∃ r k, s.quiet.prepared? i args given = some r ∧
          (s.perform frontEnd (.run i args given)).2.device.buffers = r.device.buffers ∧
          (s.perform frontEnd (.run i args given)).2.kernels[i]? = some k ∧
          k.uniformBuffers = r.kernel.uniformBuffers ∧
          Delivers k (s.perform frontEnd (.run i args given)).2.device
            (lastWrite? (s₀.writes frontEnd (cs ++ [.run i args given])) i) uniforms) ∧
      (∀ i j b, uniformAt s.kernels i j = some b → ∀ cs',
        uniformAt (s.replay frontEnd cs').1.kernels i j = some b ∧
        ((∀ w ∈ s.writes frontEnd cs', ¬(w.kernel = i ∧ w.uniform = j)) →
          (s.replay frontEnd cs').1.device.bufferContents b.number =
            s.device.bufferContents b.number) ∧
        ∀ args given r, (s.replay frontEnd cs').1.quiet.filling? i args given = some r →
          r.kernel.uniformBuffer? j = some b) ∧
      (∀ c slot, unsetLine slot ∈ (s.quiet.step frontEnd c).log →
        ∃ i args given, c = .run i args given) ∧
      ∀ i args given, ∃ warned,
        (s.quiet.step frontEnd (.run i args given)).log = warned.map (fun u => unsetLine u.1) ∧
        Warns (s.quiet.filling? i args given) warned
          (uniformAt (s.perform frontEnd (.run i args given)).2.kernels i)
          ((s.quiet.prepared? i args given).isSome = true) := by
  have hr : Reached frontEnd s (s₀.replay frontEnd cs).2 := by
    rw [← hs]
    exact Session.reached_replay (.start hs₀) cs
  obtain ⟨hd', hst⟩ : s.device.discards = true ∧
      Stored s.kernels s.device ([] ++ s₀.writes frontEnd cs) := by
    rw [← hs]
    exact Reached.replay_stored (.start hs₀) hd (stored_start hs₀) cs
  rw [List.nil_append] at hst
  have hp := hr.persistent hd' hst
  refine ⟨?_, ?_, fun c slot hm => hp.run_of_unset hm, fun i args given => ?_⟩
  · intro i args given groups params uniforms hm
    have hw : s₀.writes frontEnd (cs ++ [.run i args given]) =
        s₀.writes frontEnd cs ++ s.quiet.accepted (.run i args given) := by
      rw [(replay_append frontEnd s₀ cs _).2, hs, Session.writes, Session.writes, List.append_nil]
    rw [hw]
    exact hr.delivers hd' hst hm
  · intro i j b hb cs'
    have hc := hr.continues cs'
    have ha : Accounted _ (s.replay frontEnd cs').1.quiet :=
      (Session.reached_replay hr cs').accounted.same rfl fun _ => rfl
    exact ⟨hc.uniformAt hb, hr.contents_replay hd' hst hb, fun args given r hf =>
      ha.filling_uniform hf (hc.uniformAt hb)⟩
  · obtain ⟨-, -, hw⟩ := hp.run (i := i) args given
    exact hw

/-- A session on a device that discards the writes it turns down. -/
def discarding : Session :=
  { Session.sample with device := { Session.sample.device with discards := true } }

/-- A uniform is given a value, and then another one, which the device turns down. -/
def rejectedWrite : List Command := [
  .createKernel (.literal "") none,
  .setUniform 0 "scale" [⟨0x3ff8000000000000⟩],
  .queueError ⟨.writeBuffer, .outOfMemory⟩,
  .setUniform 0 "scale" [⟨0x4008000000000000⟩]]

theorem uniforms_persist_rejected :
    let s := (discarding.replay Session.sampleFrontEnd rejectedWrite).1
    let run := Command.run 0 [.host (.u32 [1, 2]), .group 1, .group 1, .group 1]
    let (o, s') := s.perform Session.sampleFrontEnd run
    (∃ o', Session.start (some ⟨"Fake", "", "", "", "", false, 8192, none, true⟩) { } { } =
        .ok discarding o') ∧ discarding.device.discards = true ∧
      .dispatch ⟨1, 1, 1⟩ [.buffer 1] (some [.buffer 0]) ∈ o.events ∧
      (∃ k, s'.kernels[0]? = some k ∧ Delivers k s'.device
        (lastWrite? (discarding.writes Session.sampleFrontEnd (rejectedWrite ++ [run])) 0)
        (some [.buffer 0])) ∧
      discarding.writes Session.sampleFrontEnd (rejectedWrite ++ [run]) =
        [⟨0, 0, [⟨0x3ff8000000000000⟩]⟩] := by
  intro s run
  have hs : Session.start (some ⟨"Fake", "", "", "", "", false, 8192, none, true⟩) { } { } =
      .ok discarding _ := rfl
  have hm : .dispatch ⟨1, 1, 1⟩ [.buffer 1] (some [.buffer 0]) ∈
      (s.perform Session.sampleFrontEnd run).1.events := by decide +kernel
  obtain ⟨hdispatch, -⟩ := uniforms_persist hs rfl Session.sampleFrontEnd rejectedWrite rfl
  obtain ⟨-, k, -, -, hk, -, hu⟩ := hdispatch _ _ _ _ _ _ hm
  exact ⟨⟨_, hs⟩, rfl, hm, ⟨k, hk, hu⟩, by decide +kernel⟩

end Dispatches

end ComputeKernel
