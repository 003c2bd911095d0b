import ComputeKernel.Proofs.History
import Mathlib.Data.List.Induction
import Mathlib.Data.List.Nodup
import Mathlib.Data.List.Perm.Basic

/-!
# Ownership of resources

A resource that leaves a slot is destroyed only if a kernel made it and nobody refers to it any
more. So nothing is destroyed that is in a slot, that the caller holds or that an argument still has
to hand over. The invariant is `Sound`, and each part of a run keeps it (`RunSound.run`), whichever
calls of the device fail.
-/

namespace ComputeKernel

open Device Relation Shader

namespace Device

section Logs

/-- The resources that some events bring about. -/
def createdIn (log : List Event) : List ResourceId := log.filterMap Event.created?

/-- The resources that some events destroy. -/
def destroyedIn (log : List Event) : List ResourceId := log.filterMap Event.destroyed?

/-- A resource that was made and not destroyed. -/
def Live (log : List Event) (id : ResourceId) : Prop :=
  id ∈ createdIn log ∧ id ∉ destroyedIn log

/-- Every call touches only resources that are live when it is made. -/
def SafeLog (log : List Event) : Prop :=
  ∀ before e after, log = before ++ e :: after → ∀ id ∈ e.touched, Live before id

variable {log es : List Event} {e : Event} {id : ResourceId}

theorem createdIn_append : createdIn (log ++ es) = createdIn log ++ createdIn es :=
  List.filterMap_append

theorem destroyedIn_append : destroyedIn (log ++ es) = destroyedIn log ++ destroyedIn es :=
  List.filterMap_append

theorem Live.append (h : Live log id) (hd : id ∉ destroyedIn es) : Live (log ++ es) id := by
  refine ⟨?_, ?_⟩
  · rw [createdIn_append]
    exact List.mem_append_left _ h.1
  · rw [destroyedIn_append, List.mem_append]
    exact not_or.2 ⟨h.2, hd⟩

theorem SafeLog.snoc (h : SafeLog log) (ht : ∀ id ∈ e.touched, Live log id) :
    SafeLog (log ++ [e]) := by
  intro before e' after hl id hid
  rcases List.eq_nil_or_concat after with rfl | ⟨after', e'', rfl⟩
  · obtain ⟨rfl, he⟩ := List.append_inj' hl rfl
    cases he
    exact ht id hid
  · rw [List.concat_eq_append, ← List.cons_append, ← List.append_assoc] at hl
    obtain ⟨rfl, -⟩ := List.append_inj' hl rfl
    exact h before e' after' rfl id hid

theorem SafeLog.of_append (h : SafeLog (log ++ es)) : SafeLog log := by
  intro before e after hl id hid
  exact h before e (after ++ es) (by rw [hl, List.append_assoc, List.cons_append]) id hid

/-- Calls that destroy nothing and touch what is live. -/
theorem SafeLog.append (h : SafeLog log) (hd : ∀ e ∈ es, e.destroyed? = none)
    (ht : ∀ e ∈ es, ∀ id ∈ e.touched, Live log id) : SafeLog (log ++ es) := by
  induction es generalizing log with
  | nil => simpa using h
  | cons e es ih =>
    have hn : destroyedIn [e] = [] := by simp [destroyedIn, hd e List.mem_cons_self]
    have hs : SafeLog (log ++ [e]) := h.snoc (ht e List.mem_cons_self)
    have := ih hs (fun e' hm => hd e' (List.mem_cons_of_mem _ hm)) fun e' hm id hid =>
      (ht e' (List.mem_cons_of_mem _ hm) id hid).append (by simp [hn])
    simpa using this

theorem eq_destroy_of_destroyed? (h : e.destroyed? = some id) : e = .destroy id := by
  cases e <;> simp_all [Event.destroyed?]

theorem SafeLog.created_of_destroyed (h : SafeLog log) (hid : id ∈ destroyedIn log) :
    id ∈ createdIn log := by
  obtain ⟨e, he, hd⟩ := List.mem_filterMap.1 hid
  obtain ⟨before, after, rfl⟩ := List.append_of_mem he
  rw [eq_destroy_of_destroyed? hd] at h ⊢
  rw [createdIn_append]
  exact List.mem_append_left _ (h before _ after rfl id (by simp [Event.touched])).1

/-- Nothing is destroyed twice. -/
theorem SafeLog.destroyed_nodup (h : SafeLog log) : (destroyedIn log).Nodup := by
  induction log using List.reverseRecOn with
  | nil => exact List.nodup_nil
  | append_singleton log e ih =>
    rw [destroyedIn_append]
    refine (ih h.of_append).append ?_ ?_
    · cases hd : e.destroyed? <;> simp [destroyedIn, hd]
    · intro id hid hid'
      obtain ⟨e', hm, hd⟩ := List.mem_filterMap.1 hid'
      have he := eq_destroy_of_destroyed? hd
      rw [List.mem_singleton.1 hm] at he
      exact (h log e [] rfl id (by simp [he, Event.touched])).2 hid

end Logs

end Device

section Soundness

/-- The resource that a kernel made for a slot. -/
def Bound.ownedId? (b : Bound) : Option ResourceId :=
  if b.ownership = .owned then some b.resource.id else none

/-- The resources in the slots that a kernel made. -/
def Kernel.ownedIds (k : Kernel) : List ResourceId :=
  k.slots.filterMap fun b => b.bind Bound.ownedId?

/-- The resources that are in a slot of some kernels, or that someone else holds. -/
def inUse (kernels : List Kernel) (held : List ResourceId) : List ResourceId :=
  kernels.flatMap Kernel.resources ++ held

/-- What is in use is live, the buffers of uniforms are out of reach of everyone else, each
resource is owned once, and what is owned or was destroyed is among the resources that kernels
made. The log is what happened before and what the device recorded. -/
structure Sound (past : List Event) (made : List ResourceId) (d : Device) (kernels : List Kernel)
    (held : List ResourceId) : Prop where
  allocated : ∀ id, d.Allocated id ↔ id ∈ createdIn (past ++ d.events)
  fresh : (createdIn (past ++ d.events)).Nodup
  safe : SafeLog (past ++ d.events)
  live : ∀ id ∈ inUse kernels held, Live (past ++ d.events) id
  uniforms : ∀ id ∈ kernels.flatMap Kernel.uniformIds,
    Live (past ++ d.events) id ∧ id ∉ inUse kernels held
  once : (kernels.flatMap Kernel.ownedIds).Nodup
  owned : ∀ id ∈ kernels.flatMap Kernel.ownedIds, id ∈ made
  destroyed : ∀ id ∈ destroyedIn (past ++ d.events), id ∈ made

variable {past : List Event} {made made' : List ResourceId} {d d' : Device}
  {kernels kernels' : List Kernel} {held held' ids : List ResourceId}

theorem mem_inUse_cons {k : Kernel} {id : ResourceId} : id ∈ inUse (k :: kernels) held ↔
    id ∈ k.resources ∨ id ∈ kernels.flatMap Kernel.resources ++ held := by
  simp [inUse]

theorem Sound.apart {id : ResourceId} (h : Sound past made d kernels held)
    (hid : id ∈ inUse kernels held) :
    Live (past ++ d.events) id ∧ id ∉ kernels.flatMap Kernel.uniformIds :=
  ⟨h.live id hid, fun hu => (h.uniforms id hu).2 hid⟩

/-- The order of the kernels does not matter, and fewer resources may be held. -/
theorem Sound.of_perm (h : Sound past made d kernels held) (hk : kernels'.Perm kernels)
    (hh : ∀ id ∈ held', id ∈ held) (hm : ∀ id ∈ made, id ∈ made') :
    Sound past made' d kernels' held' := by
  have hu : ∀ id ∈ inUse kernels' held', id ∈ inUse kernels held := by
    intro id hid
    rcases List.mem_append.1 hid with hid | hid
    · exact List.mem_append_left _ ((hk.flatMap_right _).mem_iff.1 hid)
    · exact List.mem_append_right _ (hh id hid)
  exact {
    allocated := h.allocated
    fresh := h.fresh
    safe := h.safe
    live := fun id hid => h.live id (hu id hid)
    uniforms := fun id hid => by
      obtain ⟨hl, hn⟩ := h.uniforms id ((hk.flatMap_right _).mem_iff.1 hid)
      exact ⟨hl, fun hid' => hn (hu id hid')⟩
    once := (hk.flatMap_right _).nodup_iff.2 h.once
    owned := fun id hid => hm id (h.owned id ((hk.flatMap_right _).mem_iff.1 hid))
    destroyed := fun id hid => hm id (h.destroyed id hid) }

/-- Calls that destroy nothing and touch what is live. -/
theorem Sound.calls {es : List Event} (h : Sound past made d kernels held)
    (he : d'.events = d.events ++ es)
    (hn : ∀ e ∈ es, e.created? = none ∧ e.destroyed? = none ∧
      ∀ id ∈ e.touched, Live (past ++ d.events) id)
    (ha : ∀ id, d'.Allocated id ↔ d.Allocated id) : Sound past made d' kernels held := by
  have hl : past ++ d'.events = (past ++ d.events) ++ es := by rw [he, List.append_assoc]
  have hc : createdIn (past ++ d'.events) = createdIn (past ++ d.events) := by
    have hn' : createdIn es = [] := List.filterMap_eq_nil_iff.2 fun e hm => (hn e hm).1
    rw [hl, createdIn_append, hn', List.append_nil]
  have hd : destroyedIn (past ++ d'.events) = destroyedIn (past ++ d.events) := by
    have hn' : destroyedIn es = [] := List.filterMap_eq_nil_iff.2 fun e hm => (hn e hm).2.1
    rw [hl, destroyedIn_append, hn', List.append_nil]
  have hlive : ∀ {id}, Live (past ++ d.events) id → Live (past ++ d'.events) id := fun hid =>
    ⟨hc ▸ hid.1, hd ▸ hid.2⟩
  exact {
    allocated := fun id => by rw [ha, h.allocated, hc]
    fresh := by rw [hc]; exact h.fresh
    safe := by
      rw [hl]
      exact h.safe.append (fun e hm => (hn e hm).2.1) fun e hm => (hn e hm).2.2
    live := fun id hid => hlive (h.live id hid)
    uniforms := fun id hid => ⟨hlive (h.uniforms id hid).1, (h.uniforms id hid).2⟩
    once := h.once
    owned := h.owned
    destroyed := by rw [hd]; exact h.destroyed }

theorem touched_of_created {e : Event} {id : ResourceId} (h : e.created? = some id) :
    e.touched = [] ∧ e.destroyed? = none := by
  cases e <;> simp_all [Event.created?, Event.touched, Event.destroyed?]

/-- A resource is made to which nobody refers yet. -/
theorem Sound.create {e : Event} {id : ResourceId} (h : Sound past made d kernels held)
    (he : d'.events = d.events ++ [e]) (hc : e.created? = some id) (hf : ¬ d.Allocated id)
    (ha : ∀ x, d'.Allocated x ↔ d.Allocated x ∨ x = id) :
    Sound past made d' kernels held ∧ Live (past ++ d'.events) id ∧
      id ∉ inUse kernels held ∧ id ∉ kernels.flatMap Kernel.uniformIds := by
  have hl : past ++ d'.events = (past ++ d.events) ++ [e] := by rw [he, List.append_assoc]
  obtain ⟨ht, hn⟩ := touched_of_created hc
  have hcr : createdIn (past ++ d'.events) = createdIn (past ++ d.events) ++ [id] := by
    rw [hl, createdIn_append]
    simp [createdIn, hc]
  have hd : destroyedIn (past ++ d'.events) = destroyedIn (past ++ d.events) := by
    rw [hl, destroyedIn_append]
    simp [destroyedIn, hn]
  have hnew : id ∉ createdIn (past ++ d.events) := fun hm => hf ((h.allocated id).2 hm)
  -- What was destroyed had been made before, so the new resource is not among it.
  have hkept : id ∉ destroyedIn (past ++ d.events) := fun hm =>
    hnew (h.safe.created_of_destroyed hm)
  have hlive : ∀ {x}, Live (past ++ d.events) x → Live (past ++ d'.events) x := fun hx =>
    ⟨by rw [hcr]; exact List.mem_append_left _ hx.1, by rw [hd]; exact hx.2⟩
  refine ⟨?_, ⟨by rw [hcr]; simp, by rw [hd]; exact hkept⟩, fun hm => hnew (h.live id hm).1,
    fun hm => hnew (h.uniforms id hm).1.1⟩
  exact {
    allocated := fun x => by rw [ha, h.allocated, hcr, List.mem_append, List.mem_singleton]
    fresh := by
      rw [hcr]
      exact h.fresh.append (List.nodup_singleton _) (by simpa using hnew)
    safe := by
      rw [hl]
      exact h.safe.snoc (by simp [ht])
    live := fun x hx => hlive (h.live x hx)
    uniforms := fun x hx => ⟨hlive (h.uniforms x hx).1, (h.uniforms x hx).2⟩
    once := h.once
    owned := h.owned
    destroyed := by rw [hd]; exact h.destroyed }

/-- Work that uses what is live keeps everything live. -/
theorem Sound.uses (h : Sound past made d kernels held) (hu : Uses ids d d')
    (hi : ∀ id ∈ ids, Live (past ++ d.events) id) :
    Sound past made d' kernels held ∧
      ∀ id, Live (past ++ d.events) id → Live (past ++ d'.events) id := by
  induction hu with
  | refl => exact ⟨h, fun _ hl => hl⟩
  | @create ids d d₁ d' e id he hc hf ha _ ih =>
    obtain ⟨h₁, hid, -⟩ := h.create he hc hf ha
    have hn := (touched_of_created hc).2
    have hlive : ∀ x, Live (past ++ d.events) x → Live (past ++ d₁.events) x := fun x hx => by
      rw [he, ← List.append_assoc]
      exact hx.append (by simp [destroyedIn, hn])
    obtain ⟨h', hl'⟩ := ih h₁ fun x hx => by
      rcases List.mem_cons.1 hx with rfl | hx
      · exact hid
      · exact hlive x (hi x hx)
    exact ⟨h', fun x hx => hl' x (hlive x hx)⟩
  | @calls ids d d₁ d' es he hn ha _ ih =>
    have h₁ := h.calls he (fun e hm =>
      ⟨(hn e hm).1, (hn e hm).2.1, fun x hx => hi x ((hn e hm).2.2 x hx)⟩) ha
    have hd : destroyedIn es = [] := List.filterMap_eq_nil_iff.2 fun e hm => (hn e hm).2.1
    have hlive : ∀ x, Live (past ++ d.events) x → Live (past ++ d₁.events) x := fun x hx => by
      rw [he, ← List.append_assoc]
      exact hx.append (by simp [hd])
    obtain ⟨h', hl'⟩ := ih h₁ fun x hx => hlive x (hi x hx)
    exact ⟨h', fun x hx => hl' x (hlive x hx)⟩

/-- Something that nobody refers to is destroyed. -/
theorem Sound.destroy {id : ResourceId} (h : Sound past made d kernels held)
    (hl : Live (past ++ d.events) id) (hu : id ∉ inUse kernels held)
    (hn : id ∉ kernels.flatMap Kernel.uniformIds) (hm : id ∈ made) :
    Sound past made (d.destroy id) kernels held := by
  have he : past ++ (d.destroy id).events = (past ++ d.events) ++ [.destroy id] := by
    rw [Device.destroy, record, List.append_assoc]
  have hc : createdIn (past ++ (d.destroy id).events) = createdIn (past ++ d.events) := by
    rw [he, createdIn_append]
    simp [createdIn, Event.created?]
  have hlive : ∀ {x}, x ≠ id → Live (past ++ d.events) x →
      Live (past ++ (d.destroy id).events) x := fun hx hl => by
    rw [he]
    exact hl.append (by simpa [destroyedIn, Event.destroyed?] using hx)
  exact {
    allocated := fun x => by
      rw [hc, ← h.allocated]
      cases x <;> rfl
    fresh := by rw [hc]; exact h.fresh
    safe := by
      rw [he]
      exact h.safe.snoc (by simpa [Event.touched] using hl)
    live := fun x hx => hlive (fun hxi => hu (hxi ▸ hx)) (h.live x hx)
    uniforms := fun x hx =>
      ⟨hlive (fun hxi => hn (hxi ▸ hx)) (h.uniforms x hx).1, (h.uniforms x hx).2⟩
    once := h.once
    owned := h.owned
    destroyed := fun x hx => by
      rw [he, destroyedIn_append] at hx
      rcases List.mem_append.1 hx with hx | hx
      · exact h.destroyed x hx
      · have hxi : x = id := by simpa [destroyedIn, Event.destroyed?] using hx
        exact hxi ▸ hm }

/-- Other kernels and other holders, while the device stays as it is. -/
theorem Sound.refer (h : Sound past made d kernels held)
    (hl : ∀ id ∈ inUse kernels' held', Live (past ++ d.events) id ∧
      id ∉ kernels'.flatMap Kernel.uniformIds)
    (hn : ∀ id ∈ kernels'.flatMap Kernel.uniformIds, Live (past ++ d.events) id)
    (ho : (kernels'.flatMap Kernel.ownedIds).Nodup)
    (hm : ∀ id ∈ kernels'.flatMap Kernel.ownedIds, id ∈ made) :
    Sound past made d kernels' held' where
  allocated := h.allocated
  fresh := h.fresh
  safe := h.safe
  live id hid := (hl id hid).1
  uniforms id hid := ⟨hn id hid, fun hid' => (hl id hid').2 hid⟩
  once := ho
  owned := hm
  destroyed := h.destroyed

end Soundness

section Rebinding

open Kernel

/-- What is in a list after one of its places was given a new item. -/
theorem filterMap_set_cases {α β : Type} (f : α → Option β) (l : List α) (j : Nat) (a : α) :
    (l.set j a).filterMap f = l.filterMap f ∨ ∃ rest, rest.Sublist (l.filterMap f) ∧
      ((l.set j a).filterMap f).Perm ((f a).toList ++ rest) := by
  by_cases hj : j < l.length
  · refine .inr ⟨(l.eraseIdx j).filterMap f, (List.eraseIdx_sublist l j).filterMap f, ?_⟩
    have hp := (List.set_perm_cons_eraseIdx hj a).filterMap f
    cases hf : f a <;> simpa [hf] using hp
  · rw [List.set_eq_of_length_le (by omega)]
    exact .inl rfl

variable {past : List Event} {made held : List ResourceId} {d : Device} {k : Kernel}
  {others : List Kernel} {j : Nat} {new : Bound}

/-- The kernel with a new resource in one of its slots. -/
def Kernel.withSlot (k : Kernel) (j : Nat) (new : Bound) : Kernel :=
  { k with slots := k.slots.set j (some new) }

theorem mem_resources_withSlot {id : ResourceId} (h : id ∈ (k.withSlot j new).resources) :
    id = new.resource.id ∨ id ∈ k.resources := by
  have hs : (k.withSlot j new).resources = k.resources ∨ ∃ rest, rest.Sublist k.resources ∧
      (k.withSlot j new).resources.Perm ([new.resource.id] ++ rest) := by
    unfold Kernel.resources
    exact filterMap_set_cases _ k.slots j (some new)
  rcases hs with hs | ⟨rest, hr, hs⟩
  · exact .inr (hs ▸ h)
  · rcases List.mem_append.1 (hs.mem_iff.1 h) with h | h
    · exact .inl (by simpa using h)
    · exact .inr (hr.subset h)

/-- A live resource is bound to a slot. If the kernel made it, no slot has it yet. -/
theorem Sound.withSlot (h : Sound past made d (k :: others) held)
    (hl : Live (past ++ d.events) new.resource.id)
    (hn : new.resource.id ∉ (k :: others).flatMap Kernel.uniformIds)
    (ho : ∀ id ∈ new.ownedId?, id ∈ made ∧ id ∉ (k :: others).flatMap Kernel.ownedIds) :
    Sound past made d (k.withSlot j new :: others) held := by
  have howned : (k.withSlot j new).ownedIds = k.ownedIds ∨
      ∃ rest, rest.Sublist k.ownedIds ∧
        (k.withSlot j new).ownedIds.Perm (new.ownedId?.toList ++ rest) :=
    filterMap_set_cases (fun b : Option Bound => b.bind Bound.ownedId?) k.slots j (some new)
  refine h.refer (fun id hid => ?_) (fun id hid => (h.uniforms id hid).1) ?_ ?_
  · rcases mem_inUse_cons.1 hid with hid | hid
    · rcases mem_resources_withSlot hid with rfl | hid
      · exact ⟨hl, hn⟩
      · exact h.apart (mem_inUse_cons.2 (.inl hid))
    · exact h.apart (mem_inUse_cons.2 (.inr hid))
  · have honce := h.once
    rw [List.flatMap_cons] at honce ⊢
    rcases howned with hs | ⟨rest, hr, hs⟩
    · rw [hs]
      exact honce
    · have hrest := honce.sublist (hr.append_right _)
      rw [(hs.append_right _).nodup_iff]
      cases hid : new.ownedId? with
      | none => simpa [hid] using hrest
      | some id =>
        have hnot := (ho id hid).2
        rw [List.flatMap_cons] at hnot
        simpa using List.nodup_cons.2 ⟨fun hm => hnot ((hr.append_right _).subset hm), hrest⟩
  · intro id hid
    rw [List.flatMap_cons, List.mem_append] at hid
    have hkept : id ∈ k.ownedIds ∨ id ∈ others.flatMap Kernel.ownedIds → id ∈ made := fun hid =>
      h.owned id (by rw [List.flatMap_cons]; exact List.mem_append.2 hid)
    rcases hid with hid | hid
    · rcases howned with hs | ⟨rest, hr, hs⟩
      · exact hkept (.inl (hs ▸ hid))
      · rcases List.mem_append.1 (hs.mem_iff.1 hid) with hid | hid
        · exact (ho id (by simpa using hid)).1
        · exact hkept (.inl (hr.subset hid))
    · exact hkept (.inr hid)

end Rebinding

section Runs

open Kernel

variable {past : List Event} {base held : List ResourceId} {others : List Kernel}

theorem Device.Uses.events {ids : List ResourceId} {d d' : Device} (h : Uses ids d d') :
    ∃ es, d'.events = d.events ++ es := by
  induction h with
  | refl ids d => exact ⟨[], by simp⟩
  | create he _ _ _ _ ih =>
    obtain ⟨es, h⟩ := ih
    exact ⟨_, by rw [h, he, List.append_assoc]⟩
  | calls he _ _ _ ih =>
    obtain ⟨es, h⟩ := ih
    exact ⟨_, by rw [h, he, List.append_assoc]⟩

/-- The soundness of a run: what it made is among the resources that kernels made, and what its
arguments still have to hand over is held as well. -/
def RunSound (past : List Event) (base : List ResourceId) (others : List Kernel)
    (held pending : List ResourceId) (r : Running) : Prop :=
  Sound past (base ++ createdIn r.device.events) r.device (r.kernel :: others) (held ++ pending)

variable {pending : List ResourceId} {r r' : Running}

theorem RunSound.uses {ids : List ResourceId} {d : Device} {log : List LogLine}
    (h : RunSound past base others held pending r) (hu : Uses ids r.device d)
    (hi : ∀ id ∈ ids, Live (past ++ r.device.events) id) :
    RunSound past base others held pending { r with device := d, log := log } := by
  obtain ⟨es, he⟩ := hu.events
  refine (Sound.uses h hu hi).1.of_perm (.refl _) (fun _ hid => hid) fun id hid => ?_
  rw [show ({ r with device := d, log := log } : Running).device.events = _ from he,
    createdIn_append, ← List.append_assoc]
  exact List.mem_append_left _ hid

theorem RunSound.live_resource {j : Nat} {b : Bound} (h : RunSound past base others held pending r)
    (hb : r.kernel.bound? j = some b) : Live (past ++ r.device.events) b.resource.id :=
  h.live _ (mem_inUse_cons.2 (.inl (mem_resources hb)))

/-- A resource takes the place of another one, which is destroyed if nobody refers to it. -/
theorem RunSound.replaced {t : Turn} {new : Bound} {arg : List ResourceId}
    (h : RunSound past base others held (arg ++ t.pending) r)
    (ht : t.others = others.flatMap Kernel.resources ++ held)
    (harg : ∀ id ∈ arg, id = new.resource.id)
    (hl : Live (past ++ r.device.events) new.resource.id)
    (hn : new.resource.id ∉ (r.kernel :: others).flatMap Kernel.uniformIds)
    (ho : ∀ id ∈ new.ownedId?, id ∈ base ++ createdIn r.device.events ∧
      id ∉ (r.kernel :: others).flatMap Kernel.ownedIds) :
    RunSound past base others held (arg ++ t.pending) (replaced t new r) := by
  have hs : RunSound past base others held (arg ++ t.pending) (rebound t new r) :=
    Sound.withSlot h hl hn ho
  rcases replaced_cases t new r with hr | ⟨old, hb, hown, hheld, hr⟩ <;> rw [hr]
  · exact hs
  have hid : old.resource.id ∈ r.kernel.resources := mem_resources hb
  have hi : t.index < r.kernel.slots.length := by
    refine Nat.lt_of_not_le fun hle => ?_
    rw [bound?, List.getElem?_eq_none hle] at hb
    simp at hb
  simp only [isHeld, Bool.or_eq_false_iff, List.contains_eq_mem, decide_eq_false_iff_not] at hheld
  obtain ⟨⟨hslots, hothers⟩, hpending⟩ := hheld
  -- The argument that is being bound is in the slot now, so it is not what is destroyed.
  have hnew : old.resource.id ≠ new.resource.id := fun he =>
    hslots (he ▸ mem_resources (replaced_kernel t new r ▸ bound?_replaced hi))
  have hunused : old.resource.id ∉
      inUse ((rebound t new r).kernel :: others) (held ++ (arg ++ t.pending)) := by
    rw [ht, List.mem_append] at hothers
    simp only [mem_inUse_cons, List.mem_append]
    rintro (h | h | h | h | h)
    · exact hslots h
    · exact hothers (.inl h)
    · exact hothers (.inr h)
    · exact hnew (harg _ h)
    · exact hpending h
  have howned : old.resource.id ∈ base ++ createdIn r.device.events := by
    refine h.owned _ (List.mem_append_left _ (List.mem_filterMap.2 ⟨some old, ?_, ?_⟩))
    · exact List.mem_of_getElem? (Option.join_eq_some_iff.1 hb)
    · simp [Bound.ownedId?, hown]
  refine (Sound.destroy hs (h.live_resource hb) hunused
    (h.apart (mem_inUse_cons.2 (.inl hid))).2 howned).of_perm (.refl _) (fun _ h => h) ?_
  simp [Device.destroy, record, createdIn, Event.created?, rebound]

theorem ownedIds_subset {k : Kernel} {id : ResourceId} (h : id ∈ k.ownedIds) :
    id ∈ k.resources := by
  obtain ⟨_, hb, hid⟩ := List.mem_filterMap.1 h
  obtain ⟨b, rfl, hown⟩ := Option.bind_eq_some_iff.1 hid
  unfold Bound.ownedId? at hown
  split at hown <;> cases hown
  exact List.mem_filterMap.2 ⟨some b, hb, rfl⟩

/-- A resource that a run makes belongs to its kernel from now on, and nobody refers to it. -/
theorem RunSound.create {x : Resource} {d : Device}
    (h : RunSound past base others held pending r) (hc : Creates r.device x d) :
    RunSound past base others held pending { r with device := d } ∧
      Live (past ++ d.events) x.id ∧
      x.id ∉ inUse (r.kernel :: others) (held ++ pending) ∧
      x.id ∉ (r.kernel :: others).flatMap Kernel.uniformIds ∧
      x.id ∈ base ++ createdIn d.events := by
  obtain ⟨e, he, hid⟩ := hc.events
  obtain ⟨-, hl, hn, hu⟩ := Sound.create h he hid hc.fresh fun _ => hc.allocated_iff
  have hnone : Uses [] r.device d := hc.uses
  refine ⟨h.uses hnone (by simp), hl, hn, hu, List.mem_append_right _ ?_⟩
  rw [he, createdIn_append]
  exact List.mem_append_right _ (by simp [createdIn, hid])

theorem Kernel.TurnStep.sound {t : Turn} {arg : Argument Resource} (hs : TurnStep t arg r r')
    (ht : t.others = others.flatMap Kernel.resources ++ held)
    (h : RunSound past base others held (argumentIds [arg] ++ t.pending) r) :
    RunSound past base others held (argumentIds [arg] ++ t.pending) r' := by
  cases hs with
  | lost hc => exact (h.create hc).1
  | @fill x d ha hc =>
    obtain ⟨h₁, hl, hn, hu, hm⟩ := h.create hc
    refine h₁.replaced ht (by simp [argumentIds, ha]) hl hu fun id hid => ?_
    cases hid
    refine ⟨hm, fun hid => hn (List.mem_append_left _ ?_)⟩
    obtain ⟨k, hk, hid⟩ := List.mem_flatMap.1 hid
    exact List.mem_flatMap.2 ⟨k, hk, ownedIds_subset hid⟩
  | write hb hw =>
    exact h.uses hw.uses fun id hid => List.mem_singleton.1 hid ▸ h.live_resource hb
  | @adopt x ha =>
    subst ha
    have hid : x.id ∈ held ++ (argumentIds [.resource x] ++ t.pending) := by
      simp [argumentIds, Argument.resource?]
    have hx := h.apart (List.mem_append_right _ hid)
    exact h.replaced ht (by simp [argumentIds, Argument.resource?]) hx.1 hx.2
      (by simp [Bound.ownedId?])

theorem uniformIds_eq (k : Kernel) :
    k.uniformIds = k.uniformBuffers.filterMap fun b => b.map fun b => .buffer b.number := by
  unfold uniformIds uniformIdentity
  rw [List.filterMap_map]
  rfl

theorem mem_uniformIds {k : Kernel} {i : Nat} {b : Buffer} (h : k.uniformBuffer? i = some b) :
    .buffer b.number ∈ k.uniformIds := by
  rw [uniformIds_eq]
  have hb : some b ∈ k.uniformBuffers := List.mem_of_getElem? (Option.join_eq_some_iff.1 h)
  exact List.mem_filterMap.2 ⟨some b, hb, rfl⟩

theorem mem_uniformIds_set {k k' : Kernel} {i : Nat} {b : Buffer} {id : ResourceId}
    (hk : k'.uniformBuffers = k.uniformBuffers.set i (some b)) (h : id ∈ k'.uniformIds) :
    id = .buffer b.number ∨ id ∈ k.uniformIds := by
  rw [uniformIds_eq, hk] at h
  rw [uniformIds_eq]
  rcases filterMap_set_cases _ k.uniformBuffers i (some b) with hs | ⟨rest, hr, hs⟩
  · exact .inr (hs ▸ h)
  · rcases List.mem_append.1 (hs.mem_iff.1 h) with h | h
    · exact .inl (by simpa using h)
    · exact .inr (hr.subset h)

/-- The buffers of uniforms are out of reach of everyone else from the moment they are made. -/
theorem Kernel.UniformStep.sound {made : List ResourceId} (hs : UniformStep r r')
    (h : Sound past made r.device (r.kernel :: others) held) :
    Sound past made r'.device (r'.kernel :: others) held := by
  cases hs with
  | @lost x d hc =>
    have hu : Uses [] r.device d := hc.uses
    exact (h.uses hu (by simp)).1
  | @fill i slot b d hi hn _ _ hc =>
    obtain ⟨e, he, hid⟩ := hc.events
    obtain ⟨h₁, hl, hn, -⟩ := h.create he hid hc.fresh fun _ => hc.allocated_iff
    let k := { r.kernel with uniformBuffers := r.kernel.uniformBuffers.set i (some b) }
    have hcases : ∀ id ∈ (k :: others).flatMap Kernel.uniformIds,
        id = .buffer b.number ∨ id ∈ (r.kernel :: others).flatMap Kernel.uniformIds := by
      intro id hid
      rw [List.flatMap_cons, List.mem_append] at hid ⊢
      rcases hid with hid | hid
      · exact (mem_uniformIds_set rfl hid).imp_right .inl
      · exact .inr (.inr hid)
    refine h₁.refer (fun id hid => ⟨h₁.live id hid, fun hid' => ?_⟩) (fun id hid => ?_)
      h₁.once h₁.owned
    · rcases hcases id hid' with rfl | hid'
      · exact hn hid
      · exact (h.uniforms id hid').2 hid
    · rcases hcases id hid with rfl | hid
      · exact hl
      · exact (h₁.uniforms id hid).1
  | write hb _ =>
    refine (h.uses (Writes.buffer _ _).uses fun id hid => ?_).1
    rw [List.mem_singleton.1 hid]
    exact (h.uniforms _ (List.mem_append_left _ (mem_uniformIds hb))).1
  | note line => exact h

theorem Kernel.UniformStep.uses (hs : UniformStep r r') : ∃ ids, Uses ids r.device r'.device := by
  cases hs with
  | lost hc => exact ⟨[], hc.uses⟩
  | fill _ _ _ _ hc => exact ⟨[], hc.uses⟩
  | write _ _ => exact ⟨_, (Writes.buffer _ _).uses⟩
  | note line => exact ⟨[], .refl _ _⟩

theorem RunSound.uniform (h : RunSound past base others held pending r) (hs : UniformStep r r') :
    RunSound past base others held pending r' := by
  obtain ⟨ids, hu⟩ := hs.uses
  obtain ⟨es, he⟩ := hu.events
  refine (hs.sound h).of_perm (.refl _) (fun _ hid => hid) fun id hid => ?_
  rw [he, createdIn_append, ← List.append_assoc]
  exact List.mem_append_left _ hid

/-- Soundness depends on what is in the slots and on the buffers of the uniforms. -/
theorem Sound.congr {made : List ResourceId} {d : Device} {kernels kernels' : List Kernel}
    (h : Sound past made d kernels held)
    (hr : kernels'.flatMap Kernel.resources = kernels.flatMap Kernel.resources)
    (hu : kernels'.flatMap Kernel.uniformIds = kernels.flatMap Kernel.uniformIds)
    (ho : kernels'.flatMap Kernel.ownedIds = kernels.flatMap Kernel.ownedIds) :
    Sound past made d kernels' held := by
  have hi : inUse kernels' held = inUse kernels held := by rw [inUse, inUse, hr]
  refine h.refer ?_ ?_ ?_ ?_
  · rw [hi, hu]
    exact fun id hid => h.apart hid
  · rw [hu]
    exact fun id hid => (h.uniforms id hid).1
  · rw [ho]
    exact h.once
  · rw [ho]
    exact h.owned

theorem Sound.congr_head {made : List ResourceId} {d : Device} {k k' : Kernel}
    (h : Sound past made d (k :: others) held) (hs : k'.slots = k.slots)
    (hu : k'.uniformBuffers = k.uniformBuffers) : Sound past made d (k' :: others) held := by
  refine h.congr ?_ ?_ ?_ <;> rw [List.flatMap_cons, List.flatMap_cons]
  · rw [resources, resources, hs]
  · rw [uniformIds_eq, uniformIds_eq, hu]
  · rw [ownedIds, ownedIds, hs]

theorem createPipeline_uses (p : Pipeline) (d : Device) :
    Uses [] d (d.attempted (createPipeline p)) := by
  obtain ⟨es, he, hn⟩ := createPipeline_events p d
  obtain ⟨hb, ht⟩ := createPipeline_memory p d
  refine uses_calls es he (fun e hm => ?_) (by rw [hb]) (by rw [ht])
  obtain ⟨-, htouched, hc⟩ := hn e hm
  refine ⟨hc, ?_, by simp [htouched]⟩
  cases e <;> simp_all [Event.touched, Event.destroyed?]

theorem ensurePipeline_uses (r : Running) :
    Uses [] r.device (endState (ensurePipeline r)).device := by
  rcases ensurePipeline_cases r with ⟨p, -, hr⟩ | ⟨-, ⟨f, hr⟩ | ⟨l, -, ⟨m, hr⟩ | hr⟩⟩ <;> rw [hr]
  · exact .refl _ _
  · exact .refl _ _
  · exact createPipeline_uses l r.device
  · exact createPipeline_uses l r.device

theorem RunSound.pipeline (h : RunSound past base others held pending r) :
    RunSound past base others held pending (endState (ensurePipeline r)) := by
  rcases ensurePipeline_cases r with ⟨p, -, hr⟩ | ⟨-, ⟨f, hr⟩ | ⟨l, -, hr⟩⟩
  · rw [hr]
    exact h
  · rw [hr]
    exact h
  · have h₁ : RunSound past base others held pending
        { r with device := r.device.attempted (createPipeline l) } :=
      h.uses (createPipeline_uses l r.device) (by simp)
    rcases hr with ⟨m, hr⟩ | hr <;> rw [hr]
    · exact h₁
    · exact Sound.congr_head h₁ rfl rfl

/-- The launch of a kernel uses what is in its slots and the buffers of its uniforms. -/
theorem Kernel.Launches.uses {p : Pipeline} {es : List Event} {made : List (String × BindGroup)}
    (hl : Launches p es made r r') :
    Uses (r.kernel.resources ++ r.kernel.uniformIds) r.device r'.device := by
  refine uses_calls es hl.events (fun e hm => ?_) (by rw [hl.memory.1]) (by rw [hl.memory.2])
  cases hl.launch e hm with
  | params => simp +contextual [Event.created?, Event.destroyed?, Event.touched]
  | uniforms => simp +contextual [Event.created?, Event.destroyed?, Event.touched]
  | dispatch groups =>
    refine ⟨rfl, rfl, ?_⟩
    cases p.hasUniforms <;> simp +contextual [Event.touched]

theorem RunSound.launch {p : Pipeline} {es : List Event} {made : List (String × BindGroup)}
    (h : RunSound past base others held pending r) (hl : Launches p es made r r') :
    RunSound past base others held pending r' := by
  have h₁ : RunSound past base others held pending { r with device := r'.device } := by
    refine h.uses hl.uses fun id hid => ?_
    rcases List.mem_append.1 hid with hid | hid
    · exact h.live id (mem_inUse_cons.2 (.inl hid))
    · exact (h.uniforms id (List.mem_append_left _ hid)).1
  obtain ⟨_, _, _, hk⟩ := hl.kernel
  exact Sound.congr_head h₁ (by rw [hk]) (by rw [hk])

theorem RunSound.mono {pending' : List ResourceId} (hsub : ∀ id ∈ pending', id ∈ pending)
    (h : RunSound past base others held pending r) :
    RunSound past base others held pending' r :=
  Sound.of_perm h (.refl _) (fun id hid => by
    rcases List.mem_append.1 hid with hid | hid
    · exact List.mem_append_left _ hid
    · exact List.mem_append_right _ (hsub id hid)) fun _ hid => hid

variable {args : List (Argument Resource)}

theorem RunSound.runTurns (hs : Shaped r.kernel)
    (h : RunSound past base others held (argumentIds args) r) :
    ∀ t ∈ runTurns (others.flatMap Kernel.resources ++ held) args r,
      RunSound past base others held t.2 t.1 :=
  runTurns_keep (I := RunSound past base others held) hs RunSound.mono RunSound.pipeline
    (fun ht hs h => hs.sound ht h) h

theorem RunSound.bindAll {slots : List ParamSlot} {index : Nat} {groups : Extent}
    (h : RunSound past base others held (argumentIds args) r)
    (hn : index + slots.length ≤ r.kernel.slots.length) :
    RunSound past base others held [] (endState (Kernel.bindAll
      (others.flatMap Kernel.resources ++ held) groups index slots args r)) := by
  rcases bindAll_turns (others.flatMap Kernel.resources ++ held) groups slots args index r with
    he | ⟨pending, ht⟩
  · rw [he]
    exact h.mono (by simp)
  · exact (turns_keep (I := RunSound past base others held) RunSound.mono
      (fun ht hs h => hs.sound ht h) slots args index r hn h _ ht).mono (by simp)

theorem RunSound.prepare (hs : Shaped r.kernel)
    (h : RunSound past base others held (argumentIds args) r) :
    RunSound past base others held []
      (endState (Kernel.prepare (others.flatMap Kernel.resources ++ held) args r)) :=
  prepare_keeps (I := RunSound past base others held) hs RunSound.mono RunSound.pipeline
    (fun ht hs h => hs.sound ht h) (fun hs h => h.uniform hs) h

/-- A run keeps everything sound, wherever it fails. -/
theorem RunSound.run (hc : Coherent r.kernel)
    (h : RunSound past base others held (argumentIds args) r) :
    RunSound past base others held []
      (endState (Kernel.run (others.flatMap Kernel.resources ++ held) args r)) := by
  have hp := h.prepare hc.toShaped
  rcases run_cases (others.flatMap Kernel.resources ++ held) args hc with
    ⟨f, r', hr, hx, -⟩ | ⟨p, groups, r₁, es, hr, -, -, -, hl, -⟩ <;> rw [hr] at hp
  · rw [hx]
    exact hp
  · exact hp.launch hl.launches

theorem Device.Uses.destroyedIn {ids : List ResourceId} {d d' : Device} (h : Uses ids d d') :
    destroyedIn d'.events = destroyedIn d.events := by
  induction h with
  | refl ids d => rfl
  | create he hc _ _ _ ih =>
    rw [ih, he, destroyedIn_append]
    simp [Device.destroyedIn, (touched_of_created hc).2]
  | calls he hn _ _ ih =>
    rw [ih, he, destroyedIn_append,
      show Device.destroyedIn _ = [] from List.filterMap_eq_nil_iff.2 fun e hm => (hn e hm).2.1,
      List.append_nil]

/-- What a run destroys, it destroys while it binds its arguments. -/
theorem run_destroys (holders : List ResourceId) (hc : Coherent r.kernel) {id : ResourceId}
    (hid : id ∈ destroyedIn (endState (Kernel.run holders args r)).device.events) :
    id ∈ destroyedIn r.device.events ∨
      ∃ t ∈ Kernel.runTurns holders args r, id ∈ destroyedIn t.1.device.events := by
  let P : Running → Prop := fun r' => ∀ id ∈ destroyedIn r'.device.events,
    id ∈ destroyedIn r.device.events ∨
      ∃ t ∈ Kernel.runTurns holders args r, id ∈ destroyedIn t.1.device.events
  have keep : ∀ {r₁ r₂ : Running} {ids}, Uses ids r₁.device r₂.device → P r₁ → P r₂ := by
    intro r₁ r₂ ids hu h₁ id hid
    exact h₁ id (hu.destroyedIn ▸ hid)
  have hstart : P r := fun id hid => .inl hid
  have hprepare : P (endState (Kernel.prepare holders args r)) := by
    refine prepare_after_turns hc.toShaped ?_ (fun t ht id hid => .inr ⟨t, ht, hid⟩) ?_ hstart
    · exact keep (ensurePipeline_uses r) hstart
    · intro r₁ r₂ hs
      exact keep hs.uses.choose_spec
  rcases run_cases holders args hc with
    ⟨f, r', hr, hx, -⟩ | ⟨p, groups, r₁, es, hr, -, -, -, hl, -⟩ <;> rw [hr] at hprepare
  · rw [hx] at hid
    exact hprepare id hid
  · exact keep hl.launches.uses hprepare id hid

end Runs

end ComputeKernel
