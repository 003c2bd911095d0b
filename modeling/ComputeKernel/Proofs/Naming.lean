import Mathlib.Data.List.Nodup
import ComputeKernel.Proofs.Reflection

/-!
# What names lead to

The slots of a kernel are looked up by name, and of several slots of one name the first is found. A
parameter of a complete shader has the name of its variable, so where the variables have names of
their own every parameter is found. A uniform that is a block has the name of the block's member,
and nothing keeps two blocks from calling their members alike. Then the later uniform is hidden: no
name leads to it, and no value can be given to it (`slots_named`).
-/

namespace ComputeKernel

section Lookups

variable {α : Type} {f : α → String} {xs : List α} {i : Nat} {x : α} {n : String}

/-- Whether the name at a position stands at an earlier position as well. -/
def Repeats (names : List String) (i : Nat) : Prop :=
  i < names.length ∧ ∃ j < i, names[j]? = names[i]?

instance (names : List String) (i : Nat) : Decidable (Repeats names i) :=
  inferInstanceAs (Decidable (_ ∧ _))

theorem nodup_iff_not_repeats {names : List String} : names.Nodup ↔ ∀ i, ¬Repeats names i := by
  rw [List.nodup_iff_getElem?_ne_getElem?]
  constructor
  · rintro h i ⟨hi, j, hj, he⟩
    exact h j i hj hi he
  · intro h j i hj hi he
    exact h i ⟨hi, j, hj, he⟩

/-- A lookup with positions finds a slot of the name that is the first of it. -/
theorem find?_zipIdx_eq_some_iff : xs.zipIdx.find? (fun y => f y.1 == n) = some (x, i) ↔
    xs[i]? = some x ∧ f x = n ∧ ¬Repeats (xs.map f) i := by
  rw [List.find?_eq_some_iff_getElem]
  simp only [List.getElem_zipIdx, List.length_zipIdx, beq_iff_eq, Prod.mk.injEq]
  constructor
  · rintro ⟨hn, j, hj, ⟨rfl, hij⟩, hfirst⟩
    obtain rfl : j = i := by omega
    refine ⟨List.getElem?_eq_getElem hj, hn, ?_⟩
    rintro ⟨-, l, hl, he⟩
    have hlj := hfirst l hl
    rw [List.getElem?_map, List.getElem?_map, List.getElem?_eq_getElem hj,
      List.getElem?_eq_getElem (Nat.lt_trans hl hj)] at he
    simp [Option.some.inj he, hn] at hlj
  · rintro ⟨hx, rfl, hr⟩
    obtain ⟨hi, rfl⟩ := List.getElem?_eq_some_iff.1 hx
    refine ⟨rfl, i, hi, ⟨rfl, Nat.zero_add i⟩, fun j hj => ?_⟩
    simp only [Bool.not_eq_true', beq_eq_false_iff_ne, ne_eq]
    intro he
    refine hr ⟨by rwa [List.length_map], j, hj, ?_⟩
    rw [List.getElem?_map, List.getElem?_map, hx, List.getElem?_eq_getElem (Nat.lt_trans hj hi)]
    simp [he]

/-- A lookup without positions finds the same slot. -/
theorem find?_eq_map_zipIdx (p : α → Bool) :
    xs.find? p = (xs.zipIdx.find? fun y => p y.1).map Prod.fst := by
  have hx : xs.zipIdx.map Prod.fst = xs := List.zipIdx_map_fst 0 xs
  rw [← hx, List.find?_map, hx]
  rfl

theorem find?_eq_of_not_repeats (hx : xs[i]? = some x) (hr : ¬Repeats (xs.map f) i) :
    xs.find? (fun y => f y == f x) = some x := by
  rw [find?_eq_map_zipIdx (fun y => f y == f x), find?_zipIdx_eq_some_iff.2 ⟨hx, rfl, hr⟩]
  rfl

end Lookups

/-- Whether a uniform has the name of one that comes before it. -/
def Layout.Hides (l : Layout) (i : Nat) : Prop := Repeats (l.uniforms.map (·.name)) i

instance (l : Layout) (i : Nat) : Decidable (l.Hides i) := inferInstanceAs (Decidable (Repeats _ _))

namespace Kernel

open RunM

variable {k : Kernel} {n : String} {i : Nat}

theorem param?_eq_ok_iff {slot : ParamSlot} : k.param? n = .ok (i, slot) ↔
    k.program.layout.params[i]? = some slot ∧ slot.name = n ∧
      ¬Repeats (k.program.layout.params.map (·.name)) i := by
  rw [← find?_zipIdx_eq_some_iff (f := ParamSlot.name)]
  unfold param?
  split <;> rename_i h <;> simp [h, and_comm]

theorem uniform?_eq_ok_iff {slot : UniformSlot} : k.uniform? n = .ok (i, slot) ↔
    k.program.layout.uniforms[i]? = some slot ∧ slot.name = n ∧ ¬k.program.layout.Hides i := by
  rw [Layout.Hides, ← find?_zipIdx_eq_some_iff (f := UniformSlot.name)]
  unfold uniform?
  split <;> rename_i h <;> simp [h, and_comm]

/-- Only the uniform that a name leads to is given a buffer. -/
theorem setUniform_other {r : Running} {values : List Binary64}
    (hn : ∀ slot, r.kernel.uniform? n ≠ .ok (i, slot)) :
    (endState (setUniform n values r)).kernel.uniformBuffer? i = r.kernel.uniformBuffer? i := by
  rcases setUniform_cases n values r with ⟨f, h⟩ | ⟨j, slot, hj, -, h⟩
  · rw [h]
    rfl
  have hji : j ≠ i := fun hji => hn slot (hji ▸ hj)
  have he : (endState (ensureUniform j slot r)).kernel.uniformBuffer? i =
      r.kernel.uniformBuffer? i := by
    rcases ensureUniform_cases j slot r with ⟨b, -, h⟩ | ⟨-, ⟨f, h⟩ | ⟨f, h⟩ | h⟩ <;> rw [h]
    · rfl
    · rfl
    · rfl
    · exact congrArg Option.join (List.getElem?_set_ne hji)
  rcases h with ⟨f, r', h, hs⟩ | ⟨b, r', h, hs⟩ <;> rw [h] at he <;> rw [hs]
  · exact he
  · rw [endState_onDevice]
    exact he

end Kernel

namespace Shader

variable {m : ShaderModule} {l : Layout} {log log' : List LogLine}

/-- All variables of a shader have names, and no two have the same. -/
def ShaderModule.Named (m : ShaderModule) : Prop :=
  (∀ v ∈ m.vars, v.name ≠ none) ∧ (m.vars.map (·.name)).Nodup

instance (m : ShaderModule) : Decidable m.Named := inferInstanceAs (Decidable (_ ∧ _))

/-- The name of the only member of a block. -/
def VarType.member? : VarType → Option String
  | .struct [(name, _)] => name
  | _ => none

/-- The name of a variable as a uniform. -/
def GlobalVar.uniformName (v : GlobalVar) : String := v.type.member?.getD (v.name.getD "")

theorem name_of_paramSlot? {v : GlobalVar} {s : ParamSlot} (h : v.paramSlot? = some s) :
    s.name = v.name.getD "" := by
  obtain ⟨_, -, rfl⟩ := Option.map_eq_some_iff.1 h
  rfl

theorem name_of_uniformSlot? {v : GlobalVar} {s : UniformSlot} (h : v.uniformSlot? = some s) :
    s.name = v.uniformName := by
  obtain ⟨u, hu, rfl⟩ := Option.map_eq_some_iff.1 h
  unfold GlobalVar.uniformName
  show u.1.getD (v.name.getD "") = _
  congr 1
  unfold uniformKind? at hu
  split at hu
  · split at hu <;> obtain ⟨scalar, hq, rfl⟩ := Option.map_eq_some_iff.1 hu
    · rename_i ht
      rw [ht]
      rfl
    · unfold quadScalar? at hq
      split at hq
      · rename_i ht
        rw [ht]
        rfl
      · cases hq
  · cases hu

/-- The names of slots are those that the variables give them. -/
theorem names_of_slots {α : Type} {f : GlobalVar → Option α} {slotName : α → String}
    {varName : GlobalVar → String} (hf : ∀ v s, f v = some s → slotName s = varName v) :
    ∀ {vars : List GlobalVar} {slots : List α}, vars.map f = slots.map some →
      slots.map slotName = vars.map varName
  | [], [], _ => rfl
  | [], _ :: _, h => by simp at h
  | _ :: _, [], h => by simp at h
  | v :: vars, s :: slots, h => by
    rw [List.map_cons, List.map_cons, List.cons.injEq] at h
    rw [List.map_cons, List.map_cons, hf v s h.1, names_of_slots hf h.2]

/-- The variables of a group keep the names that they have in the shader, so they differ. -/
theorem ShaderModule.Named.bound (h : m.Named) (group : Nat) :
    ((m.bound group).map fun v => v.name.getD "").Nodup := by
  have hn : ((m.bound group).map (·.name)).Nodup := by
    have hp : (m.bound group).Perm (m.vars.filter (boundIn group)) := List.mergeSort_perm _ _
    exact (hp.map _).nodup_iff.2 (h.2.sublist (List.filter_sublist.map _))
  have he : (m.bound group).map (·.name) =
      ((m.bound group).map fun v => v.name.getD "").map some := by
    rw [List.map_map]
    refine List.map_congr_left fun v hv => ?_
    obtain ⟨name, hname⟩ := Option.ne_none_iff_exists'.1 (h.1 v (mem_bound hv).1)
    simp [hname]
  rw [he] at hn
  exact List.Nodup.of_map some hn

/-- In a complete shader whose variables have names of their own every parameter is found by its
name. A uniform has the name of its block's member, or else of its variable, and it is found by that
name unless an earlier uniform has it, too. No name leads to a uniform that is hidden in this way,
and none is when the names that the variables give to uniforms differ, as they do without blocks. -/
theorem slots_named (hm : m.Named) (hl : m.layout log = .ok l log') :
    (l.params.map (·.name)).Nodup ∧
      (∀ i slot, l.params[i]? = some slot → l.param? slot.name = some slot ∧
        ∀ k : Kernel, k.program.layout = l → k.param? slot.name = .ok (i, slot)) ∧
      (∀ i slot, l.uniforms[i]? = some slot → ¬l.Hides i → l.uniform? slot.name = some slot ∧
        ∀ k : Kernel, k.program.layout = l → k.uniform? slot.name = .ok (i, slot)) ∧
      (∀ i, l.Hides i → ∀ r : Running, r.kernel.program.layout = l → ∀ n values,
        (∀ slot, r.kernel.uniform? n ≠ .ok (i, slot)) ∧
          (endState (Kernel.setUniform n values r)).kernel.uniformBuffer? i =
            r.kernel.uniformBuffer? i) ∧
      l.uniforms.map (·.name) = (m.bound uniformGroup).map GlobalVar.uniformName ∧
      ((∀ i, ¬l.Hides i) ↔ (l.uniforms.map (·.name)).Nodup) ∧
      ((∀ v ∈ m.bound uniformGroup, v.type.member? = none) → ∀ i, ¬l.Hides i) := by
  obtain ⟨hp, hu, -⟩ := layout_eq_ok_iff.1 hl
  have hparams : (l.params.map (·.name)).Nodup := by
    rw [names_of_slots (fun _ _ => name_of_paramSlot?) hp]
    exact hm.bound paramGroup
  have huniforms : l.uniforms.map (·.name) = (m.bound uniformGroup).map GlobalVar.uniformName :=
    names_of_slots (fun _ _ => name_of_uniformSlot?) hu
  refine ⟨hparams, fun i slot hs => ?_, fun i slot hs hh => ?_, fun i hh r hr n values => ?_,
    huniforms, nodup_iff_not_repeats.symm, fun hb => ?_⟩
  · have hr := nodup_iff_not_repeats.1 hparams i
    exact ⟨find?_eq_of_not_repeats hs hr,
      fun k hk => Kernel.param?_eq_ok_iff.2 (hk ▸ ⟨hs, rfl, hr⟩)⟩
  · exact ⟨find?_eq_of_not_repeats hs hh,
      fun k hk => Kernel.uniform?_eq_ok_iff.2 (hk ▸ ⟨hs, rfl, hh⟩)⟩
  · have hn : ∀ slot, r.kernel.uniform? n ≠ .ok (i, slot) := fun slot h =>
      (Kernel.uniform?_eq_ok_iff.1 h).2.2 (hr ▸ hh)
    exact ⟨hn, Kernel.setUniform_other hn⟩
  · refine nodup_iff_not_repeats.1 ?_
    rw [huniforms, List.map_congr_left fun v hv => show v.uniformName = v.name.getD "" by
      rw [GlobalVar.uniformName, hb v hv, Option.getD_none]]
    exact hm.bound uniformGroup

/-- A shader in which two uniforms are blocks of one type. -/
def twins : ShaderModule where
  vars := [
    ⟨some "cells", .storage ⟨true, true⟩, some ⟨0, 0⟩, .array (.scalar .f32) none⟩,
    ⟨some "low", .uniform, some ⟨1, 0⟩, .struct [(some "value", .vector 4 .f32)]⟩,
    ⟨some "high", .uniform, some ⟨1, 1⟩, .struct [(some "value", .vector 4 .f32)]⟩,
    ⟨some "gain", .uniform, some ⟨1, 2⟩, .vector 4 .u32⟩]
  entryPoints := [⟨"main", .compute, ⟨64, 1, 1⟩⟩]

def twinsLayout : Layout :=
  ⟨[⟨"cells", 0, .buffer (.buffer .f32)⟩],
    [⟨"value", .f32, 0⟩, ⟨"value", .f32, 1⟩, ⟨"gain", .u32, 2⟩], ⟨64, 1, 1⟩⟩

theorem layout_twins : twins.layout [] = .ok twinsLayout [] := by
  rw [layout_eq_ok_iff, bound_eq_of_perm twins paramGroup (.refl _) (by decide),
    bound_eq_of_perm twins uniformGroup (.refl _) (by decide)]
  decide

theorem slots_named_twins : twins.Named ∧ twins.layout [] = .ok twinsLayout [] ∧
    twinsLayout.param? "cells" = some ⟨"cells", 0, .buffer (.buffer .f32)⟩ ∧
    twinsLayout.uniform? "gain" = some ⟨"gain", .u32, 2⟩ ∧
    ∀ r : Running, r.kernel.program.layout = twinsLayout →
      ∀ slot, r.kernel.uniform? "value" ≠ .ok (1, slot) := by
  have hm : twins.Named := by decide
  obtain ⟨-, hp, hu, hh, -⟩ := slots_named hm layout_twins
  refine ⟨hm, layout_twins, (hp 0 _ rfl).1, (hu 2 _ rfl (by decide)).1, fun r hr => ?_⟩
  exact (hh 1 (by decide) r hr "value" []).1

/-- The variables have names of their own, and yet two uniforms have the same name: it leads to the
first, and no name leads to the second. -/
theorem uniform_hidden_twins : twins.Named ∧ twins.layout [] = .ok twinsLayout [] ∧
    ¬(twinsLayout.uniforms.map (·.name)).Nodup ∧
    twinsLayout.uniform? "value" = twinsLayout.uniforms[0]? ∧
    ∀ r : Running, r.kernel.program.layout = twinsLayout → ∀ n values,
      (endState (Kernel.setUniform n values r)).kernel.uniformBuffer? 1 =
        r.kernel.uniformBuffer? 1 := by
  refine ⟨by decide, layout_twins, by decide, by decide, fun r hr n values => ?_⟩
  exact Kernel.setUniform_other fun slot h =>
    (Kernel.uniform?_eq_ok_iff.1 h).2.2 (hr ▸ by decide)

end Shader

end ComputeKernel
