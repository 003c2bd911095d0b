import ComputeKernel.Proofs.Launch

/-!
# Slots and entries of a complete shader

The layout of a complete shader and the layouts of its bind groups are read off the same variables
by two classifications. Both sort what they find by binding, and a binding occurs once in a group,
so the slots and the entries of a group are the images of one list of variables, the variables of
the group in the order of their bindings (`layout_eq_ok_iff`, `entries_eq_ok_iff`). A variable that
makes a slot makes an entry as well, so the second reading succeeds where the first one does, and
the two agree binding by binding (`entries_agree`).
-/

namespace ComputeKernel

namespace Shader

section Variables

/-- Whether a variable is bound in a group. -/
def boundIn (group : Nat) (v : GlobalVar) : Bool := v.place.any (·.group == group)

/-- The number of the binding of a variable that is bound. -/
def GlobalVar.binding (v : GlobalVar) : Nat := (v.place.map (·.binding)).getD 0

def GlobalVar.paramSlot? (v : GlobalVar) : Option ParamSlot :=
  (paramKind? v.space v.type).map fun kind => ⟨v.name.getD "", v.binding, kind⟩

def GlobalVar.uniformSlot? (v : GlobalVar) : Option UniformSlot :=
  (uniformKind? v.space v.type).map fun u => ⟨u.1.getD (v.name.getD ""), u.2, v.binding⟩

def GlobalVar.entryOf? (v : GlobalVar) : Option Entry :=
  (entryType? v.space v.type).map fun type => ⟨v.binding, type⟩

/-- The warning about a variable that is bound in another group than the two that have slots. -/
def GlobalVar.strayLines (v : GlobalVar) : List LogLine :=
  match v.place with
  | none => []
  | some place =>
    if place.group = paramGroup ∨ place.group = uniformGroup then []
    else [⟨.warn, .reflection,
      "ignoring binding group " ++ toString place.group ++ " in literal kernel"⟩]

/-- The variables of a group in the order of their bindings. -/
def ShaderModule.bound (m : ShaderModule) (group : Nat) : List GlobalVar :=
  (m.vars.filter (boundIn group)).mergeSort fun a b => decide (a.binding ≤ b.binding)

variable {v : GlobalVar} {group : Nat}

theorem place_of_boundIn (h : boundIn group v = true) : v.place = some ⟨group, v.binding⟩ := by
  unfold boundIn at h
  unfold GlobalVar.binding
  rcases hp : v.place with _ | ⟨g, b⟩ <;> rw [hp] at h
  · cases h
  · simpa using h

theorem boundIn_of_place {binding : Nat} (h : v.place = some ⟨group, binding⟩) (g : Nat) :
    boundIn g v = decide (group = g) := by
  simp [boundIn, h, Bool.beq_eq_decide_eq]

theorem pairwise_mergeSort_key {α : Type} (key : α → Nat) (xs : List α) :
    (xs.mergeSort fun a b => decide (key a ≤ key b)).Pairwise fun a b => key a ≤ key b := by
  refine (List.pairwise_mergeSort ?_ ?_ xs).imp fun h => of_decide_eq_true h
  · exact fun a b c hab hbc => decide_eq_true
      (Nat.le_trans (of_decide_eq_true hab) (of_decide_eq_true hbc))
  · intro a b
    simpa using Nat.le_total (key a) (key b)

/-- The variables of a group are in the order of their bindings, however they are declared. -/
theorem bound_eq_of_perm (m : ShaderModule) (group : Nat) {vars : List GlobalVar}
    (hp : vars.Perm (m.vars.filter (boundIn group)))
    (hs : vars.Pairwise fun a b => a.binding < b.binding) : m.bound group = vars := by
  have hperm : (m.bound group).Perm vars := (List.mergeSort_perm _ _).trans hp.symm
  refine List.Perm.eq_of_pairwise (fun a b ha hb hab hba => ?_) (pairwise_mergeSort_key _ _)
    (hs.imp Nat.le_of_lt) hperm
  -- Two variables with the same binding are in the same place of `vars`.
  obtain ⟨i, hi, rfl⟩ := List.getElem_of_mem (hperm.subset ha)
  obtain ⟨j, hj, rfl⟩ := List.getElem_of_mem hb
  have hlt := List.pairwise_iff_getElem.1 hs
  rcases Nat.lt_trichotomy i j with h | rfl | h
  · exact absurd (hlt i j hi hj h) (Nat.not_lt.2 hba)
  · rfl
  · exact absurd (hlt j i hj hi h) (Nat.not_lt.2 hab)

/-- Sorting by a number commutes with a partial map that keeps the number. -/
theorem map_mergeSort_some {α β : Type} {f : α → Option β} {key : α → Nat} {key' : β → Nat}
    {xs : List α} {ys : List β} (h : xs.map f = ys.map some)
    (hk : ∀ x ∈ xs, ∀ y, f x = some y → key' y = key x) :
    (xs.mergeSort fun a b => decide (key a ≤ key b)).map f =
      (ys.mergeSort fun a b => decide (key' a ≤ key' b)).map some := by
  -- Both sides are the sorted list of the images, which are compared by their numbers.
  let number : Option β → Nat := fun y => (y.map key').getD 0
  have hx : ∀ x ∈ xs, number (f x) = key x := by
    intro x hx
    obtain ⟨y, -, hy⟩ := List.mem_map.1 (h ▸ List.mem_map_of_mem hx)
    simp [number, ← hy, hk x hx y hy.symm]
  rw [List.map_mergeSort (s := fun a b => decide (number a ≤ number b)) fun a ha b hb => by
      rw [hx a ha, hx b hb],
    h, ← List.map_mergeSort (s := fun a b => decide (number a ≤ number b)) fun a _ b _ => rfl]
  rfl

theorem map_eq_map_some {α β : Type} {f : α → Option β} {xs : List α}
    (h : ∀ x ∈ xs, ∃ y, f x = some y) : xs.map f = (xs.filterMap f).map some := by
  rw [List.map_filterMap_some_eq_filter_map_isSome, eq_comm, List.filter_eq_self]
  intro y hy
  obtain ⟨x, hx, rfl⟩ := List.mem_map.1 hy
  obtain ⟨y, hy⟩ := h x hx
  rw [hy]
  rfl

/-- The images of a list under a partial map are sorted by sorting the list. -/
theorem map_mergeSort_some_iff {α β : Type} (f : α → Option β) (key : α → Nat) (key' : β → Nat)
    {x : List α} {z : List β} (hk : ∀ a ∈ x, ∀ b, f a = some b → key' b = key a) :
    (x.mergeSort fun a b => decide (key a ≤ key b)).map f = z.map some ↔
      ∃ ys : List β, x.map f = ys.map some ∧
        z = ys.mergeSort fun a b => decide (key' a ≤ key' b) := by
  constructor
  · intro h
    have hys : x.map f = (x.filterMap f).map some := by
      refine map_eq_map_some fun a ha => ?_
      have hmem : f a ∈ z.map some := h ▸ List.mem_map_of_mem (List.mem_mergeSort.2 ha)
      obtain ⟨b, -, hb⟩ := List.mem_map.1 hmem
      exact ⟨b, hb.symm⟩
    exact ⟨_, hys, (List.map_inj_right fun _ _ => Option.some.inj).1
      (h.symm.trans (map_mergeSort_some hys hk))⟩
  · rintro ⟨ys, hys, rfl⟩
    exact map_mergeSort_some hys hk

end Variables

section Layouts

variable {slots slots' : Slots} {v : GlobalVar} {log log' : List LogLine}

/-- Slots are read off variables: those of the first group make parameters, those of the second
make uniforms. -/
structure Reads (vars : List GlobalVar) (ps : List ParamSlot) (us : List UniformSlot) : Prop where
  params : (vars.filter (boundIn paramGroup)).map GlobalVar.paramSlot? = ps.map some
  uniforms : (vars.filter (boundIn uniformGroup)).map GlobalVar.uniformSlot? = us.map some

theorem addVar_param {binding : Nat} (hp : v.place = some ⟨paramGroup, binding⟩) :
    addVar slots v log = match v.paramSlot? with
      | some s => .ok { slots with params := slots.params ++ [s] } log
      | none => .error (.configuration (.notParameter binding (v.name.getD ""))) log := by
  have hb : v.binding = binding := by simp [GlobalVar.binding, hp]
  unfold addVar GlobalVar.paramSlot?
  simp only [hp, if_true, hb]
  rcases paramKind? v.space v.type with _ | kind <;> rfl

theorem addVar_uniform {binding : Nat} (hp : v.place = some ⟨uniformGroup, binding⟩) :
    addVar slots v log = match v.uniformSlot? with
      | some s => .ok { slots with uniforms := slots.uniforms ++ [s] } log
      | none => .error (.configuration (.notUniform binding (v.name.getD ""))) log := by
  have hb : v.binding = binding := by simp [GlobalVar.binding, hp]
  have hg : ¬uniformGroup = paramGroup := by decide
  unfold addVar GlobalVar.uniformSlot?
  simp only [hp, if_neg hg, if_true, hb]
  rcases uniformKind? v.space v.type with _ | kind <;> rfl

theorem addVar_other (hp : boundIn paramGroup v = false) (hu : boundIn uniformGroup v = false) :
    addVar slots v log = .ok slots (log ++ v.strayLines) := by
  unfold addVar GlobalVar.strayLines
  rcases h : v.place with _ | ⟨group, binding⟩
  · simp only [List.append_nil]
    rfl
  · rw [boundIn_of_place h, decide_eq_false_iff_not] at hp hu
    simp only [if_neg hp, if_neg hu, if_neg (not_or.2 ⟨hp, hu⟩)]
    rfl

theorem reads_nil {ps : List ParamSlot} {us : List UniformSlot} :
    Reads [] ps us ↔ ps = [] ∧ us = [] := by
  refine ⟨fun h => ⟨?_, ?_⟩, ?_⟩
  · simpa using h.params.symm
  · simpa using h.uniforms.symm
  · rintro ⟨rfl, rfl⟩
    exact ⟨rfl, rfl⟩

theorem reads_cons {vars : List GlobalVar} {ps : List ParamSlot} {us : List UniformSlot} :
    Reads (v :: vars) ps us ↔ ∃ ps₁ us₁ ps₂ us₂, Reads [v] ps₁ us₁ ∧ Reads vars ps₂ us₂ ∧
      ps = ps₁ ++ ps₂ ∧ us = us₁ ++ us₂ := by
  constructor
  · intro h
    have hp := h.params
    have hu := h.uniforms
    rw [show v :: vars = [v] ++ vars from rfl, List.filter_append, List.map_append] at hp hu
    obtain ⟨ps₁, ps₂, rfl, hp₁, hp₂⟩ := List.map_eq_append_iff.1 hp.symm
    obtain ⟨us₁, us₂, rfl, hu₁, hu₂⟩ := List.map_eq_append_iff.1 hu.symm
    exact ⟨ps₁, us₁, ps₂, us₂, ⟨hp₁.symm, hu₁.symm⟩, ⟨hp₂.symm, hu₂.symm⟩, rfl, rfl⟩
  · rintro ⟨ps₁, us₁, ps₂, us₂, h₁, h₂, rfl, rfl⟩
    constructor
    · rw [show v :: vars = [v] ++ vars from rfl, List.filter_append, List.map_append, h₁.params,
        h₂.params, List.map_append]
    · rw [show v :: vars = [v] ++ vars from rfl, List.filter_append, List.map_append, h₁.uniforms,
        h₂.uniforms, List.map_append]

theorem reads_of_param {ps : List ParamSlot} {us : List UniformSlot}
    (hp : boundIn paramGroup v = true) :
    Reads [v] ps us ↔ ∃ s, v.paramSlot? = some s ∧ ps = [s] ∧ us = [] := by
  have hu : boundIn uniformGroup v = false := by
    rw [boundIn_of_place (place_of_boundIn hp)]
    decide
  constructor
  · intro h
    have hps := h.params
    have hus := h.uniforms
    simp only [List.filter_cons, hp, hu, if_true, List.filter_nil, List.map_cons, List.map_nil]
      at hps hus
    obtain ⟨s, ps', rfl, hs, hps'⟩ := List.map_eq_cons_iff.1 hps.symm
    exact ⟨s, hs.symm, by simpa using hps', by simpa using hus⟩
  · rintro ⟨s, hs, rfl, rfl⟩
    exact ⟨by simp [hp, hs], by simp [hu]⟩

theorem reads_of_uniform {ps : List ParamSlot} {us : List UniformSlot}
    (hu : boundIn uniformGroup v = true) :
    Reads [v] ps us ↔ ∃ s, v.uniformSlot? = some s ∧ ps = [] ∧ us = [s] := by
  have hp : boundIn paramGroup v = false := by
    rw [boundIn_of_place (place_of_boundIn hu)]
    decide
  constructor
  · intro h
    have hps := h.params
    have hus := h.uniforms
    simp only [List.filter_cons, hp, hu, if_true, List.filter_nil, List.map_cons, List.map_nil]
      at hps hus
    obtain ⟨s, us', rfl, hs, hus'⟩ := List.map_eq_cons_iff.1 hus.symm
    exact ⟨s, hs.symm, by simpa using hps, by simpa using hus'⟩
  · rintro ⟨s, hs, rfl, rfl⟩
    exact ⟨by simp [hp], by simp [hu, hs]⟩

theorem addVar_eq_ok_iff : addVar slots v log = .ok slots' log' ↔
    ∃ ps us, Reads [v] ps us ∧ slots' = ⟨slots.params ++ ps, slots.uniforms ++ us⟩ ∧
      log' = log ++ v.strayLines := by
  by_cases hp : boundIn paramGroup v = true
  · have hplace := place_of_boundIn hp
    rw [addVar_param hplace]
    simp only [reads_of_param hp, GlobalVar.strayLines, hplace, true_or, if_true, List.append_nil]
    rcases v.paramSlot? with _ | s
    · simp
    · rw [EStateM.Result.ok.injEq]
      constructor
      · rintro ⟨rfl, rfl⟩
        exact ⟨[s], [], ⟨s, rfl, rfl, rfl⟩, by simp, rfl⟩
      · rintro ⟨_, _, ⟨_, hs, rfl, rfl⟩, rfl, rfl⟩
        cases hs
        simp
  by_cases hu : boundIn uniformGroup v = true
  · have hplace := place_of_boundIn hu
    rw [addVar_uniform hplace]
    simp only [reads_of_uniform hu, GlobalVar.strayLines, hplace, or_true, if_true, List.append_nil]
    rcases v.uniformSlot? with _ | s
    · simp
    · rw [EStateM.Result.ok.injEq]
      constructor
      · rintro ⟨rfl, rfl⟩
        exact ⟨[], [s], ⟨s, rfl, rfl, rfl⟩, by simp, rfl⟩
      · rintro ⟨_, _, ⟨_, hs, rfl, rfl⟩, rfl, rfl⟩
        cases hs
        simp
  · rw [Bool.not_eq_true] at hp hu
    have hreads : ∀ ps us, Reads [v] ps us ↔ ps = [] ∧ us = [] := by
      intro ps us
      rw [← reads_nil]
      exact ⟨fun h => ⟨by simpa [hp] using h.params, by simpa [hu] using h.uniforms⟩,
        fun h => ⟨by simpa [hp] using h.params, by simpa [hu] using h.uniforms⟩⟩
    rw [addVar_other hp hu]
    simp only [EStateM.Result.ok.injEq, hreads]
    constructor
    · rintro ⟨rfl, rfl⟩
      exact ⟨[], [], ⟨rfl, rfl⟩, by simp, rfl⟩
    · rintro ⟨_, _, ⟨rfl, rfl⟩, rfl, rfl⟩
      simp

theorem foldlM_addVar_eq_ok_iff (vars : List GlobalVar) {slots : Slots} {log : List LogLine} :
    vars.foldlM addVar slots log = .ok slots' log' ↔
      ∃ ps us, Reads vars ps us ∧ slots' = ⟨slots.params ++ ps, slots.uniforms ++ us⟩ ∧
        log' = log ++ vars.flatMap GlobalVar.strayLines := by
  induction vars generalizing slots log with
  | nil =>
    show EStateM.Result.ok slots log = .ok slots' log' ↔ _
    simp [reads_nil, and_assoc, eq_comm]
  | cons v vars ih =>
    rw [List.foldlM_cons, bind_eq_ok_iff]
    simp only [addVar_eq_ok_iff, ih]
    constructor
    · rintro ⟨_, _, ⟨ps₁, us₁, h₁, rfl, rfl⟩, ps₂, us₂, h₂, rfl, rfl⟩
      exact ⟨ps₁ ++ ps₂, us₁ ++ us₂, reads_cons.2 ⟨_, _, _, _, h₁, h₂, rfl, rfl⟩, by simp, by simp⟩
    · rintro ⟨ps, us, h, rfl, rfl⟩
      obtain ⟨ps₁, us₁, ps₂, us₂, h₁, h₂, rfl, rfl⟩ := reads_cons.1 h
      exact ⟨_, _, ⟨ps₁, us₁, h₁, rfl, rfl⟩, ps₂, us₂, h₂, by simp, by simp⟩

theorem gap?_eq_none_iff {group : Nat} (ns : List Nat) {expected : Nat} :
    gap? group expected ns = none ↔ ns = List.range' expected ns.length := by
  induction ns generalizing expected with
  | nil => simp [gap?]
  | cons n ns ih =>
    unfold gap?
    by_cases hn : n = expected
    · simp [hn, ih, List.range'_succ]
    · simp [hn, List.range'_succ]

theorem refuse_eq_ok_iff {o : Option ConfigurationFault} {u : Unit} :
    Logged.refuse o log = .ok u log' ↔ o = none ∧ log' = log := by
  rcases o with _ | f
  · constructor
    · intro h
      cases h
      exact ⟨rfl, rfl⟩
    · rintro ⟨-, rfl⟩
      rfl
  · constructor
    · intro h
      cases h
    · rintro ⟨h, -⟩
      cases h

/-- A shader has a layout if the slots can be read off its variables, their bindings are numbered
from 0 on, and there is an entry point. The order of the variables does not matter for that. -/
theorem layout_eq_ok_iff {m : ShaderModule} {l : Layout} :
    m.layout log = .ok l log' ↔
      (m.bound paramGroup).map GlobalVar.paramSlot? = l.params.map some ∧
        (m.bound uniformGroup).map GlobalVar.uniformSlot? = l.uniforms.map some ∧
        l.params.map (·.index) = List.range l.params.length ∧
        l.uniforms.map (·.index) = List.range l.uniforms.length ∧
        m.main?.map (·.workgroupSize) = some l.workgroupSize ∧
        log' = log ++ m.vars.flatMap GlobalVar.strayLines := by
  have hparams := map_mergeSort_some_iff (x := m.vars.filter (boundIn paramGroup)) (z := l.params)
    GlobalVar.paramSlot? GlobalVar.binding ParamSlot.index fun v _ s hs => by
      obtain ⟨_, _, rfl⟩ := Option.map_eq_some_iff.1 hs
      rfl
  have huniforms := map_mergeSort_some_iff (x := m.vars.filter (boundIn uniformGroup))
    (z := l.uniforms) GlobalVar.uniformSlot? GlobalVar.binding UniformSlot.index fun v _ s hs => by
      obtain ⟨_, _, rfl⟩ := Option.map_eq_some_iff.1 hs
      rfl
  unfold ShaderModule.bound
  rw [hparams, huniforms]
  unfold ShaderModule.layout
  simp only [bind_eq_ok_iff, foldlM_addVar_eq_ok_iff, refuse_eq_ok_iff, gap?_eq_none_iff,
    List.length_map, ← List.range_eq_range']
  constructor
  · rintro ⟨_, _, ⟨ps, us, hreads, rfl, rfl⟩, _, _, ⟨hps, rfl⟩, _, _, ⟨hus, rfl⟩, h⟩
    rcases hm : m.main? with _ | e <;> rw [hm] at h
    · cases h
    · cases h
      exact ⟨⟨ps, hreads.params, rfl⟩, ⟨us, hreads.uniforms, rfl⟩, hps, hus, rfl, rfl⟩
  · rintro ⟨⟨ps, hp, hps⟩, ⟨us, hu, hus⟩, hpi, hui, he, rfl⟩
    obtain ⟨e, hm, he⟩ := Option.map_eq_some_iff.1 he
    refine ⟨_, _, ⟨ps, us, ⟨hp, hu⟩, rfl, rfl⟩, (), _, ⟨?_, rfl⟩, (), _, ⟨?_, rfl⟩, ?_⟩
    · simpa [← hps] using hpi
    · simpa [← hus] using hui
    · rw [hm]
      show EStateM.Result.ok _ _ = _
      rcases l with ⟨lp, lu, lw⟩
      simp_all

end Layouts

section Entries

variable {m : ShaderModule} {group : Nat} {es : List Entry}

theorem entryIn?_eq (group : Nat) (v : GlobalVar) : entryIn? group v =
    if boundIn group v then
      some (match v.entryOf? with
        | some e => .ok e
        | none => .error (.noLayoutEntry v.binding group))
    else none := by
  unfold entryIn? boundIn GlobalVar.entryOf? GlobalVar.binding
  rcases v.place with _ | ⟨g, b⟩
  · rfl
  · by_cases hg : g = group
    · rcases entryType? v.space v.type with _ | type <;> simp [hg]
    · simp [hg]

theorem filterMap_entryIn? (group : Nat) (vars : List GlobalVar) :
    vars.filterMap (entryIn? group) = (vars.filter (boundIn group)).map fun v =>
      match v.entryOf? with
      | some e => .ok e
      | none => .error (.noLayoutEntry v.binding group) := by
  rw [← List.filterMap_eq_map, List.filterMap_filter]
  congr 1
  funext v
  rw [entryIn?_eq]
  rfl

theorem mapM_entryIn?_eq_ok_iff (vars : List GlobalVar) :
    (vars.filterMap (entryIn? group)).mapM id = .ok es ↔
      (vars.filter (boundIn group)).map GlobalVar.entryOf? = es.map some := by
  rw [mapM_eq_ok_iff, List.map_id, filterMap_entryIn?]
  generalize vars.filter (boundIn group) = vars
  induction vars generalizing es with
  | nil => cases es <;> simp
  | cons v vars ih =>
    cases es with
    | nil => simp
    | cons e es =>
      simp only [List.map_cons, List.cons.injEq, ih]
      rcases v.entryOf? with _ | e' <;> simp

theorem entries_eq_ok_iff :
    m.entries group = .ok es ↔ (m.bound group).map GlobalVar.entryOf? = es.map some := by
  have hsorted := map_mergeSort_some_iff (x := m.vars.filter (boundIn group)) (z := es)
    GlobalVar.entryOf? GlobalVar.binding Entry.binding fun v _ e he => by
      obtain ⟨_, _, rfl⟩ := Option.map_eq_some_iff.1 he
      rfl
  unfold ShaderModule.bound ShaderModule.entries
  rw [hsorted]
  simp only [← mapM_entryIn?_eq_ok_iff]
  rcases (m.vars.filterMap (entryIn? group)).mapM id with f | xs
  · simp [Except.map]
  · simp [Except.map, eq_comm]

end Entries

section Agreement

variable {v : GlobalVar}

/-- What may be bound to a variable suits the slot that it makes. -/
inductive Suits (v : GlobalVar) : SlotKind → EntryType → Prop
  | buffer {type : ParamType} {access : StorageAccess} (h : v.space = .storage access) :
    Suits v (.buffer type) (.storage !access.store)
  | sampled {kind : ScalarType} {format : ImageFormat}
    (h : v.type = .image .d2 false (.sampled kind false)) :
    Suits v (.texture format.paramType format .read) (.texture format.sample false)
  | storage {format : ImageFormat} {access : StorageAccess}
    (h : v.type = .image .d2 false (.storage (some format) access)) :
    Suits v (.texture format.paramType format access.mode) (.storageTexture format access.mode)

theorem sample_of_sampledFormat? {kind : ScalarType} {format : ImageFormat}
    (h : sampledFormat? kind = some format) : format.sample = sampleScalar kind := by
  cases kind <;> cases h <;> rfl

/-- A variable that makes a parameter makes an entry as well, although the two are told from its
space and its type in different ways. -/
theorem entryOf?_of_paramSlot? {s : ParamSlot} (h : v.paramSlot? = some s) :
    ∃ type, v.entryOf? = some ⟨s.index, type⟩ ∧ Suits v s.kind type := by
  obtain ⟨kind, hk, rfl⟩ := Option.map_eq_some_iff.1 h
  have made : ∀ {type : EntryType}, entryType? v.space v.type = some type →
      v.entryOf? = some ⟨v.binding, type⟩ := by
    intro type he
    simp [GlobalVar.entryOf?, he]
  unfold paramKind? at hk
  split at hk
  · rename_i access type hs
    obtain ⟨scalar, -, rfl⟩ := Option.map_eq_some_iff.1 hk
    exact ⟨_, made (by rw [hs]; rfl), .buffer hs⟩
  · rename_i cls hs ht
    unfold imageKind? at hk
    split at hk
    · rename_i kind
      obtain ⟨format, hf, rfl⟩ := Option.map_eq_some_iff.1 hk
      refine ⟨_, made (by rw [hs, ht]; rfl), ?_⟩
      rw [← sample_of_sampledFormat? hf]
      exact .sampled ht
    · cases hk
    · cases hk
    · rename_i format access
      obtain ⟨format', rfl, rfl⟩ := Option.map_eq_some_iff.1 hk
      exact ⟨_, made (by rw [hs, ht]; rfl), .storage ht⟩
  · cases hk

theorem entryOf?_of_uniformSlot? {s : UniformSlot} (h : v.uniformSlot? = some s) :
    v.entryOf? = some ⟨s.index, .uniform⟩ := by
  obtain ⟨u, hk, rfl⟩ := Option.map_eq_some_iff.1 h
  have hs : v.space = .uniform := by
    unfold uniformKind? at hk
    split at hk
    · assumption
    · cases hk
  simp [GlobalVar.entryOf?, entryType?, hs]

/-- Where a partial map has images, another has some that are related to them. -/
theorem exists_images {α β γ : Type} {f : α → Option β} {g : α → Option γ} {R : α → β → γ → Prop}
    (h : ∀ a b, f a = some b → ∃ c, g a = some c ∧ R a b c) :
    ∀ {as : List α} {bs : List β}, as.map f = bs.map some → ∃ cs : List γ,
      as.map g = cs.map some ∧ cs.length = bs.length ∧
      ∀ (i : Nat) (b : β), bs[i]? = some b → ∃ a c, as[i]? = some a ∧ cs[i]? = some c ∧ R a b c
  | [], [], _ => ⟨[], rfl, rfl, by simp⟩
  | [], _ :: _, hf => by simp at hf
  | _ :: _, [], hf => by simp at hf
  | a :: as, b :: bs, hf => by
    rw [List.map_cons, List.map_cons, List.cons.injEq] at hf
    obtain ⟨c, hc, hr⟩ := h a b hf.1
    obtain ⟨cs, hcs, hl, hi⟩ := exists_images h hf.2
    refine ⟨c :: cs, by rw [List.map_cons, List.map_cons, hc, hcs], by simp [hl], ?_⟩
    intro i
    cases i with
    | zero => simpa using hr
    | succ i => simpa using hi i

/-- The entries of the two groups of a shader agree with the slots of a layout, position by
position. -/
structure Agree (m : ShaderModule) (l : Layout) (ps us : List Entry) : Prop where
  params_length : ps.length = l.params.length
  params : ∀ (i : Nat) (slot : ParamSlot), l.params[i]? = some slot → slot.index = i ∧
    ∃ v ∈ m.vars, v.place = some ⟨paramGroup, i⟩ ∧
      ∃ type, ps[i]? = some ⟨i, type⟩ ∧ Suits v slot.kind type
  uniforms_length : us.length = l.uniforms.length
  uniforms : ∀ (i : Nat) (slot : UniformSlot), l.uniforms[i]? = some slot → slot.index = i ∧
    us[i]? = some ⟨i, .uniform⟩

theorem index_eq {α : Type} {index : α → Nat} {xs : List α}
    (h : xs.map index = List.range xs.length) {i : Nat} {x : α} (hx : xs[i]? = some x) :
    index x = i := by
  have hi := (List.getElem?_eq_some_iff.1 hx).1
  have he : (xs.map index)[i]? = (List.range xs.length)[i]? := by rw [h]
  rw [List.getElem?_map, hx, List.getElem?_range hi] at he
  exact Option.some.inj he

theorem mem_bound {m : ShaderModule} {group : Nat} (h : v ∈ m.bound group) :
    v ∈ m.vars ∧ v.place = some ⟨group, v.binding⟩ := by
  obtain ⟨hv, hb⟩ := List.mem_filter.1 (List.mem_mergeSort.1 h)
  exact ⟨hv, place_of_boundIn hb⟩

/-- A shader that has a layout has entries for both groups. -/
theorem entries_agree {m : ShaderModule} {l : Layout} {log log' : List LogLine}
    (h : m.layout log = .ok l log') :
    ∃ params uniforms, m.entries paramGroup = .ok params ∧ m.entries uniformGroup = .ok uniforms ∧
      Agree m l params uniforms := by
  obtain ⟨hp, hu, hpi, hui, -, -⟩ := layout_eq_ok_iff.1 h
  obtain ⟨params, hpe, hpl, hpr⟩ := exists_images (g := GlobalVar.entryOf?)
    (R := fun v s e => e.binding = s.index ∧ v.binding = s.index ∧ Suits v s.kind e.type)
    (fun v s hs => by
      obtain ⟨type, he, hm⟩ := entryOf?_of_paramSlot? hs
      obtain ⟨_, _, rfl⟩ := Option.map_eq_some_iff.1 hs
      exact ⟨_, he, rfl, rfl, hm⟩) hp
  obtain ⟨uniforms, hue, hul, hur⟩ := exists_images (g := GlobalVar.entryOf?)
    (R := fun _ s e => e = ⟨s.index, .uniform⟩)
    (fun v s hs => ⟨_, entryOf?_of_uniformSlot? hs, rfl⟩) hu
  refine ⟨params, uniforms, entries_eq_ok_iff.2 hpe, entries_eq_ok_iff.2 hue, hpl, ?_, hul, ?_⟩
  · intro i slot hs
    have hi := index_eq hpi hs
    obtain ⟨v, ⟨b, type⟩, hv, he, hb, hvb, hm⟩ := hpr i slot hs
    obtain ⟨hv, hplace⟩ := mem_bound (List.mem_of_getElem? hv)
    refine ⟨hi, v, hv, ?_, type, ?_, hm⟩
    · rw [hplace, hvb, hi]
    · rw [he, show b = i from hb.trans hi]
  · intro i slot hs
    have hi := index_eq hui hs
    obtain ⟨v, e, -, he, rfl⟩ := hur i slot hs
    exact ⟨hi, by rw [he, hi]⟩

/-- The entries of a group are numbered by their positions. -/
theorem Agree.bindings {m : ShaderModule} {l : Layout} {ps us : List Entry}
    (h : Agree m l ps us) :
    ps.map (·.binding) = List.range l.params.length ∧
      us.map (·.binding) = List.range l.uniforms.length := by
  constructor
  · refine List.ext_getElem (by simp [h.params_length]) fun i hi hr => ?_
    rw [List.length_range] at hr
    obtain ⟨-, v, -, -, type, he, -⟩ := h.params i _ (List.getElem?_eq_getElem hr)
    simp [(List.getElem?_eq_some_iff.1 he).2]
  · refine List.ext_getElem (by simp [h.uniforms_length]) fun i hi hr => ?_
    rw [List.length_range] at hr
    obtain ⟨-, he⟩ := h.uniforms i _ (List.getElem?_eq_getElem hr)
    simp [(List.getElem?_eq_some_iff.1 he).2]

end Agreement

section Programs

variable {frontEnd : FrontEnd} {program : Program} {log log' : List LogLine}

theorem ofLiteral_eq_ok {text : String} {d : Dialect}
    (h : Program.ofLiteral frontEnd text d log = .ok program log') :
    program.isLiteral = true ∧
      ∃ log₁ log₂, program.module.layout log₁ = .ok program.layout log₂ := by
  obtain ⟨module, log₁, -, h⟩ := bind_eq_ok h
  obtain ⟨layout, log₂, hl, h⟩ := bind_eq_ok h
  cases h
  exact ⟨rfl, log₁, log₂, hl⟩

/-- A complete shader that has a layout makes a program. -/
theorem ofLiteral_of_layout {m : ShaderModule} {l : Layout} (text : String) (d : Dialect)
    (h : m.layout log = .ok l log') :
    Program.ofLiteral (fun _ _ => .ok m) text d log =
      .ok ⟨d, text, l, m, true⟩ (log' ++ [literalLine ⟨d, text, l⟩]) :=
  (bind_of_ok rfl).trans (bind_of_ok h)

theorem ofBody_eq_ok {names : List String} {text : String} {config : Config}
    (h : Program.ofBody frontEnd names text config log = .ok program log') :
    program.isLiteral = false ∧ ∃ d log₁, draft names text.toList config log = .ok d log₁ ∧
      program.layout = d.layout := by
  obtain ⟨d, log₁, hd, h⟩ := bind_eq_ok h
  obtain ⟨module, log₂, -, h⟩ := bind_eq_ok h
  cases h
  exact ⟨rfl, d, log₁, hd, rfl⟩

theorem outcome_eq_ok {α : Type} {x : Logged α} {a : α} (h : x.outcome = (.ok a, log)) :
    x [] = .ok a log := by
  unfold Logged.outcome EStateM.run at h
  rcases hx : x [] with ⟨_, _⟩ | ⟨_, _⟩ <;> rw [hx] at h <;> cases h
  rfl

theorem outcome_of_ok {α : Type} {x : Logged α} {a : α} (h : x [] = .ok a log) :
    x.outcome = (.ok a, log) := by
  unfold Logged.outcome EStateM.run
  rw [h]

/-- The bind groups of a complete shader that was accepted have layouts. -/
theorem groupLayouts_agree {text : String} {d : Dialect}
    (h : Program.ofLiteral frontEnd text d log = .ok program log') :
    ∃ p, Kernel.groupLayouts program = .ok p ∧
      Agree program.module program.layout p.params p.uniforms := by
  obtain ⟨hl, log₁, log₂, hlayout⟩ := ofLiteral_eq_ok h
  obtain ⟨ps, us, hps, hus, ha⟩ := entries_agree hlayout
  refine ⟨⟨ps, us⟩, ?_, ha⟩
  unfold Kernel.groupLayouts
  rw [hl, hps, hus]
  rfl

/-- The layout of the second bind group of a program that compiled has an entry for each uniform. -/
theorem compile_uniforms {source : KernelSource} {config : Config}
    (h : (source.compile frontEnd config).outcome = (.ok program, log)) {p : Pipeline}
    (hp : Kernel.groupLayouts program = .ok p) :
    p.uniforms.length = program.layout.uniforms.length := by
  have h := outcome_eq_ok h
  cases source with
  | literal text =>
    obtain ⟨p', hp', ha⟩ := groupLayouts_agree h
    cases hp'.symm.trans hp
    exact ha.uniforms_length
  | body names text =>
    obtain ⟨hl, -⟩ := ofBody_eq_ok h
    unfold Kernel.groupLayouts at hp
    simp only [hl] at hp
    cases hp
    simp [uniformEntries]

end Programs

end Shader

end ComputeKernel
