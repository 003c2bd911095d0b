import ComputeKernel.Proofs.History
import ComputeKernel.Proofs.Slots

/-!
# Forms of argument lists

The arguments of a run are its parameters, three group counts or none, and a map of uniforms or
none, one after the other (`Accepts`). The list is taken apart from its end: first the map, then the
counts by their number, and only then are the parameters looked at. All the same it is taken apart
exactly if it has that form, and the parts put together are the list (`split_eq_ok_iff`). A kernel
that is run with any other list fails as misused, with nothing done (`run_of_split_error`).
-/

namespace ComputeKernel

open Device

namespace RunArgs

section Forms

/-- The arguments that give the group counts. -/
def countArguments : Option Extent → List (Argument Resource)
  | none => []
  | some e => [.group e.x, .group e.y, .group e.z]

/-- The argument that gives the values of uniforms. -/
def mapArguments : Option UniformMap → List (Argument Resource)
  | none => []
  | some values => [.uniforms values]

/-- The parts of an argument list, put together again. -/
def joined (run : RunArgs) : List (Argument Resource) :=
  run.params ++ (countArguments run.groups ++ mapArguments run.uniforms)

/-- The argument lists with which a kernel of `count` parameters can be run. -/
inductive Accepts (count : Nat) : List (Argument Resource) → Prop
  | intro {params counts map : List (Argument Resource)} (hlength : params.length = count)
    (hparams : ∀ a ∈ params, ∀ n values, a ≠ .group n ∧ a ≠ .uniforms values)
    (hcounts : counts = [] ∨ ∃ x y z, counts = [.group x, .group y, .group z])
    (hmap : map = [] ∨ ∃ values, map = [.uniforms values]) :
    Accepts count (params ++ (counts ++ map))

end Forms

section Parts

variable {a : Argument Resource} {args rest trailer : List (Argument Resource)}
  {groups : Option Extent} {uniforms : Option UniformMap} {arity : UsageFault}

theorem isParamValue_iff :
    a.isParamValue = true ↔ ∀ n values, a ≠ .group n ∧ a ≠ .uniforms values := by
  cases a with
  | group n => exact ⟨fun h => (Bool.false_ne_true h).elim, fun h => ((h n default).1 rfl).elim⟩
  | uniforms values =>
    exact ⟨fun h => (Bool.false_ne_true h).elim, fun h => ((h 0 values).2 rfl).elim⟩
  | _ => simp [Argument.isParamValue]

theorem exists_countArguments : (∃ groups, args = countArguments groups) ↔
    args = [] ∨ ∃ x y z, args = [.group x, .group y, .group z] := by
  constructor
  · rintro ⟨_ | e, rfl⟩
    · exact .inl rfl
    · exact .inr ⟨e.x, e.y, e.z, rfl⟩
  · rintro (rfl | ⟨x, y, z, rfl⟩)
    · exact ⟨none, rfl⟩
    · exact ⟨some ⟨x, y, z⟩, rfl⟩

theorem exists_mapArguments : (∃ uniforms, args = mapArguments uniforms) ↔
    args = [] ∨ ∃ values, args = [.uniforms values] := by
  constructor
  · rintro ⟨_ | values, rfl⟩
    · exact .inl rfl
    · exact .inr ⟨values, rfl⟩
  · rintro (rfl | ⟨values, rfl⟩)
    · exact ⟨none, rfl⟩
    · exact ⟨some values, rfl⟩

theorem groupCount_eq_ok_iff {n : UInt32} : groupCount a = .ok n ↔ a = .group n := by
  cases a <;> simp [groupCount]

/-- Group counts are found where the arguments are those that give them. -/
theorem groupCounts_eq_ok_iff : groupCounts arity trailer = .ok groups ↔
    trailer = countArguments groups := by
  constructor
  · intro h
    unfold groupCounts at h
    split at h
    · cases h
      rfl
    · obtain ⟨x, hx, h⟩ := except_bind_eq_ok h
      obtain ⟨y, hy, h⟩ := except_bind_eq_ok h
      obtain ⟨z, hz, h⟩ := except_bind_eq_ok h
      cases h
      rw [groupCount_eq_ok_iff] at hx hy hz
      rw [hx, hy, hz]
      rfl
    · cases h
  · rintro rfl
    cases groups with
    | none => rfl
    | some e => rfl

theorem eq_of_splitUniforms (args : List (Argument Resource)) :
    args = (splitUniforms args).1 ++ mapArguments (splitUniforms args).2 := by
  unfold splitUniforms
  split
  · rename_i values h
    obtain ⟨rest, rfl⟩ := List.getLast?_eq_some_iff.1 h
    rw [List.dropLast_concat]
    rfl
  · exact (List.append_nil args).symm

/-- Counts do not end in a map, so a map that follows them is the one that is found. -/
theorem splitUniforms_joined (groups : Option Extent) (uniforms : Option UniformMap) :
    splitUniforms (countArguments groups ++ mapArguments uniforms) =
      (countArguments groups, uniforms) := by
  cases uniforms with
  | none => cases groups <;> rfl
  | some values => cases groups <;> rfl

theorem paramsFault?_eq_none_iff {position : Nat} :
    paramsFault? position args = none ↔ ∀ a ∈ args, a.isParamValue = true := by
  refine ⟨Kernel.isParamValue_of_params, fun h => ?_⟩
  induction args generalizing position with
  | nil => rfl
  | cons a args ih =>
    rw [List.forall_mem_cons] at h
    rw [paramsFault?, if_pos h.1]
    exact ih h.2

end Parts

section Lists

variable {count : Nat} {args : List (Argument Resource)} {run : RunArgs} {fault : UsageFault}

theorem length_countArguments_le (groups : Option Extent) :
    (countArguments groups).length ≤ 3 := by
  cases groups <;> simp [countArguments]

theorem length_mapArguments_le (uniforms : Option UniformMap) :
    (mapArguments uniforms).length ≤ 1 := by
  cases uniforms <;> simp [mapArguments]

/-- A list put together from parts is taken apart into them. -/
theorem split_joined (h : ∀ a ∈ run.params, a.isParamValue = true) :
    split run.params.length run.joined = .ok run := by
  have hl : ¬(run.joined.length < run.params.length ∨
      run.params.length + 4 < run.joined.length) := by
    have hc := length_countArguments_le run.groups
    have hm := length_mapArguments_le run.uniforms
    simp only [joined, List.length_append]
    omega
  have hdrop : run.joined.drop run.params.length =
      countArguments run.groups ++ mapArguments run.uniforms := List.drop_left
  have htake : run.joined.take run.params.length = run.params := List.take_left
  unfold split
  simp only [if_neg hl, hdrop, htake, splitUniforms_joined, groupCounts_eq_ok_iff.2 rfl,
    paramsFault?_eq_none_iff.2 h]
  rfl

/-- An argument list is taken apart into the parts that it is put together from. -/
theorem split_eq_ok_iff : split count args = .ok run ↔ run.params.length = count ∧
    (∀ a ∈ run.params, a.isParamValue = true) ∧ args = run.joined := by
  constructor
  · intro h
    obtain ⟨hl, hp, hf, hu, arity, hg⟩ := Kernel.split_eq_ok h
    refine ⟨?_, paramsFault?_eq_none_iff.1 hf, ?_⟩
    · rw [hp, List.length_take, Nat.min_eq_left hl]
    · rw [joined, ← groupCounts_eq_ok_iff.1 hg, hp, hu, ← eq_of_splitUniforms,
        List.take_append_drop]
  · rintro ⟨rfl, hp, rfl⟩
    exact split_joined hp

theorem accepts_iff : Accepts count args ↔ ∃ run : RunArgs, run.params.length = count ∧
    (∀ a ∈ run.params, a.isParamValue = true) ∧ args = run.joined := by
  constructor
  · rintro ⟨hl, hp, hc, hm⟩
    obtain ⟨groups, rfl⟩ := exists_countArguments.2 hc
    obtain ⟨uniforms, rfl⟩ := exists_mapArguments.2 hm
    exact ⟨⟨_, groups, uniforms⟩, hl, fun a ha => isParamValue_iff.2 (hp a ha), rfl⟩
  · rintro ⟨⟨params, groups, uniforms⟩, hl, hp, rfl⟩
    exact .intro hl (fun a ha => isParamValue_iff.1 (hp a ha))
      (exists_countArguments.1 ⟨groups, rfl⟩) (exists_mapArguments.1 ⟨uniforms, rfl⟩)

/-- A kernel that is run with arguments that cannot be taken apart does nothing. -/
theorem run_of_split_error {others : List ResourceId} {r : Running}
    (h : split r.kernel.program.layout.params.length args = .error fault) :
    Kernel.run others args r = .error (.usage fault) r := by
  have hcheck : r.kernel.checkRun args = .error (.usage fault) := by
    unfold Kernel.checkRun
    rw [h]
    rfl
  rcases Kernel.prepare_cases others args r with ⟨f, hf, hp⟩ | ⟨run, groups, hr, -⟩
  · cases hcheck.symm.trans hf
    exact bind_of_error hp
  · cases hcheck.symm.trans hr

/-- An argument list is taken apart exactly if it has the form of a run: as many arguments as there
are parameters, of which none is a group count or a map, then three counts or none, and then a map
or none. The parts are those three, so that they make up the list again. A kernel that is run with
any other list fails as misused, and it and the device stay as they are. -/
theorem split_accepts (count : Nat) (args : List (Argument Resource)) :
    ((∃ run, split count args = .ok run) ↔ Accepts count args) ∧
      (∀ run, split count args = .ok run ↔ run.params.length = count ∧
        (∀ a ∈ run.params, ∀ n values, a ≠ .group n ∧ a ≠ .uniforms values) ∧
        args = run.params ++ (countArguments run.groups ++ mapArguments run.uniforms)) ∧
      (¬ Accepts count args → ∃ fault, split count args = .error fault ∧
        ∀ (others : List ResourceId) (r : Running),
          r.kernel.program.layout.params.length = count →
          Kernel.run others args r = .error (.usage fault) r) := by
  refine ⟨?_, fun run => ?_, fun hn => ?_⟩
  · rw [accepts_iff]
    exact exists_congr fun run => split_eq_ok_iff
  · simp only [split_eq_ok_iff, isParamValue_iff, joined]
  · cases h : split count args with
    | ok run => exact absurd (accepts_iff.2 ⟨run, split_eq_ok_iff.1 h⟩) hn
    | error fault =>
      refine ⟨fault, rfl, fun others r hr => ?_⟩
      subst hr
      exact run_of_split_error h

/-- Counts and a map are found in their order, and not with the map before the counts. -/
theorem split_accepts_ordered :
    let values : UniformMap := .ofList [("scale", [])]
    let args : List (Argument Resource) := [.null, .group 4, .group 2, .group 1, .uniforms values]
    let swapped : List (Argument Resource) :=
      [.null, .uniforms values, .group 4, .group 2, .group 1]
    let r : Running := ⟨.fresh Session.sampleProgram none ⟨512, 512⟩, Session.sample.device, []⟩
    Accepts 1 args ∧ split 1 args = .ok ⟨[.null], some ⟨4, 2, 1⟩, some values⟩ ∧
      ¬ Accepts 1 swapped ∧ ∃ fault, split 1 swapped = .error fault ∧
        Kernel.run [] swapped r = .error (.usage fault) r := by
  intro values args swapped r
  have hsplit : split 1 args = .ok ⟨[.null], some ⟨4, 2, 1⟩, some values⟩ := rfl
  have hswapped : split 1 swapped = .error (.arity 1 5) := rfl
  have hn : ¬ Accepts 1 swapped := by
    intro ha
    obtain ⟨run, hrun⟩ := (split_accepts 1 swapped).1.2 ha
    cases hswapped.symm.trans hrun
  obtain ⟨fault, hf, hrun⟩ := (split_accepts 1 swapped).2.2 hn
  exact ⟨(split_accepts 1 args).1.1 ⟨_, hsplit⟩, hsplit, hn, fault, hf, hrun [] r rfl⟩

end Lists

end RunArgs

end ComputeKernel
