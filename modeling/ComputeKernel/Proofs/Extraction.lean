import ComputeKernel.Proofs.Assembly
import ComputeKernel.Proofs.Partition

/-!
# Declarations cut out of a body

A body is divided by the declarations `var NAME: TYPE;` in it, found from left to right
(`DeclarationDivision`), and there is one such division (`DeclarationDivision.unique`). A
declaration goes up to the first `;` behind its start, so none reaches over the end of a statement:
the pieces of two texts are those of both if a `;` stands between them
(`DeclarationDivision.append`).

The types that can be bound are described by how they are written (`BindsAs`). What is extracted
from a body follows from its division: the declarations of parameters are taken out of it, the last
of each name counts, and the first whose type cannot be bound is reported (`Extracts`).
-/

namespace ComputeKernel

open Text Body

section Types

variable {args : List (List Char)} {r type x : List Char} {decl : Declaration}

/-- A generic type of WGSL as it is written, without blanks and with commas between arguments. -/
structure IsGeneric (head : String) (args : List (List Char)) (x : List Char) : Prop where
  text : x = head.toList ++ '<' :: ([','].intercalate args ++ ['>'])
  apart : ∀ a ∈ args, ',' ∉ a

/-- The resource types that can be bound, each with what it declares. Arguments beyond those that
are named here do not count. -/
inductive BindsAs (type : List Char) : Declaration → Prop
  | array {first : List Char} {more : List (List Char)} {kind : Scalar}
    (ht : IsGeneric "array" (first :: more) (compact type))
    (hk : Scalar.ofKeyword? (String.ofList first) = some kind) :
    BindsAs type ⟨.buffer kind, none, none⟩
  | floats {first : List Char} {more : List (List Char)}
    (ht : IsGeneric "texture_2d" (first :: more) (compact type))
    (hk : Scalar.ofKeyword? (String.ofList first) = some .f32) :
    BindsAs type ⟨.texture, none, none⟩
  | integers {first : List Char} {more : List (List Char)} {kind : Scalar}
    (ht : IsGeneric "texture_2d" (first :: more) (compact type))
    (hk : Scalar.ofKeyword? (String.ofList first) = some kind) (hi : kind = .u32 ∨ kind = .i32) :
    BindsAs type ⟨.image kind, none, none⟩
  | storage {first : List Char} {format : ImageFormat}
    (ht : IsGeneric "texture_storage_2d" [first] (compact type))
    (hf : ImageFormat.ofName? (String.ofList first) = some format) :
    BindsAs type ⟨format.paramType, some format, none⟩
  | storageWith {first second : List Char} {more : List (List Char)} {format : ImageFormat}
    {access : Access} (ht : IsGeneric "texture_storage_2d" (first :: second :: more) (compact type))
    (hf : ImageFormat.ofName? (String.ofList first) = some format)
    (ha : Access.ofName? (String.ofList second) = some access) :
    BindsAs type ⟨format.paramType, some format, some access⟩

/-- The separator is in none of the pieces between separators. -/
theorem not_mem_of_mem_splitOn {sep : Char} {piece : List Char} (h : piece ∈ x.splitOn sep) :
    sep ∉ piece := by
  induction x generalizing piece with
  | nil => simp_all
  | cons c x ih =>
    rw [List.splitOn_cons_eq_if_modifyHead] at h
    obtain ⟨p, ps, hp⟩ := List.exists_cons_of_ne_nil (List.splitOn_ne_nil sep x)
    rw [hp] at h ih
    split at h
    · rcases List.mem_cons.1 h with rfl | h
      · exact List.not_mem_nil
      · exact ih h
    · rename_i hc
      rcases List.mem_cons.1 h with rfl | h
      · rw [List.mem_cons, not_or]
        exact ⟨fun he => hc (by simp [he]), ih List.mem_cons_self⟩
      · exact ih (List.mem_cons_of_mem p h)

theorem before?_iff {ending : List Char} :
    ParamType.before? ending x = some r ↔ x = r ++ ending := by
  unfold ParamType.before?
  rw [Option.map_eq_some_iff]
  constructor
  · rintro ⟨y, hy, rfl⟩
    rw [← List.reverse_reverse x, after?_eq_some hy]
    simp
  · rintro rfl
    exact ⟨r.reverse, by rw [List.reverse_append, after?_self], by simp⟩

theorem typeArguments?_iff {head : String} {found : List String} :
    Declaration.typeArguments? head.toList x = some found ↔
      ∃ args, args ≠ [] ∧ IsGeneric head args x ∧ found = args.map String.ofList := by
  unfold Declaration.typeArguments?
  constructor
  · intro h
    split at h
    · cases h
    · rename_i r hr
      obtain ⟨inner, hi, rfl⟩ := Option.map_eq_some_iff.1 h
      refine ⟨inner.splitOn ',', List.splitOn_ne_nil ',' inner,
        ⟨?_, fun _ => not_mem_of_mem_splitOn⟩, rfl⟩
      rw [List.intercalate_splitOn, ← before?_iff.1 hi, after?_eq_some hr, List.append_assoc]
      rfl
  · rintro ⟨args, hne, ⟨rfl, hc⟩, rfl⟩
    have hafter : after? (head.toList ++ ['<'])
        (head.toList ++ '<' :: ([','].intercalate args ++ ['>'])) =
        some ([','].intercalate args ++ ['>']) := by
      rw [after?_eq_some_iff, List.append_assoc]
      rfl
    simp only [hafter, before?_iff.2 rfl, Option.map_some, List.splitOn_intercalate ',' hc hne]

theorem IsGeneric.arguments {head : String} {first : List Char} {more : List (List Char)}
    (h : IsGeneric head (first :: more) x) :
    Declaration.typeArguments? head.toList x = some ((first :: more).map String.ofList) :=
  typeArguments?_iff.2 ⟨_, List.cons_ne_nil _ _, h, rfl⟩

/-- A type of one name is not read as one of another name. -/
theorem typeArguments?_eq_none {head : String} (h : ∀ args, ¬ IsGeneric head args x) :
    Declaration.typeArguments? head.toList x = none := by
  rcases hx : Declaration.typeArguments? head.toList x with _ | found
  · rfl
  · obtain ⟨args, -, ht, -⟩ := typeArguments?_iff.1 hx
    exact absurd ht (h args)

theorem not_isGeneric_array (h : x.head? = some 't') : ¬ IsGeneric "array" args x := by
  rintro ⟨rfl, -⟩
  simp at h

theorem not_isGeneric_texture {args' : List (List Char)}
    (h : IsGeneric "texture_storage_2d" args' x) : ¬ IsGeneric "texture_2d" args x := by
  rintro ⟨rfl, -⟩
  have := h.text
  simp at this

theorem exists_isGeneric {head : String} {found : List String}
    (h : Declaration.typeArguments? head.toList x = some found) : ∃ first more,
      IsGeneric head (first :: more) x ∧ found = (first :: more).map String.ofList := by
  obtain ⟨args, hne, ht, rfl⟩ := typeArguments?_iff.1 h
  obtain ⟨first, more, rfl⟩ := List.exists_cons_of_ne_nil hne
  exact ⟨first, more, ht, rfl⟩

theorem bindsAs_of_ofShaderType? (h : Declaration.ofShaderType? type = some decl) :
    BindsAs type decl := by
  unfold Declaration.ofShaderType? at h
  simp only at h
  split at h
  · rename_i hfound
    obtain ⟨first, more, ht, rfl⟩ := exists_isGeneric hfound
    obtain ⟨kind, hk, rfl⟩ := Option.map_eq_some_iff.1 h
    exact .array ht hk
  split at h
  · rename_i hfound
    obtain ⟨first, more, ht, rfl⟩ := exists_isGeneric hfound
    split at h
    · rename_i hk
      cases h
      exact .floats ht hk
    · cases h
    · cases h
    · rename_i kind h32 h64 hk
      cases h
      refine .integers ht hk ?_
      cases kind <;> simp_all
  split at h
  · rename_i hfound
    obtain ⟨first, more, ht, rfl⟩ := exists_isGeneric hfound
    obtain ⟨format, hf, h⟩ := Option.bind_eq_some_iff.1 h
    rw [List.map_cons, List.head?_cons, Option.bind_some] at hf
    cases more with
    | nil =>
      cases h
      exact .storage ht hf
    | cons second more =>
      obtain ⟨access, ha, rfl⟩ := Option.map_eq_some_iff.1 h
      exact .storageWith ht hf ha
  · cases h

theorem BindsAs.ofShaderType?_eq (h : BindsAs type decl) :
    Declaration.ofShaderType? type = some decl := by
  -- The three heads are tried in turn, so those before the right one have to fail.
  have harray : (compact type).head? = some 't' →
      Declaration.typeArguments? "array".toList (compact type) = none := fun h =>
    typeArguments?_eq_none fun _ => not_isGeneric_array h
  have hsampled : ∀ {args}, IsGeneric "texture_storage_2d" args (compact type) →
      Declaration.typeArguments? "texture_2d".toList (compact type) = none := fun h =>
    typeArguments?_eq_none fun _ => not_isGeneric_texture h
  unfold Declaration.ofShaderType?
  cases h with
  | array ht hk =>
    simp only [ht.arguments, List.map_cons, List.head?_cons, Option.bind_some, hk,
      Option.map_some]
  | floats ht hk =>
    simp only [harray (by simp [ht.text]), ht.arguments, List.map_cons, List.head?_cons,
      Option.bind_some, hk]
  | integers ht hk hi =>
    rcases hi with rfl | rfl <;>
      simp only [harray (by simp [ht.text]), ht.arguments, List.map_cons, List.head?_cons,
        Option.bind_some, hk]
  | storage ht hf =>
    simp only [harray (by simp [ht.text]), hsampled ht, ht.arguments, List.map_cons, List.map_nil,
      List.head?_cons, Option.bind_some, hf]
    rfl
  | storageWith ht hf ha =>
    simp only [harray (by simp [ht.text]), hsampled ht, ht.arguments, List.map_cons,
      List.head?_cons, Option.bind_some, hf, List.getElem?_cons_succ, List.getElem?_cons_zero, ha,
      Option.map_some]

theorem ofShaderType?_iff : Declaration.ofShaderType? type = some decl ↔ BindsAs type decl :=
  ⟨bindsAs_of_ofShaderType?, BindsAs.ofShaderType?_eq⟩

end Types

namespace Body

section Spans

variable {b : Option Char} {content cs rest span type : List Char} {d d' : List Char × List Char}

/-- What stands between the colon and the `;` of a declaration, and the type in it: what is left
without the blanks at the ends, or else the last of nothing but blanks. -/
inductive Encloses : List Char → List Char → Prop
  | type {w type w' : List Char} (hw : Blank w) (hw' : Blank w') (hne : type ≠ [])
    (ht : Trimmed type) : Encloses (w ++ type ++ w') type
  | blank {w : List Char} {c : Char} (hw : Blank w) (hc : isBlank c = true) :
    Encloses (w ++ [c]) [c]

/-- The statement `var NAME: TYPE;`, with its name and its type. -/
inductive IsDeclaration : List Char → List Char × List Char → Prop
  | mk {w name w' content type : List Char} (hw : Blank w) (hne : w ≠ [])
    (hn : isIdentifier name = true) (hw' : Blank w') (hc : ∀ c ∈ content, c ≠ ';' ∧ c ≠ '=')
    (ht : Encloses content type) :
    IsDeclaration ("var".toList ++ (w ++ (name ++ (w' ++ ':' :: (content ++ [';']))))) (name, type)

theorem encloses_iff : Encloses content type ↔ content ≠ [] ∧ declaredType content = type := by
  have hall : content.all isBlank = true ↔ Blank content := List.all_eq_true
  constructor
  · intro h
    cases h with
    | @type w _ w' hw hw' hne ht =>
      have hnot : ¬ Blank (w ++ type ++ w') := fun hb => by
        obtain ⟨c, x, rfl⟩ := List.exists_cons_of_ne_nil hne
        have hc := ht.head
        simp [hb c (by simp)] at hc
      refine ⟨by simp [hne], ?_⟩
      rw [declaredType, if_neg (fun h => hnot (hall.1 h)), trim_append hw hw' ht]
    | @blank w c hw hc =>
      have hb : Blank (w ++ [c]) := hw.append (blank_cons.2 ⟨hc, blank_nil⟩)
      refine ⟨by simp, ?_⟩
      rw [declaredType, if_pos (hall.2 hb), List.getLast?_concat]
      rfl
  · rintro ⟨hne, rfl⟩
    unfold declaredType
    split
    · rename_i hb
      have hb := hall.1 hb
      have hcontent := List.dropLast_concat_getLast hne
      have hlast := List.getLast?_eq_some_getLast hne
      rw [hlast, Option.toList_some]
      nth_rewrite 1 [← hcontent]
      exact .blank (fun c hc => hb c (List.dropLast_subset content hc))
        (hb _ (List.getLast_mem hne))
    · rename_i hnot
      obtain ⟨w, w', hw, hw', hx, ht⟩ := exists_trim content
      nth_rewrite 1 [hx]
      refine .type hw hw' (fun hnil => hnot (hall.2 ?_)) ht
      rw [hx, hnil, List.append_nil]
      exact hw.append hw'

/-- What stands before the first `;`, if no `=` comes before it. -/
theorem content_iff {r : List Char} :
    (r.takeWhile (fun c => c != ';' && c != '=') = content ∧
      r.dropWhile (fun c => c != ';' && c != '=') = ';' :: rest) ↔
    (∀ c ∈ content, c ≠ ';' ∧ c ≠ '=') ∧ r = content ++ ';' :: rest := by
  constructor
  · rintro ⟨rfl, hr⟩
    refine ⟨fun c hc => ?_, ?_⟩
    · simpa using List.all_eq_true.1 List.all_takeWhile c hc
    · rw [← hr, List.takeWhile_append_dropWhile]
  · rintro ⟨hc, rfl⟩
    have hpass : ∀ c ∈ content, (c != ';' && c != '=') = true := fun c h => by simpa using hc c h
    rw [List.takeWhile_append_of_pos hpass, List.dropWhile_append_of_pos hpass]
    simp

theorem declaration?_iff : declaration? b cs = some (d, rest) ↔
    ∃ span, cs = span ++ rest ∧ atWordStart b = true ∧ IsDeclaration span d := by
  unfold declaration?
  constructor
  · intro h
    split at h
    · cases h
    rename_i hb
    split at h
    · cases h
    rename_i r hr
    split at h
    · cases h
    rename_i hblank
    split at h
    · cases h
    rename_i name r' hi
    split at h
    · rename_i inner ht
      simp only at h
      split at h
      · rename_i hdrop
        split at h
        · cases h
        rename_i hne
        cases h
        obtain ⟨w, w', hw, hwne, hn, hw', rfl⟩ :=
          (named_iff rfl rfl).1 ⟨r, r', hr, by simpa using hblank, hi, ht⟩
        obtain ⟨hc, hinner⟩ := content_iff.1 ⟨rfl, hdrop⟩
        refine ⟨_, ?_, by simpa using hb,
          .mk hw hwne hn hw' hc (encloses_iff.2 ⟨by simpa using hne, rfl⟩)⟩
        nth_rewrite 1 [hinner]
        simp
      · cases h
    · cases h
  · rintro ⟨span, rfl, hb, h⟩
    cases h with
    | @mk w name w' content type hw hne hn hw' hc ht =>
      have hspan : "var".toList ++ (w ++ (name ++ (w' ++ ':' :: (content ++ [';'])))) ++ rest =
          "var".toList ++ (w ++ (name ++ (w' ++ ':' :: (content ++ ';' :: rest)))) := by simp
      obtain ⟨r, r', hr, hblank, hi, htrim⟩ :=
        (named_iff (e := ':') rfl rfl).2 ⟨w, w', hw, hne, hn, hw', hspan⟩
      obtain ⟨htake, hdrop⟩ := content_iff.2 ⟨hc, (rfl : content ++ ';' :: rest = _)⟩
      obtain ⟨hcontent, rfl⟩ := encloses_iff.1 ht
      simp only [hb, hr, hblank, hi, htrim, htake, hdrop, Bool.not_true, Bool.false_eq_true,
        if_false, List.isEmpty_iff, hcontent]

end Spans

section Seam

variable {d d' : List Char × List Char} {ps qs : List (Piece (List Char × List Char))}
  {rest rest' s span span' t u v x : List Char}

/-- A declaration where a word can start. -/
def FindsDeclaration (u span _rest : List Char) (d : List Char × List Char) : Prop :=
  atWordStart u.getLast? = true ∧ IsDeclaration span d

/-- A text that stands after `u`, divided by the declarations in it from left to right. -/
abbrev DeclarationDivision (u x : List Char) (ps : List (Piece (List Char × List Char))) : Prop :=
  Divides FindsDeclaration (NothingAt FindsDeclaration) u x ps

/-- A declaration goes up to the first `;`. -/
theorem IsDeclaration.eq_concat (h : IsDeclaration span d) : ∃ v, ';' ∉ v ∧ span = v ++ [';'] := by
  cases h with
  | @mk w name w' content type hw _ hn hw' hc ht =>
    have hblank : ∀ {v}, Blank v → ';' ∉ v := fun hv hm => by cases hv ';' hm
    have hname : ';' ∉ name := fun hm => by cases ident_of_mem hn hm
    have hcontent : ';' ∉ content := fun hm => (hc ';' hm).1 rfl
    refine ⟨"var".toList ++ (w ++ (name ++ (w' ++ ':' :: content))), ?_, by simp⟩
    simp [hblank hw, hblank hw', hname, hcontent]

theorem IsDeclaration.ne_nil (h : IsDeclaration span d) : span ≠ [] := by
  obtain ⟨v, -, rfl⟩ := h.eq_concat
  simp

theorem IsDeclaration.unique (hx : span ++ rest = span' ++ rest') (h : IsDeclaration span d)
    (h' : IsDeclaration span' d') : span = span' ∧ d = d' := by
  have hfirst : declaration? none (span ++ rest) = some (d, rest) :=
    declaration?_iff.2 ⟨span, rfl, rfl, h⟩
  rw [hx, declaration?_iff.2 ⟨span', rfl, rfl, h'⟩] at hfirst
  cases hfirst
  exact ⟨List.append_cancel_right hx, rfl⟩

theorem declarationDivision_cut (u x : List Char) :
    DeclarationDivision u x (cut declaration? u.getLast? x) :=
  divides_cut (fun b span _ d => atWordStart b = true ∧ IsDeclaration span d)
    (fun _ _ _ _ => declaration?_iff) (fun _ _ _ _ h => h.2.ne_nil) u x

theorem DeclarationDivision.unique (hp : DeclarationDivision u x ps)
    (hq : DeclarationDivision u x qs) : ps = qs :=
  Divides.unique (fun _ _ _ _ _ _ _ hx h h' => h.2.unique hx h'.2)
    (fun _ _ _ _ h => h.2.ne_nil) hp hq

/-- Of what stands before a text it only matters whether a word can start after it. -/
theorem DeclarationDivision.move (h : DeclarationDivision u x ps)
    (huv : atWordStart v.getLast? = atWordStart u.getLast?) : DeclarationDivision v x ps := by
  induction h generalizing v with
  | nil => exact .nil
  | char hk _ ih =>
    refine .char (fun span rest d hx hf => hk span rest d hx ⟨huv ▸ hf.1, hf.2⟩) (ih ?_)
    rw [List.getLast?_concat, List.getLast?_concat]
  | found hf _ ih =>
    refine .found ⟨huv ▸ hf.1, hf.2⟩ (ih ?_)
    rw [List.getLast?_append_of_ne_nil _ hf.2.ne_nil, List.getLast?_append_of_ne_nil _ hf.2.ne_nil]

/-- A declaration does not reach over the end of a statement. -/
theorem nothingAt_append_semicolon (h : NothingAt FindsDeclaration u (x ++ [';'])) :
    NothingAt FindsDeclaration u (x ++ [';'] ++ t) := by
  intro span rest d hs hf
  obtain ⟨v, hv, rfl⟩ := hf.2.eq_concat
  rcases List.append_eq_append_iff.1 hs with ⟨y, hy, -⟩ | ⟨y, hy, -⟩
  · -- The declaration goes on at least up to the `;`, so it ends there.
    rcases List.eq_nil_or_concat' y with rfl | ⟨y, c, rfl⟩
    · exact h _ [] d (by simpa using hy.symm) hf
    · rw [← List.append_assoc] at hy
      obtain ⟨rfl, -⟩ := List.append_inj' hy rfl
      exact hv (by simp)
  · exact h _ y d hy hf

theorem DeclarationDivision.append (hp : DeclarationDivision u (s ++ [';']) ps)
    (hq : DeclarationDivision [] t qs) : DeclarationDivision u (s ++ [';'] ++ t) (ps ++ qs) := by
  refine Divides.append hp (fun w y hw hy hk => ?_) (fun _ _ _ _ _ hf => hf) (hq.move ?_)
  · obtain ⟨y, c, rfl⟩ := (List.eq_nil_or_concat' y).resolve_left hy
    rw [← List.append_assoc] at hw
    obtain ⟨-, rfl⟩ : s = w ++ y ∧ ';' = c := by simpa using List.append_inj' hw rfl
    exact nothingAt_append_semicolon hk
  · rw [← List.append_assoc, List.getLast?_concat]
    decide

end Seam

section Extraction

variable {body s t : List Char} {decls : List (String × List Char)} {name : String}
  {names : List String} {ps qs : List (Piece (List Char × List Char))}

/-- The declarations of parameters among the pieces of a body, in order, by name and type. -/
def declaredParams (names : List String) (ps : List (Piece (List Char × List Char))) :
    List (String × List Char) :=
  ((takenOut ps).map fun p => (String.ofList p.2.1, p.2.2)).filter fun d => names.contains d.1

/-- The pieces of a body without the declarations of parameters. -/
def withoutParams (names : List String) (ps : List (Piece (List Char × List Char))) : List Char :=
  ps.flatMap fun
    | .char c => [c]
    | .found span d => if names.contains (String.ofList d.1) then [] else span

theorem paramDeclarations_eq :
    paramDeclarations names body = declaredParams names (cut declaration? none body) := by
  unfold paramDeclarations declaredParams findAll takenOut
  rw [List.map_filterMap, List.map_filterMap]
  refine congrArg (List.filter _ <| List.filterMap · _) (funext fun piece => ?_)
  cases piece <;> rfl

theorem withoutDeclarations_eq :
    withoutDeclarations names body = withoutParams names (cut declaration? none body) := by
  refine congrArg (List.flatMap · _) (funext fun piece => ?_)
  cases piece with
  | char c => rfl
  | found span d =>
    show Option.getD (if names.contains (String.ofList d.1) then some [] else none) span =
      if names.contains (String.ofList d.1) then [] else span
    split <;> rfl

/-- Without declarations of parameters nothing is taken out. -/
theorem withoutParams_eq (h : declaredParams names ps = []) :
    withoutParams names ps = ps.flatMap Piece.text := by
  have hother : ∀ p ∈ takenOut ps, names.contains (String.ofList p.2.1) = false := by
    intro p hp
    simpa using List.filter_eq_nil_iff.1 h _ (List.mem_map_of_mem hp)
  refine List.flatMap_congr fun piece hpiece => ?_
  cases piece with
  | char c => rfl
  | found span d =>
    have hd := hother (span, d) (List.mem_filterMap.2 ⟨_, hpiece, rfl⟩)
    show (if names.contains (String.ofList d.1) then [] else span) = span
    rw [hd]
    rfl

/-- The pieces of a body are found statement by statement. -/
theorem cut_append_semicolon : cut declaration? none (s ++ [';'] ++ t) =
    cut declaration? none (s ++ [';']) ++ cut declaration? none t :=
  (declarationDivision_cut [] _).unique
    ((declarationDivision_cut [] _).append (declarationDivision_cut [] t))

theorem paramDeclarations_append : paramDeclarations names (s ++ [';'] ++ t) =
    paramDeclarations names (s ++ [';']) ++ paramDeclarations names t := by
  simp only [paramDeclarations_eq, cut_append_semicolon, declaredParams, takenOut,
    List.filterMap_append, List.map_append, List.filter_append]

theorem withoutDeclarations_append : withoutDeclarations names (s ++ [';'] ++ t) =
    withoutDeclarations names (s ++ [';']) ++ withoutDeclarations names t := by
  simp only [withoutDeclarations_eq, cut_append_semicolon, withoutParams, List.flatMap_append]

theorem declaredHints_append (decls decls' : List (String × List Char)) :
    declaredHints (decls ++ decls') = do
      let hints ← declaredHints decls
      let hints' ← declaredHints decls'
      return hints ++ hints' :=
  List.mapM_append

theorem exists_bindsAs {hints : List (String × Declaration)} (h : declaredHints decls = .ok hints) :
    ∀ d ∈ decls, ∃ decl, BindsAs d.2 decl := by
  intro d hd
  obtain ⟨e, -, he⟩ := List.mem_map.1 (mapM_eq_ok_iff.1 h ▸ List.mem_map_of_mem hd)
  split at he
  · rename_i decl ht
    exact ⟨decl, ofShaderType?_iff.1 ht⟩
  · cases he

theorem declaredHints_cons (d : String × List Char) :
    declaredHints (d :: decls) = match Declaration.ofShaderType? d.2 with
      | some decl => (declaredHints decls).map ((d.1, decl) :: ·)
      | none => .error (.unbindableType d.1 (String.ofList d.2)) := by
  unfold declaredHints
  rw [List.mapM_cons]
  cases Declaration.ofShaderType? d.2 <;> rfl

/-- The first type that cannot be bound is reported. -/
theorem declaredHints_eq_error_iff {f : ConfigurationFault} : declaredHints decls = .error f ↔
    ∃ before name type after, decls = before ++ (name, type) :: after ∧
      (∀ d ∈ before, ∃ decl, BindsAs d.2 decl) ∧ (∀ decl, ¬ BindsAs type decl) ∧
      f = .unbindableType name (String.ofList type) := by
  induction decls with
  | nil => simp [declaredHints, pure, Except.pure]
  | cons d decls ih =>
    rcases hd : Declaration.ofShaderType? d.2 with _ | decl <;> simp only [declaredHints_cons, hd]
    · have hno : ∀ decl, ¬ BindsAs d.2 decl := fun decl h => by
        rw [ofShaderType?_iff.2 h] at hd
        cases hd
      constructor
      · rintro ⟨⟩
        exact ⟨[], d.1, d.2, decls, rfl, by simp, hno, rfl⟩
      · rintro ⟨before, name, type, after, hdecls, hbefore, -, rfl⟩
        cases before with
        | nil =>
          cases hdecls
          rfl
        | cons e before =>
          obtain ⟨rfl, -⟩ := List.cons.inj hdecls
          obtain ⟨decl, h⟩ := hbefore d List.mem_cons_self
          exact absurd h (hno decl)
    · have hbinds := ofShaderType?_iff.1 hd
      have hmap : (declaredHints decls).map ((d.1, decl) :: ·) = .error f ↔
          declaredHints decls = .error f := by
        cases declaredHints decls <;> simp [Except.map]
      rw [hmap, ih]
      constructor
      · rintro ⟨before, name, type, after, rfl, hbefore, hrest⟩
        exact ⟨d :: before, name, type, after, rfl,
          List.forall_mem_cons.2 ⟨⟨decl, hbinds⟩, hbefore⟩, hrest⟩
      · rintro ⟨before, name, type, after, hdecls, hbefore, hno, rfl⟩
        cases before with
        | nil =>
          cases hdecls
          exact absurd hbinds (hno decl)
        | cons e before =>
          obtain ⟨rfl, rfl⟩ := List.cons.inj hdecls
          exact ⟨before, name, type, after, rfl, (List.forall_mem_cons.1 hbefore).2, hno, rfl⟩

theorem find?_reverse_eq_some_iff {d : String × List Char} :
    decls.reverse.find? (·.1 == name) = some d ↔
      d.1 = name ∧ ∃ before after, decls = before ++ d :: after ∧ ∀ e ∈ after, e.1 ≠ name := by
  rw [List.find?_eq_some_iff_append, beq_iff_eq]
  refine and_congr_right fun _ => ⟨?_, ?_⟩
  · rintro ⟨after, before, h, hafter⟩
    refine ⟨before.reverse, after.reverse, ?_, fun e he => ?_⟩
    · rw [← List.reverse_reverse decls, h]
      simp
    · simpa using hafter e (List.mem_reverse.1 he)
  · rintro ⟨before, after, rfl, hafter⟩
    refine ⟨after.reverse, before.reverse, by simp, fun e he => ?_⟩
    simpa using hafter e (List.mem_reverse.1 he)

/-- What is extracted from a body for some parameters, by the pieces of the body. -/
structure Extracts (names : List String) (body : List Char)
    (ps : List (Piece (List Char × List Char))) : Prop where
  /-- It fails exactly if some parameter is declared with a type that cannot be bound. -/
  fails : (∃ f, extractDeclarations names body = .error f) ↔
    ∃ d ∈ declaredParams names ps, ∀ decl, ¬ BindsAs d.2 decl
  /-- The first such declaration is reported. -/
  fault : ∀ f, extractDeclarations names body = .error f ↔
    ∃ before name type after, declaredParams names ps = before ++ (name, type) :: after ∧
      (∀ d ∈ before, ∃ decl, BindsAs d.2 decl) ∧ (∀ decl, ¬ BindsAs type decl) ∧
      f = .unbindableType name (String.ofList type)
  /-- Exactly the declarations of parameters are taken out. -/
  remaining : ∀ text hints, extractDeclarations names body = .ok (text, hints) →
    text = withoutParams names ps
  /-- The hint for a parameter is what the last declaration of it stands for. -/
  hints : ∀ text hints, extractDeclarations names body = .ok (text, hints) → ∀ name decl,
    hints.get? name = some decl ↔ ∃ before type after,
      declaredParams names ps = before ++ (name, type) :: after ∧ (∀ d ∈ after, d.1 ≠ name) ∧
      BindsAs type decl
  /-- A body that declares no parameters stays as it is. -/
  unchanged : declaredParams names ps = [] →
    extractDeclarations names body = .ok (body, NameMap.empty)

/-- The hint for a name comes from the last declaration of it. -/
theorem hint_iff {names : List String} {body text : List Char} {hints : NameMap Declaration}
    {decl : Declaration} (h : extractDeclarations names body = .ok (text, hints)) :
    hints.get? name = some decl ↔ ∃ before type after,
      declaredParams names (cut declaration? none body) = before ++ (name, type) :: after ∧
        (∀ d ∈ after, d.1 ≠ name) ∧ BindsAs type decl := by
  have hlast := (extractDeclarations_eq_ok h).2 name
  rw [paramDeclarations_eq] at hlast
  constructor
  · intro hg
    rw [hg, Option.map_some] at hlast
    obtain ⟨d, hd, hdecl⟩ := Option.map_eq_some_iff.1 hlast
    obtain ⟨rfl, before, after, hps, hafter⟩ := find?_reverse_eq_some_iff.1 hd
    exact ⟨before, d.2, after, hps, hafter, ofShaderType?_iff.1 hdecl⟩
  · rintro ⟨before, type, after, hps, hafter, hb⟩
    rw [find?_reverse_eq_some_iff.2 ⟨rfl, before, after, hps, hafter⟩, Option.map_some,
      ofShaderType?_iff.2 hb] at hlast
    obtain ⟨e, he, hdecl⟩ := Option.map_eq_some_iff.1 hlast.symm
    exact he.trans hdecl

theorem extracts_cut (names : List String) (body : List Char) :
    Extracts names body (cut declaration? none body) := by
  have hfault : ∀ f, extractDeclarations names body = .error f ↔
      declaredHints (declaredParams names (cut declaration? none body)) = .error f := by
    intro f
    rw [extractDeclarations, ← paramDeclarations_eq]
    cases declaredHints (paramDeclarations names body) <;> simp [Except.map]
  constructor
  · constructor
    · rintro ⟨f, hf⟩
      obtain ⟨before, name, type, after, h, -, hno, -⟩ :=
        declaredHints_eq_error_iff.1 ((hfault f).1 hf)
      exact ⟨(name, type), by simp [h], hno⟩
    · rintro ⟨d, hd, hno⟩
      rcases h : extractDeclarations names body with f | ⟨text, hints⟩
      · exact ⟨f, rfl⟩
      · obtain ⟨l, hl, -⟩ := except_map_eq_ok h
        obtain ⟨decl, hdecl⟩ := exists_bindsAs hl d (paramDeclarations_eq ▸ hd)
        exact absurd hdecl (hno decl)
  · exact fun f => (hfault f).trans declaredHints_eq_error_iff
  · intro text hints h
    rw [(extractDeclarations_eq_ok h).1, withoutDeclarations_eq]
  · exact fun text hints h name decl => hint_iff h
  · intro h
    have hno : declaredHints (paramDeclarations names body) = .ok [] := by
      rw [paramDeclarations_eq, h]
      rfl
    have hbody : withoutDeclarations names body = body := by
      rw [withoutDeclarations_eq, withoutParams_eq h]
      exact flatMap_text_cut declaration? none body
    rw [extractDeclarations, hno, hbody]
    rfl

theorem get?_ofList_append {α : Type} (l l' : List (String × α)) :
    (NameMap.ofList (l ++ l')).get? name =
      ((NameMap.ofList l').get? name).or ((NameMap.ofList l).get? name) := by
  rw [NameMap.get?_ofList, NameMap.get?_ofList, NameMap.get?_ofList, List.reverse_append,
    List.find?_append, Option.map_or]

/-- What is extracted from two texts one after the other is what is extracted from each of them, and
a hint of the second overrides one of the first. -/
structure Joins (names : List String) (s t : List Char) : Prop where
  succeeds : (∃ r, extractDeclarations names (s ++ t) = .ok r) ↔
    (∃ r, extractDeclarations names s = .ok r) ∧ ∃ r, extractDeclarations names t = .ok r
  extracted : ∀ text text' hints hints', extractDeclarations names s = .ok (text, hints) →
    extractDeclarations names t = .ok (text', hints') →
    ∃ both, extractDeclarations names (s ++ t) = .ok (text ++ text', both) ∧
      ∀ name, both.get? name = (hints'.get? name).or (hints.get? name)

theorem joins_semicolon (names : List String) (s t : List Char) : Joins names (s ++ [';']) t := by
  have hboth : extractDeclarations names (s ++ [';'] ++ t) =
      (declaredHints (paramDeclarations names (s ++ [';'])) >>= fun l =>
        declaredHints (paramDeclarations names t) >>= fun l' =>
          .ok (withoutDeclarations names (s ++ [';']) ++ withoutDeclarations names t,
            NameMap.ofList (l ++ l'))) := by
    rw [extractDeclarations, paramDeclarations_append, withoutDeclarations_append,
      declaredHints_append]
    cases declaredHints (paramDeclarations names (s ++ [';'])) <;>
      cases declaredHints (paramDeclarations names t) <;> rfl
  constructor
  · rw [hboth]
    unfold extractDeclarations
    cases declaredHints (paramDeclarations names (s ++ [';'])) <;>
      cases declaredHints (paramDeclarations names t) <;>
      simp [bind, Except.bind, Except.map]
  · intro text text' hints hints' h h'
    obtain ⟨l, hl, hr⟩ := except_map_eq_ok h
    obtain ⟨l', hl', hr'⟩ := except_map_eq_ok h'
    cases hr
    cases hr'
    refine ⟨NameMap.ofList (l ++ l'), ?_, fun name => get?_ofList_append l l'⟩
    rw [hboth, hl, hl']
    rfl

/-- The declarations of parameters are extracted statement by statement, and what is extracted from
a body follows from the one way in which its declarations divide it. -/
theorem extractDeclarations_statementwise (names : List String) :
    (∀ s t : List Char, Joins names (s ++ [';']) t) ∧
      ∀ body : List Char, ∃ ps, (∀ qs, DeclarationDivision [] body qs ↔ qs = ps) ∧
        Extracts names body ps := by
  refine ⟨joins_semicolon names, fun body => ?_⟩
  have hcut := declarationDivision_cut [] body
  exact ⟨_, fun qs => ⟨fun hq => hq.unique hcut, fun hq => hq ▸ hcut⟩, extracts_cut names body⟩

end Extraction

end Body

end ComputeKernel
