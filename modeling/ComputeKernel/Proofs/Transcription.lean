import ComputeKernel.Config.Json

/-!
# Configurations as texts

A value that is made of texts and natural numbers is read back from what is written of it without
blanks (`Json.parse?_compact`). Each token ends where it was written to end: a string at its closing
quote, because what is in it was escaped, and a number at the mark that follows it. The states of
the reader between two tokens then show that nothing is added to a value and nothing is left out.

A configuration is such a value, and each of its fields is read back on its own; so the
configuration is read back as a whole, and it is refused if and only if it was not sound when it was
written (`Config.parse_write`).
-/

namespace ComputeKernel

namespace Json

section Tokens

variable {r rest : List Char} {s s' : State} {t : Token}

/-- Whether a number may go on with a character. -/
def extendsNumber (c : Char) : Bool := c.isDigit || c == '.' || c == 'e' || c == 'E'

/-- Only zero is written with a zero in front. -/
theorem naturalDigits_cons (n : Nat) : ∃ d ds, naturalDigits n = d :: ds ∧
    (∀ c ∈ d :: ds, c.isDigit = true) ∧ (d = '0' → ds = []) := by
  have hdigit : ∀ m < 10, m ≠ 0 → Nat.digitChar m ≠ '0' := by decide
  have hall : ∀ c ∈ naturalDigits n, c.isDigit = true := fun _ hc =>
    Nat.isDigit_of_mem_toDigits (by omega) (by omega) hc
  suffices h : ∃ d ds, naturalDigits n = d :: ds ∧ (d = '0' → n = 0 ∧ ds = []) by
    obtain ⟨d, ds, he, hz⟩ := h
    exact ⟨d, ds, he, he ▸ hall, fun hd => (hz hd).2⟩
  clear hall
  induction n using Nat.strongRecOn with
  | _ n ih =>
    unfold naturalDigits at ih ⊢
    rw [Nat.toDigits_eq_if (by omega)]
    split
    · rename_i hlt
      refine ⟨Nat.digitChar n, [], rfl, fun h => ⟨?_, rfl⟩⟩
      exact Decidable.byContradiction fun hn => hdigit n hlt hn h
    · obtain ⟨d, ds, he, hz⟩ := ih (n / 10) (by omega)
      refine ⟨d, ds ++ [Nat.digitChar (n % 10)], by rw [he]; rfl, fun hd => ?_⟩
      have := (hz hd).1
      omega

/-- A number ends where no digit follows. -/
theorem digits?_append {ds : List Char} (hne : ds ≠ []) (hd : ∀ c ∈ ds, c.isDigit = true)
    (hr : rest.head?.any extendsNumber = false) : digits? (ds ++ rest) = some (ds, rest) := by
  have hstop : rest.takeWhile Char.isDigit = [] ∧ rest.dropWhile Char.isDigit = rest := by
    cases rest with
    | nil => exact ⟨rfl, rfl⟩
    | cons c rest =>
      have hc : c.isDigit = false := by
        simp only [List.head?_cons, Option.any_some, extendsNumber, Bool.or_eq_false_iff] at hr
        exact hr.1.1.1
      simp [hc]
  unfold digits?
  rw [List.takeWhile_append_of_pos hd, List.dropWhile_append_of_pos hd, hstop.1, hstop.2,
    List.append_nil]
  cases ds with
  | nil => exact absurd rfl hne
  | cons => rfl

theorem unsigned?_of_integer {ds : List Char} (h : integer? (ds ++ rest) = some (ds, rest))
    (hr : rest.head?.any extendsNumber = false) : unsigned? (ds ++ rest) = some (ds, rest) := by
  have hf : fraction? rest = some ([], rest) := by
    unfold fraction?
    split
    · cases hr
    · rfl
  have he : exponent? rest = some ([], rest) := by
    cases rest with
    | nil => rfl
    | cons c rest =>
      simp only [List.head?_cons, Option.any_some, extendsNumber, Bool.or_eq_false_iff] at hr
      simp [exponent?, hr]
  simp [unsigned?, h, hf, he]

theorem number?_naturalDigits (n : Nat) (hr : rest.head?.any extendsNumber = false) :
    number? (naturalDigits n ++ rest) = some (naturalDigits n, rest) := by
  obtain ⟨d, ds, he, hd, hz⟩ := naturalDigits_cons n
  have hint : integer? (d :: ds ++ rest) = some (d :: ds, rest) := by
    by_cases h0 : d = '0'
    · rw [h0, hz h0]
      rfl
    · unfold integer?
      split
      · rename_i h
        cases h
        exact absurd rfl h0
      · exact digits?_append (by simp) hd hr
  rw [he]
  unfold number?
  split
  · rename_i h
    cases h
    exact absurd (hd _ List.mem_cons_self) (by decide)
  · exact unsigned?_of_integer hint hr

theorem token?_naturalDigits (n : Nat) (hr : rest.head?.any extendsNumber = false) :
    token? (naturalDigits n ++ rest) = some (.value (ofNat n), rest) := by
  have hn := number?_naturalDigits n hr
  obtain ⟨d, ds, he, hd, -⟩ := naturalDigits_cons n
  have hdigit : d.isDigit = true := hd d List.mem_cons_self
  unfold ofNat
  rw [he] at hn ⊢
  rw [List.cons_append] at hn ⊢
  have hmark : ∀ {c : Char}, c.isDigit = false → d ≠ c := by
    rintro c hc rfl
    simp [hdigit] at hc
  unfold token?
  split
  case h_11 => simp only [hn, Option.map_some]
  all_goals
    rename_i h
    exact absurd (List.cons.inj h).1 (hmark rfl)

theorem natural?_naturalDigits (n : Nat) : natural? (naturalDigits n) = some n := by
  obtain ⟨d, ds, he, hd, -⟩ := naturalDigits_cons n
  have hall : (naturalDigits n).all Char.isDigit = true := by
    rw [he]
    exact List.all_eq_true.2 hd
  have hne : (naturalDigits n).isEmpty = false := by
    rw [he]
    rfl
  have hv : digitsValue (naturalDigits n) = n := by
    have h := Nat.ofDigitChars_toDigits (b := 10) (n := n) (by omega) (by omega)
    rw [Nat.ofDigitChars_eq_foldl] at h
    simpa [digitsValue, naturalDigits, Nat.mul_comm] using h
  simp [natural?, hall, hne, hv]

/-- What stands for a character in a string is part of the string. -/
theorem stringRest?_encodeChar (c : Char) :
    stringRest? (encodeChar c ++ rest) =
      (stringRest? rest).map fun p => (encodeChar c ++ p.1, p.2) := by
  unfold encodeChar
  split <;> try rfl
  rename_i h1 h2 _ _ _ _ _
  split
  · rename_i hlt
    have hhex : ∀ n < 16, (hexDigit? (hexDigit n)).isSome = true := by decide
    have hz : (hexDigit? '0').isSome = true := by decide
    have ha := hhex (c.toNat / 16) (by omega)
    have hb := hhex (c.toNat % 16) (by omega)
    simp [stringRest?, hz, ha, hb]
  · rename_i hge
    have hq : c ≠ '"' := h1
    have hb : c ≠ '\\' := h2
    show stringRest? (c :: rest) = _
    have hplain : ¬ (c == '\\' || c.toNat < 0x20) = true := by
      simp only [Bool.or_eq_true, beq_iff_eq, decide_eq_true_eq]
      exact fun h => h.elim hb hge
    rw [stringRest?.eq_def]
    split
    · rename_i h
      cases h
    · rename_i h
      exact absurd (List.cons.inj h).1 hq
    · rename_i h
      exact absurd (List.cons.inj h).1 hb
    · rename_i h
      exact absurd (List.cons.inj h).1 hb
    · rename_i h
      cases h
      rw [if_neg hplain]
      rfl

/-- A string ends at its own quote: no quote in it stands for itself. -/
theorem stringRest?_encode (u : String) :
    stringRest? (encode u ++ '"' :: rest) = some (encode u, rest) := by
  unfold encode
  induction u.toList with
  | nil => rfl
  | cons c cs ih => simp [stringRest?_encodeChar, ih]

end Tokens

section Reading

variable {c : Char} {r rest : List Char} {s s' : State} {t : Token} {stack : List Frame}

/-- A token that makes the text shorter is one step of reading. -/
theorem read_token (hc : isSpace c = false) (ht : token? (c :: r) = some (t, rest))
    (hs : step s t = some s') (hl : rest.length < (c :: r).length) :
    read s (c :: r) = read s' rest := by
  rw [read, if_neg (by simp [hc])]
  simp only [ht, hs, if_pos hl]

/-- The marks between values are tokens of one character. -/
theorem read_mark (hc : c ∈ ['[', ']', '{', '}', ',', ':'])
    (ht : token? (c :: r) = some (t, r)) (hs : step s t = some s') :
    read s (c :: r) = read s' r := by
  refine read_token ?_ ht hs (by simp)
  revert hc
  generalize hm : isSpace c = b
  simp only [List.mem_cons, List.not_mem_nil, or_false]
  rintro (rfl | rfl | rfl | rfl | rfl | rfl) <;> exact hm.symm

/-- The values that are made of texts and natural numbers. -/
inductive Composed : Json → Prop
  | string (u : String) : Composed (ofString u)
  | number (n : Nat) : Composed (ofNat n)
  | array {items : List Json} (h : ∀ j ∈ items, Composed j) : Composed (.array items)
  | object {members : List (String × Json)} (h : ∀ m ∈ members, Composed m.2) :
    Composed (ofMembers members)

/-- A state in which a value may come next, to be put on `stack`. -/
def Expects (s : State) (stack : List Frame) : Prop :=
  ∀ t, t ≠ .closeArray → step s t = startValue stack t

theorem expects_value : Expects (.value stack) stack := fun _ _ => rfl

theorem expects_firstItem : Expects (.firstItem stack) (.array [] :: stack) := by
  intro t ht
  cases t with
  | closeArray => exact absurd rfl ht
  | _ => rfl

/-- What reading makes of a value in front of a text. -/
def ReadsAs (j : Json) : Prop :=
  ∀ s stack rest, Expects s stack → rest.head?.any extendsNumber = false →
    read s (compact j ++ rest) = read (complete j stack) rest

theorem read_string {u : String} (hs : step s (.string (encode u)) = some s') :
    read s ('"' :: encode u ++ '"' :: rest) = read s' rest := by
  refine read_token (by decide) ?_ hs
    (by simp only [List.append_eq, List.length_cons, List.length_append]; omega)
  show (stringRest? (encode u ++ '"' :: rest)).map _ = _
  rw [stringRest?_encode]
  rfl

theorem readsAs_string (u : String) : ReadsAs (ofString u) := by
  intro s stack rest hs _
  have h : step s (.string (encode u)) = some (complete (ofString u) stack) := hs _ (by simp)
  have hr : read s ('"' :: encode u ++ '"' :: rest) = _ := read_string h
  simpa [ofString, compact] using hr

theorem readsAs_number (n : Nat) : ReadsAs (ofNat n) := by
  intro s stack rest hs hr
  have ht := token?_naturalDigits n hr
  obtain ⟨d, ds, he, hd, -⟩ := naturalDigits_cons n
  have hspace : isSpace d = false := by
    have hdigit := hd d List.mem_cons_self
    cases h : isSpace d with
    | false => rfl
    | true =>
      simp only [isSpace, Bool.or_eq_true, beq_iff_eq] at h
      rcases h with ((rfl | rfl) | rfl) | rfl <;> exact absurd hdigit (by decide)
  show read s (naturalDigits n ++ rest) = _
  rw [he, List.cons_append] at ht ⊢
  exact read_token hspace ht (hs _ (by simp))
    (by simp only [List.length_cons, List.length_append]; omega)

/-- Items are read one after another and put on the array that is open. -/
theorem readsAs_items {items done : List Json} (h : ∀ j ∈ items, ReadsAs j) (hne : items ≠ [])
    (hs : Expects s (.array done :: stack)) :
    read s (compactItems items ++ ']' :: rest) =
      read (complete (.array (done.reverse ++ items)) stack) rest := by
  induction items generalizing s done with
  | nil => exact absurd rfl hne
  | cons j items ih =>
    cases items with
    | nil =>
      rw [compactItems, h j List.mem_cons_self s _ _ hs rfl]
      rw [read_mark (by simp) rfl
        (show step (complete j (.array done :: stack)) .closeArray = _ from rfl)]
      simp
    | cons k items =>
      rw [compactItems, List.append_assoc, List.cons_append, h j List.mem_cons_self s _ _ hs rfl,
        read_mark (by simp) rfl (show step (complete j (.array done :: stack)) .comma = _ from rfl),
        ih (fun i hi => h i (List.mem_cons_of_mem j hi)) (by simp) expects_value]
      simp

theorem readsAs_array {items : List Json} (h : ∀ j ∈ items, ReadsAs j) :
    ReadsAs (.array items) := by
  intro s stack rest hs _
  have hopen : step s .openArray = some (.firstItem stack) := hs _ (by simp)
  have htext : compact (.array items) ++ rest = '[' :: (compactItems items ++ ']' :: rest) := by
    simp [compact]
  rw [htext, read_mark (by simp) rfl hopen]
  by_cases hne : items = []
  · subst hne
    exact read_mark (by simp) rfl rfl
  · exact readsAs_items h hne expects_firstItem

/-- A state in which the name of a member may come next. -/
def ExpectsName (s : State) (done : List (List Char × Json)) (stack : List Frame) : Prop :=
  ∀ key, step s (.string key) = some (.colon done key stack)

theorem expectsName_name {done : List (List Char × Json)} :
    ExpectsName (.name done stack) done stack := fun _ => rfl

theorem expectsName_firstMember : ExpectsName (.firstMember stack) [] stack := fun _ => rfl

/-- So are members, with a name before each. -/
theorem readsAs_members {members : List (String × Json)} {done : List (List Char × Json)}
    (h : ∀ m ∈ members, ReadsAs m.2) (hne : members ≠ []) (hs : ExpectsName s done stack) :
    read s (compactMembers (members.map fun m => (encode m.1, m.2)) ++ '}' :: rest) =
      read (complete (.object (done.reverse ++ members.map fun m => (encode m.1, m.2))) stack)
        rest := by
  induction members generalizing s done with
  | nil => exact absurd rfl hne
  | cons m members ih =>
    have hname : ∀ z, z.head?.any extendsNumber = false →
        read s ('"' :: encode m.1 ++ '"' :: (':' :: (compact m.2 ++ z))) =
          read (complete m.2 (.object done (encode m.1) :: stack)) z := by
      intro z hz
      rw [read_string (hs _), read_mark (by simp) rfl
        (show step (.colon done (encode m.1) stack) .colon = _ from rfl)]
      exact h m List.mem_cons_self _ _ _ expects_value hz
    cases members with
    | nil =>
      have hm := hname ('}' :: rest) rfl
      rw [read_mark (by simp) rfl
        (show step (complete m.2 (.object done (encode m.1) :: stack)) .closeObject = _ from rfl)]
        at hm
      simpa [compactMembers] using hm
    | cons k members =>
      have hm := hname (',' :: (compactMembers ((k :: members).map fun m => (encode m.1, m.2)) ++
        '}' :: rest)) rfl
      rw [read_mark (by simp) rfl
          (show step (complete m.2 (.object done (encode m.1) :: stack)) .comma = _ from rfl),
        ih (fun i hi => h i (List.mem_cons_of_mem m hi)) (by simp) expectsName_name] at hm
      simp only [List.map_cons, compactMembers, List.append_assoc, List.cons_append,
        List.reverse_cons, List.nil_append] at hm ⊢
      exact hm

theorem readsAs_object {members : List (String × Json)} (h : ∀ m ∈ members, ReadsAs m.2) :
    ReadsAs (ofMembers members) := by
  intro s stack rest hs _
  have hopen : step s .openObject = some (.firstMember stack) := hs _ (by simp)
  have htext : compact (ofMembers members) ++ rest =
      '{' :: (compactMembers (members.map fun m => (encode m.1, m.2)) ++ '}' :: rest) := by
    simp [ofMembers, compact]
  rw [htext, read_mark (by simp) rfl hopen]
  by_cases hne : members = []
  · subst hne
    exact read_mark (by simp) rfl rfl
  · exact readsAs_members h hne expectsName_firstMember

/-- Whatever is composed of texts and numbers is read back. -/
theorem Composed.readsAs {j : Json} (h : Composed j) : ReadsAs j := by
  induction h with
  | string u => exact readsAs_string u
  | number n => exact readsAs_number n
  | array _ ih => exact readsAs_array ih
  | object _ ih => exact readsAs_object ih

/-- What is written without blanks is read back. -/
theorem parse?_compact {j : Json} (h : Composed j) : parse? j.compact = some j := by
  have hr := h.readsAs (.value []) [] [] expects_value rfl
  rw [List.append_nil] at hr
  unfold parse?
  rw [hr, read]
  rfl

end Reading

section Values

variable {members : List (String × Json)}

theorem mapM_eq_some_of {α β : Type} {f : α → Option β} {g : β → α} (h : ∀ b, f (g b) = some b)
    (l : List β) : (l.map g).mapM f = some l := by
  induction l with
  | nil => rfl
  | cons b l ih => simp [h, ih]

theorem members?_ofMembers (members : List (String × Json)) :
    members? (ofMembers members) = some members :=
  mapM_eq_some_of (fun m => by simp [decode?_encode]) members

theorem text?_ofString (u : String) : text? (ofString u) = some u := decode?_encode u

theorem word?_ofNat (n : UInt32) : word? (ofNat n.toNat) = some n := by
  simp [word?, ofNat, natural?_naturalDigits, n.toNat_lt_size]

theorem isSound_ofString (u : String) : isSound (ofString u) = true := by
  simp [isSound, ofString, decode?_encode]

theorem isSound_ofMembers (h : ∀ m ∈ members, isSound m.2 = true) :
    isSound (ofMembers members) = true := by
  show soundMembers (members.map fun m => (encode m.1, m.2)) = true
  induction members with
  | nil => rfl
  | cons m members ih =>
    simp [soundMembers, decode?_encode, h m List.mem_cons_self,
      ih fun k hk => h k (List.mem_cons_of_mem m hk)]

theorem depth_ofMembers {n : Nat} (h : ∀ m ∈ members, depth m.2 ≤ n) :
    depth (ofMembers members) ≤ n + 1 := by
  show depthMembers (members.map fun m => (encode m.1, m.2)) + 1 ≤ n + 1
  refine Nat.succ_le_succ ?_
  induction members with
  | nil => exact Nat.zero_le n
  | cons m members ih =>
    exact Nat.max_le.2 ⟨h m List.mem_cons_self, ih fun k hk => h k (List.mem_cons_of_mem m hk)⟩

end Values

end Json

open Json

section Fields

theorem Extent.ofJson?_toJson (e : Extent) : ofJson? e.toJson = some e := by
  simp [toJson, ofJson?, word?_ofNat]

theorem Extent.composed_toJson (e : Extent) : Composed e.toJson := by
  refine .array fun j hj => ?_
  simp only [List.mem_cons, List.not_mem_nil, or_false] at hj
  rcases hj with rfl | rfl | rfl <;> exact .number _

theorem Dialect.ofJson?_name (d : Dialect) : ofJson? (ofString d.name) = some d := by
  simp [ofJson?, ofString, decode?_encode]

/-- The members of an entry that is more than a tag. -/
def ParamSpec.members (type : String) (attr rwmode : Option String) : List (String × Json) :=
  [("type", ofString type)] ++ optionalMember "attr" attr ++ optionalMember "rwmode" rwmode

theorem ParamSpec.exists_of_mem_members {type : String} {attr rwmode : Option String}
    {m : String × Json} (h : m ∈ members type attr rwmode) : ∃ u, m.2 = ofString u := by
  simp only [members, optionalMember, List.mem_append, List.mem_singleton, List.mem_map] at h
  rcases h with (rfl | ⟨u, -, rfl⟩) | ⟨u, -, rfl⟩ <;> exact ⟨_, rfl⟩

theorem ParamSpec.composed_toJson (p : ParamSpec) : Composed p.toJson := by
  cases p with
  | tag t => exact .string t
  | detailed type attr rwmode =>
    refine .object fun m hm => ?_
    obtain ⟨u, hu⟩ := exists_of_mem_members hm
    exact hu ▸ .string u

/-- The member of a name is found if it is there, and no other one is taken for it. -/
theorem ParamSpec.member?_members (type : String) (attr rwmode : Option String) :
    member? "type" (members type attr rwmode) = some (some (ofString type)) ∧
      member? "attr" (members type attr rwmode) = some (attr.map ofString) ∧
      member? "rwmode" (members type attr rwmode) = some (rwmode.map ofString) := by
  cases attr <;> cases rwmode <;> exact ⟨rfl, rfl, rfl⟩

theorem ParamSpec.optionalText?_map (value : Option String) :
    optionalText? (value.map ofString) = some value := by
  cases value with
  | none => rfl
  | some u => simp [optionalText?, ofString, text?, decode?_encode]

theorem ParamSpec.ofJson?_toJson (p : ParamSpec) : ofJson? p.toJson = some p := by
  cases p with
  | tag t =>
    have hok : ¬ (!isSound (ofString t) || maxDepth < depth (ofString t)) = true := by
      have hd : depth (ofString t) = 0 := rfl
      simp [isSound_ofString, hd]
    show ofJson? (ofString t) = _
    unfold ofJson?
    rw [if_neg hok]
    exact congrArg (Option.map tag) (decode?_encode t)
  | detailed type attr rwmode =>
    have hsound : isSound (ofMembers (members type attr rwmode)) = true :=
      isSound_ofMembers fun m hm => by
        obtain ⟨u, hu⟩ := exists_of_mem_members hm
        exact hu ▸ isSound_ofString u
    have hdepth : depth (ofMembers (members type attr rwmode)) ≤ 0 + 1 :=
      depth_ofMembers fun m hm => by
        obtain ⟨u, hu⟩ := exists_of_mem_members hm
        exact hu ▸ Nat.le_refl 0
    have hok : ¬ (!isSound (ofMembers (members type attr rwmode)) ||
        maxDepth < depth (ofMembers (members type attr rwmode))) = true := by
      have hlt : ¬ maxDepth < depth (ofMembers (members type attr rwmode)) := by
        unfold maxDepth
        omega
      simp [hsound, hlt]
    obtain ⟨htype, hattr, hmode⟩ := member?_members type attr rwmode
    have hms : members? (.object ((members type attr rwmode).map fun m => (encode m.1, m.2))) =
        some (members type attr rwmode) := members?_ofMembers _
    show ofJson? (ofMembers (members type attr rwmode)) = _
    unfold ofJson?
    rw [if_neg hok]
    simp only [ofMembers, hms, htype, hattr, hmode, text?_ofString, optionalText?_map]

end Fields

section Maps

variable {α : Type}

/-- A name that comes after all others goes to the end. -/
theorem NameMap.insertEntry_last {l : List (String × α)} {name : String} {value : α}
    (h : ∀ e ∈ l, e.1 < name) : insertEntry name value l = l ++ [(name, value)] := by
  induction l with
  | nil => rfl
  | cons e l ih =>
    have he := h e List.mem_cons_self
    rw [insertEntry, if_neg (String.lt_asymm he), if_neg (String.ne_of_lt he).symm,
      ih fun k hk => h k (List.mem_cons_of_mem e hk)]
    rfl

/-- A map is made of its own entries. -/
theorem NameMap.ofList_entries (m : NameMap α) : ofList m.entries = m := by
  suffices h : ∀ (l : List (String × α)) (done : NameMap α),
      ((done.entries ++ l).Pairwise fun a b => a.1 < b.1) →
      (l.foldl (fun m e => m.insert e.1 e.2) done).entries = done.entries ++ l from
    NameMap.ext (h m.entries empty m.sorted)
  intro l
  induction l with
  | nil => simp
  | cons e l ih =>
    intro done h
    have hlast : ∀ k ∈ done.entries, k.1 < e.1 := fun k hk =>
      (List.pairwise_append.1 h).2.2 k hk e List.mem_cons_self
    have hn : (done.insert e.1 e.2).entries = done.entries ++ [e] := insertEntry_last hlast
    rw [List.foldl_cons, ih _ (by rw [hn]; simpa using h), hn]
    simp

end Maps

section Configs

variable {c : Config}

/-- The members of a configuration. -/
def Config.members (c : Config) : List (String × Json) :=
  [("local_size", c.localSize.toJson)] ++ (c.groups.toList.map fun g => ("groups", g.toJson)) ++
    [("params", ofMembers (c.params.entries.map fun e => (e.1, e.2.toJson))),
      ("target", ofString c.dialect.name)]

theorem Config.member?_members (c : Config) :
    member? "local_size" c.members = some (some c.localSize.toJson) ∧
      member? "groups" c.members = some (c.groups.map Extent.toJson) ∧
      member? "params" c.members =
        some (some (ofMembers (c.params.entries.map fun e => (e.1, e.2.toJson)))) ∧
      member? "target" c.members = some (some (ofString c.dialect.name)) := by
  rcases c with ⟨localSize, groups, params, dialect⟩
  cases groups <;> exact ⟨rfl, rfl, rfl, rfl⟩

theorem Config.composed_toJson (c : Config) : Composed c.toJson := by
  have hparams : Composed (ofMembers (c.params.entries.map fun e => (e.1, e.2.toJson))) := by
    refine .object fun m hm => ?_
    obtain ⟨e, -, rfl⟩ := List.mem_map.1 hm
    exact e.2.composed_toJson
  refine .object fun m hm => ?_
  simp only [List.mem_append, List.mem_cons, List.not_mem_nil, or_false, List.mem_map] at hm
  rcases hm with (rfl | ⟨g, -, rfl⟩) | rfl | rfl
  · exact c.localSize.composed_toJson
  · exact g.composed_toJson
  · exact hparams
  · exact .string _

theorem Config.paramsOfJson?_entries (m : NameMap ParamSpec) :
    paramsOfJson? (ofMembers (m.entries.map fun e => (e.1, e.2.toJson))) = some m := by
  have hread : (m.entries.map fun e => (e.1, e.2.toJson)).mapM (fun n =>
      (ParamSpec.ofJson? n.2).map (n.1, ·)) = some m.entries :=
    mapM_eq_some_of (fun e => by simp [ParamSpec.ofJson?_toJson]) m.entries
  unfold paramsOfJson?
  rw [members?_ofMembers]
  simp only [hread, Option.map_some, NameMap.ofList_entries]

theorem Config.groupsOfJson?_map (g : Option Extent) :
    orDefault groupsOfJson? none (g.map Extent.toJson) = some g := by
  cases g with
  | none => rfl
  | some e =>
    show (Extent.ofJson? e.toJson).map some = _
    rw [Extent.ofJson?_toJson]
    rfl

theorem Config.ofJson?_toJson (c : Config) : ofJson? c.toJson = some c := by
  obtain ⟨hsize, hgroups, hparams, htarget⟩ := c.member?_members
  have hms : members? (.object (c.members.map fun m => (encode m.1, m.2))) = some c.members :=
    members?_ofMembers _
  show ofJson? (.object (c.members.map fun m => (encode m.1, m.2))) = _
  simp only [ofJson?, hms, hsize, hgroups, hparams, htarget, ofFields?, groupsOfJson?_map]
  simp only [orDefault, Extent.ofJson?_toJson, paramsOfJson?_entries, Dialect.ofJson?_name]

/-- A configuration that was written is read back, and checked as before it was written. -/
theorem Config.parse_write (c : Config) :
    parse c.write = c.fault?.elim (.ok c) .error := by
  unfold parse write
  rw [String.toList_ofList, parse?_compact c.composed_toJson, Option.bind_some, ofJson?_toJson]
  cases h : c.fault? <;> simp [h]

theorem Config.fault?_of_parse {text : String} (h : parse text = .ok c) : c.fault? = none := by
  unfold parse at h
  split at h
  · cases h
  · split at h
    · cases h
    · cases h
      assumption

/-- Every sound configuration is read back from what is written of it, and so is every configuration
that was read before. -/
theorem Config.written_reads_back :
    (∀ c : Config, parse c.write = .ok c ↔ c.fault? = none) ∧
      ∀ (text : String) (c : Config), parse text = .ok c → parse c.write = .ok c := by
  have hsound : ∀ c : Config, parse c.write = .ok c ↔ c.fault? = none := by
    intro c
    rw [parse_write]
    cases c.fault? <;> simp
  exact ⟨hsound, fun text c h => (hsound c).2 (fault?_of_parse h)⟩

/-- Names and tags with quotes, escapes, control characters and characters beyond 16 bits, an entry
with settings but none of the optional ones, and one with all of them. -/
def quotedConfig : Config where
  localSize := ⟨8, 1, 4294967295⟩
  groups := some ⟨3, 2, 1⟩
  params := NameMap.ofList [("a\"b\\c\n\x01", .tag "texture"), ("é😀/", .tag "\tfloat[] "),
    ("type", .detailed "uint[]" none none), ("", .detailed "texture" (some "rgba8") (some "write"))]
  dialect := .glsl

/-- A configuration that is given as an array, with a name that stands twice. -/
def listedText : String :=
  "[[4, 4, 1], null, \x7b\"a\": \"int[]\", \"a\": \x7b\"rwmode\": \"read\", \"attr\": null, " ++
    "\"type\": \"texture\"\x7d\x7d]"

def listedConfig : Config where
  localSize := ⟨4, 4, 1⟩
  groups := none
  params := NameMap.ofList [("a", .detailed "texture" none (some "read"))]
  dialect := .wgsl

theorem Config.written_reads_back_quoted :
    quotedConfig.fault? = none ∧ parse quotedConfig.write = .ok quotedConfig ∧
      parse listedText = .ok listedConfig ∧ parse listedConfig.write = .ok listedConfig := by
  have hsound : quotedConfig.fault? = none := by decide +kernel
  have hread : parse listedText = .ok listedConfig := by
    have h : (parse listedText).toOption = some listedConfig := by decide +kernel
    cases hp : parse listedText <;> rw [hp] at h <;> cases h
    rfl
  exact ⟨hsound, (written_reads_back.1 quotedConfig).2 hsound, hread,
    written_reads_back.2 _ listedConfig hread⟩

end Configs

end ComputeKernel
