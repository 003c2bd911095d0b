import ComputeKernel.Proofs.Reflection

/-!
# The slots of a program

The slots of a program come from the declarations of a kernel body or from the variables of a
complete shader, and in both cases there are few kinds of them: buffers of scalars, and textures
whose type is that of their format (`Plain`, `compile_plain`). What a parameter is declared as is
settled by its tag, by its format or by a resource type in the body; whichever it is, the format of
an image settles its type (`resolveParams_plain`).
-/

namespace ComputeKernel

open Shader Body

/-- The kinds of slots that programs have. -/
inductive SlotKind.Plain : SlotKind → Prop
  | buffer (kind : Scalar) : Plain (.buffer (.buffer kind))
  | texture (format : ImageFormat) (access : Access) :
    Plain (.texture format.paramType format access)

section Declarations

/-- What parameters are declared as. -/
inductive Declaration.Plain : Declaration → Prop
  | buffer (kind : Scalar) (format : Option ImageFormat) (access : Option Access) :
    Plain ⟨.buffer kind, format, access⟩
  | image {d : Declaration} (hi : d.type.isImage = true)
    (h : ∀ f, d.format.or d.type.defaultFormat? = some f → d.type = f.paramType) : Plain d

theorem Declaration.Plain.of_format (f : ImageFormat) (access : Option Access) :
    Plain ⟨f.paramType, some f, access⟩ := by
  refine .image (by cases f <;> rfl) fun g hg => ?_
  cases hg
  rfl

theorem Declaration.Plain.of_image (kind : Scalar) (access : Option Access) :
    Plain ⟨.image kind, none, access⟩ := by
  refine .image rfl fun f hf => ?_
  cases kind <;> cases hf <;> rfl

theorem Declaration.Plain.of_texture (access : Option Access) : Plain ⟨.texture, none, access⟩ := by
  refine .image rfl fun f hf => ?_
  cases hf
  rfl

/-- A tag stands for a buffer of scalars or for an image whose format, if it names one, is that of
its type. -/
theorem resolve?_plain {tag : List Char} {type : ParamType} {format : Option ImageFormat}
    (h : ParamType.resolve? tag = some (type, format)) (access : Option Access) :
    Declaration.Plain ⟨type, format, access⟩ := by
  unfold ParamType.resolve? at h
  split at h
  · cases h
    exact .buffer _ _ _
  · cases h
    exact .of_texture _
  · cases h
    exact .of_texture _
  · split at h
    · split at h
      · cases h
        exact .of_image _ _
      · obtain ⟨f, -, h⟩ := Option.map_eq_some_iff.1 h
        cases h
        exact .of_format _ _
    · split at h
      · obtain ⟨kind, -, h⟩ := Option.map_eq_some_iff.1 h
        cases h
        exact .buffer _ _ _
      · cases h

variable {d d' : Declaration}

theorem ofTag_plain {tag : String} (h : Declaration.ofTag tag = .ok d) : d.Plain := by
  unfold Declaration.ofTag at h
  simp only at h
  split at h
  · rename_i hr
    cases h
    exact resolve?_plain hr none
  · cases h

theorem withFormat_plain {type : String} {attr : Option String}
    (h : ParamSpec.withFormat d type attr = .ok d') (hd : d.Plain) : d'.Plain := by
  unfold ParamSpec.withFormat at h
  split at h
  · cases h
    exact hd
  · split at h
    · cases h
    · split at h
      · cases h
        exact .of_format _ _
      · cases h

theorem Declaration.Plain.withAccess (h : d.Plain) (access : Option Access) :
    Plain { d with access := access } := by
  cases h with
  | buffer kind format _ => exact .buffer kind format access
  | image hi h => exact .image hi h

theorem withMode_plain {rwmode : Option String} (h : ParamSpec.withMode d rwmode = .ok d')
    (hd : d.Plain) : d'.Plain := by
  unfold ParamSpec.withMode at h
  split at h
  · cases h
    exact hd
  · split at h
    · cases h
    · cases h
      exact hd.withAccess _

/-- However the configuration describes a parameter, it is declared as something plain. -/
theorem resolve_plain {spec : ParamSpec} (h : spec.resolve = .ok d) : d.Plain := by
  cases spec with
  | tag t => exact ofTag_plain h
  | detailed type attr rwmode =>
    obtain ⟨d₁, h₁, h⟩ := except_bind_eq_ok h
    obtain ⟨d₂, h₂, h⟩ := except_bind_eq_ok h
    exact withMode_plain h (withFormat_plain h₂ (ofTag_plain h₁))

/-- The types of the shader languages declare nothing else either. -/
theorem ofShaderType?_plain {type : List Char} (h : Declaration.ofShaderType? type = some d) :
    d.Plain := by
  unfold Declaration.ofShaderType? at h
  simp only at h
  split at h
  · obtain ⟨kind, -, rfl⟩ := Option.map_eq_some_iff.1 h
    exact .buffer _ _ _
  · split at h
    · split at h
      · cases h
        exact .of_texture _
      · cases h
      · cases h
      · cases h
        exact .of_image _ _
    · split at h
      · obtain ⟨format, -, h⟩ := Option.bind_eq_some_iff.1 h
        split at h
        · obtain ⟨access, -, rfl⟩ := Option.map_eq_some_iff.1 h
          exact .of_format _ _
        · cases h
          exact .of_format _ _
      · cases h

end Declarations

section Parameters

theorem exists_of_mem_mapM {ε α β : Type} {f : α → Except ε β} {xs : List α} {ys : List β} {y : β}
    (h : xs.mapM f = .ok ys) (hy : y ∈ ys) : ∃ x ∈ xs, f x = .ok y := by
  have hm : (.ok y : Except ε β) ∈ ys.map .ok := List.mem_map_of_mem hy
  rw [← mapM_eq_ok_iff.1 h] at hm
  exact List.mem_map.1 hm

theorem except_map_eq_ok {ε α β : Type} {x : Except ε α} {g : α → β} {b : β}
    (h : x.map g = .ok b) : ∃ a, x = .ok a ∧ g a = b := by
  cases x with
  | error e => cases h
  | ok a => exact ⟨a, rfl, Except.ok.inj h⟩

/-- A map has no entries but those it was made of. -/
theorem NameMap.mem_ofList {α : Type} {l : List (String × α)} {e : String × α} :
    e ∈ (NameMap.ofList l).entries → e ∈ l := by
  suffices h : ∀ m : NameMap α, e ∈ (l.foldl (fun m e => m.insert e.1 e.2) m).entries →
      e ∈ m.entries ∨ e ∈ l by
    intro he
    exact (h .empty he).resolve_left (by simp [NameMap.empty])
  induction l with
  | nil => exact fun m he => .inl he
  | cons f l ih =>
    intro m he
    rcases ih (m.insert f.1 f.2) he with he | he
    · rcases NameMap.mem_insertEntry he with rfl | he
      · exact .inr List.mem_cons_self
      · exact .inl he
    · exact .inr (List.mem_cons_of_mem f he)

theorem NameMap.mem_of_get? {α : Type} {m : NameMap α} {name : String} {a : α}
    (h : m.get? name = some a) : (name, a) ∈ m.entries := by
  obtain ⟨e, he, rfl⟩ := Option.map_eq_some_iff.1 h
  have hn := List.find?_some he
  rw [beq_iff_eq] at hn
  exact hn ▸ List.mem_of_find?_eq_some he

theorem extractDeclarations_plain {names : List String} {body text : List Char}
    {hints : NameMap Declaration} (h : extractDeclarations names body = .ok (text, hints))
    {name : String} {d : Declaration} (hd : hints.get? name = some d) : d.Plain := by
  obtain ⟨l, hl, h⟩ := except_map_eq_ok h
  cases h
  obtain ⟨x, -, hx⟩ := exists_of_mem_mapM hl (NameMap.mem_ofList (NameMap.mem_of_get? hd))
  split at hx
  · rename_i ht
    cases hx
    exact ofShaderType?_plain ht
  · cases hx

/-- Each name is declared once, in the order of the names, and as something plain. -/
theorem resolveParams_plain {config : Config} {hints : NameMap Declaration} {names : List String}
    {decls : List (String × Declaration)} (h : config.resolveParams hints names = .ok decls)
    (hh : ∀ name d, hints.get? name = some d → d.Plain) :
    decls.map (·.1) = names ∧ ∀ p ∈ decls, p.2.Plain := by
  constructor
  · refine List.ext_getElem? fun i => ?_
    have hi := congrArg (·[i]?) (mapM_eq_ok_iff.1 h)
    rcases hn : names[i]? with _ | name <;> rcases hd : decls[i]? with _ | p <;>
      simp [hn, hd] at hi ⊢
    obtain ⟨_, -, rfl⟩ := except_map_eq_ok hi
    rfl
  · intro p hp
    obtain ⟨name, -, hn⟩ := exists_of_mem_mapM h hp
    obtain ⟨o, ho, rfl⟩ := except_map_eq_ok hn
    unfold Config.declared at ho
    split at ho
    · cases ho
      rcases hg : hints.get? name with _ | d
      · exact .buffer _ _ _
      · exact hh name d hg
    · obtain ⟨d, hd, rfl⟩ := except_map_eq_ok ho
      exact resolve_plain hd

variable {d : Dialect} {text : List Char}

/-- The format of an image may come from its type, but then it is one of that type. -/
theorem slotKind_plain {name : String} {decl : Declaration} {kind : SlotKind} (hd : decl.Plain)
    (h : slotKind d text name decl = .ok kind) : kind.Plain := by
  unfold slotKind at h
  cases hd with
  | buffer kind format access =>
    cases h
    exact .buffer kind
  | image hi hf =>
    rw [if_pos hi] at h
    split at h
    · rename_i format hg
      cases h
      rw [hf format hg]
      exact .texture _ _
    · cases h

/-- The slots follow the declarations. -/
theorem paramSlots_eq_ok {decls : List (String × Declaration)} {index : Nat}
    {slots : List ParamSlot} (h : paramSlots d text index decls = .ok slots)
    (hd : ∀ p ∈ decls, p.2.Plain) :
    slots.map (·.name) = decls.map (·.1) ∧
      slots.map (·.index) = List.range' index slots.length ∧ ∀ s ∈ slots, s.kind.Plain := by
  induction decls generalizing index slots with
  | nil =>
    cases h
    simp
  | cons p decls ih =>
    obtain ⟨kind, hk, h⟩ := except_bind_eq_ok h
    obtain ⟨slots', hs, h⟩ := except_bind_eq_ok h
    cases h
    obtain ⟨hn, hi, hp⟩ := ih hs fun q hq => hd q (List.mem_cons_of_mem p hq)
    refine ⟨by simp [hn], by simp [hi, List.range'_succ], ?_⟩
    intro s hm
    rcases List.mem_cons.1 hm with rfl | hm
    · exact slotKind_plain (hd p List.mem_cons_self) hk
    · exact hp s hm

end Parameters

section Drafts

variable {names : List String} {text : List Char} {config : Config} {log log' : List LogLine}

theorem configured_eq_ok {α : Type} {x : Except ConfigurationFault α} {a : α}
    (h : Logged.configured x log = .ok a log') : x = .ok a ∧ log = log' := by
  cases x with
  | error f => cases h
  | ok b =>
    cases h
    exact ⟨rfl, rfl⟩

theorem declareParams_plain {body : List Char} {hints : NameMap Declaration}
    {decls : List (String × Declaration)}
    (h : declareParams names config body log = .ok (text, hints, decls) log') :
    decls.map (·.1) = names ∧ ∀ p ∈ decls, p.2.Plain := by
  obtain ⟨_, log₁, -, h⟩ := bind_eq_ok h
  obtain ⟨⟨text', hints'⟩, log₂, he, h⟩ := bind_eq_ok h
  obtain ⟨_, log₃, -, h⟩ := bind_eq_ok h
  obtain ⟨decls', log₄, hr, h⟩ := bind_eq_ok h
  cases h
  exact resolveParams_plain (configured_eq_ok hr).1 fun name d hd =>
    extractDeclarations_plain (configured_eq_ok he).1 hd

/-- The slots of the parameters of a kernel body have the names of the parameters, in their order,
and they are numbered from 0 on. -/
theorem draft_eq_ok {body : List Char} {draft : Draft}
    (h : Shader.draft names body config log = .ok draft log') :
    namesFault? draft.dialect names = none ∧ draft.layout.params.map (·.name) = names ∧
      draft.layout.params.map (·.index) = List.range draft.layout.params.length ∧
      (∀ s ∈ draft.layout.params, s.kind.Plain) ∧
      ∃ text parts, draft.layout.uniforms = discoverUniforms text ∧
        draft.source = draft.dialect.emit draft.layout parts := by
  obtain ⟨_, log₁, -, h⟩ := bind_eq_ok h
  obtain ⟨_, log₂, hn, h⟩ := bind_eq_ok h
  obtain ⟨⟨text, hints, decls⟩, log₃, hd, h⟩ := bind_eq_ok h
  obtain ⟨_, log₄, -, h⟩ := bind_eq_ok h
  obtain ⟨params, log₅, hp, h⟩ := bind_eq_ok h
  obtain ⟨_, log₆, -, h⟩ := bind_eq_ok h
  cases h
  obtain ⟨hnames, hplain⟩ := declareParams_plain hd
  obtain ⟨hpn, hpi, hpk⟩ := paramSlots_eq_ok (configured_eq_ok hp).1 hplain
  refine ⟨(refuse_eq_ok_iff.1 hn).1, hpn.trans hnames, ?_, hpk, text, _, rfl, rfl⟩
  rw [List.range_eq_range']
  exact hpi

end Drafts

section Programs

theorem imageKind?_plain {cls : ImageClass} {kind : SlotKind} (h : imageKind? cls = some kind) :
    kind.Plain := by
  unfold imageKind? at h
  split at h
  · obtain ⟨f, -, rfl⟩ := Option.map_eq_some_iff.1 h
    exact .texture _ _
  · cases h
  · cases h
  · obtain ⟨f, -, rfl⟩ := Option.map_eq_some_iff.1 h
    exact .texture _ _

theorem paramKind?_plain {space : AddressSpace} {type : VarType} {kind : SlotKind}
    (h : paramKind? space type = some kind) : kind.Plain := by
  unfold paramKind? at h
  split at h
  · obtain ⟨kind, -, rfl⟩ := Option.map_eq_some_iff.1 h
    exact .buffer kind
  · exact imageKind?_plain h
  · cases h

/-- All slots of a program that compiled are plain. -/
theorem compile_plain {frontEnd : FrontEnd} {source : KernelSource} {config : Config}
    {program : Program} {log : List LogLine}
    (h : (source.compile frontEnd config).outcome = (.ok program, log)) :
    ∀ s ∈ program.layout.params, s.kind.Plain := by
  have h := outcome_eq_ok h
  cases source with
  | literal text =>
    obtain ⟨-, log₁, log₂, hl⟩ := ofLiteral_eq_ok h
    intro s hs
    have hm : some s ∈ program.layout.params.map some := List.mem_map_of_mem hs
    rw [← (layout_eq_ok_iff.1 hl).1] at hm
    obtain ⟨v, -, hv⟩ := List.mem_map.1 hm
    obtain ⟨kind, hk, rfl⟩ := Option.map_eq_some_iff.1 hv
    exact paramKind?_plain hk
  | body names text =>
    obtain ⟨-, d, log₁, hd, hl⟩ := ofBody_eq_ok h
    rw [hl]
    exact (draft_eq_ok hd).2.2.2.1

end Programs

end ComputeKernel
