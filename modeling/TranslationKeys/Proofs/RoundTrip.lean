import TranslationKeys.Proofs.Reports

/-!
# Trees and their written forms

The trees that parsing can give are described without parsing: their lexemes are
complete, the names of each block differ, and no more blocks are nested than may
be open at once.  Each such tree is parsed from its own written form.
-/

namespace TranslationKeys

open Lexeme

/-! ## Trees that can be written -/

mutual

/-- A call is well formed when its lexemes are complete and no block repeats a name. -/
def Call.WellFormed : Call -> Prop
  | .bare key => IsKey key
  | .block key params => IsKey key /\ params.names.Nodup /\ params.WellFormed

def Params.WellFormed : Params -> Prop
  | .nil => True
  | .cons name value rest => IsName name /\ value.WellFormed /\ rest.WellFormed

def Value.WellFormed : Value -> Prop
  | .literal raw => IsLiteral raw
  | .nested call => call.WellFormed

end

mutual

/-- The largest number of blocks of a call that lie in each other. -/
def Call.nesting : Call -> Nat
  | .bare _ => 0
  | .block _ params => params.nesting + 1

def Params.nesting : Params -> Nat
  | .nil => 0
  | .cons _ value rest => max value.nesting rest.nesting

def Value.nesting : Value -> Nat
  | .literal _ => 0
  | .nested call => call.nesting

end

/-- A node is well formed when it does not look like another node and is not nested too deep. -/
def Node.WellFormed : Node -> Prop
  | .literal text => ¬ BeginsCall text
  | .translate call => call.WellFormed /\ call.nesting <= maxOpenBlocks

mutual

def Call.decideWellFormed : (call : Call) -> Decidable call.WellFormed
  | .bare key => inferInstanceAs (Decidable (IsKey key))
  | .block key params =>
      have := params.decideWellFormed
      inferInstanceAs (Decidable (IsKey key /\ params.names.Nodup /\ params.WellFormed))

def Params.decideWellFormed : (params : Params) -> Decidable params.WellFormed
  | .nil => .isTrue trivial
  | .cons name value rest =>
      have := value.decideWellFormed
      have := rest.decideWellFormed
      inferInstanceAs (Decidable (IsName name /\ value.WellFormed /\ rest.WellFormed))

def Value.decideWellFormed : (value : Value) -> Decidable value.WellFormed
  | .literal raw => inferInstanceAs (Decidable (IsLiteral raw))
  | .nested call => call.decideWellFormed

end

instance : DecidablePred Call.WellFormed :=
  Call.decideWellFormed

instance : DecidablePred Node.WellFormed
  | .literal text => inferInstanceAs (Decidable (¬ BeginsCall text))
  | .translate call =>
      inferInstanceAs (Decidable (call.WellFormed /\ call.nesting <= maxOpenBlocks))

/-! ## Entries of a block -/

namespace Params

theorem wellFormed_iff {params : Params} :
    params.WellFormed <->
      ∀ entry ∈ params.toList, IsName entry.1 /\ entry.2.WellFormed := by
  fun_induction toList params with
  | case1 => simp [WellFormed]
  | case2 name value rest ih => simp [WellFormed, ih, and_assoc]

theorem nesting_le_iff {params : Params} {free : Nat} :
    params.nesting <= free <-> ∀ entry ∈ params.toList, entry.2.nesting <= free := by
  fun_induction toList params with
  | case1 => simp [nesting]
  | case2 name value rest ih =>
      rw [nesting, Nat.max_le, ih, List.forall_mem_cons]

theorem toList_injective {first second : Params} (h : first.toList = second.toList) :
    first = second := by
  fun_induction toList first generalizing second with
  | case1 =>
      cases second with
      | nil => rfl
      | cons name value rest => cases h
  | case2 name value rest ih =>
      cases second with
      | nil => cases h
      | cons other found more =>
          simp only [toList, List.cons.injEq, Prod.mk.injEq] at h
          obtain ⟨⟨rfl, rfl⟩, hrest⟩ := h
          rw [ih hrest]

theorem mem_insert {params : Params} {name : Text} {value : Value} {entry : Text × Value}
    (h : entry ∈ (params.insert name value).toList) :
    entry ∈ params.toList \/ entry = (name, value) := by
  rw [toList_insert, List.mem_append, List.mem_singleton] at h
  exact h.imp_left List.mem_of_mem_eraseP

/-- Insertion moves a name to the end. -/
theorem names_insert (params : Params) (name : Text) (value : Value) :
    (params.insert name value).names = params.names.erase name ++ [name] := by
  have htest : (fun entry : Text × Value => decide (entry.1 = name)) =
      (· == name) ∘ Prod.fst := by
    funext entry
    exact (Bool.beq_eq_decide_eq entry.1 name).symm
  simp only [names, toList_insert, htest, List.map_append, List.map_cons, List.map_nil,
    List.erase_eq_eraseP', List.eraseP_map]

theorem nodup_insert {params : Params} (h : params.names.Nodup) (name : Text)
    (value : Value) : (params.insert name value).names.Nodup := by
  rw [names_insert, List.nodup_append]
  refine ⟨h.erase name, by simp, ?_⟩
  intro other hother found hfound
  rw [List.mem_singleton.1 hfound]
  rintro rfl
  exact h.not_mem_erase hother

theorem toList_insert_of_not_mem {params : Params} {name : Text} (h : name ∉ params.names)
    (value : Value) :
    (params.insert name value).toList = params.toList ++ [(name, value)] := by
  rw [toList_insert, List.eraseP_of_forall_not]
  intro entry hentry heq
  exact h (List.mem_map.2 ⟨entry, hentry, by simpa using heq⟩)

theorem mem_insertAll {params : Params} {entries : List (Text × Value)}
    {entry : Text × Value} (h : entry ∈ (params.insertAll entries).toList) :
    entry ∈ params.toList \/ entry ∈ entries := by
  induction entries generalizing params with
  | nil => exact Or.inl h
  | cons first entries ih =>
      obtain ⟨name, value⟩ := first
      rcases ih h with hparams | hentries
      · rcases mem_insert hparams with hold | rfl
        · exact Or.inl hold
        · exact Or.inr (by simp)
      · exact Or.inr (List.mem_cons_of_mem _ hentries)

theorem nodup_insertAll {params : Params} (h : params.names.Nodup)
    (entries : List (Text × Value)) : (params.insertAll entries).names.Nodup := by
  induction entries generalizing params with
  | nil => exact h
  | cons entry entries ih => exact ih (nodup_insert h entry.1 entry.2)

theorem toList_insertAll {params : Params} {entries : List (Text × Value)}
    (h : (params.names ++ entries.map Prod.fst).Nodup) :
    (params.insertAll entries).toList = params.toList ++ entries := by
  induction entries generalizing params with
  | nil => simp
  | cons entry entries ih =>
      obtain ⟨name, value⟩ := entry
      have hnew : name ∉ params.names := by
        intro hname
        exact (List.nodup_append.1 h).2.2 name hname name (by simp) rfl
      have hinsert := toList_insert_of_not_mem hnew value
      have hnames : (params.insert name value).names = params.names ++ [name] := by
        simp [names, hinsert]
      rw [insertAll_cons, ih (by simpa [hnames] using h), hinsert, List.append_assoc]
      rfl

theorem ofList_toList {params : Params} (h : params.names.Nodup) :
    ofList params.toList = params := by
  apply toList_injective
  have hnames : (nil.names ++ params.toList.map Prod.fst).Nodup := h
  rw [← insertAll_nil_params, toList_insertAll hnames]
  rfl

end Params

/-! ## Parsed trees are well formed -/

/-- The entries that a block is made of give a well-formed block of the same nesting. -/
theorem Params.ofList_wellFormed {free : Nat} {entries : List (Text × Value)}
    (h : ∀ entry ∈ entries,
      IsName entry.1 /\ entry.2.WellFormed /\ entry.2.nesting <= free) :
    (Params.ofList entries).names.Nodup /\ (Params.ofList entries).WellFormed /\
      (Params.ofList entries).nesting <= free := by
  rw [← insertAll_nil_params, wellFormed_iff, nesting_le_iff]
  have hmem : ∀ entry ∈ (Params.nil.insertAll entries).toList, entry ∈ entries := by
    intro entry hentry
    rcases mem_insertAll hentry with hnil | hentries
    · cases hnil
    · exact hentries
  refine ⟨nodup_insertAll (by simp [names, toList]) entries, ?_, ?_⟩
  · intro entry hentry
    obtain ⟨hname, hvalue, _⟩ := h entry (hmem entry hentry)
    exact ⟨hname, hvalue⟩
  · intro entry hentry
    exact (h entry (hmem entry hentry)).2.2

mutual

/-- A call with a written form is well formed, and nests no more blocks than may be open. -/
theorem CallText.wellFormed :
    forall {free : Nat} {front rest : Text} {call : Call}, CallText free front rest call ->
      call.WellFormed /\ call.nesting <= free
  | _, _, _, _, .bare hkey _ => ⟨hkey, Nat.zero_le _⟩
  | _, _, _, _, .block hkey hbody => by
      obtain ⟨hnames, hparams, hnesting⟩ := Params.ofList_wellFormed hbody.wellFormed
      exact ⟨⟨hkey, hnames, hparams⟩, Nat.succ_le_succ hnesting⟩

theorem BlockText.wellFormed :
    forall {free : Nat} {body rest : Text} {entries : List (Text × Value)},
      BlockText free body rest entries -> ∀ entry ∈ entries,
        IsName entry.1 /\ entry.2.WellFormed /\ entry.2.nesting <= free
  | _, _, _, _, .close _ => by
      intro entry hentry
      cases hentry
  | _, _, _, _, .entry _ hheader hvalue _ hbody => by
      intro entry hentry
      rcases List.mem_cons.1 hentry with rfl | hlater
      · exact ⟨hheader.1, hvalue.wellFormed⟩
      · exact hbody.wellFormed entry hlater

theorem ValueText.wellFormed :
    forall {free : Nat} {front rest : Text} {value : Value},
      ValueText free front rest value -> value.WellFormed /\ value.nesting <= free
  | _, _, _, _, .literal hraw => ⟨hraw, Nat.zero_le _⟩
  | _, _, _, _, .nested hcall => hcall.wellFormed

end

/-! ## Well-formed trees are written -/

/-- Behind an entry the next one is written as a separator and itself. -/
theorem Params.render_comma (params : Params) (rest : Text) :
    exists separator, IsSeparator separator /\
      params.render [',', ' '] = separator ++ params.render [' '] /\
        EndsKey (separator ++ (params.render [' '] ++ '}' :: rest)) := by
  cases params with
  | nil => exact ⟨[], .nil, rfl, .brace rest⟩
  | cons name value more => exact ⟨[','], .comma, rfl, .comma _⟩

mutual

/-- A well-formed call is a written form of itself, wherever its key may end. -/
theorem Call.WellFormed.callText : forall {free : Nat} {call : Call}, call.WellFormed ->
    call.nesting <= free -> forall {rest : Text}, EndsKey rest ->
      CallText free call.render rest call
  | free, .bare key => by
      intro hkey _ rest hrest
      exact .bare hkey hrest
  | free, .block key params => by
      rintro ⟨hkey, hnames, hparams⟩ hnesting rest _
      cases free with
      | zero => exact absurd hnesting (Nat.not_succ_le_zero _)
      | succ free =>
          have hbody := hparams.blockText (Nat.le_of_succ_le_succ hnesting) IsSpace.nil rest
          have hcall := CallText.block hkey hbody
          rwa [Params.ofList_toList hnames] at hcall

/-- The entries of a well-formed block are a written form of its body, behind any spacing. -/
theorem Params.WellFormed.blockText : forall {free : Nat} {params : Params},
    params.WellFormed -> params.nesting <= free ->
      forall {space : Text}, IsSpace space -> forall (rest : Text),
        BlockText free (params.render space ++ ['}']) rest params.toList
  | free, .nil => by
      intro _ _ space hspace rest
      exact .close .nil
  | free, .cons name value more => by
      rintro ⟨hname, hvalue, hmore⟩ hnesting space hspace rest
      obtain ⟨hfirst, hlater⟩ := Nat.max_le.1 hnesting
      obtain ⟨separator, hseparator, hcomma, hends⟩ := more.render_comma rest
      have hbody := hmore.blockText hlater IsSpace.blank rest
      have hentry := BlockText.entry hspace hname.isHeader
        (hvalue.valueText hfirst (by simpa using hends)) hseparator hbody
      simpa [Params.render, Params.toList, hcomma] using hentry

theorem Value.WellFormed.valueText : forall {free : Nat} {value : Value}, value.WellFormed ->
    value.nesting <= free -> forall {rest : Text}, EndsKey rest ->
      ValueText free value.render rest value
  | free, .literal raw => by
      intro hraw _ rest _
      exact .literal hraw
  | free, .nested call => by
      intro hcall hnesting rest hrest
      exact .nested (hcall.callText hnesting hrest)

end

/-! ## The round trip -/

theorem Node.WellFormed.readExpression_render {node : Node} (h : node.WellFormed) :
    (readExpression maxOpenBlocks node.render).outcome = .ok (node, []) := by
  cases node with
  | literal text => exact readExpression_literal_iff.2 ⟨h, rfl, rfl⟩
  | translate call =>
      obtain ⟨hcall, hnesting⟩ := h
      have hread := (hcall.callText hnesting EndsKey.nil).readExpression_outcome
      rwa [List.append_nil] at hread

theorem wellFormed_of_parse {input : Text} {node : Node}
    (h : (parse input).result = .ok node) : node.WellFormed := by
  obtain ⟨rest, hread⟩ := parse_result_ok_iff.1 h
  cases node with
  | literal text =>
      obtain ⟨hbegins, rfl, _⟩ := readExpression_literal_iff.1 hread
      exact hbegins
  | translate call =>
      obtain ⟨front, _, hcall⟩ := readExpression_translate_iff.1 hread
      exact hcall.wellFormed

/--
The well-formed nodes are exactly those that parsing gives, and each of them is
parsed from its own written form without any diagnostic.
-/
theorem parsed_iff_wellFormed_and_reparsed (node : Node) :
    ((exists input, (parse input).result = .ok node) <-> node.WellFormed) /\
      (node.WellFormed ->
        (parse node.render).result = .ok node /\ (parse node.render).diagnostics = []) := by
  have hparse (h : node.WellFormed) := parse_of_nothing_left h.readExpression_render
  refine ⟨⟨?_, ?_⟩, hparse⟩
  · rintro ⟨input, hinput⟩
    exact wellFormed_of_parse hinput
  · intro h
    exact ⟨node.render, (hparse h).1⟩

/-- A call with an escaped quote, a brace in a literal, an empty block and a bare key. -/
def sampleNode : Node :=
  .translate (.block ['a', '.', 'b']
    (.cons ['x', '1'] (.literal ['\x22', '}', '\\', '\x22', '\x22'])
      (.cons ['_'] (.nested (.block ['c'] .nil))
        (.cons ['z'] (.nested (.bare ['.'])) .nil))))

theorem sampleNode_reparsed :
    sampleNode.WellFormed /\ (parse sampleNode.render).result = .ok sampleNode /\
      (parse sampleNode.render).diagnostics = [] := by
  have h : sampleNode.WellFormed := by decide
  exact ⟨h, (parsed_iff_wellFormed_and_reparsed sampleNode).2 h⟩

end TranslationKeys
