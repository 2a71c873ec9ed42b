import TranslationKeys.Proofs.Insertion
import TranslationKeys.Proofs.Lossless

/-!
# Trees in compact text

The compact text of a tree decides the tree, whatever characters its keys, names
and literals are made of: one decoder gives every tree back.  The parameters of a
block are the fields of one object, so a tree whose blocks are filled by
insertion has a document in which no object repeats a name, and no other tree has
such a document.
-/

namespace TranslationKeys

/-! ## Documents with distinct names -/

namespace Json

/-- A document contains itself and what its items and fields contain. -/
inductive Contains : Json -> Json -> Prop where
  | self (document : Json) : Contains document document
  | item {items : List Json} {item part : Json} :
      item ∈ items -> Contains item part -> Contains (.array items) part
  | field {fields : List (Text × Json)} {field : Text × Json} {part : Json} :
      field ∈ fields -> Contains field.2 part -> Contains (.object fields) part

/-- No object in the document has two fields of the same name. -/
def DistinctNames (document : Json) : Prop :=
  forall fields, document.Contains (.object fields) -> (fields.map Prod.fst).Nodup

theorem distinctNames_string (value : Text) : DistinctNames (.string value) := by
  intro fields hcontains
  cases hcontains

theorem distinctNames_object_iff {fields : List (Text × Json)} :
    DistinctNames (.object fields) <->
      (fields.map Prod.fst).Nodup /\ ∀ field ∈ fields, field.2.DistinctNames := by
  constructor
  · intro h
    exact ⟨h fields (.self _), fun field hfield inner hinner => h inner (.field hfield hinner)⟩
  · rintro ⟨hnames, hfields⟩ inner hinner
    cases hinner with
    | self => exact hnames
    | field hfield hinner => exact hfields _ hfield inner hinner

end Json

/-! ## Trees that are filled by insertion -/

mutual

/-- The blocks of a call, at every depth, start empty and are filled by insertion. -/
inductive Call.IsFilled : Call -> Prop where
  | bare (key : Text) : Call.IsFilled (.bare key)
  | block (key : Text) {params : Params} :
      Params.IsFilled params -> Call.IsFilled (.block key params)

inductive Params.IsFilled : Params -> Prop where
  | nil : Params.IsFilled .nil
  | insert {params : Params} (name : Text) {value : Value} :
      Params.IsFilled params -> Value.IsFilled value ->
        Params.IsFilled (params.insert name value)

inductive Value.IsFilled : Value -> Prop where
  | literal (raw : Text) : Value.IsFilled (.literal raw)
  | nested {call : Call} : Call.IsFilled call -> Value.IsFilled (.nested call)

end

inductive Node.IsFilled : Node -> Prop where
  | literal (text : Text) : Node.IsFilled (.literal text)
  | translate {call : Call} : call.IsFilled -> Node.IsFilled (.translate call)

theorem Value.isFilled_nested_iff {call : Call} :
    (Value.nested call).IsFilled <-> call.IsFilled :=
  ⟨fun | .nested hcall => hcall, .nested⟩

theorem Call.isFilled_block_iff {key : Text} {params : Params} :
    (Call.block key params).IsFilled <-> params.IsFilled :=
  ⟨fun | .block _ hparams => hparams, .block key⟩

theorem Node.isFilled_translate_iff {call : Call} :
    (Node.translate call).IsFilled <-> call.IsFilled :=
  ⟨fun | .translate hcall => hcall, .translate⟩

namespace Params

theorem IsFilled.nodup : forall {params : Params}, params.IsFilled -> params.names.Nodup
  | _, .nil => List.nodup_nil
  | _, .insert name hparams _ => nodup_insert hparams.nodup name _

theorem IsFilled.value : forall {params : Params}, params.IsFilled ->
    ∀ entry ∈ params.toList, entry.2.IsFilled
  | _, .nil => by
      intro entry hentry
      cases hentry
  | _, .insert name hparams hvalue => by
      intro entry hentry
      rcases mem_insert hentry with hold | rfl
      · exact hparams.value entry hold
      · exact hvalue

theorem IsFilled.insertAll {params : Params} (h : params.IsFilled)
    {entries : List (Text × Value)} (hentries : ∀ entry ∈ entries, entry.2.IsFilled) :
    (params.insertAll entries).IsFilled := by
  induction entries generalizing params with
  | nil => exact h
  | cons entry later ih =>
      obtain ⟨hvalue, hlater⟩ := List.forall_mem_cons.1 hentries
      rw [insertAll_cons]
      exact ih (h.insert entry.1 hvalue) hlater

/-- Insertion gives exactly the blocks whose names differ. -/
theorem isFilled_iff {params : Params} :
    params.IsFilled <->
      params.names.Nodup /\ ∀ entry ∈ params.toList, entry.2.IsFilled := by
  constructor
  · intro h
    exact ⟨h.nodup, h.value⟩
  · rintro ⟨hnames, hvalues⟩
    rw [← ofList_toList hnames, ← insertAll_nil_params]
    exact IsFilled.nil.insertAll hvalues

end Params

/-! ## The document of a filled tree -/

theorem Params.toFields_eq (params : Params) :
    params.toFields = params.toList.map fun entry => (entry.1, entry.2.toJson) := by
  fun_induction Params.toList params with
  | case1 => rw [toFields, List.map_nil]
  | case2 name value rest ih => rw [toFields, ih, List.map_cons]

theorem Params.distinctNames_toJson_iff {params : Params} :
    params.toJson.DistinctNames <->
      params.names.Nodup /\ ∀ entry ∈ params.toList, entry.2.toJson.DistinctNames := by
  rw [toJson, Json.distinctNames_object_iff, toFields_eq, List.map_map, List.forall_mem_map]
  rfl

/-- The two fields of a call have different names, so its parameters decide. -/
theorem Call.distinctNames_block_iff {key : Text} {params : Params} :
    (Call.block key params).toJson.DistinctNames <-> params.toJson.DistinctNames := by
  have hnames : ["key".toList, "params".toList].Nodup := by decide
  rw [toJson, Json.distinctNames_object_iff, List.forall_mem_cons, List.forall_mem_singleton]
  exact ⟨fun h => h.2.2, fun h => ⟨hnames, Json.distinctNames_string key, h⟩⟩

theorem Call.distinctNames_bare (key : Text) : (Call.bare key).toJson.DistinctNames := by
  rw [toJson, Json.distinctNames_object_iff, List.forall_mem_singleton]
  exact ⟨List.nodup_singleton _, Json.distinctNames_string key⟩

mutual

theorem Call.distinctNames_iff_isFilled :
    (call : Call) -> (call.toJson.DistinctNames <-> call.IsFilled)
  | .bare key => iff_of_true (Call.distinctNames_bare key) (.bare key)
  | .block key params => by
      rw [Call.distinctNames_block_iff, Call.isFilled_block_iff,
        Params.distinctNames_toJson_iff, Params.isFilled_iff]
      exact and_congr_right' (Params.distinctNames_iff_isFilled params)

theorem Params.distinctNames_iff_isFilled :
    (params : Params) -> ((∀ entry ∈ params.toList, entry.2.toJson.DistinctNames) <->
      ∀ entry ∈ params.toList, entry.2.IsFilled)
  | .nil => by simp [Params.toList]
  | .cons name value rest => by
      rw [Params.toList, List.forall_mem_cons, List.forall_mem_cons]
      exact and_congr (Value.distinctNames_iff_isFilled value)
        (Params.distinctNames_iff_isFilled rest)

theorem Value.distinctNames_iff_isFilled :
    (value : Value) -> (value.toJson.DistinctNames <-> value.IsFilled)
  | .literal raw => by
      rw [Value.toJson]
      exact iff_of_true (Json.distinctNames_string raw) (.literal raw)
  | .nested call => by
      rw [Value.toJson, Value.isFilled_nested_iff]
      exact Call.distinctNames_iff_isFilled call

end

/-- No object repeats a name exactly if every block is filled by insertion. -/
theorem Node.distinctNames_iff_isFilled (node : Node) :
    node.toJson.DistinctNames <-> node.IsFilled := by
  cases node with
  | literal text =>
      exact iff_of_true (Json.distinctNames_string text) (.literal text)
  | translate call =>
      rw [Node.toJson, Call.distinctNames_iff_isFilled, Node.isFilled_translate_iff]

/-! ### Parsed trees -/

mutual

theorem Call.WellFormed.isFilled : forall {call : Call}, call.WellFormed -> call.IsFilled
  | .bare key, _ => .bare key
  | .block key _, ⟨_, hnames, hparams⟩ =>
      .block key (Params.isFilled_iff.2 ⟨hnames, hparams.value_isFilled⟩)

theorem Params.WellFormed.value_isFilled : forall {params : Params}, params.WellFormed ->
    ∀ entry ∈ params.toList, entry.2.IsFilled
  | .nil, _ => by
      intro entry hentry
      cases hentry
  | .cons _ _ _, ⟨_, hvalue, hrest⟩ =>
      List.forall_mem_cons.2 ⟨hvalue.isFilled, hrest.value_isFilled⟩

theorem Value.WellFormed.isFilled : forall {value : Value}, value.WellFormed -> value.IsFilled
  | .literal raw, _ => .literal raw
  | .nested _, hcall => .nested (Call.WellFormed.isFilled hcall)

end

/-- Whatever a parsed text repeats, the document of its tree repeats no name. -/
theorem distinctNames_of_parse {input : Text} {node : Node}
    (h : (parse input).result = .ok node) : node.toJson.DistinctNames := by
  rw [Node.distinctNames_iff_isFilled]
  cases node with
  | literal text => exact .literal text
  | translate call => exact .translate (wellFormed_of_parse h).1.isFilled

/-! ## The decoder -/

mutual

theorem Value.toJson_of_ofJson? (document : Json) {value : Value}
    (h : Value.ofJson? document = some value) : value.toJson = document := by
  fun_cases Value.ofJson? document with
  | case1 raw =>
      obtain rfl := Option.some.inj h
      rw [Value.toJson]
  | case2 key =>
      obtain rfl := Option.some.inj h
      rw [Value.toJson, Call.toJson]
  | case3 key fields =>
      obtain ⟨params, hparams, rfl⟩ := Option.map_eq_some_iff.1 h
      rw [Value.toJson, Call.toJson, Params.toFields_of_ofFields? fields hparams]
  | case4 hstring hbare hblock =>
      have hnone : Value.ofJson? document = none := by rw [Value.ofJson?] <;> assumption
      cases hnone.symm.trans h

theorem Params.toFields_of_ofFields? (fields : List (Text × Json)) {params : Params}
    (h : Params.ofFields? fields = some params) : params.toFields = fields := by
  fun_cases Params.ofFields? fields with
  | case1 =>
      obtain rfl := Option.some.inj h
      rw [Params.toFields]
  | case2 name document rest value more hmore hvalue =>
      simp only [Params.ofFields?, hvalue, hmore, Option.some.injEq] at h
      rw [← h, Params.toFields, Value.toJson_of_ofJson? document hvalue,
        Params.toFields_of_ofFields? rest hmore]
  | case3 name document rest hnone =>
      rw [Params.ofFields?] at h
      split at h
      · rename_i hvalue hmore
        exact (hnone _ _ hvalue hmore).elim
      · cases h

end

/-- A document is read as a node only if it is the document of the node. -/
theorem Node.ofJson?_eq_some_iff {document : Json} {node : Node} :
    Node.ofJson? document = some node <-> document = node.toJson := by
  constructor
  · intro h
    obtain ⟨value, hvalue, rfl⟩ := Option.map_eq_some_iff.1 h
    rw [← Value.toJson_of_ofJson? document hvalue]
    cases value <;> rfl
  · rintro rfl
    exact Node.ofJson?_toJson node

/-- The node that a text is the document of. -/
def Node.ofText? (text : Text) : Option Node :=
  (Json.ofText? text).bind Node.ofJson?

theorem Node.ofText?_eq_some_iff {text : Text} {node : Node} :
    Node.ofText? text = some node <-> Json.ofText? text = some node.toJson := by
  simp only [Node.ofText?, Option.bind_eq_some_iff, Node.ofJson?_eq_some_iff, exists_eq_right]

/--
The compact text of a tree is decoded as the tree, whatever its keys, names and
literals are.  The decoder takes a text for the tree only where the text is read
as the document of the tree.  No object of this document repeats a name, if and
only if the parameters of every block are put in by insertion.
-/
theorem compact_text_determines_tree (node : Node) :
    Node.ofText? node.toJson.compact = some node /\
      (forall text, Node.ofText? text = some node <->
        Json.ofText? text = some node.toJson) /\
      (node.toJson.DistinctNames <-> node.IsFilled) := by
  have hread : Json.ofText? node.toJson.compact = some node.toJson :=
    Json.ofText?_write Json.Layout.compact_isBlank 0 node.toJson
  exact ⟨Node.ofText?_eq_some_iff.2 hread, fun _ => Node.ofText?_eq_some_iff,
    node.distinctNames_iff_isFilled⟩

/-- An escaped line feed is the line feed, and a block without fields is no missing block. -/
example :
    Node.ofText? ['\x22', '\\', 'n', '\x22'] = some (.literal ['\n']) /\
      Node.ofText? (Node.translate (.block ['\x22'] .nil)).toJson.compact ≠
        some (.translate (.bare ['\x22'])) := by
  decide

end TranslationKeys
