import Mathlib.Data.List.Forall2
import TranslationKeys.Proofs.Documents
import TranslationKeys.Proofs.Stops

/-!
# Reports as documents

The document of a report says everything about the inputs, their results and
their diagnostics, and nothing else.  Every part of it is distinguishable: a tree
is read back from its document, text that was found from no text, and a result
from an error.  Since documents can be told apart by their texts, two such
reports with the same text are about the same inputs, and found the same.
-/

namespace TranslationKeys

/-! ## Trees -/

mutual

/-- The value of a document: a string is a literal, and an object is a call. -/
def Value.ofJson? : Json -> Option Value
  | .string raw => some (.literal raw)
  | .object [(['k', 'e', 'y'], .string key)] => some (.nested (.bare key))
  | .object [(['k', 'e', 'y'], .string key),
      (['p', 'a', 'r', 'a', 'm', 's'], .object fields)] =>
      (Params.ofFields? fields).map fun params => .nested (.block key params)
  | _ => none

def Params.ofFields? : List (Text × Json) -> Option Params
  | [] => some .nil
  | (name, document) :: rest =>
      match Value.ofJson? document, Params.ofFields? rest with
      | some value, some params => some (.cons name value params)
      | _, _ => none

end

/-- The node of a document: a string is plain text, and an object is a call. -/
def Node.ofJson? (document : Json) : Option Node :=
  (Value.ofJson? document).map fun
    | .literal text => .literal text
    | .nested call => .translate call

mutual

theorem Value.ofJson?_call : (call : Call) -> Value.ofJson? call.toJson = some (.nested call)
  | .bare key => by rw [Call.toJson, Value.ofJson?]
  | .block key params => by
      rw [Call.toJson, Value.ofJson?, Params.ofFields?_toFields params, Option.map_some]

theorem Params.ofFields?_toFields :
    (params : Params) -> Params.ofFields? params.toFields = some params
  | .nil => by rw [Params.toFields, Params.ofFields?]
  | .cons name value rest => by
      have hvalue := Value.ofJson?_toJson value
      have hrest := Params.ofFields?_toFields rest
      simp only [Params.toFields, Params.ofFields?, hvalue, hrest]

theorem Value.ofJson?_toJson : (value : Value) -> Value.ofJson? value.toJson = some value
  | .literal raw => by rw [Value.toJson, Value.ofJson?]
  | .nested call => by rw [Value.toJson, Value.ofJson?_call call]

end

theorem Node.ofJson?_toJson (node : Node) : Node.ofJson? node.toJson = some node := by
  cases node with
  | literal text => rw [Node.toJson, Node.ofJson?, Value.ofJson?, Option.map_some]
  | translate call => rw [Node.toJson, Node.ofJson?, Value.ofJson?_call, Option.map_some]

theorem Node.toJson_injective : Function.Injective Node.toJson := by
  intro first second hsame
  have hread := Node.ofJson?_toJson first
  rw [hsame, Node.ofJson?_toJson second] at hread
  exact (Option.some.inj hread).symm

/-! ## Diagnostics and errors -/

theorem Diagnostic.Kind.fieldName_injective : Function.Injective Diagnostic.Kind.fieldName := by
  intro first second hsame
  cases first <;> cases second <;> first | rfl | exact absurd hsame (by decide +kernel)

theorem Diagnostic.Kind.name_injective : Function.Injective Diagnostic.Kind.name := by
  intro first second hsame
  cases first <;> cases second <;> first | rfl | exact absurd hsame (by decide +kernel)

theorem Diagnostic.toJson_injective : Function.Injective Diagnostic.toJson := by
  rintro ⟨kind, offset, message, remainder⟩ ⟨kind', offset', message', remainder'⟩ hsame
  simp only [Diagnostic.toJson, Json.object.injEq, List.cons.injEq, Prod.mk.injEq, true_and,
    Json.string.injEq, Json.number.injEq, and_true] at hsame
  obtain ⟨hkind, rfl, rfl, hremainder⟩ := hsame
  obtain rfl := Diagnostic.Kind.fieldName_injective hkind
  -- Text that was found is a string, and no text is the null document.
  have hfound : remainder = remainder' := by
    cases remainder with
    | none =>
        cases remainder' with
        | none => rfl
        | some found => cases hremainder
    | some found =>
        cases remainder' with
        | none => cases hremainder
        | some found' => rw [Json.string.inj hremainder]
  rw [hfound]

theorem natural_injective : Function.Injective Text.natural :=
  Function.LeftInverse.injective Json.ofDigitChars_natural

/-- The name of a kind ends at the first space of an error. -/
theorem ParseError.takeWhile_render (error : ParseError) :
    error.render.takeWhile (· != ' ') = error.kind.name := by
  cases error with
  | mk kind offset => cases kind <;> rfl

theorem ParseError.render_injective : Function.Injective ParseError.render := by
  rintro ⟨kind, offset⟩ ⟨kind', offset'⟩ hsame
  have hname := ParseError.takeWhile_render ⟨kind, offset⟩
  rw [hsame, ParseError.takeWhile_render] at hname
  obtain rfl : kind' = kind := Diagnostic.Kind.name_injective hname
  obtain rfl : offset = offset' := natural_injective (List.append_cancel_left hsame)
  rfl

/-! ## Outcomes -/

/-- The field that shows a result: a tree under one name, an error under another. -/
def resultField : Except ParseError Node -> Text × Json
  | .ok node => ("result".toList, node.toJson)
  | .error error => ("error".toList, .string error.render)

theorem resultField_injective : Function.Injective resultField := by
  intro first second hsame
  have hname : "result".toList ≠ "error".toList := by decide
  cases first with
  | ok node =>
      cases second with
      | ok other => rw [Node.toJson_injective (Prod.ext_iff.1 hsame).2]
      | error other => exact absurd (Prod.ext_iff.1 hsame).1 hname
  | error error =>
      cases second with
      | ok other => exact absurd (Prod.ext_iff.1 hsame).1.symm hname
      | error other =>
          have htext : error.render = other.render := Json.string.inj (Prod.ext_iff.1 hsame).2
          rw [ParseError.render_injective htext]

theorem Outcome.toJson_eq (outcome : Outcome) :
    outcome.toJson = .object [
      ("input".toList, .string outcome.input),
      resultField outcome.parsed.result,
      ("diagnostics".toList, .array (outcome.parsed.diagnostics.map Diagnostic.toJson))] :=
  rfl

/-- Two outcomes agree when they have the same input, result and diagnostics. -/
structure Outcome.Agrees (first second : Outcome) : Prop where
  input : first.input = second.input
  result : first.parsed.result = second.parsed.result
  diagnostics : first.parsed.diagnostics = second.parsed.diagnostics

theorem Outcome.toJson_eq_iff {first second : Outcome} :
    first.toJson = second.toJson <-> first.Agrees second := by
  constructor
  · intro hsame
    simp only [Outcome.toJson_eq, Json.object.injEq, List.cons.injEq, Prod.mk.injEq, true_and,
      Json.string.injEq, Json.array.injEq, and_true] at hsame
    obtain ⟨hinput, hresult, hdiagnostics⟩ := hsame
    exact ⟨hinput, resultField_injective hresult,
      Diagnostic.toJson_injective.list_map hdiagnostics⟩
  · rintro ⟨hinput, hresult, hdiagnostics⟩
    rw [Outcome.toJson_eq, Outcome.toJson_eq, hinput, hresult, hdiagnostics]

/-! ## Reports -/

theorem map_toJson_eq_iff (first second : List Outcome) :
    first.map Outcome.toJson = second.map Outcome.toJson <->
      List.Forall₂ Outcome.Agrees first second := by
  rw [← List.forall₂_eq_eq_eq, List.forall₂_map_left_iff, List.forall₂_map_right_iff]
  simp only [Outcome.toJson_eq_iff]

/-- The text of the document of some outcomes. -/
def documentText (outcomes : List Outcome) : Text :=
  (Json.array (outcomes.map Outcome.toJson)).pretty ++ ['\n']

/-- The text of a document decides what the outcomes in it have been. -/
theorem documentText_eq_iff {first second : List Outcome} :
    documentText first = documentText second <-> List.Forall₂ Outcome.Agrees first second := by
  rw [documentText, documentText, List.append_left_inj, Json.pretty_injective.eq_iff,
    Json.array.injEq, map_toJson_eq_iff]

@[simp]
theorem render_plain (colour : Bool) (text : Text) :
    Text.Styled.render colour [.plain text] = text := by
  simp [Text.Styled.render, Text.Piece.render, Text.Piece.plain]

/-- A report in the document format that nothing stops has the document on standard output. -/
theorem stdout_of_document {measure : Text -> Nat} {summary : Summary}
    (hformat : summary.format = .json) (hstop : (summary.reportBy measure).stop = none)
    (colour : Bool) :
    ((summary.reportBy measure).render colour).stdout = documentText summary.outcomes := by
  have hrows (outcomes : List Outcome) :
      outcomes.flatMap (resultRow · ReportFormat.json) = [] :=
    List.flatMap_eq_nil_iff.2 fun _ _ => rfl
  rw [Summary.stop_reportBy] at hstop
  rw [Summary.reportBy_eq, Report.render, hformat, hrows, if_pos hstop]
  exact render_plain colour _

/--
Two complete reports in the document format have the same standard output if and
only if they are about equally many outcomes and these agree one by one: in the
input, in the tree or the error, and in every diagnostic.  It makes no difference
how else the outcomes are reported, what their traces are, and how columns are
counted.
-/
theorem documents_agree_iff_outcomes_agree {first second : Summary}
    (hfirst : first.format = .json) (hsecond : second.format = .json)
    {firstMeasure secondMeasure : Text -> Nat}
    (hfirstStop : (first.reportBy firstMeasure).stop = none)
    (hsecondStop : (second.reportBy secondMeasure).stop = none)
    (firstColour secondColour : Bool) :
    ((first.reportBy firstMeasure).render firstColour).stdout =
        ((second.reportBy secondMeasure).render secondColour).stdout <->
      List.Forall₂ Outcome.Agrees first.outcomes second.outcomes := by
  rw [stdout_of_document hfirst hfirstStop, stdout_of_document hsecond hsecondStop]
  exact documentText_eq_iff

/-- A summary of one input with a tree, whose diagnostic found no text. -/
def annotated (verbose : Bool) (node : Node) (trace : List RuleEntry) : Summary :=
  { outcomes := [⟨['a'], ⟨.ok node, [⟨.trailingInput, 1, ['\x22'], none⟩], trace⟩⟩]
    format := .json
    denyTrailing := verbose
    verbose := verbose }

theorem annotated_stop (verbose : Bool) (node : Node) (trace : List RuleEntry) :
    ((annotated verbose node trace).reportBy Text.displayWidth).stop = none :=
  rfl

/-- A trace does not show, but a literal that looks like a call is told apart from it. -/
theorem literal_and_call_told_apart :
    let silent := annotated false (.literal marker) []
    let traced := annotated true (.literal marker) [⟨0, .expression, ['a']⟩]
    let call := annotated false (.translate (.bare [])) []
    let report (summary : Summary) := summary.reportBy Text.displayWidth
    (report silent).stop = none /\ (report traced).stop = none /\ (report call).stop = none /\
      ((report silent).render false).stdout = ((report traced).render true).stdout /\
      ((report silent).render false).stdout ≠ ((report call).render false).stdout := by
  have hsilent := annotated_stop false (.literal marker) []
  have htraced := annotated_stop true (.literal marker) [⟨0, .expression, ['a']⟩]
  have hcall := annotated_stop false (.translate (.bare [])) []
  refine ⟨hsilent, htraced, hcall, ?_, ?_⟩
  · rw [documents_agree_iff_outcomes_agree rfl rfl hsilent htraced]
    exact .cons ⟨rfl, rfl, rfl⟩ .nil
  · rw [Ne, documents_agree_iff_outcomes_agree rfl rfl hsilent hcall]
    intro hagree
    cases hagree with
    | cons houtcome _ => cases houtcome.result

end TranslationKeys
