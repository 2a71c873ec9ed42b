import TranslationKeys.Proofs.Streams

/-!
# Colour is decoration

Colour puts style sequences between the pieces of a report and changes nothing else.
Without the sequences, a coloured report is the report without colour, as long as no
text in it has an escape character of its own.  This also holds of a report that was
stopped, however columns are counted.
-/

namespace TranslationKeys

open Text (Piece Styled)

namespace Text

/-! ## Style sequences -/

def escape : Char :=
  '\x1b'

/-- The characters between the bracket of a style sequence and its end. -/
def isCode (c : Char) : Bool :=
  c.isDigit || c == ';'

/-- What follows a style sequence whose escape character is already taken. -/
def styleEnd? : Text -> Option Text
  | '[' :: rest =>
      match rest.dropWhile isCode with
      | 'm' :: after => some after
      | _ => none
  | _ => none

theorem styleEnd?_eq_some {text after : Text} (h : styleEnd? text = some after) :
    exists codes, (∀ c ∈ codes, isCode c = true) /\ text = '[' :: (codes ++ 'm' :: after) := by
  unfold styleEnd? at h
  split at h
  · rename_i rest
    split at h
    · rename_i found hdrop
      cases h
      refine ⟨rest.takeWhile isCode, fun c hc => List.all_eq_true.1 List.all_takeWhile c hc, ?_⟩
      rw [← hdrop, List.takeWhile_append_dropWhile]
    · cases h
  · cases h

theorem styleEnd?_codes {codes : Text} (hcodes : ∀ c ∈ codes, isCode c = true) (after : Text) :
    styleEnd? ('[' :: (codes ++ 'm' :: after)) = some after := by
  have hdrop : (codes ++ 'm' :: after).dropWhile isCode = 'm' :: after := by
    rw [List.dropWhile_append_of_pos hcodes]
    rfl
  simp only [styleEnd?, hdrop]

theorem length_lt_of_styleEnd? {text after : Text} (h : styleEnd? text = some after) :
    after.length < text.length := by
  obtain ⟨codes, -, rfl⟩ := styleEnd?_eq_some h
  simp only [List.length_cons, List.length_append]
  omega

/-- A text without its style sequences.  An escape character that begins none of them stays. -/
def withoutStyles : Text -> Text
  | [] => []
  | c :: rest =>
      if c = escape then
        match _h : styleEnd? rest with
        | some after => withoutStyles after
        | none => c :: withoutStyles rest
      else
        c :: withoutStyles rest
termination_by text => text.length
decreasing_by
  · have hlength := length_lt_of_styleEnd? _h
    exact Nat.lt_succ_of_lt hlength
  · exact Nat.lt_succ_self _
  · exact Nat.lt_succ_self _

def IsStyleSequence (text : Text) : Prop :=
  exists codes, (∀ c ∈ codes, isCode c = true) /\ text = escape :: '[' :: (codes ++ ['m'])

theorem withoutStyles_append {plain : Text} (h : escape ∉ plain) (text : Text) :
    withoutStyles (plain ++ text) = plain ++ withoutStyles text := by
  induction plain with
  | nil => rfl
  | cons c plain ih =>
      rw [List.mem_cons, not_or] at h
      rw [List.cons_append, withoutStyles, if_neg (Ne.symm h.1), ih h.2, List.cons_append]

theorem withoutStyles_of_not_mem {text : Text} (h : escape ∉ text) : withoutStyles text = text := by
  have happend := withoutStyles_append h []
  rwa [List.append_nil, withoutStyles, List.append_nil] at happend

theorem IsStyleSequence.withoutStyles_append {sequence : Text} (h : IsStyleSequence sequence)
    (text : Text) : withoutStyles (sequence ++ text) = withoutStyles text := by
  obtain ⟨codes, hcodes, rfl⟩ := h
  have hend := styleEnd?_codes hcodes text
  have htext : escape :: '[' :: (codes ++ ['m']) ++ text =
      escape :: '[' :: (codes ++ 'm' :: text) := by
    simp only [List.cons_append, List.append_assoc, List.nil_append]
  rw [htext, withoutStyles, if_pos rfl]
  split
  · rename_i after hafter
    rw [Option.some.inj (hafter.symm.trans hend)]
  · rename_i hnone
    cases hnone.symm.trans hend

theorem isCode_of_mem_codes (style : Style) :
    ∀ c ∈ [';'].intercalate style.codes, isCode c = true := by
  obtain ⟨weight, colour⟩ := style
  rw [← List.all_eq_true]
  cases weight <;> rcases colour with _ | colour <;> try cases colour
  all_goals decide

theorem isStyleSequence_opening (style : Style) : IsStyleSequence style.opening :=
  ⟨_, isCode_of_mem_codes style, rfl⟩

theorem isStyleSequence_reset : IsStyleSequence reset :=
  ⟨['0'], List.forall_mem_singleton.2 rfl, rfl⟩

theorem reopen_of_not_mem (opening : Text) {text : Text} (h : escape ∉ text) :
    reopen opening text = text := by
  induction text with
  | nil => rfl
  | cons c rest ih =>
      obtain ⟨hfirst, hrest⟩ := not_or.1 (List.mem_cons.not.1 h)
      rw [reopen, ih hrest]
      intro more hescape
      exact absurd hescape.symm hfirst

/-- Without its style sequences a coloured piece is its text. -/
theorem withoutStyles_render_append {piece : Piece} (h : escape ∉ piece.text) (text : Text) :
    withoutStyles (piece.render true ++ text) = piece.text ++ withoutStyles text := by
  unfold Piece.render
  split
  · rw [reopen_of_not_mem _ h, List.append_assoc, List.append_assoc,
      (isStyleSequence_opening _).withoutStyles_append, withoutStyles_append h,
      isStyleSequence_reset.withoutStyles_append]
  · exact withoutStyles_append h text

/-- No piece has an escape character of its own. -/
def EscapeFree (styled : Styled) : Prop :=
  ∀ piece ∈ styled, escape ∉ piece.text

theorem EscapeFree.withoutStyles_render {styled : Styled} (h : EscapeFree styled) :
    withoutStyles (Styled.render true styled) = Styled.render false styled := by
  induction styled with
  | nil => exact withoutStyles_of_not_mem List.not_mem_nil
  | cons piece styled ih =>
      obtain ⟨hpiece, hrest⟩ := List.forall_mem_cons.1 h
      have hcolour (colour : Bool) : Styled.render colour (piece :: styled) =
          piece.render colour ++ Styled.render colour styled := rfl
      rw [hcolour, withoutStyles_render_append hpiece, ih hrest]
      rfl

theorem escapeFree_cons {piece : Piece} {styled : Styled} :
    EscapeFree (piece :: styled) <-> escape ∉ piece.text /\ EscapeFree styled :=
  List.forall_mem_cons

theorem escapeFree_nil : EscapeFree [] :=
  nofun

theorem escapeFree_append {front back : Styled} :
    EscapeFree (front ++ back) <-> EscapeFree front /\ EscapeFree back :=
  List.forall_mem_append

theorem escape_not_mem_natural (value : Nat) : escape ∉ natural value := by
  intro hmem
  cases Json.isDigit_of_mem_natural hmem

theorem escape_not_mem_spaces (count : Nat) : escape ∉ spaces count := by
  intro hmem
  exact absurd (List.eq_of_mem_replicate hmem) (by decide)

end Text

open Text (EscapeFree escape escape_not_mem_natural escape_not_mem_spaces escapeFree_append
  escapeFree_cons escapeFree_nil)

/-! ## JSON texts -/

namespace Json

theorem hexDigit_ne_escape (value : Nat) : escape ≠ hexDigit value := by
  have hdigits : ∀ digit < 16, escape ≠ Nat.digitChar digit := by decide
  exact hdigits _ (Nat.mod_lt value (by decide))

/-- The escape character is a control character, and those are written by their code points. -/
theorem escape_not_mem_stringChar (c : Char) : escape ∉ stringChar c := by
  unfold stringChar
  split
  any_goals decide
  split
  · simp only [List.mem_cons, List.not_mem_nil, or_false, not_or]
    exact ⟨by decide, by decide, by decide, by decide, hexDigit_ne_escape _, hexDigit_ne_escape _⟩
  · rename_i hprinted
    intro hmem
    rw [← List.mem_singleton.1 hmem] at hprinted
    exact hprinted (by decide)

theorem escape_not_mem_stringForm (value : Text) : escape ∉ stringForm value := by
  simp only [stringForm, List.cons_append, List.mem_cons, List.mem_append, List.mem_flatMap,
    List.not_mem_nil, or_false, not_or, not_exists, not_and]
  exact ⟨by decide, fun c _ => escape_not_mem_stringChar c, by decide⟩

/-- A layout that puts no escape character between the marks of a document. -/
structure Layout.LacksEscape (layout : Layout) : Prop where
  lineBreak : forall depth, escape ∉ layout.lineBreak depth
  afterColon : escape ∉ layout.afterColon

section Write

variable {layout : Layout} (hlayout : layout.LacksEscape)

include hlayout

mutual

/-- No document is written with an escape character, whatever texts it holds. -/
theorem escape_not_mem_write :
    (depth : Nat) -> (document : Json) -> escape ∉ write layout depth document
  | depth, .null => by
      rw [write]
      decide
  | depth, .boolean true => by
      rw [write]
      decide
  | depth, .boolean false => by
      rw [write]
      decide
  | depth, .number value => by
      rw [write]
      exact escape_not_mem_natural value
  | depth, .string value => by
      rw [write]
      exact escape_not_mem_stringForm value
  | depth, .array [] => by
      rw [write]
      decide
  | depth, .array (item :: rest) => by
      have hitem := escape_not_mem_write (depth + 1) item
      have hrest := escape_not_mem_writeItems (depth + 1) rest
      simp only [write, List.cons_append, List.mem_cons, List.mem_append, List.not_mem_nil,
        or_false, not_or]
      exact ⟨by decide, hlayout.lineBreak _, hitem, hrest, hlayout.lineBreak _, by decide⟩
  | depth, .object [] => by
      rw [write]
      decide
  | depth, .object ((name, value) :: rest) => by
      have hvalue := escape_not_mem_write (depth + 1) value
      have hrest := escape_not_mem_writeFields (depth + 1) rest
      simp only [write, List.cons_append, List.mem_cons, List.mem_append, List.not_mem_nil,
        or_false, not_or]
      exact ⟨by decide, hlayout.lineBreak _, escape_not_mem_stringForm name, by decide,
        hlayout.afterColon, hvalue, hrest, hlayout.lineBreak _, by decide⟩

theorem escape_not_mem_writeItems :
    (depth : Nat) -> (items : List Json) -> escape ∉ writeItems layout depth items
  | depth, [] => by
      rw [writeItems]
      decide
  | depth, item :: rest => by
      have hitem := escape_not_mem_write depth item
      have hrest := escape_not_mem_writeItems depth rest
      simp only [writeItems, List.cons_append, List.mem_cons, List.mem_append, not_or]
      exact ⟨by decide, hlayout.lineBreak _, hitem, hrest⟩

theorem escape_not_mem_writeFields :
    (depth : Nat) -> (fields : List (Text × Json)) -> escape ∉ writeFields layout depth fields
  | depth, [] => by
      rw [writeFields]
      decide
  | depth, (name, value) :: rest => by
      have hvalue := escape_not_mem_write depth value
      have hrest := escape_not_mem_writeFields depth rest
      simp only [writeFields, List.cons_append, List.mem_cons, List.mem_append, not_or]
      exact ⟨by decide, hlayout.lineBreak _, escape_not_mem_stringForm name, by decide,
        hlayout.afterColon, hvalue, hrest⟩

end

end Write

theorem escape_not_mem_pretty (document : Json) : escape ∉ document.pretty := by
  refine escape_not_mem_write ⟨fun depth => ?_, by decide⟩ 0 document
  simp only [Layout.pretty, List.mem_cons, not_or]
  exact ⟨by decide, escape_not_mem_spaces _⟩

end Json

/-! ## The texts of a result -/

mutual

def Call.texts : Call -> List Text
  | .bare key => [key]
  | .block key params => key :: params.texts

def Params.texts : Params -> List Text
  | .nil => []
  | .cons name value rest => name :: (value.texts ++ rest.texts)

def Value.texts : Value -> List Text
  | .literal raw => [raw]
  | .nested call => call.texts

end

def Node.texts : Node -> List Text
  | .literal text => [text]
  | .translate call => call.texts

def Diagnostic.texts (diagnostic : Diagnostic) : List Text :=
  diagnostic.message :: diagnostic.remainder.toList

def resultTexts : Except ParseError Node -> List Text
  | .ok node => node.texts
  | .error _ => []

/-- The texts of an outcome, whether they were found in its input or made by hand. -/
def Outcome.texts (outcome : Outcome) : List Text :=
  outcome.input :: (resultTexts outcome.parsed.result ++
    (outcome.parsed.diagnostics.flatMap Diagnostic.texts ++
      outcome.parsed.trace.map RuleEntry.remainder))

def Completion.texts : Completion -> List Text
  | .parsed summary => summary.outcomes.flatMap Outcome.texts
  | .initialized _ => []

/-! ## Results -/

mutual

theorem Call.escape_not_mem_render :
    (call : Call) -> (∀ text ∈ call.texts, escape ∉ text) -> escape ∉ call.render
  | .bare key, h => by
      simp only [Call.render, List.mem_append, not_or]
      exact ⟨by decide, h key List.mem_cons_self⟩
  | .block key params, h => by
      obtain ⟨hkey, hparams⟩ := List.forall_mem_cons.1 h
      have hentries := params.escape_not_mem_render hparams [] List.not_mem_nil
      simp only [Call.render, List.mem_append, List.mem_cons, List.not_mem_nil, or_false, not_or]
      exact ⟨by decide, hkey, by decide, hentries, by decide⟩

theorem Params.escape_not_mem_render :
    (params : Params) -> (∀ text ∈ params.texts, escape ∉ text) -> (separator : Text) ->
      escape ∉ separator -> escape ∉ params.render separator
  | .nil, _, _, _ => by
      rw [Params.render]
      exact List.not_mem_nil
  | .cons name value rest, h, separator, hseparator => by
      obtain ⟨hname, hothers⟩ := List.forall_mem_cons.1 h
      obtain ⟨hvalue, hrest⟩ := List.forall_mem_append.1 hothers
      have hform := value.escape_not_mem_render hvalue
      have hentries := rest.escape_not_mem_render hrest [',', ' '] (by decide)
      simp only [Params.render, List.mem_append, List.mem_cons, not_or]
      exact ⟨hseparator, hname, by decide, by decide, hform, hentries⟩

theorem Value.escape_not_mem_render :
    (value : Value) -> (∀ text ∈ value.texts, escape ∉ text) -> escape ∉ value.render
  | .literal raw, h => h raw List.mem_cons_self
  | .nested call, h => call.escape_not_mem_render h

end

theorem Node.escape_not_mem_render {node : Node} (h : ∀ text ∈ node.texts, escape ∉ text) :
    escape ∉ node.render := by
  cases node with
  | literal text => exact h text List.mem_cons_self
  | translate call => exact call.escape_not_mem_render h

theorem escape_not_mem_resultLine {outcome : Outcome}
    (h : ∀ text ∈ outcome.texts, escape ∉ text) : escape ∉ resultLine outcome := by
  obtain ⟨hinput, hothers⟩ := List.forall_mem_cons.1 h
  have hresult := (List.forall_mem_append.1 hothers).1
  have hlabel : escape ∉ "\" ==> ".toList := by decide
  unfold resultLine
  cases hparsed : outcome.parsed.result with
  | ok node =>
      rw [hparsed] at hresult
      have htree : escape ∉ node.render := Node.escape_not_mem_render hresult
      simp only [List.cons_append, List.nil_append, List.mem_cons, List.mem_append,
        List.not_mem_nil, or_false, not_or]
      exact ⟨by decide, ⟨⟨hinput, hlabel⟩, htree⟩, by decide⟩
  | error error =>
      simp only [List.cons_append, List.nil_append, List.mem_cons, List.mem_append,
        List.not_mem_nil, or_false, not_or]
      exact ⟨by decide, ⟨⟨hinput, hlabel⟩, by decide⟩, by decide⟩

/-! ## Diagnostics and traces -/

theorem mem_of_mem_lastLine {text : Text} {c : Char} (h : c ∈ lastLine text) : c ∈ text := by
  rw [lastLine, List.mem_reverse] at h
  exact List.mem_reverse.1 ((List.takeWhile_prefix _).subset h)

/-- The line of a place is cut out of the input. -/
theorem mem_of_mem_source {measure : Text -> Nat} {input : Text} {offset : Nat} {place : Place}
    {c : Char} (h : Place.ofOffsetBy? measure input offset = some place)
    (hc : c ∈ place.source) : c ∈ input := by
  obtain ⟨⟨front, rest⟩, hcut, rfl⟩ := Option.map_eq_some_iff.1 h
  obtain ⟨rfl, -⟩ := Text.cut?_sound hcut
  rcases List.mem_append.1 hc with hstart | hfirst
  · exact List.mem_append_left _ (mem_of_mem_lastLine hstart)
  · exact List.mem_append_right _ ((List.takeWhile_prefix _).subset hfirst)

theorem escape_not_mem_lineEnd : escape ∉ lineEnd.text := by
  decide

theorem escape_not_mem_gutter (place : Place) : escape ∉ place.gutter := by
  rw [Place.gutter, List.mem_append, not_or]
  exact ⟨escape_not_mem_spaces _, by decide⟩

section Diagnostics

variable {diagnostic : Diagnostic} (htexts : ∀ text ∈ diagnostic.texts, escape ∉ text)

include htexts

theorem escapeFree_titleLine : EscapeFree (titleLine diagnostic) := by
  have hmessage : escape ∉ diagnostic.message := htexts _ List.mem_cons_self
  have hname : escape ∉ diagnostic.kind.name := by cases diagnostic.kind <;> decide
  have hseverity : escape ∉ (severity diagnostic.kind).text := by
    cases diagnostic.kind <;> decide
  simp only [titleLine, escapeFree_cons, Piece.plain, Piece.dimColoured, List.mem_append, not_or]
  exact ⟨hseverity, ⟨⟨by decide, hmessage⟩, by decide⟩, hname, escape_not_mem_lineEnd,
    escapeFree_nil⟩

theorem escapeFree_caretLines (verbose : Bool) (place : Place) :
    EscapeFree (caretLines diagnostic verbose place) := by
  have hremainder : escape ∉ diagnostic.shownRemainder := by
    unfold Diagnostic.shownRemainder
    cases hfound : diagnostic.remainder with
    | none => decide
    | some remainder => exact htexts _ (by simp [Diagnostic.texts, hfound])
  have hcaret : escape ∉ (caret diagnostic.kind).text := by cases diagnostic.kind <;> decide
  have hbar : escape ∉ gutterBar.text := by decide
  have hgutter := escape_not_mem_gutter place
  have hnote : EscapeFree (noteLine place.gutter diagnostic) := by
    simp only [noteLine, escapeFree_cons, Piece.plain, Piece.coloured, Piece.bold,
      List.mem_append, not_or]
    exact ⟨hgutter, by decide, by decide, by decide, ⟨⟨by decide, hremainder⟩, by decide⟩,
      escape_not_mem_lineEnd, escapeFree_nil⟩
  simp only [caretLines, escapeFree_append, escapeFree_cons, Piece.plain, List.mem_cons, not_or]
  refine ⟨⟨⟨hgutter, hbar, ⟨by decide, escape_not_mem_spaces _⟩, hcaret,
    escape_not_mem_lineEnd, escapeFree_nil⟩, ?_⟩, escape_not_mem_lineEnd, escapeFree_nil⟩
  split
  · exact hnote
  · exact escapeFree_nil

end Diagnostics

theorem escapeFree_placeLines (number : Nat) {place : Place} (hsource : escape ∉ place.source) :
    EscapeFree (placeLines number place) := by
  have hbar : escape ∉ gutterBar.text := by decide
  have hnumber (number : Nat) : escape ∉ Text.natural number := escape_not_mem_natural number
  simp only [placeLines, escapeFree_append, escapeFree_cons, Piece.plain, Piece.coloured,
    List.mem_append, List.mem_cons, not_or]
  refine ⟨⟨?_, ?_⟩, ?_⟩
  · exact ⟨by decide, by decide, ⟨⟨⟨⟨⟨by decide, hnumber _⟩, by decide⟩, hnumber _⟩, by decide⟩,
      hnumber _⟩, escape_not_mem_lineEnd, escapeFree_nil⟩
  · exact ⟨escape_not_mem_gutter place, hbar, escape_not_mem_lineEnd, escapeFree_nil⟩
  · exact ⟨hnumber _, by decide, hbar, ⟨by decide, hsource⟩, escape_not_mem_lineEnd,
      escapeFree_nil⟩

theorem escapeFree_flatMap {α : Type} {items : List α} {lines : α -> Styled}
    (h : ∀ item ∈ items, EscapeFree (lines item)) : EscapeFree (items.flatMap lines) := by
  intro piece hpiece
  obtain ⟨item, hitem, hpiece⟩ := List.mem_flatMap.1 hpiece
  exact h item hitem piece hpiece

theorem escape_not_mem_ruleEntry {entry : RuleEntry} (h : escape ∉ entry.remainder) :
    escape ∉ entry.render := by
  have hname : escape ∉ entry.rule.name := by cases entry.rule <;> decide
  simp only [RuleEntry.render, List.mem_append, not_or]
  exact ⟨⟨⟨⟨⟨escape_not_mem_spaces _, by decide⟩, hname⟩, by decide⟩, h⟩, by decide⟩

/-! ## Reports in turn -/

/-- Neither stream of a report has an escape character, as far as it is written. -/
structure Report.IsEscapeFree (report : Report) : Prop where
  out : EscapeFree report.out
  err : EscapeFree report.err

namespace Report.IsEscapeFree

theorem toOut {lines : Styled} (h : EscapeFree lines) : (Report.toOut lines).IsEscapeFree :=
  ⟨h, escapeFree_nil⟩

theorem toErr {lines : Styled} (h : EscapeFree lines) : (Report.toErr lines).IsEscapeFree :=
  ⟨escapeFree_nil, h⟩

theorem stopped (obstacle : Obstacle) : (Report.stopped obstacle).IsEscapeFree :=
  ⟨escapeFree_nil, escapeFree_nil⟩

theorem andThen {first second : Report} (hfirst : first.IsEscapeFree)
    (hsecond : second.IsEscapeFree) : (first.andThen second).IsEscapeFree := by
  unfold Report.andThen
  split
  · exact ⟨escapeFree_append.2 ⟨hfirst.out, hsecond.out⟩,
      escapeFree_append.2 ⟨hfirst.err, hsecond.err⟩⟩
  · exact hfirst

theorem inTurn {reports : List Report} (h : ∀ report ∈ reports, report.IsEscapeFree) :
    (Report.inTurn reports).IsEscapeFree :=
  Report.inTurn_of_forall Report.IsEscapeFree ⟨escapeFree_nil, escapeFree_nil⟩
    (fun _ _ => andThen) h

end Report.IsEscapeFree

section Outcomes

variable {outcome : Outcome} (h : ∀ text ∈ outcome.texts, escape ∉ text)

include h

theorem escapeFree_traceLines : EscapeFree (traceLines outcome) := by
  refine escapeFree_flatMap fun entry hentry => ?_
  have hremainder : entry.remainder ∈ outcome.texts := by
    simp only [Outcome.texts, List.mem_cons, List.mem_append, List.mem_map]
    exact Or.inr (Or.inr (Or.inr ⟨entry, hentry, rfl⟩))
  exact escapeFree_cons.2 ⟨escape_not_mem_ruleEntry (h _ hremainder),
    escapeFree_cons.2 ⟨by decide, escapeFree_nil⟩⟩

theorem escapeFree_resultRow (format : ReportFormat) :
    EscapeFree (resultRow outcome format) := by
  cases format with
  | text => exact escapeFree_cons.2 ⟨escape_not_mem_resultLine h, escapeFree_nil⟩
  | json => exact escapeFree_nil

theorem diagnosticReportBy_isEscapeFree (measure : Text -> Nat) (number : Nat) (verbose : Bool)
    {diagnostic : Diagnostic} (hdiagnostic : diagnostic ∈ outcome.parsed.diagnostics) :
    (diagnosticReportBy measure number outcome.input verbose diagnostic).IsEscapeFree := by
  have htexts : ∀ text ∈ diagnostic.texts, escape ∉ text := by
    intro text htext
    apply h
    simp only [Outcome.texts, List.mem_cons, List.mem_append, List.mem_flatMap]
    exact Or.inr (Or.inr (Or.inl ⟨diagnostic, hdiagnostic, htext⟩))
  unfold diagnosticReportBy
  refine .andThen (.toErr (escapeFree_titleLine htexts)) ?_
  split
  · exact .stopped _
  · rename_i place hplace
    have hsource : escape ∉ place.source := fun hmem =>
      h outcome.input List.mem_cons_self (mem_of_mem_source hplace hmem)
    refine .andThen (.toErr (escapeFree_placeLines number hsource)) ?_
    split
    · exact .toErr (escapeFree_caretLines htexts verbose place)
    · exact .stopped _

theorem outcomeReportBy_isEscapeFree (measure : Text -> Nat) (format : ReportFormat)
    (verbose : Bool) (number : Nat) :
    (outcomeReportBy measure format verbose number outcome).IsEscapeFree := by
  refine .inTurn ?_
  simp only [List.forall_mem_cons, List.not_mem_nil, false_imp_iff, implies_true, and_true]
  refine ⟨.toErr (escapeFree_traceLines h), .inTurn ?_, .toOut (escapeFree_resultRow h format)⟩
  intro report hreport
  obtain ⟨diagnostic, hdiagnostic, rfl⟩ := List.mem_map.1 hreport
  exact diagnosticReportBy_isEscapeFree h measure number verbose hdiagnostic

end Outcomes

/-! ## Summaries -/

theorem escape_not_mem_inputCount (count : Nat) : escape ∉ inputCount count := by
  unfold inputCount
  rw [List.mem_append, not_or]
  refine ⟨escape_not_mem_natural count, ?_⟩
  split <;> decide

theorem escapeFree_trailingLine (summary : Summary) : EscapeFree (trailingLine summary) := by
  have hcount := escape_not_mem_inputCount summary.leftovers
  unfold trailingLine
  split
  · exact escapeFree_nil
  · simp only [escapeFree_cons, Piece.plain, List.mem_append, not_or]
    refine ⟨?_, ⟨⟨by decide, hcount⟩, by decide⟩, by decide, escapeFree_nil⟩
    split <;> decide

theorem escapeFree_verdictLine (summary : Summary) : EscapeFree (verdictLine summary) := by
  have hnumber (number : Nat) : escape ∉ Text.natural number := escape_not_mem_natural number
  have hcount := escape_not_mem_inputCount summary.outcomes.length
  unfold verdictLine
  split
  · simp only [escapeFree_cons, Piece.plain, Piece.coloured, List.mem_append, not_or]
    exact ⟨by decide, by decide, ⟨by decide, hcount⟩, by decide, escapeFree_nil⟩
  · simp only [escapeFree_cons, Piece.plain, Piece.coloured, List.mem_append, not_or]
    exact ⟨by decide, by decide, ⟨⟨⟨⟨⟨hnumber _, by decide⟩, hcount⟩, by decide⟩, hnumber _⟩,
      by decide⟩, by decide, escapeFree_nil⟩

/-! ## Commands -/

/-- The outputs of a report without the style sequences in them. -/
def Output.withoutStyles (output : Output) : Output :=
  ⟨Text.withoutStyles output.stdout, Text.withoutStyles output.stderr⟩

theorem Report.IsEscapeFree.withoutStyles_render {report : Report} (h : report.IsEscapeFree) :
    (report.render true).withoutStyles = report.render false :=
  congr (congrArg Output.mk h.out.withoutStyles_render) h.err.withoutStyles_render

theorem escapeFree_resultDocument (outcomes : List Outcome) (format : ReportFormat) :
    EscapeFree (resultDocument outcomes format) := by
  cases format with
  | text => exact escapeFree_nil
  | json =>
      refine escapeFree_cons.2 ⟨?_, escapeFree_nil⟩
      simp only [Piece.plain, List.mem_append, not_or]
      exact ⟨Json.escape_not_mem_pretty _, by decide⟩

theorem Summary.reportBy_isEscapeFree (measure : Text -> Nat) {summary : Summary}
    (h : ∀ outcome ∈ summary.outcomes, ∀ text ∈ outcome.texts, escape ∉ text) :
    (summary.reportBy measure).IsEscapeFree := by
  refine .inTurn ?_
  simp only [List.forall_mem_cons, List.not_mem_nil, false_imp_iff, implies_true, and_true]
  refine ⟨.inTurn ?_, .toOut (escapeFree_resultDocument _ _), .toErr (escapeFree_append.2
    ⟨escapeFree_trailingLine summary, escapeFree_verdictLine summary⟩)⟩
  intro report hreport
  obtain ⟨⟨outcome, number⟩, hnumbered, rfl⟩ := List.mem_map.1 hreport
  exact outcomeReportBy_isEscapeFree (h outcome (List.fst_mem_of_mem_zipIdx hnumbered)) measure
    _ _ number

theorem initReport_isEscapeFree (created : Bool) : (initReport created).IsEscapeFree := by
  cases created with
  | true =>
      refine .toOut ?_
      simp only [escapeFree_cons, Piece.plain, Piece.coloured, List.mem_append, not_or]
      exact ⟨by decide, by decide, ⟨by decide, by decide⟩, by decide, escapeFree_nil⟩
  | false =>
      refine .toErr ?_
      simp only [escapeFree_cons, Piece.plain, Piece.boldColoured, List.mem_append, not_or]
      exact ⟨by decide, ⟨⟨by decide, by decide⟩, by decide⟩, by decide, escapeFree_nil⟩

/-- No text of a result has an escape character. -/
def Completion.IsEscapeFree (completion : Completion) : Prop :=
  ∀ text ∈ completion.texts, escape ∉ text

instance (completion : Completion) : Decidable completion.IsEscapeFree :=
  inferInstanceAs (Decidable (∀ text ∈ completion.texts, escape ∉ text))

theorem Completion.IsEscapeFree.reportBy {completion : Completion}
    (h : completion.IsEscapeFree) (measure : Text -> Nat) :
    (completion.reportBy measure).IsEscapeFree := by
  cases completion with
  | initialized created => exact initReport_isEscapeFree created
  | parsed summary =>
      exact summary.reportBy_isEscapeFree measure fun outcome houtcome text htext =>
        h text (List.mem_flatMap.2 ⟨outcome, houtcome, htext⟩)

/-- Pieces without a style are shown alike with and without colour. -/
theorem render_of_plain {lines : Styled} (h : ∀ piece ∈ lines, piece.style = .plain) :
    Styled.render true lines = Styled.render false lines := by
  refine List.flatMap_congr fun piece hpiece => ?_
  simp [Piece.render, h piece hpiece]

/-- Rows and documents have no style. -/
theorem Summary.render_out (measure : Text -> Nat) (summary : Summary) :
    Styled.render true (summary.reportBy measure).out =
      Styled.render false (summary.reportBy measure).out := by
  have hrow (outcome : Outcome) : ∀ piece ∈ resultRow outcome summary.format,
      piece.style = .plain := by
    cases summary.format <;> simp [resultRow, Piece.plain]
  have hdocument : ∀ piece ∈ resultDocument summary.outcomes summary.format,
      piece.style = .plain := by
    cases summary.format <;> simp [resultDocument, Piece.plain]
  rw [reportBy_eq]
  refine render_of_plain (List.forall_mem_append.2 ⟨?_, ?_⟩)
  · intro piece hpiece
    obtain ⟨outcome, -, hpiece⟩ := List.mem_flatMap.1 hpiece
    exact hrow outcome piece hpiece
  · split
    · exact hdocument
    · exact List.forall_mem_nil _

/--
Colour is pure decoration.  Where the texts of a result have no escape character, the
coloured streams without their style sequences are the streams without colour, and
either are written up to the same obstacle, if a diagnostic cannot be shown.  The
results of inputs are not coloured at all.
-/
theorem colour_is_decoration {completion : Completion} (h : completion.IsEscapeFree)
    (measure : Text -> Nat) :
    ((completion.reportBy measure).render true).withoutStyles =
        (completion.reportBy measure).render false /\
      forall summary, completion = .parsed summary ->
        ((completion.reportBy measure).render true).stdout =
          ((completion.reportBy measure).render false).stdout := by
  refine ⟨(h.reportBy measure).withoutStyles_render, ?_⟩
  rintro summary rfl
  exact summary.render_out measure

/-- A traced input whose block is left open, with the notes of its diagnostics. -/
def openSummary : Summary :=
  ⟨[Outcome.ofInput true "i18n:a\x7bb: \x22c".toList], .text, false, true⟩

theorem openSummary_decoration :
    (Completion.parsed openSummary).IsEscapeFree /\
      ((Completion.parsed openSummary).reportBy Text.displayWidth).stop = none /\
      (((Completion.parsed openSummary).reportBy Text.displayWidth).render true).withoutStyles =
        ((Completion.parsed openSummary).reportBy Text.displayWidth).render false := by
  have h : (Completion.parsed openSummary).IsEscapeFree := by decide +kernel
  exact ⟨h, by decide +kernel, (colour_is_decoration h Text.displayWidth).1⟩

end TranslationKeys
