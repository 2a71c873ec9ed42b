import Mathlib.Algebra.GroupWithZero.Nat
import Mathlib.Data.List.Induction
import Mathlib.Data.List.TakeWhile
import TranslationKeys.Proofs.Documents
import TranslationKeys.Proofs.OpenBlocks
import TranslationKeys.Proofs.Places

/-!
# Lines, columns and carets

The place of an offset is found by looking for the line feeds nearest to it.  It
is the same place that splitting the whole input into lines gives, and it gives
the offset back: the lines before it, the line feeds that end them, and the text in
front of its column have as many bytes.  A later offset has a later place.

The caret of a diagnostic stands below its place, however columns are counted, and
as long as the caret is not too far to the right.
-/

namespace TranslationKeys

open Lexeme
open Text (Styled)

/-! ## Lines before a place -/

theorem lastLine_newline (front : Text) : lastLine (front ++ ['\n']) = [] := by
  simp [lastLine]

theorem firstLine_append {line : Text} (h : '\n' ∉ line) (rest : Text) :
    firstLine (line ++ rest) = line ++ firstLine rest := by
  refine List.takeWhile_append_of_pos ?_
  intro c hc
  rw [bne_iff_ne]
  rintro rfl
  exact h hc

theorem newline_not_mem_firstLine (text : Text) : '\n' ∉ firstLine text := by
  intro hmem
  have hne := List.mem_takeWhile_imp hmem
  simp at hne

theorem newline_not_mem_lastLine (text : Text) : '\n' ∉ lastLine text := by
  rw [lastLine, List.mem_reverse]
  exact newline_not_mem_firstLine text.reverse

/-- Lines with a line feed after each. -/
def wholeLines (lines : List Text) : Text :=
  lines.flatMap (· ++ ['\n'])

theorem wholeLines_concat (lines : List Text) (line : Text) :
    wholeLines (lines ++ [line]) = wholeLines lines ++ (line ++ ['\n']) := by
  simp [wholeLines]

/-- A text is made of its whole lines and the line that is not ended yet. -/
theorem exists_wholeLines (front : Text) :
    exists lines, front = wholeLines lines ++ lastLine front /\
      lines.length = front.count '\n' /\ ∀ line ∈ lines, '\n' ∉ line := by
  induction front using List.reverseRecOn with
  | nil => exact ⟨[], rfl, rfl, by simp⟩
  | append_singleton front c ih =>
      obtain ⟨lines, hfront, hcount, hlines⟩ := ih
      by_cases hc : c = '\n'
      · subst hc
        refine ⟨lines ++ [lastLine front], ?_, by simp [hcount], ?_⟩
        · rw [lastLine_newline, wholeLines_concat, ← List.append_assoc, ← hfront,
            List.append_nil]
        · intro line hline
          rcases List.mem_append.1 hline with hearlier | hlast
          · exact hlines line hearlier
          · rw [List.mem_singleton.1 hlast]
            exact newline_not_mem_lastLine front
      · have hline : '\n' ∉ [c] := by
          rw [List.mem_singleton]
          exact fun heq => hc heq.symm
        refine ⟨lines, ?_, ?_, hlines⟩
        · rw [lastLine_append hline, ← List.append_assoc, ← hfront]
        · rw [List.count_append, List.count_eq_zero_of_not_mem hline, hcount]
          rfl

theorem byteLength_wholeLines (lines : List Text) :
    Text.byteLength (wholeLines lines) =
      (lines.map fun line => Text.byteLength line + 1).sum := by
  induction lines with
  | nil => rfl
  | cons line lines ih =>
      have hfeed : Text.byteLength ['\n'] = 1 := rfl
      rw [wholeLines, List.flatMap_cons, Text.byteLength_append, Text.byteLength_append, hfeed,
        List.map_cons, List.sum_cons, ← ih]
      rfl

theorem splitOn_wholeLines {lines : List Text} (h : ∀ line ∈ lines, '\n' ∉ line)
    (text : Text) :
    List.splitOn '\n' (wholeLines lines ++ text) = lines ++ List.splitOn '\n' text := by
  induction lines with
  | nil => rfl
  | cons line lines ih =>
      have hsplit := List.splitOn_append_cons_self_of_not_mem (h line (List.mem_cons_self ..))
        (wholeLines lines ++ text)
      have hlater := ih fun other hother => h other (List.mem_cons_of_mem _ hother)
      rw [hlater] at hsplit
      simpa [wholeLines] using hsplit

theorem head?_splitOn (text : Text) :
    (List.splitOn '\n' text).head? = some (firstLine text) := by
  have hline := newline_not_mem_firstLine text
  have htext : firstLine text ++ text.dropWhile (· != '\n') = text :=
    List.takeWhile_append_dropWhile
  have hstop := List.head?_dropWhile_not (· != '\n') text
  cases hrest : text.dropWhile (· != '\n') with
  | nil =>
      rw [hrest, List.append_nil] at htext
      rw [htext] at hline ⊢
      rw [List.splitOn_eq_singleton hline]
      rfl
  | cons c more =>
      obtain rfl : c = '\n' := by simpa [hrest] using hstop
      rw [hrest] at htext
      have hsplit := List.splitOn_append_cons_self_of_not_mem hline more
      rw [htext] at hsplit
      rw [hsplit]
      rfl

/-! ## Places -/

/--
The place is the one of an offset in an input: its line is one of the lines between
the line feeds, its column is one on that line, and the text before them has as
many bytes as the offset.
-/
structure Place.Marks (input : Text) (offset : Nat) (place : Place) : Prop where
  one_le_line : 1 <= place.line
  line_le : place.line <= (List.splitOn '\n' input).length
  source_eq : (List.splitOn '\n' input)[place.line - 1]? = some place.source
  one_le_column : 1 <= place.column
  column_le : place.column <= place.source.length + 1
  offset_eq : offset =
    (((List.splitOn '\n' input).take (place.line - 1)).map fun line =>
      Text.byteLength line + 1).sum +
    Text.byteLength (place.source.take (place.column - 1))

/-- The first place is on an earlier line, or further to the left on the same line. -/
def Place.Precedes (first second : Place) : Prop :=
  first.line < second.line \/ first.line = second.line /\ first.column < second.column

namespace Place

theorem ofOffsetBy?_eq_some_iff {measure : Text -> Nat} {input : Text} {offset : Nat}
    {place : Place} :
    ofOffsetBy? measure input offset = some place <->
      exists front rest, input = front ++ rest /\
        Text.byteLength front = min offset (Text.byteLength input) /\
          place = atCut measure front rest := by
  simp only [ofOffsetBy?, Option.map_eq_some_iff, Prod.exists]
  constructor
  · rintro ⟨front, rest, hcut, rfl⟩
    obtain ⟨hinput, hbytes⟩ := Text.cut?_sound hcut
    exact ⟨front, rest, hinput, hbytes, rfl⟩
  · rintro ⟨front, rest, hinput, hbytes, rfl⟩
    refine ⟨front, rest, ?_, rfl⟩
    rw [← hbytes, hinput, Text.cut?_append]

variable (measure : Text -> Nat)

theorem take_source_atCut (front rest : Text) :
    (atCut measure front rest).source.take ((atCut measure front rest).column - 1) =
      lastLine front :=
  List.take_left' rfl

/-- Splitting the whole input finds the place of each cut. -/
theorem marks_atCut (front rest : Text) :
    (atCut measure front rest).Marks (front ++ rest) (Text.byteLength front) := by
  obtain ⟨lines, hfront, hcount, hlines⟩ := exists_wholeLines front
  have hsplit : List.splitOn '\n' (front ++ rest) =
      lines ++ List.splitOn '\n' (lastLine front ++ rest) := by
    conv_lhs => rw [hfront, List.append_assoc]
    exact splitOn_wholeLines hlines _
  have hhead := head?_splitOn (lastLine front ++ rest)
  rw [firstLine_append (newline_not_mem_lastLine front)] at hhead
  have hsource : (List.splitOn '\n' (front ++ rest))[front.count '\n']? =
      some (lastLine front ++ firstLine rest) := by
    rw [hsplit, ← hcount, List.getElem?_append_right (Nat.le_refl _), Nat.sub_self,
      ← List.head?_eq_getElem?, hhead]
  constructor
  · exact Nat.le_add_left 1 _
  · exact (List.getElem?_eq_some_iff.1 hsource).1
  · exact hsource
  · exact Nat.le_add_left 1 _
  · simp [atCut]
  · rw [take_source_atCut, hsplit]
    have htake : (lines ++ List.splitOn '\n' (lastLine front ++ rest)).take
        ((atCut measure front rest).line - 1) = lines :=
      List.take_left' hcount
    rw [htake, ← byteLength_wholeLines, ← Text.byteLength_append, ← hfront]

/-- A longer front has a later place. -/
theorem precedes_atCut {more : Text} (hmore : more ≠ []) (front rest after : Text) :
    (atCut measure front rest).Precedes (atCut measure (front ++ more) after) := by
  by_cases hline : '\n' ∈ more
  · refine Or.inl ?_
    have hpos := List.count_pos_iff.2 hline
    simp only [atCut, List.count_append]
    omega
  · refine Or.inr ⟨?_, ?_⟩
    · simp [atCut, List.count_eq_zero_of_not_mem hline]
    · have hlength := List.length_pos_iff.2 hmore
      simp only [atCut, lastLine_append hline, List.length_append]
      omega

end Place

theorem Place.Precedes.asymm {first second : Place} (h : first.Precedes second) :
    ¬ second.Precedes first := by
  unfold Precedes at *
  omega

/-- Of two cuts of a text, the one behind fewer bytes comes first. -/
theorem exists_append_of_byteLength_lt {front rest other after : Text}
    (hcuts : front ++ rest = other ++ after)
    (h : Text.byteLength front < Text.byteLength other) :
    exists more, more ≠ [] /\ other = front ++ more := by
  rcases List.append_eq_append_iff.1 hcuts with ⟨more, hother, _⟩ | ⟨more, hfront, _⟩
  · refine ⟨more, ?_, hother⟩
    rintro rfl
    rw [hother, List.append_nil] at h
    exact absurd h (Nat.lt_irrefl _)
  · rw [hfront, Text.byteLength_append] at h
    omega

/-- Later offsets have later places. -/
theorem Place.precedes_of_lt (measure : Text -> Nat) {input : Text} {offset later : Nat}
    {place other : Place} (hplace : ofOffsetBy? measure input offset = some place)
    (hother : ofOffsetBy? measure input later = some other)
    (h : min offset (Text.byteLength input) < min later (Text.byteLength input)) :
    place.Precedes other := by
  obtain ⟨front, rest, hfront, hbytes, rfl⟩ := ofOffsetBy?_eq_some_iff.1 hplace
  obtain ⟨back, after, hback, hmore, rfl⟩ := ofOffsetBy?_eq_some_iff.1 hother
  rw [← hbytes, ← hmore] at h
  obtain ⟨more, hne, rfl⟩ := exists_append_of_byteLength_lt (hfront.symm.trans hback) h
  exact precedes_atCut measure hne front rest after

theorem Place.precedes_iff (measure : Text -> Nat) {input : Text} {offset later : Nat}
    {place other : Place} (hplace : ofOffsetBy? measure input offset = some place)
    (hother : ofOffsetBy? measure input later = some other) :
    place.Precedes other <->
      min offset (Text.byteLength input) < min later (Text.byteLength input) := by
  constructor
  · intro hprecedes
    rcases Nat.lt_trichotomy (min offset (Text.byteLength input))
        (min later (Text.byteLength input)) with hlt | heq | hgt
    · exact hlt
    · have hsame : some place = some other := by
        rw [← hplace, ← hother, ofOffsetBy?, ofOffsetBy?, heq]
      cases hsame
      exact absurd hprecedes hprecedes.asymm
    · exact absurd hprecedes (precedes_of_lt measure hother hplace hgt).asymm
  · exact precedes_of_lt measure hplace hother

/-! ## Carets -/

/-- What stands in front of a source line: its number and a bar. -/
def sourceGutter (line : Nat) : Text :=
  Text.natural line ++ [' ', '|', ' ']

/-- What stands in front of a caret. -/
def caretGutter (line : Nat) : Text :=
  Text.spaces (Text.natural line).length ++ [' ', '|', ' ']

theorem length_caretGutter (line : Nat) :
    (caretGutter line).length = (sourceGutter line).length := by
  simp [caretGutter, sourceGutter, Text.spaces]

/-- The source line of a place, and below it the line with the caret. -/
def Place.excerpt (place : Place) : Text :=
  sourceGutter place.line ++ (place.source ++ '\n' ::
    (caretGutter place.line ++ (Text.spaces place.padding ++ ['^', '\n'])))

/-- The report of a diagnostic with a place, which is complete if the caret is near enough. -/
theorem diagnosticReportBy_of_place {measure : Text -> Nat} {input : Text}
    {diagnostic : Diagnostic} {place : Place}
    (hplace : Place.ofOffsetBy? measure input diagnostic.offset = some place) (number : Nat)
    (verbose : Bool) :
    diagnosticReportBy measure number input verbose diagnostic =
      if place.padding <= widestPadding then
        .toErr (titleLine diagnostic ++
          (placeLines number place ++ caretLines diagnostic verbose place))
      else ⟨[], titleLine diagnostic ++ placeLines number place, some .tooFarRight⟩ := by
  unfold diagnosticReportBy Place.isShowable
  rw [hplace]
  by_cases hnear : place.padding <= widestPadding <;>
    simp [hnear, Report.andThen, Report.toErr, Report.stopped]

theorem render_placeLines_caretLines (number : Nat) (diagnostic : Diagnostic) (verbose : Bool)
    (place : Place) :
    exists before after,
      Styled.render false (placeLines number place ++ caretLines diagnostic verbose place) =
        before ++ '\n' :: (place.excerpt ++ after) := by
  have hjoin {arrow gutter source caret note stop : Text}
      (hexcerpt : source ++ caret = place.excerpt) :
      arrow ++ (gutter ++ ['\n']) ++ source ++ (caret ++ note ++ stop) =
        (arrow ++ gutter) ++ '\n' :: (place.excerpt ++ (note ++ stop)) := by
    simp [← hexcerpt]
  have hpiece (piece : Text.Piece) : piece.render false = piece.text := rfl
  have hempty : Styled.render false [.plain place.gutter, gutterBar, lineEnd] =
      (place.gutter ++ ['|']) ++ ['\n'] := by
    simp [Styled.render, hpiece, Text.Piece.plain, gutterBar, Text.Piece.coloured, lineEnd]
  simp only [placeLines, caretLines, Styled.render_append, hempty]
  refine ⟨_, _, hjoin ?_⟩
  simp [Styled.render, hpiece, Text.Piece.plain, gutterBar, Text.Piece.coloured, lineEnd, caret,
    Place.excerpt, Place.gutter, sourceGutter, caretGutter]

/--
The place of an offset between two characters is exact, and later offsets have later
places.  A diagnostic there is shown unless its caret is too far to the right, and
then the caret stands below its place: behind a gutter as long as that of the source
line and as many blanks as the text in front of the column takes columns.
-/
theorem carets_stand_below_places (measure : Text -> Nat) (input : Text) (offset : Nat)
    (hboundary : Text.IsBoundary input (min offset (Text.byteLength input))) :
    exists place, Place.ofOffsetBy? measure input offset = some place /\
      place.Marks input (min offset (Text.byteLength input)) /\
      place.padding = measure (place.source.take (place.column - 1)) /\
      (forall later other, Place.ofOffsetBy? measure input later = some other ->
        (place.Precedes other <->
          min offset (Text.byteLength input) < min later (Text.byteLength input))) /\
      (forall number verbose diagnostic, diagnostic.offset = offset ->
        let report := diagnosticReportBy measure number input verbose diagnostic
        (report.stop ≠ none <-> widestPadding < place.padding) /\
        (report.stop = none -> exists before after,
          (report.render false).stderr =
            before ++ '\n' :: (sourceGutter place.line ++ (place.source ++ '\n' ::
              (caretGutter place.line ++ (Text.spaces place.padding ++ '^' :: '\n' :: after)))) /\
          (caretGutter place.line).length = (sourceGutter place.line).length)) := by
  obtain ⟨front, rest, hinput, hbytes⟩ := hboundary
  have hplace : Place.ofOffsetBy? measure input offset =
      some (Place.atCut measure front rest) :=
    Place.ofOffsetBy?_eq_some_iff.2 ⟨front, rest, hinput, hbytes, rfl⟩
  refine ⟨_, hplace, ?_, ?_, ?_, ?_⟩
  · rw [← hbytes, hinput]
    exact Place.marks_atCut measure front rest
  · rw [Place.take_source_atCut]
    rfl
  · intro later other hother
    exact Place.precedes_iff measure hplace hother
  · rintro number verbose diagnostic rfl
    dsimp only
    rw [diagnosticReportBy_of_place hplace]
    by_cases hnear : (Place.atCut measure front rest).padding <= widestPadding
    · rw [if_pos hnear]
      refine ⟨iff_of_false (fun h => h rfl) (Nat.not_lt_of_le hnear), fun _ => ?_⟩
      obtain ⟨before, after, hrender⟩ := render_placeLines_caretLines number diagnostic verbose
        (Place.atCut measure front rest)
      refine ⟨Styled.render false (titleLine diagnostic) ++ before, after, ?_,
        length_caretGutter _⟩
      change Styled.render false (titleLine diagnostic ++ _) = _
      rw [Styled.render_append, hrender, Place.excerpt]
      simp
    · rw [if_neg hnear]
      exact ⟨iff_of_true (Option.some_ne_none _) (Nat.lt_of_not_le hnear), fun h => nomatch h⟩

/-- A name that takes two columns and three bytes, on the third line. -/
def wideName : Text :=
  ['i', '1', '8', 'n', ':', 'a', '{', 'k', ':', ' ', '\x22', 'x', '\n',
    'y', '\x22', ',', '\n', ' ', ' ', '你', ':', ' ', '}']

/-- Behind the wide name the caret is four columns to the right, at the fourth character. -/
theorem wideName_caret :
    Text.IsBoundary wideName (min 22 (Text.byteLength wideName)) /\
      exists place earlier before after,
        Place.ofOffsetBy? Text.displayWidth wideName 22 = some place /\
          place.line = 3 /\ place.column = 4 /\ place.padding = 4 /\ place.Marks wideName 22 /\
        Place.ofOffsetBy? Text.displayWidth wideName 12 = some earlier /\
          ¬ place.Precedes earlier /\
        ((diagnosticReportBy Text.displayWidth 7 wideName false
            ⟨.malformedKey, 22, [], none⟩).render false).stderr =
          before ++ '\n' :: (['3', ' ', '|', ' '] ++ ([' ', ' ', '你', ':', ' ', '}'] ++ '\n' ::
            ([' ', ' ', '|', ' '] ++ ([' ', ' ', ' ', ' '] ++ '^' :: '\n' :: after)))) := by
  have hboundary : Text.IsBoundary wideName (min 22 (Text.byteLength wideName)) :=
    ⟨wideName.take 20, wideName.drop 20, rfl, rfl⟩
  have hplace : Place.ofOffsetBy? Text.displayWidth wideName 22 =
      some ⟨3, 4, [' ', ' ', '你', ':', ' ', '}'], 4⟩ := by decide +kernel
  have hearlier : Place.ofOffsetBy? Text.displayWidth wideName 12 =
      some ⟨1, 13, ['i', '1', '8', 'n', ':', 'a', '{', 'k', ':', ' ', '\x22', 'x'], 12⟩ := by
    decide +kernel
  obtain ⟨place, hfound, hmarks, _, hprecedes, hreports⟩ :=
    carets_stand_below_places Text.displayWidth wideName 22 hboundary
  rw [hplace] at hfound
  cases hfound
  have hafter := mt (hprecedes 12 _ hearlier).1 (by decide)
  obtain ⟨hstopped, hcaret⟩ := hreports 7 false ⟨.malformedKey, 22, [], none⟩ rfl
  obtain ⟨before, after, hrender, _⟩ := hcaret (not_not.1 (mt hstopped.1 (by decide)))
  exact ⟨hboundary, _, _, before, after, hplace, rfl, rfl, rfl, hmarks, hearlier, hafter,
    hrender⟩

/-! ## A caret too far to the right -/

/-- A block that is still open behind a line feed and some spaces. -/
def openSecondLine (count : Nat) : Text :=
  marker ++ (['a'] ++ '{' :: '\n' :: Text.spaces count)

theorem newline_not_mem_spaces (count : Nat) : '\n' ∉ Text.spaces count := by
  intro hmem
  exact absurd (List.eq_of_mem_replicate hmem) (by decide)

theorem openSecondLine_diagnostics (count : Nat) :
    (parse (openSecondLine count)).diagnostics =
      [diagnosticAt (openSecondLine count) ⟨.missingTerminator, []⟩] := by
  have hkey : IsKey ['a'] := by decide
  have hspace : IsSpace ('\n' :: Text.spaces count) := by
    intro c hc
    rcases List.mem_cons.1 hc with rfl | hlater
    · rfl
    · rw [List.eq_of_mem_replicate hlater]
      rfl
  have hstart : CallStart .entry maxOpenBlocks 1 (openSecondLine count) [] :=
    .block hkey (.here rfl hspace (avoids_skipSpacing []))
  have hread := hstart.readExpression_outcome (Nat.le_refl 1) .ended (by simp)
  rw [List.append_nil] at hread
  exact (parse_of_failure hread).2

theorem lastLine_openSecondLine (count : Nat) :
    lastLine (openSecondLine count) = Text.spaces count := by
  have hsplit : openSecondLine count =
      (marker ++ ['a', '{'] ++ ['\n']) ++ Text.spaces count := by simp [openSecondLine]
  rw [hsplit, lastLine_append (newline_not_mem_spaces count), lastLine_newline]
  rfl

theorem caret_not_mem_titleLine (diagnostic : Diagnostic)
    (hmessage : '^' ∉ diagnostic.message) :
    ∀ piece ∈ titleLine diagnostic, '^' ∉ piece.text := by
  have hseverity : '^' ∉ (severity diagnostic.kind).text := by
    cases diagnostic.kind <;> decide
  have hname : '^' ∉ diagnostic.kind.name := by cases diagnostic.kind <;> decide
  simp only [titleLine, List.forall_mem_cons]
  simp only [Text.Piece.plain, Text.Piece.dimColoured, List.mem_append, not_or]
  exact ⟨hseverity, ⟨⟨by decide, hmessage⟩, by decide⟩, hname, by decide, List.forall_mem_nil _⟩

theorem caret_not_mem_placeLines (number : Nat) {place : Place} (hsource : '^' ∉ place.source) :
    ∀ piece ∈ placeLines number place, '^' ∉ piece.text := by
  have hnatural (value : Nat) : '^' ∉ Text.natural value := by
    intro hmem
    cases Json.isDigit_of_mem_natural hmem
  have hspaces (count : Nat) : '^' ∉ Text.spaces count := by
    intro hmem
    exact absurd (List.eq_of_mem_replicate hmem) (by decide)
  simp only [placeLines, List.forall_mem_append, List.forall_mem_cons]
  simp only [Text.Piece.plain, Text.Piece.coloured, Place.gutter, List.mem_append,
    List.mem_cons, not_or]
  refine ⟨⟨?_, ?_⟩, ?_⟩
  · exact ⟨by decide, by decide, ⟨⟨⟨⟨⟨by decide, hnatural _⟩, by decide⟩, hnatural _⟩,
      by decide⟩, hnatural _⟩, by decide, List.forall_mem_nil _⟩
  · exact ⟨⟨hspaces _, by decide⟩, by decide, by decide, List.forall_mem_nil _⟩
  · exact ⟨hnatural _, by decide, by decide, ⟨by decide, hsource⟩, by decide, List.forall_mem_nil _⟩

/-- Where the caret is too far away, nothing that is written of the diagnostic looks like it. -/
theorem caret_not_mem_stderr {count : Nat} (hcount : widestPadding < count) (number : Nat)
    (verbose : Bool) :
    '^' ∉ ((diagnosticReportBy Text.displayWidth number (openSecondLine count) verbose
      (diagnosticAt (openSecondLine count) ⟨.missingTerminator, []⟩)).render false).stderr := by
  have hplace : Place.ofOffsetBy? Text.displayWidth (openSecondLine count)
      (diagnosticAt (openSecondLine count) ⟨.missingTerminator, []⟩).offset =
        some (Place.atCut Text.displayWidth (openSecondLine count) []) :=
    Place.ofOffsetBy?_eq_some_iff.2
      ⟨openSecondLine count, [], (List.append_nil _).symm, by simp [diagnosticAt, offsetOf], rfl⟩
  have hwide : ¬ (Place.atCut Text.displayWidth (openSecondLine count) []).padding <=
      widestPadding := by
    rw [Place.atCut, lastLine_openSecondLine, Text.displayWidth_spaces]
    exact Nat.not_le_of_lt hcount
  have hmessage : '^' ∉ diagnosticMessage .missingTerminator [] := by decide
  have hsource : '^' ∉ (Place.atCut Text.displayWidth (openSecondLine count) []).source := by
    rw [Place.atCut, lastLine_openSecondLine]
    intro hmem
    have hspace := List.eq_of_mem_replicate ((List.append_nil (Text.spaces count)) ▸ hmem)
    exact absurd hspace (by decide)
  rw [diagnosticReportBy_of_place hplace, if_neg hwide]
  intro hmem
  obtain ⟨piece, hpiece, hmem⟩ := List.mem_flatMap.1 hmem
  rcases List.mem_append.1 hpiece with htitle | hlines
  · exact caret_not_mem_titleLine (diagnosticAt _ ⟨.missingTerminator, []⟩) hmessage piece
      htitle hmem
  · exact caret_not_mem_placeLines number hsource piece hlines hmem

/-- Not every failure of an input has a caret below its place. -/
theorem wide_second_line_has_no_caret :
    ¬ forall number input verbose, ∀ diagnostic ∈ (parse input).diagnostics,
      exists place before after,
        Place.ofOffsetBy? Text.displayWidth input diagnostic.offset = some place /\
          ((diagnosticReportBy Text.displayWidth number input verbose
              diagnostic).render false).stderr =
            before ++ '\n' :: (place.excerpt ++ after) := by
  intro hcarets
  have hmem : diagnosticAt (openSecondLine 65536) ⟨.missingTerminator, []⟩ ∈
      (parse (openSecondLine 65536)).diagnostics := by
    rw [openSecondLine_diagnostics]
    exact List.mem_singleton_self _
  obtain ⟨place, before, after, _, herr⟩ := hcarets 1 (openSecondLine 65536) false _ hmem
  have hcaret := caret_not_mem_stderr (by decide : widestPadding < 65536) 1 false
  rw [herr] at hcaret
  exact hcaret (by simp [Place.excerpt])

end TranslationKeys
