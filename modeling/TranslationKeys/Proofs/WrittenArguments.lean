import Mathlib.Data.List.Nodup
import TranslationKeys.Command.Arguments

/-!
# Written arguments

The options of `parse` may be written in several ways, in any order and between
the inputs.  However they are written, reading the arguments finds the inputs in
order and exactly the options that were written.
-/

namespace TranslationKeys.Arguments

/-! ## Writing options and inputs -/

/-- A word is no option: a hyphen starts it only if it is nothing else. -/
def IsWord (text : Text) : Prop :=
  text.head? = some '-' -> text = ['-']

/-- How the name of an option and its value are written. -/
inductive Spelling where
  | apart
  | joined
  | letter
  deriving DecidableEq, Repr

/-- An option with its value, if it needs one. -/
inductive Group where
  | file (spelling : Spelling) (path : Text)
  | format (joined : Bool) (chosen : ReportFormat)
  | trace
  | denyTrailing
  | verbose (letter : Bool)
  deriving DecidableEq, Repr

namespace Group

/-- The arguments that an option is written with. -/
def written : Group -> List Text
  | .file .apart path => ["--file".toList, path]
  | .file .joined path => ["--file=".toList ++ path]
  | .file .letter path => ["-f".toList, path]
  | .format false chosen => ["--format".toList, chosen.name]
  | .format true chosen => ["--format=".toList ++ chosen.name]
  | .trace => ["--trace".toList]
  | .denyTrailing => ["--deny-trailing".toList]
  | .verbose false => ["--verbose".toList]
  | .verbose true => ["-v".toList]

/-- The option that is meant, however it is written. -/
def switch : Group -> Switch
  | .file _ _ => .setting .file
  | .format _ _ => .setting .format
  | .trace => .flag .trace
  | .denyTrailing => .flag .denyTrailing
  | .verbose _ => .flag .verbose

/-- A file has a name, and no hyphen starts it. -/
def IsProper : Group -> Prop
  | .file _ path => path ≠ [] /\ path.head? ≠ some '-'
  | _ => True

/-- The options with one more. -/
def addTo (options : ParseOptions) : Group -> ParseOptions
  | .file _ path => { options with file := some path }
  | .format _ chosen => { options with format := some chosen }
  | .trace => { options with trace := true }
  | .denyTrailing => { options with denyTrailing := true }
  | .verbose _ => { options with verbose := true }

end Group

/-- The arguments hold some words and some options, both in order, and nothing else. -/
inductive Interleaves : List Text -> List Group -> List Text -> Prop where
  | nil : Interleaves [] [] []
  | word (text : Text) {words : List Text} {groups : List Group} {arguments : List Text} :
      Interleaves words groups arguments ->
      Interleaves (text :: words) groups (text :: arguments)
  | group (group : Group) {words : List Text} {groups : List Group} {arguments : List Text} :
      Interleaves words groups arguments ->
      Interleaves words (group :: groups) (group.written ++ arguments)

/-- Inputs behind a separator, if there is one. -/
def separated : Option (List Text) -> List Text
  | none => []
  | some rest => "--".toList :: rest

/-- Some options are set, and no others. -/
structure Sets (groups : List Group) (options : ParseOptions) : Prop where
  file : forall path, options.file = some path <->
    exists spelling, Group.file spelling path ∈ groups
  format : forall chosen, options.format = some chosen <->
    exists joined, Group.format joined chosen ∈ groups
  trace : options.trace = true <-> Group.trace ∈ groups
  denyTrailing : options.denyTrailing = true <-> Group.denyTrailing ∈ groups
  verbose : options.verbose = true <-> exists letter, Group.verbose letter ∈ groups

/-! ## Forms of arguments -/

theorem ofText_word {text : Text} (hword : IsWord text) : Word.ofText text = .plain text := by
  match text with
  | [] => rfl
  | first :: rest =>
      by_cases hhyphen : first = '-'
      · subst hhyphen
        have hrest : rest = [] := by simpa [IsWord] using hword
        rw [hrest]
        rfl
      · unfold Word.ofText
        split <;> simp_all

theorem isWord_of_head {text : Text} (h : text.head? ≠ some '-') : IsWord text :=
  fun hhyphen => absurd hhyphen h

theorem isWord_name (format : ReportFormat) : IsWord format.name := by
  cases format <;> exact isWord_of_head (by decide)

theorem ofName?_name (format : ReportFormat) : ReportFormat.ofName? format.name = some format := by
  cases format <;> rfl

namespace Scan

variable {scan next : Scan} {options after : ParseOptions} {text : Text} {more : List Text}

theorem takeAll_plain (hform : Word.ofText text = .plain text)
    (htaken : scan.takePlain text = .ok next) :
    scan.takeAll (text :: more) = next.takeAll more := by
  rw [takeAll, hform]
  simp only [htaken]
  rfl

theorem takeAll_long {name : Text} {value : Option Text}
    (hform : Word.ofText text = .long name value)
    (htaken : scan.takeLong name value = .ok next) :
    scan.takeAll (text :: more) = next.takeAll more := by
  rw [takeAll, hform]
  simp only [htaken]
  rfl

theorem takeAll_short {letters : Text} (hform : Word.ofText text = .short letters)
    (htaken : scan.takeLetters letters = .ok next) :
    scan.takeAll (text :: more) = next.takeAll more := by
  rw [takeAll, hform]
  simp only [htaken]
  rfl

/-! ## Steps of a scan that can be settled -/

theorem takePlain_of_settle (hsettle : scan.settle = .ok options) :
    scan.takePlain text = .ok ⟨{ options with inputs := options.inputs ++ [text] }, none⟩ := by
  unfold takePlain
  split
  · -- A value that is still waited for cannot be settled.
    rename_i hopen
    simp [settle, hopen] at hsettle
  · rw [hsettle]
    rfl

theorem takeLong_flag {name : Text} {flag : Flag} (hname : Switch.ofLong? name = some (.flag flag))
    (hsettle : scan.settle = .ok options) (hraise : raise options flag = .ok after) :
    scan.takeLong name none = .ok ⟨after, none⟩ := by
  simp only [takeLong, hname, takeFlag, hsettle, bind, Except.bind, hraise]

theorem takeLetters_flag {letter : Char} {flag : Flag}
    (hletter : Switch.ofLetter? letter = some (.flag flag))
    (hsettle : scan.settle = .ok options) (hraise : raise options flag = .ok after) :
    scan.takeLetters [letter] = .ok ⟨after, none⟩ := by
  simp only [takeLetters, hletter, takeFlag, hsettle, bind, Except.bind, hraise]

theorem takeLong_setting {name : Text} {setting : Setting}
    (hname : Switch.ofLong? name = some (.setting setting))
    (hsettle : scan.settle = .ok options) :
    scan.takeLong name none = .ok ⟨options, some ⟨setting, none⟩⟩ := by
  simp only [takeLong, hname, takeOpen, hsettle, bind, Except.bind]

theorem takeLetters_setting {letter : Char} {setting : Setting}
    (hletter : Switch.ofLetter? letter = some (.setting setting))
    (hsettle : scan.settle = .ok options) :
    scan.takeLetters [letter] = .ok ⟨options, some ⟨setting, none⟩⟩ := by
  simp only [takeLetters, hletter, takeOpen, hsettle, bind, Except.bind]

theorem takeLong_assigned {name value : Text} {setting : Setting}
    (hname : Switch.ofLong? name = some (.setting setting))
    (hsettle : scan.settle = .ok options) (hassign : assign options setting value = .ok after) :
    scan.takeLong name (some value) = .ok ⟨after, none⟩ := by
  simp only [takeLong, hname, takeAssigned, hsettle, bind, Except.bind, hassign]

/-- An input is added, once the open value is looked at. -/
theorem takeAll_word (hsettle : scan.settle = .ok options) (hword : IsWord text) :
    scan.takeAll (text :: more) =
      takeAll ⟨{ options with inputs := options.inputs ++ [text] }, none⟩ more :=
  takeAll_plain (ofText_word hword) (takePlain_of_settle hsettle)

/-- The word behind an open option is its value, and is looked at later. -/
theorem takeAll_value {setting : Setting} (hword : IsWord text) :
    takeAll ⟨options, some ⟨setting, none⟩⟩ (text :: more) =
      takeAll ⟨options, some ⟨setting, some text⟩⟩ more :=
  takeAll_plain (ofText_word hword) rfl

theorem takeAll_separated (hsettle : scan.settle = .ok options) (rest : Option (List Text)) :
    scan.takeAll (separated rest) =
      .ok { options with inputs := options.inputs ++ rest.getD [] } := by
  cases rest with
  | none => simpa [separated, takeAll] using hsettle
  | some rest =>
      simp only [separated, takeAll]
      rw [show Word.ofText "--".toList = .separator from rfl, hsettle]
      rfl

end Scan

/-! ## Options that are set -/

/-- An option is not set yet. -/
def IsUnset (options : ParseOptions) : Switch -> Prop
  | .help => True
  | .flag .trace => options.trace = false
  | .flag .denyTrailing => options.denyTrailing = false
  | .flag .verbose => options.verbose = false
  | .setting .file => options.file = none
  | .setting .format => options.format = none

namespace Sets

variable {groups : List Group} {options : ParseOptions}

theorem empty : Sets [] .empty := by
  constructor <;> simp [ParseOptions.empty]

theorem withInputs (h : Sets groups options) (inputs : List Text) :
    Sets groups { options with inputs := inputs } :=
  ⟨h.file, h.format, h.trace, h.denyTrailing, h.verbose⟩

theorem isUnset (h : Sets groups options) {switch : Switch}
    (hfresh : switch ∉ groups.map Group.switch) : IsUnset options switch := by
  have habsent {group : Group} (hswitch : group.switch = switch) : group ∉ groups :=
    fun hgroup => hfresh (List.mem_map.2 ⟨group, hgroup, hswitch⟩)
  match switch with
  | .help => trivial
  | .flag .trace => exact Bool.eq_false_iff.2 fun hset => habsent rfl (h.trace.1 hset)
  | .flag .denyTrailing =>
      exact Bool.eq_false_iff.2 fun hset => habsent rfl (h.denyTrailing.1 hset)
  | .flag .verbose =>
      refine Bool.eq_false_iff.2 fun hset => ?_
      obtain ⟨letter, hgroup⟩ := h.verbose.1 hset
      exact habsent rfl hgroup
  | .setting .file =>
      refine Option.eq_none_iff_forall_ne_some.2 fun path hset => ?_
      obtain ⟨spelling, hgroup⟩ := (h.file path).1 hset
      exact habsent rfl hgroup
  | .setting .format =>
      refine Option.eq_none_iff_forall_ne_some.2 fun chosen hset => ?_
      obtain ⟨joined, hgroup⟩ := (h.format chosen).1 hset
      exact habsent rfl hgroup

/-- One more option is set, and the others stay as they are. -/
theorem addTo (h : Sets groups options) (group : Group)
    (hunset : IsUnset options group.switch) : Sets (groups ++ [group]) (group.addTo options) := by
  obtain ⟨hfile, hformat, htrace, hdenyTrailing, hverbose⟩ := h
  cases group <;> constructor
  case file.file spelling path =>
    have habsent : forall other spelling, Group.file spelling other ∉ groups := by
      simpa [show options.file = none from hunset] using hfile
    intro other
    simp [Group.addTo, habsent, eq_comm]
  case format.format joined chosen =>
    have habsent : forall other joined, Group.format joined other ∉ groups := by
      simpa [show options.format = none from hunset, and_comm] using hformat
    intro other
    simp only [Group.addTo, List.mem_append, habsent, false_or, List.mem_singleton]
    simp [eq_comm]
  all_goals simp [Group.addTo, hfile, hformat, htrace, hdenyTrailing, hverbose]

end Sets

/-! ## Scanning written options -/

namespace Scan

variable {scan : Scan} {options : ParseOptions}

theorem takeAll_file (hsettle : scan.settle = .ok options) {spelling : Spelling} {path : Text}
    (hpath : (Group.file spelling path).IsProper) (hunset : options.file = none) :
    exists next : Scan, next.settle = .ok { options with file := some path } /\
      forall more, scan.takeAll ((Group.file spelling path).written ++ more) =
        next.takeAll more := by
  have hword : IsWord path := isWord_of_head hpath.2
  have hassign : assign options .file path = .ok { options with file := some path } := by
    simp [assign, hunset, hpath.1]
  cases spelling with
  | apart =>
      have hform : Word.ofText "--file".toList = .long "file".toList none := rfl
      refine ⟨⟨options, some ⟨.file, some path⟩⟩, hassign, fun more => ?_⟩
      exact (takeAll_long hform (takeLong_setting rfl hsettle)).trans (takeAll_value hword)
  | joined =>
      have hform : Word.ofText ("--file=".toList ++ path) = .long "file".toList (some path) := rfl
      refine ⟨⟨{ options with file := some path }, none⟩, rfl, fun more => ?_⟩
      exact takeAll_long hform (takeLong_assigned rfl hsettle hassign)
  | letter =>
      have hform : Word.ofText "-f".toList = .short ['f'] := rfl
      refine ⟨⟨options, some ⟨.file, some path⟩⟩, hassign, fun more => ?_⟩
      exact (takeAll_short hform (takeLetters_setting rfl hsettle)).trans (takeAll_value hword)

theorem takeAll_format (hsettle : scan.settle = .ok options) (chosen : ReportFormat)
    (hunset : options.format = none) (joined : Bool) :
    exists next : Scan, next.settle = .ok { options with format := some chosen } /\
      forall more, scan.takeAll ((Group.format joined chosen).written ++ more) =
        next.takeAll more := by
  have hassign : assign options .format chosen.name =
      .ok { options with format := some chosen } := by
    simp [assign, hunset, ofName?_name]
  cases joined with
  | false =>
      have hform : Word.ofText "--format".toList = .long "format".toList none := rfl
      refine ⟨⟨options, some ⟨.format, some chosen.name⟩⟩, hassign, fun more => ?_⟩
      exact (takeAll_long hform (takeLong_setting rfl hsettle)).trans
        (takeAll_value (isWord_name chosen))
  | true =>
      have hform : Word.ofText ("--format=".toList ++ chosen.name) =
          .long "format".toList (some chosen.name) := rfl
      refine ⟨⟨{ options with format := some chosen }, none⟩, rfl, fun more => ?_⟩
      exact takeAll_long hform (takeLong_assigned rfl hsettle hassign)

/-- An option that is not set yet is taken, however it is written. -/
theorem takeAll_group (hsettle : scan.settle = .ok options) (group : Group)
    (hproper : group.IsProper) (hunset : IsUnset options group.switch) :
    exists next : Scan, next.settle = .ok (group.addTo options) /\
      forall more, scan.takeAll (group.written ++ more) = next.takeAll more := by
  cases group with
  | file spelling path => exact takeAll_file hsettle hproper hunset
  | format joined chosen => exact takeAll_format hsettle chosen hunset joined
  | trace =>
      have hform : Word.ofText "--trace".toList = .long "trace".toList none := rfl
      have hraise : raise options .trace = .ok (Group.trace.addTo options) :=
        if_neg (Bool.eq_false_iff.1 hunset)
      exact ⟨⟨_, none⟩, rfl, fun more => takeAll_long hform (takeLong_flag rfl hsettle hraise)⟩
  | denyTrailing =>
      have hform : Word.ofText "--deny-trailing".toList = .long "deny-trailing".toList none := rfl
      have hraise : raise options .denyTrailing = .ok (Group.denyTrailing.addTo options) :=
        if_neg (Bool.eq_false_iff.1 hunset)
      exact ⟨⟨_, none⟩, rfl, fun more => takeAll_long hform (takeLong_flag rfl hsettle hraise)⟩
  | verbose letter =>
      have hraise : raise options .verbose = .ok ((Group.verbose letter).addTo options) :=
        if_neg (Bool.eq_false_iff.1 hunset)
      refine ⟨⟨_, none⟩, rfl, fun more => ?_⟩
      cases letter with
      | false =>
          have hform : Word.ofText "--verbose".toList = .long "verbose".toList none := rfl
          exact takeAll_long hform (takeLong_flag rfl hsettle hraise)
      | true =>
          have hform : Word.ofText "-v".toList = .short ['v'] := rfl
          exact takeAll_short hform (takeLetters_flag rfl hsettle hraise)

/--
A scan goes on through words and options that are not set yet, up to the end.  At
each point the open value can be settled, and the options that are set then are
those that were seen.
-/
theorem takeAll_interleaves {words : List Text} {groups : List Group} {arguments : List Text}
    (h : Interleaves words groups arguments) (rest : Option (List Text)) :
    forall {scan : Scan} {options : ParseOptions} {seen : List Group},
      scan.settle = .ok options -> Sets seen options ->
      (∀ word ∈ words, IsWord word) -> (∀ group ∈ groups, group.IsProper) ->
      ((seen ++ groups).map Group.switch).Nodup ->
      exists after, scan.takeAll (arguments ++ separated rest) = .ok after /\
        after.inputs = options.inputs ++ words ++ rest.getD [] /\ Sets (seen ++ groups) after := by
  induction h with
  | nil =>
      intro scan options seen hsettle hsets _ _ _
      refine ⟨_, takeAll_separated hsettle rest, by simp, ?_⟩
      simpa using hsets.withInputs _
  | word text _ ih =>
      intro scan options seen hsettle hsets hwords hproper honce
      rw [List.forall_mem_cons] at hwords
      have hnext : settle ⟨{ options with inputs := options.inputs ++ [text] }, none⟩ =
          .ok { options with inputs := options.inputs ++ [text] } := rfl
      obtain ⟨after, htaken, hinputs, hafter⟩ :=
        ih hnext (hsets.withInputs _) hwords.2 hproper honce
      exact ⟨after, (takeAll_word hsettle hwords.1).trans htaken, by simpa using hinputs, hafter⟩
  | group group _ ih =>
      intro scan options seen hsettle hsets hwords hproper honce
      rw [List.forall_mem_cons] at hproper
      have hfresh : group.switch ∉ seen.map Group.switch := by
        rw [List.map_append, List.map_cons] at honce
        exact fun hseen => (List.disjoint_of_nodup_append honce) hseen List.mem_cons_self
      have hunset : IsUnset options group.switch := hsets.isUnset hfresh
      obtain ⟨next, hnext, hstep⟩ := takeAll_group hsettle group hproper.1 hunset
      obtain ⟨after, htaken, hinputs, hafter⟩ :=
        ih hnext (hsets.addTo group hunset) hwords hproper.2 (by simpa using honce)
      refine ⟨after, ?_, ?_, by simpa using hafter⟩
      · rw [List.append_assoc, hstep, htaken]
      · -- No option changes the inputs.
        rw [hinputs]
        cases group <;> rfl

end Scan

/--
However the options of `parse` are written, between the inputs and in any order,
reading them finds the inputs in order and the options that are written.  What
follows a separator is an input, even if it looks like an option.
-/
theorem written_options_are_read {words : List Text} {groups : List Group}
    {arguments : List Text} (h : Interleaves words groups arguments)
    (hwords : ∀ word ∈ words, IsWord word) (hproper : ∀ group ∈ groups, group.IsProper)
    (honce : (groups.map Group.switch).Nodup) (rest : Option (List Text)) :
    exists options : ParseOptions,
      read ("parse".toList :: (arguments ++ separated rest)) = .ok (some (.parse options)) /\
      options.inputs = words ++ rest.getD [] /\ Sets groups options := by
  have hstart : Scan.settle ⟨.empty, none⟩ = .ok .empty := rfl
  obtain ⟨options, htaken, hinputs, hsets⟩ :=
    Scan.takeAll_interleaves h rest hstart .empty hwords hproper honce
  refine ⟨options, ?_, hinputs, hsets⟩
  rw [read, show Word.ofText "parse".toList = .plain "parse".toList from rfl]
  simp only [htaken]
  rfl

/-- Options stand between two inputs, and more inputs that look like options come last. -/
theorem options_between_inputs_are_read :
    Interleaves ["-".toList, "[]".toList] [.verbose true, .format true .json, .file .letter ['p']]
        ["-v".toList, "-".toList, "--format=json".toList, "-f".toList, ['p'], "[]".toList] /\
      (∀ word ∈ ["-".toList, "[]".toList], IsWord word) /\
      exists options : ParseOptions,
        read ["parse".toList, "-v".toList, "-".toList, "--format=json".toList, "-f".toList, ['p'],
          "[]".toList, "--".toList, "--trace".toList, "-".toList] = .ok (some (.parse options)) /\
        options.inputs = ["-".toList, "[]".toList, "--trace".toList, "-".toList] /\
        Sets [.verbose true, .format true .json, .file .letter ['p']] options := by
  have hlayout : Interleaves ["-".toList, "[]".toList]
      [.verbose true, .format true .json, .file .letter ['p']]
      ["-v".toList, "-".toList, "--format=json".toList, "-f".toList, ['p'], "[]".toList] :=
    .group (.verbose true) (.word _ (.group (.format true .json) (.group (.file .letter ['p'])
      (.word _ .nil))))
  have hwords : ∀ word ∈ ["-".toList, "[]".toList], IsWord word := by
    simp [IsWord]
  have hproper : ∀ group ∈ [Group.verbose true, .format true .json, .file .letter ['p']],
      group.IsProper := by
    simp [Group.IsProper]
  exact ⟨hlayout, hwords, written_options_are_read hlayout hwords hproper (by decide)
    (some ["--trace".toList, "-".toList])⟩

end TranslationKeys.Arguments
