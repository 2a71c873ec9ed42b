import Mathlib.Data.List.Basic
import TranslationKeys.Proofs.Streams

/-!
# Lines as inputs

A file is taken as one text and divided into lines.  Standard input is read one
line at a time, and each line has to be a text of its own.  No byte of a longer
character is a line feed, so both find the same lines, and both fail for the same
bytes.  So it makes no difference to a run where its inputs are kept.
-/

namespace TranslationKeys

namespace Text

/-! ## Parts up to a mark -/

section SplitAfter

variable {α : Type} [DecidableEq α] {mark : α} {front : List α}

theorem splitAfter_append_mark (h : mark ∉ front) (back : List α) :
    splitAfter mark (front ++ mark :: back) = (front ++ [mark]) :: splitAfter mark back := by
  induction front with
  | nil => simp [splitAfter]
  | cons item rest ih =>
      rw [List.mem_cons, not_or] at h
      rw [List.cons_append, splitAfter, if_neg (Ne.symm h.1), ih h.2]
      rfl

theorem splitAfter_of_not_mem (hmark : mark ∉ front) (hfront : front ≠ []) :
    splitAfter mark front = [front] := by
  induction front with
  | nil => exact absurd rfl hfront
  | cons item rest ih =>
      rw [List.mem_cons, not_or] at hmark
      rw [splitAfter, if_neg (Ne.symm hmark.1)]
      cases rest with
      | nil => rfl
      | cons second more => rw [ih hmark.2 (List.cons_ne_nil second more)]

/-- The parts hold everything, in order. -/
theorem flatten_splitAfter (mark : α) (items : List α) :
    (splitAfter mark items).flatten = items := by
  fun_induction splitAfter mark items with
  | case1 => rfl
  | case2 rest ih => rw [List.flatten_cons, ih, List.singleton_append]
  | case3 item rest hitem hnone ih =>
      rw [hnone] at ih
      rw [← ih]
      rfl
  | case4 item rest hitem part more hparts ih =>
      rw [hparts] at ih
      rw [List.flatten_cons, List.cons_append, ← List.flatten_cons, ih]

end SplitAfter

/-! ## Ends of lines -/

theorem dropLineEnd_feed (line : Text) :
    dropLineEnd (line ++ ['\n']) =
      if line.getLast? = some '\r' then line.dropLast else line := by
  simp [dropLineEnd]

theorem dropLineEnd_of_not_mem {line : Text} (h : '\n' ∉ line) : dropLineEnd line = line := by
  have hlast : line.getLast? ≠ some '\n' := fun hlast => h (List.mem_of_getLast? hlast)
  simp [dropLineEnd, hlast]

/-- A character in front of a line does not belong to the end of the line, if any is left. -/
theorem dropLineEnd_cons_feed {c : Char} {line : Text} (h : ¬ (c = '\r' /\ line = [])) :
    dropLineEnd (c :: line ++ ['\n']) = c :: dropLineEnd (line ++ ['\n']) := by
  rw [dropLineEnd_feed, dropLineEnd_feed]
  cases line with
  | nil =>
      have hc : c ≠ '\r' := fun hc => h ⟨hc, rfl⟩
      simp [hc]
  | cons first rest =>
      rw [List.getLast?_cons_cons, List.dropLast_cons_cons]
      split <;> rfl

/-- The first line of a text, without its end, and the lines behind it. -/
theorem lines_append_feed {front : Text} (h : '\n' ∉ front) (back : Text) :
    lines (front ++ '\n' :: back) = dropLineEnd (front ++ ['\n']) :: lines back := by
  induction front with
  | nil => rfl
  | cons c rest ih =>
      rw [List.mem_cons, not_or] at h
      by_cases hreturn : c = '\r' /\ rest = []
      · -- This carriage return belongs to the end of the line.
        obtain ⟨rfl, rfl⟩ := hreturn
        rfl
      · rw [dropLineEnd_cons_feed hreturn, List.cons_append, lines, ih h.2]
        · exact fun hfeed => h.1 hfeed.symm
        · intro more hc hrest
          refine hreturn ⟨hc, ?_⟩
          cases rest with
          | nil => rfl
          | cons second tail =>
              rw [List.cons_append, List.cons.injEq] at hrest
              exact absurd (hrest.1 ▸ List.mem_cons_self) h.2

theorem lines_of_not_mem {line : Text} (hfeed : '\n' ∉ line) (hline : line ≠ []) :
    lines line = [line] := by
  induction line with
  | nil => exact absurd rfl hline
  | cons c rest ih =>
      rw [List.mem_cons, not_or] at hfeed
      rw [lines]
      · cases rest with
        | nil => rfl
        | cons second more => rw [ih hfeed.2 (List.cons_ne_nil second more)]
      · exact fun hc => hfeed.1 hc.symm
      · rintro more - rfl
        exact hfeed.2 List.mem_cons_self

/-- The lines of a text are its parts up to each line feed, without their ends. -/
theorem lines_eq_map_splitAfter (text : Text) :
    lines text = (splitAfter '\n' text).map dropLineEnd := by
  induction hlength : text.length using Nat.strongRecOn generalizing text with
  | ind length ih =>
      by_cases hfeed : '\n' ∈ text
      · obtain ⟨front, back, rfl, hfront⟩ := List.eq_append_cons_of_mem hfeed
        rw [lines_append_feed hfront, splitAfter_append_mark hfront, List.map_cons,
          ih back.length (by simp at hlength; omega) back rfl]
      · by_cases hempty : text = []
        · rw [hempty]
          rfl
        · rw [lines_of_not_mem hfeed hempty, splitAfter_of_not_mem hfeed hempty, List.map_cons,
            dropLineEnd_of_not_mem hfeed, List.map_nil]

/-! ## Bytes of characters -/

/-- The bytes of a text. -/
def utf8 (text : Text) : List UInt8 :=
  text.flatMap String.utf8EncodeChar

theorem utf8_append (front back : Text) : utf8 (front ++ back) = utf8 front ++ utf8 back :=
  List.flatMap_append

theorem utf8_append_feed (front back : Text) :
    utf8 (front ++ '\n' :: back) = utf8 front ++ lineFeed :: utf8 back :=
  utf8_append front ('\n' :: back)

theorem utf8_ne_nil {text : Text} (h : text ≠ []) : utf8 text ≠ [] := by
  obtain ⟨c, rest, rfl⟩ := List.exists_cons_of_ne_nil h
  rw [utf8, List.flatMap_cons]
  exact List.append_ne_nil_of_left_ne_nil String.utf8EncodeChar_ne_nil _

/-- No character but the line feed has the byte of the line feed. -/
theorem eq_feed_of_mem_utf8EncodeChar {c : Char} (h : lineFeed ∈ String.utf8EncodeChar c) :
    c = '\n' := by
  have hbyte (n : Nat) (hn : lineFeed = UInt8.ofNat n) : n % 256 = 10 := by
    have hvalue := congrArg UInt8.toNat hn
    simpa [lineFeed] using hvalue.symm
  unfold String.utf8EncodeChar at h
  dsimp only at h
  split at h
  · have hvalue := hbyte _ (List.mem_singleton.1 h)
    have hc : c.val.toNat = 10 := by omega
    exact Char.ext (UInt32.toNat_inj.1 hc)
  · -- The bytes of a longer character are above those of all single ones.
    exfalso
    split at h
    · simp only [List.mem_cons, List.not_mem_nil, or_false] at h
      rcases h with h | h <;> have hvalue := hbyte _ h <;> omega
    · split at h
      · simp only [List.mem_cons, List.not_mem_nil, or_false] at h
        rcases h with h | h | h <;> have hvalue := hbyte _ h <;> omega
      · simp only [List.mem_cons, List.not_mem_nil, or_false] at h
        rcases h with h | h | h | h <;> have hvalue := hbyte _ h <;> omega

theorem lineFeed_not_mem_utf8 {text : Text} (h : '\n' ∉ text) : lineFeed ∉ utf8 text := by
  intro hbyte
  obtain ⟨c, hc, hmem⟩ := List.mem_flatMap.1 hbyte
  exact h (eq_feed_of_mem_utf8EncodeChar hmem ▸ hc)

/-- Dividing at line feeds commutes with writing bytes. -/
theorem splitAfter_utf8 (text : Text) :
    splitAfter lineFeed (utf8 text) = (splitAfter '\n' text).map utf8 := by
  induction hlength : text.length using Nat.strongRecOn generalizing text with
  | ind length ih =>
      by_cases hfeed : '\n' ∈ text
      · obtain ⟨front, back, rfl, hfront⟩ := List.eq_append_cons_of_mem hfeed
        rw [utf8_append_feed, splitAfter_append_mark (lineFeed_not_mem_utf8 hfront),
          splitAfter_append_mark hfront, List.map_cons, utf8_append_feed,
          ih back.length (by simp at hlength; omega) back rfl]
        rfl
      · by_cases hempty : text = []
        · rw [hempty]
          rfl
        · rw [splitAfter_of_not_mem hfeed hempty,
            splitAfter_of_not_mem (lineFeed_not_mem_utf8 hfeed) (utf8_ne_nil hempty)]
          rfl

theorem toBytes_data (text : Text) : (toBytes text).data.toList = utf8 text := by
  rw [toBytes, String.toUTF8, String.toByteArray_ofList, List.utf8Encode,
    List.data_toByteArray, List.toList_toArray]
  rfl

theorem eq_toBytes_iff {bytes : ByteArray} {text : Text} :
    bytes = toBytes text <-> bytes.data.toList = utf8 text := by
  rw [← toBytes_data, Array.toList_inj, ByteArray.ext_iff]

theorem ofBytes?_eq_some_iff {bytes : ByteArray} {text : Text} :
    ofBytes? bytes = some text <-> bytes.data.toList = utf8 text := by
  rw [← eq_toBytes_iff]
  constructor
  · intro h
    obtain ⟨string, hstring, rfl⟩ := Option.map_eq_some_iff.1 h
    unfold String.fromUTF8? at hstring
    split at hstring
    · cases hstring
      rw [toBytes, String.ofList_toList]
      rfl
    · cases hstring
  · rintro rfl
    exact ofBytes?_toBytes text

theorem isValidUTF8_iff {bytes : ByteArray} :
    bytes.IsValidUTF8 <-> exists text, ofBytes? bytes = some text := by
  constructor
  · rintro ⟨text, rfl⟩
    refine ⟨text, ofBytes?_eq_some_iff.2 ?_⟩
    rw [List.utf8Encode, List.data_toByteArray, List.toList_toArray]
    rfl
  · rintro ⟨text, htext⟩
    refine ⟨text, ?_⟩
    rw [ofBytes?_eq_some_iff, ← eq_toBytes_iff] at htext
    rw [htext, toBytes, String.toUTF8, String.toByteArray_ofList]

/-! ## Streams that are read line by line -/

theorem ofBytes?_utf8 (text : Text) : ofBytes? (utf8 text).toByteArray = some text := by
  rw [ofBytes?_eq_some_iff, List.data_toByteArray, List.toList_toArray]

/-- The bytes of texts one after the other are those of a text. -/
theorem exists_utf8_flatten {parts : List (List UInt8)}
    (h : ∀ part ∈ parts, exists text, part = utf8 text) :
    exists text, parts.flatten = utf8 text := by
  induction parts with
  | nil => exact ⟨[], rfl⟩
  | cons part rest ih =>
      rw [List.forall_mem_cons] at h
      obtain ⟨first, rfl⟩ := h.1
      obtain ⟨others, hothers⟩ := ih h.2
      exact ⟨first ++ others, by rw [List.flatten_cons, hothers, utf8_append]⟩

/-- A sequence of steps stops at the first one without a result. -/
theorem mapM_eq_none_iff {α β : Type} {step : α -> Option β} {items : List α} :
    items.mapM step = none <-> ∃ item ∈ items, step item = none := by
  induction items with
  | nil => simp
  | cons item items ih =>
      rw [List.mapM_cons, List.exists_mem_cons_iff, ← ih]
      cases hitem : step item with
      | none => simp
      | some result => cases hitems : items.mapM step <;> simp

/-- Reading line by line finds the lines of the whole text, and fails only if there is none. -/
theorem readLines?_eq (bytes : ByteArray) :
    readLines? bytes = (ofBytes? bytes).map lines := by
  unfold readLines?
  cases htext : ofBytes? bytes with
  | some text =>
      rw [ofBytes?_eq_some_iff.1 htext, splitAfter_utf8, Option.map_some,
        lines_eq_map_splitAfter, List.mapM_map]
      simp only [Function.comp_def, ofBytes?_utf8, Option.map_some]
      exact List.mapM_pure
  | none =>
      rw [Option.map_none, mapM_eq_none_iff]
      by_contra hall
      -- If each part is a text, all of them together are one.
      have hparts : ∀ part ∈ splitAfter lineFeed bytes.data.toList,
          exists text, part = utf8 text := by
        intro part hpart
        cases hline : ofBytes? part.toByteArray with
        | none => exact absurd ⟨part, hpart, by rw [hline, Option.map_none]⟩ hall
        | some line =>
            rw [ofBytes?_eq_some_iff, List.data_toByteArray, List.toList_toArray] at hline
            exact ⟨line, hline⟩
      obtain ⟨text, hflatten⟩ := exists_utf8_flatten hparts
      rw [flatten_splitAfter, ← ofBytes?_eq_some_iff, htext] at hflatten
      cases hflatten

/-! ## Written lines -/

/-- A line holds no line feed, and no carriage return stands at its end. -/
structure IsLine (line : Text) : Prop where
  noFeed : '\n' ∉ line
  noReturn : line.getLast? ≠ some '\r'

/--
A text that some lines are written in.  Each of them is ended by a line feed or
by a carriage return and a line feed.  The last one may be left without an end.
-/
inductive HoldsLines : List Text -> Text -> Prop where
  | nil : HoldsLines [] []
  | unended (line : Text) : HoldsLines [line] line
  | feed (line : Text) {others : List Text} {rest : Text} :
      HoldsLines others rest -> HoldsLines (line :: others) (line ++ '\n' :: rest)
  | returnFeed (line : Text) {others : List Text} {rest : Text} :
      HoldsLines others rest -> HoldsLines (line :: others) (line ++ '\r' :: '\n' :: rest)

theorem IsLine.lines_append_feed {line : Text} (h : IsLine line) (rest : Text) :
    lines (line ++ '\n' :: rest) = line :: lines rest := by
  rw [Text.lines_append_feed h.noFeed, dropLineEnd_feed, if_neg h.noReturn]

theorem IsLine.lines_append_returnFeed {line : Text} (h : IsLine line) (rest : Text) :
    lines (line ++ '\r' :: '\n' :: rest) = line :: lines rest := by
  have hfeed : '\n' ∉ line ++ ['\r'] := by simpa using h.noFeed
  rw [← List.singleton_append, ← List.append_assoc, Text.lines_append_feed hfeed,
    dropLineEnd_feed, List.getLast?_concat, if_pos rfl, List.dropLast_concat]

/-- The lines with content are found again.  An empty line at the very end has none. -/
theorem contentLines_of_holdsLines {all : List Text} {text : Text} (h : HoldsLines all text)
    (hlines : ∀ line ∈ all, IsLine line) : contentLines text = withContent all := by
  unfold contentLines
  induction h with
  | nil => rfl
  | unended line =>
      by_cases hempty : line = []
      · rw [hempty]
        rfl
      · rw [lines_of_not_mem (hlines line List.mem_cons_self).noFeed hempty]
  | feed line _ ih =>
      rw [List.forall_mem_cons] at hlines
      rw [hlines.1.lines_append_feed]
      simp only [withContent, List.filter_cons] at ih ⊢
      rw [ih hlines.2]
  | returnFeed line _ ih =>
      rw [List.forall_mem_cons] at hlines
      rw [hlines.1.lines_append_returnFeed]
      simp only [withContent, List.filter_cons] at ih ⊢
      rw [ih hlines.2]

theorem withContent_eq_filter (all : List Text) :
    withContent all = all.filter fun line => line.any fun c => !isWhiteSpace c := by
  simp only [withContent, isBlank, List.not_all_eq_any_not]

end Text

/-! ## Inputs of runs -/

variable {files : Files} {options : ParseOptions} {name : Text} {bytes : ByteArray}

/-- What a named file gives, as the lines of what it holds. -/
theorem gatherInputs_file {cwd : Location} (stdin : ByteArray) (hfile : options.file = some name)
    (hcontent : files.read cwd ⟨name⟩ = .ok bytes) :
    gatherInputs files cwd stdin options =
      match Text.ofBytes? bytes with
      | some text => .ok (options.inputs ++ Text.contentLines text)
      | none => .error (.inputFile ⟨name⟩ .invalidText) := by
  have htext : files.readText cwd ⟨name⟩ =
      match Text.ofBytes? bytes with
      | some text => .ok text
      | none => .error .invalidText := by
    rw [Files.readText, hcontent]
    rfl
  simp only [gatherInputs, hfile, htext]
  cases Text.ofBytes? bytes <;> rfl

/-- What standard input gives, as the lines of what it holds. -/
theorem gatherInputs_stream (files : Files) (cwd : Location) (stdin : ByteArray)
    (hfile : options.file = none) (hinputs : options.inputs = []) :
    gatherInputs files cwd stdin options =
      match Text.ofBytes? stdin with
      | some text => .ok (Text.contentLines text)
      | none => .error .standardInput := by
  simp only [gatherInputs, hfile, hinputs, Text.readLines?_eq]
  cases Text.ofBytes? stdin <;> rfl

/--
Two runs of `parse` with the same options in a directory whose settings can be
loaded.  One takes its inputs from a file and the other from standard input, and
both find the same bytes there.
-/
structure TakeSameBytes (files : Files) (fromFile fromStream : Invocation)
    (options : ParseOptions) (name : Text) (bytes : ByteArray) : Prop where
  fileCommand : Arguments.read fromFile.arguments =
    .ok (some (.parse { options with inputs := [], file := some name }))
  streamCommand : Arguments.read fromStream.arguments =
    .ok (some (.parse { options with inputs := [], file := none }))
  fileContent : files.read fromFile.cwd ⟨name⟩ = .ok bytes
  streamContent : fromStream.stdin = bytes
  cwd : fromFile.cwd = fromStream.cwd
  colour : fromFile.colour = fromStream.colour
  settings : exists loaded, Config.load files fromFile.cwd fromFile.cwd.toPath = .ok loaded

section TakeSameBytes

variable {fromFile fromStream : Invocation}

/-- The endings of both runs, as far as they depend on the bytes. -/
theorem TakeSameBytes.runs_eq (h : TakeSameBytes files fromFile fromStream options name bytes)
    (measure : Text -> Nat) :
    exists config : Config,
      runBy measure files fromFile =
        ((match Text.ofBytes? bytes with
          | some text => finishBy measure fromFile.colour
              (.parsed (summarize config options (Text.contentLines text)))
          | none => .internal (.inputFile ⟨name⟩ .invalidText)), files) /\
      runBy measure files fromStream =
        ((match Text.ofBytes? bytes with
          | some text => finishBy measure fromFile.colour
              (.parsed (summarize config options (Text.contentLines text)))
          | none => .internal .standardInput), files) := by
  obtain ⟨loaded, hload⟩ := h.settings
  have hload' : Config.load files fromStream.cwd fromStream.cwd.toPath = .ok loaded := by
    rw [← h.cwd, hload]
  refine ⟨loaded.config, ?_, ?_⟩
  · rw [runBy_of_load h.fileCommand hload, Invocation.endingUnder,
      gatherInputs_file _ rfl h.fileContent]
    cases Text.ofBytes? bytes <;> rfl
  · rw [runBy_of_load h.streamCommand hload', Invocation.endingUnder,
      gatherInputs_stream _ _ _ rfl rfl, h.streamContent, h.colour]
    cases Text.ofBytes? bytes <;> rfl

end TakeSameBytes

/--
The inputs of a run are the lines with content, unchanged and in order, behind
all inputs among the arguments.  It makes no difference how the lines are ended,
nor whether they are in a file or come from standard input: two such runs are the
same if the bytes are UTF-8, and otherwise neither can be carried out.
-/
theorem inputs_are_lines_of_file_or_stream (files : Files) :
    (forall (all : List Text) (text : Text),
      (∀ line ∈ all, Text.IsLine line) -> Text.HoldsLines all text ->
      (forall (cwd : Location) (stdin : ByteArray) (options : ParseOptions) (name : Text),
        options.file = some name -> files.read cwd ⟨name⟩ = .ok (Text.toBytes text) ->
        gatherInputs files cwd stdin options = .ok (options.inputs ++
          all.filter fun line => line.any fun c => !Text.isWhiteSpace c)) /\
      (forall (cwd : Location) (options : ParseOptions),
        options.file = none -> options.inputs = [] ->
        gatherInputs files cwd (Text.toBytes text) options = .ok
          (all.filter fun line => line.any fun c => !Text.isWhiteSpace c))) /\
    (forall (measure : Text -> Nat) (fromFile fromStream : Invocation) (options : ParseOptions)
        (name : Text) (bytes : ByteArray),
      TakeSameBytes files fromFile fromStream options name bytes ->
      (bytes.IsValidUTF8 -> runBy measure files fromFile = runBy measure files fromStream /\
        forall error, (runBy measure files fromFile).1 ≠ .internal error) /\
      (¬ bytes.IsValidUTF8 ->
        (exists error, (runBy measure files fromFile).1 = .internal error) /\
          exists error, (runBy measure files fromStream).1 = .internal error)) := by
  constructor
  · intro all text hlines hholds
    have hcontent : Text.contentLines text =
        all.filter fun line => line.any fun c => !Text.isWhiteSpace c := by
      rw [Text.contentLines_of_holdsLines hholds hlines, Text.withContent_eq_filter]
    constructor
    · intro cwd stdin options name hfile hread
      rw [gatherInputs_file stdin hfile hread, Text.ofBytes?_toBytes, ← hcontent]
    · intro cwd options hfile hinputs
      rw [gatherInputs_stream files cwd _ hfile hinputs, Text.ofBytes?_toBytes, ← hcontent]
  · intro measure fromFile fromStream options name bytes hsame
    obtain ⟨config, hfile, hstream⟩ := hsame.runs_eq measure
    constructor
    · intro hvalid
      obtain ⟨text, htext⟩ := Text.isValidUTF8_iff.1 hvalid
      rw [hfile, hstream, htext]
      exact ⟨rfl, finishBy_ne_internal _ _ _⟩
    · intro hinvalid
      have hnone : Text.ofBytes? bytes = none := by
        rw [Option.eq_none_iff_forall_ne_some]
        intro text htext
        exact hinvalid (Text.isValidUTF8_iff.2 ⟨text, htext⟩)
      rw [hfile, hstream, hnone]
      exact ⟨⟨_, rfl⟩, ⟨_, rfl⟩⟩

/-! ## A file and a stream with the same bytes -/

/-- Files of a system with nothing but one file, in its root. -/
def oneFile (bytes : ByteArray) : Files :=
  ⟨fun location =>
    if location = [] then some .directory
    else if location = ["in".toList] then some (.file bytes)
    else none⟩

theorem oneFile_takesSameBytes (bytes : ByteArray) :
    TakeSameBytes (oneFile bytes)
      ⟨["parse".toList, "--file".toList, "in".toList], .empty, [], false⟩
      ⟨["parse".toList], bytes, [], false⟩ .empty "in".toList bytes :=
  ⟨by rfl, by rfl, by rfl, by rfl, by rfl, by rfl, ⟨⟨.default, false⟩, by rfl⟩⟩

/-- A blank line is left out, the ends of lines differ, and a byte that is no text stops both. -/
theorem oneFile_is_read_like_stream :
    gatherInputs (oneFile (Text.toBytes "a\r\n \nb".toList)) [] .empty
        { ParseOptions.empty with inputs := [['c']], file := some "in".toList } =
      .ok [['c'], ['a'], ['b']] /\
    run (oneFile (Text.toBytes "a\r\n \nb".toList))
        ⟨["parse".toList, "--file".toList, "in".toList], .empty, [], false⟩ =
      run (oneFile (Text.toBytes "a\r\n \nb".toList))
        ⟨["parse".toList], Text.toBytes "a\r\n \nb".toList, [], false⟩ /\
    exists error, (run (oneFile ⟨#[0xFF]⟩) ⟨["parse".toList], ⟨#[0xFF]⟩, [], false⟩).1 =
      .internal error := by
  have hlines : Text.HoldsLines [['a'], [' '], ['b']] "a\r\n \nb".toList :=
    .returnFeed ['a'] (.feed [' '] (.unended ['b']))
  have hall : ∀ line ∈ [['a'], [' '], ['b']], Text.IsLine line := by
    intro line hline
    constructor <;> revert line <;> decide
  have hvalid : (Text.toBytes "a\r\n \nb".toList).IsValidUTF8 :=
    Text.isValidUTF8_iff.2 ⟨_, Text.ofBytes?_toBytes _⟩
  have hinvalid : ¬ (⟨#[0xFF]⟩ : ByteArray).IsValidUTF8 := by
    decide
  refine ⟨?_, ?_, ?_⟩
  · rw [((inputs_are_lines_of_file_or_stream _).1 _ _ hall hlines).1 [] .empty _ _ rfl rfl]
    rfl
  · exact (((inputs_are_lines_of_file_or_stream _).2 Text.displayWidth _ _ _ _ _
      (oneFile_takesSameBytes _)).1 hvalid).1
  · exact (((inputs_are_lines_of_file_or_stream _).2 Text.displayWidth _ _ _ _ _
      (oneFile_takesSameBytes _)).2 hinvalid).2

end TranslationKeys
