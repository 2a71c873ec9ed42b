import TranslationKeys.Proofs.OpenBlocks
import TranslationKeys.Proofs.Walk

/-!
# The blocks of a written call

The blocks of a call are listed in the order in which their braces are written, each
with the number of blocks around it and the text up to its brace.  Reading the
written form counts the blocks that are open, so it stops behind the first brace
that has as many blocks around it as may be open.  What comes before that brace is
read without complaint, however many blocks were opened and closed there.
-/

namespace TranslationKeys

open Lexeme

/-! ## Opening braces -/

/-- The place where a block of a call is opened. -/
structure Opening where
  /-- Number of blocks around the block. -/
  enclosing : Nat
  /-- What is written up to the brace of the block, with the brace. -/
  through : Text
  deriving DecidableEq, Repr

namespace Opening

/-- Offset of the end of the brace. -/
def stop (opening : Opening) : Nat :=
  Text.byteLength opening.through

/-- The place in a text that starts with `front`. -/
def behind (front : Text) (opening : Opening) : Opening :=
  ⟨opening.enclosing, front ++ opening.through⟩

/-- The place in a block that is opened at the end of `front`. -/
def within (front : Text) (opening : Opening) : Opening :=
  ⟨opening.enclosing + 1, front ++ opening.through⟩

@[simp]
theorem stop_behind (front : Text) (opening : Opening) :
    (opening.behind front).stop = Text.byteLength front + opening.stop :=
  Text.byteLength_append front opening.through

@[simp]
theorem stop_within (front : Text) (opening : Opening) :
    (opening.within front).stop = Text.byteLength front + opening.stop :=
  Text.byteLength_append front opening.through

theorem behind_append (first second : Text) :
    behind (first ++ second) = behind first ∘ behind second := by
  funext opening
  simp [behind]

end Opening

mutual

/-- The places where the blocks of a call are opened, in the order of its written form. -/
def Call.openings : Call -> List Opening
  | .bare _ => []
  | .block key params =>
      ⟨0, marker ++ (key ++ ['{'])⟩ ::
        (params.openings []).map (.within (marker ++ (key ++ ['{'])))

def Params.openings (separator : Text) : Params -> List Opening
  | .nil => []
  | .cons name value rest =>
      value.openings.map (.behind (separator ++ (name ++ [':', ' ']))) ++
        (rest.openings [',', ' ']).map
          (.behind (separator ++ (name ++ (':' :: ' ' :: value.render))))

def Value.openings : Value -> List Opening
  | .literal _ => []
  | .nested call => call.openings

end

theorem Params.openings_append (first second : Text) (params : Params) :
    params.openings (first ++ second) = (params.openings second).map (.behind first) := by
  cases params with
  | nil => rfl
  | cons name value rest =>
      simp only [Params.openings, List.map_append, List.map_map, ← Opening.behind_append,
        List.append_assoc]

mutual

/-- There is one place for each call with a block. -/
theorem Call.length_openings : forall call : Call,
    call.openings.length = (call.calls.filter (·.params?.isSome)).length
  | .bare _ => rfl
  | .block key params => by
      simp [Call.openings, Call.calls, Call.params?, params.length_openings]

theorem Params.length_openings : forall (params : Params) {separator : Text},
    (params.openings separator).length = (params.calls.filter (·.params?.isSome)).length
  | .nil, _ => rfl
  | .cons _ value rest, _ => by
      simp [Params.openings, Params.calls, value.length_openings, rest.length_openings]

theorem Value.length_openings : forall value : Value,
    value.openings.length = (value.calls.filter (·.params?.isSome)).length
  | .literal _ => rfl
  | .nested call => call.length_openings

end

/-! ## Places in the written form -/

/-- The place is one in a text whose blocks lie in each other at most so often. -/
structure Opening.LiesIn (nesting : Nat) (text : Text) (opening : Opening) : Prop where
  enclosing_lt : opening.enclosing < nesting
  stop_pos : 0 < opening.stop
  through_prefix : opening.through <+: text

namespace Opening.LiesIn

variable {nesting : Nat} {text : Text} {opening : Opening}

theorem stop_le (h : opening.LiesIn nesting text) : opening.stop <= Text.byteLength text := by
  obtain ⟨rest, rfl⟩ := h.through_prefix
  rw [Text.byteLength_append]
  exact Nat.le_add_right _ _

theorem behind (h : opening.LiesIn nesting text) {more : Nat} (hmore : nesting <= more)
    (front after : Text) : (opening.behind front).LiesIn more (front ++ (text ++ after)) where
  enclosing_lt := Nat.lt_of_lt_of_le h.enclosing_lt hmore
  stop_pos := by
    rw [stop_behind]
    exact Nat.lt_add_left _ h.stop_pos
  through_prefix :=
    (List.prefix_append_right_inj front).2 (h.through_prefix.trans (List.prefix_append text after))

theorem within (h : opening.LiesIn nesting text) (front after : Text) :
    (opening.within front).LiesIn (nesting + 1) (front ++ (text ++ after)) where
  enclosing_lt := Nat.succ_lt_succ h.enclosing_lt
  stop_pos := by
    rw [stop_within]
    exact Nat.lt_add_left _ h.stop_pos
  through_prefix :=
    (List.prefix_append_right_inj front).2 (h.through_prefix.trans (List.prefix_append text after))

end Opening.LiesIn

mutual

theorem Call.openings_lieIn : forall (call : Call),
    ∀ opening ∈ call.openings, opening.LiesIn call.nesting call.render
  | .bare _ => by simp [Call.openings]
  | .block key params => by
      intro opening hopening
      simp only [Call.openings, List.mem_cons, List.mem_map] at hopening
      rcases hopening with rfl | ⟨inner, hinner, rfl⟩
      · refine ⟨Nat.succ_pos _, Nat.pos_of_ne_zero ?_, ?_⟩
        · exact mt Text.byteLength_eq_zero_iff.1 (by simp [marker])
        · exact ⟨params.render [] ++ ['}'], by simp [Call.render]⟩
      · have hwithin := (params.openings_lieIn [] inner hinner).within
          (marker ++ (key ++ ['{'])) ['}']
        simpa [Call.nesting, Call.render] using hwithin

theorem Params.openings_lieIn : forall (params : Params) (separator : Text),
    ∀ opening ∈ params.openings separator,
      opening.LiesIn params.nesting (params.render separator)
  | .nil, _ => by simp [Params.openings]
  | .cons name value rest, separator => by
      intro opening hopening
      simp only [Params.openings, List.mem_append, List.mem_map] at hopening
      rcases hopening with ⟨inner, hinner, rfl⟩ | ⟨inner, hinner, rfl⟩
      · have hbehind := (value.openings_lieIn inner hinner).behind
          (Nat.le_max_left _ rest.nesting) (separator ++ (name ++ [':', ' ']))
            (rest.render [',', ' '])
        simpa [Params.nesting, Params.render] using hbehind
      · have hbehind := (rest.openings_lieIn [',', ' '] inner hinner).behind
          (Nat.le_max_right value.nesting _)
            (separator ++ (name ++ (':' :: ' ' :: value.render))) []
        simpa [Params.nesting, Params.render] using hbehind

theorem Value.openings_lieIn : forall (value : Value),
    ∀ opening ∈ value.openings, opening.LiesIn value.nesting value.render
  | .literal _ => by simp [Value.openings]
  | .nested call => call.openings_lieIn

end

theorem Value.openings_of_nesting_le {value : Value} {free : Nat} (h : value.nesting <= free)
    (front : Text) : ∀ opening ∈ value.openings.map (Opening.behind front),
      opening.enclosing < free := by
  intro opening hopening
  obtain ⟨inner, hinner, rfl⟩ := List.mem_map.1 hopening
  exact Nat.lt_of_lt_of_le (value.openings_lieIn inner hinner).enclosing_lt h

mutual

/-- The places are listed from the start of the written form to its end. -/
theorem Call.openings_pairwise : forall (call : Call),
    call.openings.Pairwise (·.stop < ·.stop)
  | .bare _ => .nil
  | .block key params => by
      rw [Call.openings, List.pairwise_cons, List.pairwise_map]
      constructor
      · intro opening hopening
        obtain ⟨inner, hinner, rfl⟩ := List.mem_map.1 hopening
        rw [Opening.stop_within]
        exact Nat.lt_add_of_pos_right (params.openings_lieIn [] inner hinner).stop_pos
      · simpa using params.openings_pairwise []

theorem Params.openings_pairwise : forall (params : Params) (separator : Text),
    (params.openings separator).Pairwise (·.stop < ·.stop)
  | .nil, _ => .nil
  | .cons name value rest, separator => by
      rw [Params.openings, List.pairwise_append, List.pairwise_map, List.pairwise_map]
      refine ⟨by simpa using value.openings_pairwise,
        by simpa using rest.openings_pairwise [',', ' '], ?_⟩
      intro first hfirst second hsecond
      obtain ⟨inner, hinner, rfl⟩ := List.mem_map.1 hfirst
      obtain ⟨later, hlater, rfl⟩ := List.mem_map.1 hsecond
      have hle := (value.openings_lieIn inner hinner).stop_le
      have hpos := (rest.openings_lieIn [',', ' '] later hlater).stop_pos
      simp only [Opening.stop_behind, Text.byteLength_append, Text.byteLength_cons,
        Text.byteLength_nil]
      omega

theorem Value.openings_pairwise : forall (value : Value),
    value.openings.Pairwise (·.stop < ·.stop)
  | .literal _ => .nil
  | .nested call => call.openings_pairwise

end

/-! ## The first block that is nested too deep -/

/--
Of the places in order, the first with `free` blocks around it is the one in front
of which `front` is written, of a block with the given key.
-/
def OpensFirst (free : Nat) (openings : List Opening) (front key : Text) : Prop :=
  exists earlier later,
    openings = earlier ++ ⟨free, front ++ (marker ++ (key ++ ['{']))⟩ :: later /\
      ∀ opening ∈ earlier, opening.enclosing < free

/-- Reading a call that is written as `text` breaks off behind a brace, the first too many. -/
def CallOverflows (free : Nat) (openings : List Opening) (text : Text) : Prop :=
  exists front key inner, text = front ++ (marker ++ (key ++ '{' :: inner)) /\ IsKey key /\
    OpensFirst free openings front key /\
      forall rest, CallStart .value free free front (marker ++ (key ++ '{' :: (inner ++ rest)))

/-- Reading the entries that are written as `text` breaks off in the same way. -/
def BlockOverflows (free : Nat) (openings : List Opening) (text : Text) : Prop :=
  exists front key inner, text = front ++ (marker ++ (key ++ '{' :: inner)) /\ IsKey key /\
    OpensFirst free openings front key /\
      forall rest, BlockStart .value free free front (marker ++ (key ++ '{' :: (inner ++ rest)))

section Closure

variable {free : Nat} {openings : List Opening} {text front key : Text}

namespace OpensFirst

theorem within (h : OpensFirst free openings front key) (outer : Text) :
    OpensFirst (free + 1) (⟨0, outer⟩ :: openings.map (.within outer)) (outer ++ front) key := by
  obtain ⟨earlier, later, rfl, hearlier⟩ := h
  refine ⟨⟨0, outer⟩ :: earlier.map (.within outer), later.map (.within outer), ?_, ?_⟩
  · simp [Opening.within]
  · intro opening hopening
    rcases List.mem_cons.1 hopening with rfl | hinner
    · exact Nat.succ_pos free
    · obtain ⟨inner, hmem, rfl⟩ := List.mem_map.1 hinner
      exact Nat.succ_lt_succ (hearlier inner hmem)

theorem behind (h : OpensFirst free openings front key) (before : Text) :
    OpensFirst free (openings.map (.behind before)) (before ++ front) key := by
  obtain ⟨earlier, later, rfl, hearlier⟩ := h
  refine ⟨earlier.map (.behind before), later.map (.behind before), ?_, ?_⟩
  · simp [Opening.behind]
  · intro opening hopening
    obtain ⟨inner, hmem, rfl⟩ := List.mem_map.1 hopening
    exact hearlier inner hmem

theorem append (h : OpensFirst free openings front key) (more : List Opening) :
    OpensFirst free (openings ++ more) front key := by
  obtain ⟨earlier, later, rfl, hearlier⟩ := h
  exact ⟨earlier, later ++ more, by simp, hearlier⟩

theorem prepend (h : OpensFirst free openings front key) {shallow : List Opening}
    (hshallow : ∀ opening ∈ shallow, opening.enclosing < free) :
    OpensFirst free (shallow ++ openings) front key := by
  obtain ⟨earlier, later, rfl, hearlier⟩ := h
  refine ⟨shallow ++ earlier, later, by simp, ?_⟩
  intro opening hopening
  exact (List.mem_append.1 hopening).elim (hshallow opening) (hearlier opening)

end OpensFirst

theorem CallOverflows.of_block {params : Params} (hkey : IsKey key)
    (h : BlockOverflows free (params.openings []) (params.render [])) :
    CallOverflows (free + 1) (Call.block key params).openings (Call.block key params).render := by
  obtain ⟨front, found, inner, htext, hfound, hfirst, hstart⟩ := h
  refine ⟨marker ++ (key ++ '{' :: front), found, inner ++ ['}'], ?_, hfound, ?_, ?_⟩
  · simp [Call.render, htext]
  · simpa [Call.openings] using hfirst.within (marker ++ (key ++ ['{']))
  · intro rest
    simpa using CallStart.block hkey (hstart ('}' :: rest))

variable {space name : Text} {value : Value} {more : Params}

theorem BlockOverflows.of_value (hspace : IsSpace space) (hname : IsName name) (more : Params)
    (h : CallOverflows free value.openings value.render) :
    BlockOverflows free ((Params.cons name value more).openings space)
      ((Params.cons name value more).render space) := by
  obtain ⟨front, found, inner, htext, hfound, hfirst, hstart⟩ := h
  refine ⟨space ++ (name ++ [':', ' '] ++ front), found, inner ++ more.render [',', ' '],
    ?_, hfound, ?_, ?_⟩
  · simp [Params.render, htext]
  · simpa [Params.openings] using (hfirst.behind (space ++ (name ++ [':', ' ']))).append _
  · intro rest
    have hvalue := hstart (more.render [',', ' '] ++ rest)
    simpa using BlockStart.value hspace hname.isHeader hvalue

/-- The comma behind an entry belongs to it, and the blank to what comes after. -/
theorem BlockOverflows.of_entry (hspace : IsSpace space) (hname : IsName name)
    (hvalue : value.WellFormed) (hshallow : value.nesting <= free) (hmore : more ≠ .nil)
    (h : BlockOverflows free (more.openings [' ']) (more.render [' '])) :
    BlockOverflows free ((Params.cons name value more).openings space)
      ((Params.cons name value more).render space) := by
  obtain ⟨front, found, inner, htext, hfound, hfirst, hstart⟩ := h
  have hcomma : more.render [',', ' '] = ',' :: more.render [' '] := by
    cases more with
    | nil => exact absurd rfl hmore
    | cons => rfl
  have hopenings : more.openings [',', ' '] = (more.openings [' ']).map (.behind [',']) :=
    more.openings_append [','] [' ']
  have hlater := hfirst.behind [',']
  rw [← hopenings] at hlater
  have hearlier := Value.openings_of_nesting_le hshallow (space ++ (name ++ [':', ' ']))
  refine ⟨space ++ (name ++ [':', ' '] ++ (value.render ++ ([','] ++ front))), found, inner,
    ?_, hfound, ?_, ?_⟩
  · simp [Params.render, hcomma, htext]
  · have hwhole := (hlater.behind (space ++ (name ++ (':' :: ' ' :: value.render)))).prepend
      hearlier
    simpa [Params.openings] using hwhole
  · intro rest
    have hentry := BlockStart.entry hspace hname.isHeader
      (hvalue.valueText hshallow (.comma _)) IsSeparator.comma (hstart rest)
    simpa using hentry

end Closure

mutual

/-- A call that nests more blocks than may be open breaks off at the first one too many. -/
theorem Call.WellFormed.overflows : forall {free : Nat} {call : Call}, call.WellFormed ->
    free < call.nesting -> CallOverflows free call.openings call.render
  | free, .bare key => fun _ hdeep => absurd hdeep (Nat.not_lt_zero free)
  | 0, .block key params => by
      rintro ⟨hkey, _, _⟩ _
      refine ⟨[], key, params.render [] ++ ['}'], rfl, hkey, ⟨[], _, rfl, by simp⟩, ?_⟩
      intro rest
      exact .here rfl (by intro c hc; cases hc; rfl)
  | free + 1, .block key params => by
      rintro ⟨hkey, _, hparams⟩ hdeep
      exact .of_block hkey (hparams.overflows IsSpace.nil (Nat.lt_of_succ_lt_succ hdeep))

/-- All entries in front of the first one that nests too many blocks are read. -/
theorem Params.WellFormed.overflows : forall {free : Nat} {params : Params}, params.WellFormed ->
    forall {space : Text}, IsSpace space -> free < params.nesting ->
      BlockOverflows free (params.openings space) (params.render space)
  | free, .nil => fun _ _ _ hdeep => absurd hdeep (Nat.not_lt_zero free)
  | free, .cons name value more => by
      rintro ⟨hname, hvalue, hmore⟩ space hspace hdeep
      rcases Nat.lt_or_ge free value.nesting with hvalueDeep | hshallow
      · exact .of_value hspace hname more (hvalue.overflows hvalueDeep)
      · have hmoreDeep : free < more.nesting :=
          Nat.not_le.1 fun hle => Nat.not_le.2 hdeep (Nat.max_le.2 ⟨hshallow, hle⟩)
        refine .of_entry hspace hname hvalue hshallow ?_ (hmore.overflows IsSpace.blank hmoreDeep)
        rintro rfl
        exact absurd hmoreDeep (Nat.not_lt_zero free)

theorem Value.WellFormed.overflows : forall {free : Nat} {value : Value}, value.WellFormed ->
    free < value.nesting -> CallOverflows free value.openings value.render
  | free, .literal _ => fun _ hdeep => absurd hdeep (Nat.not_lt_zero free)
  | free, .nested call => by
      intro hvalue hdeep
      have hcall : call.WellFormed := hvalue
      exact hcall.overflows hdeep

end

/-- Some block has so many blocks around it just when more of them lie in each other. -/
theorem Call.WellFormed.exists_opening_iff {call : Call} (h : call.WellFormed) {free : Nat} :
    (∃ opening ∈ call.openings, free <= opening.enclosing) <-> free < call.nesting := by
  constructor
  · rintro ⟨opening, hopening, hfree⟩
    exact Nat.lt_of_le_of_lt hfree (call.openings_lieIn opening hopening).enclosing_lt
  · intro hdeep
    obtain ⟨_, _, _, _, _, ⟨earlier, later, heq, _⟩, _⟩ := h.overflows hdeep
    exact ⟨_, by rw [heq]; exact List.mem_append_right _ (List.mem_cons_self ..), Nat.le_refl _⟩

/-! ## Reading what is written -/

theorem Call.WellFormed.parse_render_of_nesting_le {call : Call} (h : call.WellFormed)
    (hnesting : call.nesting <= maxOpenBlocks) :
    (parse call.render).result = .ok (.translate call) := by
  have hnode : (Node.translate call).WellFormed := ⟨h, hnesting⟩
  exact (parse_of_nothing_left hnode.readExpression_render).1

theorem Call.WellFormed.parse_render_of_nesting_gt {call : Call} (h : call.WellFormed)
    (hnesting : maxOpenBlocks < call.nesting) :
    exists earlier before rest later,
      call.openings = earlier ++ ⟨maxOpenBlocks, before ++ ['{']⟩ :: later /\
        (∀ opening ∈ earlier, opening.enclosing < maxOpenBlocks) /\
        call.render = before ++ ['{'] ++ rest /\
        (parse call.render).result =
          .error ⟨.nestingTooDeep, Text.byteLength (before ++ ['{'])⟩ /\
        (parse call.render).diagnostics =
          [diagnosticAt call.render ⟨.nestingTooDeep, rest⟩] := by
  obtain ⟨front, key, inner, htext, hkey, ⟨earlier, later, hopenings, hearlier⟩, hstart⟩ :=
    h.overflows hnesting
  have hbrace : front ++ (marker ++ (key ++ ['{'])) = (front ++ (marker ++ key)) ++ ['{'] := by
    simp
  have hcut : call.render = (front ++ (marker ++ key)) ++ ['{'] ++ inner := by simp [htext]
  have hfault : Fault .value (maxOpenBlocks - maxOpenBlocks)
      (marker ++ (key ++ '{' :: inner)) ⟨.nestingTooDeep, inner⟩ := by
    rw [Nat.sub_self]
    exact .deep hkey
  have hwhole := hstart []
  rw [List.append_nil] at hwhole
  have hread := hwhole.readExpression_outcome (by decide) hfault (fun hentry => nomatch hentry)
  rw [← htext] at hread
  obtain ⟨hresult, hdiagnostics⟩ := parse_of_failure hread
  have hoffset : offsetOf call.render inner =
      Text.byteLength ((front ++ (marker ++ key)) ++ ['{']) := by
    rw [hcut, offsetOf_append]
  rw [hbrace] at hopenings
  rw [hoffset] at hresult
  exact ⟨earlier, _, inner, later, hopenings, hearlier, hcut, hresult, hdiagnostics⟩

/--
A call is written and read again without an error unless it has a block with too many
blocks around it.  Of such blocks, the first in the written form has exactly as many
around it as may be open; reading stops behind its brace and reports nothing else.
-/
theorem too_deep_at_first_block {call : Call} (h : call.WellFormed) :
    ((exists error, (parse call.render).result = .error error) <->
      ∃ opening ∈ call.openings, maxOpenBlocks <= opening.enclosing) /\
    (forall error, (parse call.render).result = .error error ->
      exists earlier opening later before rest,
        call.openings = earlier ++ opening :: later /\
          opening.enclosing = maxOpenBlocks /\
          (∀ other ∈ earlier, other.enclosing < maxOpenBlocks) /\
          (∀ other ∈ later, opening.stop < other.stop) /\
          opening.through = before ++ ['{'] /\
          call.render = opening.through ++ rest /\
          error = ⟨.nestingTooDeep, opening.stop⟩ /\
          (parse call.render).diagnostics =
            [diagnosticAt call.render ⟨.nestingTooDeep, rest⟩]) := by
  rw [h.exists_opening_iff]
  rcases Nat.lt_or_ge maxOpenBlocks call.nesting with hdeep | hshallow
  · obtain ⟨earlier, before, rest, later, hopenings, hearlier, hcut, hresult, hdiagnostics⟩ :=
      h.parse_render_of_nesting_gt hdeep
    have hpairwise := call.openings_pairwise
    rw [hopenings, List.pairwise_append, List.pairwise_cons] at hpairwise
    refine ⟨⟨fun _ => hdeep, fun _ => ⟨_, hresult⟩⟩, ?_⟩
    intro error herror
    rw [hresult] at herror
    cases herror
    exact ⟨earlier, _, later, before, rest, hopenings, rfl, hearlier, hpairwise.2.1.1, rfl,
      hcut, rfl, hdiagnostics⟩
  · have hnone : forall error, (parse call.render).result ≠ .error error := by
      intro error herror
      rw [h.parse_render_of_nesting_le hshallow] at herror
      cases herror
    refine ⟨⟨?_, fun hdeep => absurd hdeep (Nat.not_lt.2 hshallow)⟩, ?_⟩
    · rintro ⟨error, herror⟩
      exact absurd herror (hnone error)
    · intro error herror
      exact absurd herror (hnone error)

/-- Blocks in each other, each behind a sibling with two blocks of its own. -/
def besideBlocks : Nat -> Call
  | 0 => .bare ['b']
  | count + 1 =>
      .block ['a']
        (.cons ['x'] (.nested (.block ['c'] (.cons ['z'] (.nested (.block ['d'] .nil)) .nil)))
          (.cons ['y'] (.nested (besideBlocks count)) .nil))

theorem besideBlocks_wellFormed (count : Nat) : (besideBlocks count).WellFormed := by
  induction count with
  | zero => decide
  | succ count ih =>
      have hsibling : Call.WellFormed
          (.block ['c'] (.cons ['z'] (.nested (.block ['d'] .nil)) .nil)) := by decide
      have hnames : [['x'], ['y']].Nodup := by decide
      exact ⟨by decide, hnames, by decide, hsibling, by decide, ih, trivial⟩

theorem le_nesting_besideBlocks (count : Nat) : count <= (besideBlocks count).nesting := by
  induction count with
  | zero => exact Nat.zero_le _
  | succ count ih =>
      have hlast : (besideBlocks count).nesting <= max (besideBlocks count).nesting 0 :=
        Nat.le_max_left _ _
      exact Nat.succ_le_succ (Nat.le_trans ih (Nat.le_trans hlast (Nat.le_max_right 2 _)))

/-- With 129 blocks in each other a block is nested too deep, and reading stops behind its brace. -/
theorem besideBlocks_too_deep :
    (besideBlocks 129).WellFormed /\
      exists error opening, (parse (besideBlocks 129).render).result = .error error /\
        opening ∈ (besideBlocks 129).openings /\ opening.enclosing = 128 /\
          error = ⟨.nestingTooDeep, opening.stop⟩ := by
  have h := besideBlocks_wellFormed 129
  have hdeep := h.exists_opening_iff.2 (le_nesting_besideBlocks 129)
  obtain ⟨error, herror⟩ := (too_deep_at_first_block h).1.2 hdeep
  obtain ⟨earlier, opening, later, _, _, hopenings, hopen, _, _, _, _, hstop, _⟩ :=
    (too_deep_at_first_block h).2 error herror
  have hmem : opening ∈ (besideBlocks 129).openings := by
    rw [hopenings]
    exact List.mem_append_right _ (List.mem_cons_self ..)
  exact ⟨h, error, opening, herror, hmem, hopen, hstop⟩

end TranslationKeys
