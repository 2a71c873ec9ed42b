import TranslationKeys.Proofs.Entries
import TranslationKeys.Proofs.RoundTrip

/-!
# Traces and trees

A call is read in the order in which it is written: the call itself, its block,
and each parameter with the call that is its value.  So the trace of an input
walks through its tree, as long as no block repeats a name: a repeated name is
read twice, but stands in the tree once.

Reading a nested call depends on nothing in front of it.  The text that is left
where it begins, taken as an input of its own, has that call as its tree.
-/

namespace TranslationKeys

open Lexeme

/-! ## Walks through a tree -/

mutual

/-- The rules that read a call, in order, with the depth of each. -/
def Call.walk (depth : Nat) : Call -> List (Nat × Rule)
  | .bare _ => [(depth, .expression)]
  | .block _ params =>
      (depth, .expression) :: (depth + 1, .params) :: params.walk (depth + 2)

def Params.walk (depth : Nat) : Params -> List (Nat × Rule)
  | .nil => []
  | .cons _ value rest => (depth, .param) :: (value.walk (depth + 1) ++ rest.walk depth)

/-- No rule of its own reads a literal. -/
def Value.walk (depth : Nat) : Value -> List (Nat × Rule)
  | .literal _ => []
  | .nested call => call.walk depth

end

mutual

/-- A call in front of the calls that are nested in it, in order. -/
def Call.calls : Call -> List Call
  | .bare key => [.bare key]
  | .block key params => .block key params :: params.calls

def Params.calls : Params -> List Call
  | .nil => []
  | .cons _ value rest => value.calls ++ rest.calls

def Value.calls : Value -> List Call
  | .literal _ => []
  | .nested call => call.calls

end

theorem Params.walk_eq_flatMap (depth : Nat) (params : Params) :
    params.walk depth =
      params.toList.flatMap fun entry => (depth, .param) :: entry.2.walk (depth + 1) := by
  fun_induction toList params with
  | case1 => rfl
  | case2 name value rest ih => simp [walk, ih]

theorem Params.calls_eq_flatMap (params : Params) :
    params.calls = params.toList.flatMap fun entry => entry.2.calls := by
  fun_induction toList params with
  | case1 => rfl
  | case2 name value rest ih => simp [calls, ih]

/-! ## Entries of the rules -/

theorem Lexeme.IsHeader.takeWhile_append {name header : Text} (hheader : IsHeader name header)
    (value : Text) : (header ++ value).takeWhile isNameChar = name := by
  have h := paramName?_header hheader value
  unfold paramName? run? at h
  cases htake : (header ++ value).takeWhile isNameChar with
  | nil => simp [htake] at h
  | cons c more =>
      simp only [htake] at h
      split at h
      · exact congrArg Prod.fst (Option.some.inj h)
      · cases h

section Entries

variable {nested : Text -> Reading Node} {depth : Nat} {text rest : Text}

theorem readValue_literal_entries {raw : Text} (hraw : IsLiteral raw) :
    (readValue nested (raw ++ rest)).entries = [] := by
  have hread : stringLiteral? (raw ++ rest) = some (raw, rest) :=
    stringLiteral?_eq_some_iff.2 ⟨rfl, hraw⟩
  have hquote : (raw ++ rest).head? = some '\x22' := by
    obtain ⟨body, _, rfl⟩ := hraw
    rfl
  simp [readValue, hquote, hread]

theorem readValue_nested_entries {call : Call} (hquote : text.head? ≠ some '\x22')
    (hcall : (nested text).outcome = .ok (.translate call, rest)) :
    (readValue nested text).entries = (nested text).entries := by
  simp [readValue, hquote, Reading.andThen_entries_of_ok hcall, nestedValue]

/-- A parameter is entered in front of its value, and the next parameters behind it. -/
theorem readParams_entry_entries {b : Char} {bound name header front : Text} {params : Params}
    {value : Value} (hheader : IsHeader name header) (htext : skipSpacing text = header ++ front)
    (hfront : Avoids isSpacing front)
    (hvalue : (readValue nested front).outcome = .ok (value, rest)) :
    (readParams nested depth (b :: bound) params text).entries =
      ⟨depth, .param, header ++ front⟩ :: ((readValue nested front).entries ++
        (readParams nested depth bound (params.insert name value)
          (skipSeparator rest)).entries) := by
  have hparam := readParam_entry depth hheader hfront hvalue
  have hentries : (readParam nested depth (header ++ front)).entries =
      ⟨depth, .param, header ++ front⟩ :: (readValue nested front).entries := by
    simp [readParam, paramName?_header hheader, skipSpacing_of_avoids hfront,
      Reading.andThen_entries_of_ok hvalue]
  have hbrace : (skipSpacing text).head? ≠ some '}' := by
    rw [htext]
    exact hheader.head?_ne rfl front
  rcases readParams_cons_cases nested depth b bound params text with
    ⟨hend, _⟩ | ⟨after, hclose, _⟩ | ⟨c, more, hmore, _, hread⟩
  · rw [htext] at hend
    rw [hend] at hparam
    cases hparam
  · rw [hclose] at hbrace
    exact absurd rfl hbrace
  · rw [htext] at hmore
    rw [← hmore] at hread
    rw [hread, Reading.andThen_entries_of_ok hparam, hentries, List.cons_append]

theorem readParams_close_entries {b : Char} {bound : Text} {params : Params}
    (hbrace : skipSpacing text = '}' :: rest) :
    (readParams nested depth (b :: bound) params text).entries = [] := by
  simp [readParams, hbrace]

end Entries

/-- The expression, its block, and the parameters of the block. -/
theorem BlockText.readExpression_entries {free : Nat} {key body rest : Text}
    {entries : List (Text × Value)} (hkey : IsKey key)
    (hbody : BlockText free body rest entries) :
    (readExpression (free + 1) (marker ++ (key ++ '{' :: body) ++ rest)).entries =
      ⟨expressionDepth (free + 1), .expression, marker ++ (key ++ '{' :: body) ++ rest⟩ ::
        ⟨expressionDepth (free + 1) + 1, .params, body ++ rest⟩ ::
          (readParams (readExpression free) (expressionDepth (free + 1) + 2) (body ++ rest)
            .nil (body ++ rest)).entries := by
  have hread := readExpression_block free (callKey?_of_block (body ++ rest) hkey)
  have hparams := hbody.readParams_outcome (expressionDepth (free + 1) + 2)
    (body ++ rest) .nil (Nat.lt_of_lt_of_le hbody.length_lt (by simp)) rfl
  have hblock : (Reading.entered ⟨expressionDepth (free + 1) + 1, .params, body ++ rest⟩
      (readParams (readExpression free) (expressionDepth (free + 1) + 2) (body ++ rest)
        .nil (body ++ rest))).outcome = .ok (.ofList entries, '}' :: rest) := hparams
  simp only [List.append_assoc, List.cons_append]
  rw [hread, Reading.entered_entries, Reading.andThen_entries_of_ok hblock]
  simp [closeBlock]

/-! ## Names of a block -/

/-- The name at the start of the text that was left. -/
def RuleEntry.name (entry : RuleEntry) : Text :=
  entry.remainder.takeWhile isNameChar

/-- The entries of a block's own depth have its names, as often as they are written. -/
theorem BlockText.names_entries {free depth : Nat} {rest : Text} (hfree : free <= maxOpenBlocks)
    (hdepth : depth + 1 = expressionDepth free) :
    forall {body : Text} {entries : List (Text × Value)},
      BlockText free body rest entries ->
      forall (bound : Text) {text : Text} (params : Params), entries.length < bound.length ->
        skipSpacing text = skipSpacing (body ++ rest) ->
        ((readParams (readExpression free) depth bound params text).entries.filter
          fun entry => entry.depth = depth).map RuleEntry.name = entries.map Prod.fst := by
  intro body entries h
  induction entries generalizing body with
  | nil =>
      intro bound text params hbound htext
      cases h with
      | close hspace =>
          cases bound with
          | nil => exact absurd hbound (by simp)
          | cons b bound =>
              rw [List.append_assoc, skipSpacing_append hspace] at htext
              rw [readParams_close_entries htext]
              rfl
  | cons entry entries ih =>
      intro bound text params hbound htext
      cases h with
      | @entry _ _ name header front separator body _ value _ hspace hheader hvalue hseparator
          hbody =>
          cases bound with
          | nil => exact absurd hbound (by simp)
          | cons b bound =>
              simp only [List.append_assoc] at htext
              rw [skipSpacing_entry hspace hheader] at htext
              have hlater := ih hbody bound (params.insert name value) (by simpa using hbound)
                (skipSpacing_skipSeparator hseparator hbody.head?_ne_comma)
              have hnested (text : Text) :
                  (readExpression free text).Ordered (depth + 1) text := by
                rw [hdepth]
                exact readExpression_ordered hfree text
              have hvalueEntries : (readValue (readExpression free)
                  (front ++ (separator ++ (body ++ rest)))).entries.filter
                    (fun entry => entry.depth = depth) = [] := by
                rw [List.filter_eq_nil_iff]
                intro entry hentry
                have := ((readValue_ordered hnested _).placed entry hentry).1
                simp only [decide_eq_true_eq]
                omega
              rw [readParams_entry_entries hheader htext hvalue.avoids_spacing
                hvalue.readValue_outcome, List.filter_cons_of_pos (by simp), List.filter_append,
                hvalueEntries, List.nil_append, List.map_cons, hlater]
              simp [RuleEntry.name, hheader.takeWhile_append]

/--
No block that is read repeats a name: the entries that are written behind its
brace have names that differ.
-/
def RepeatsNoName (trace : List RuleEntry) : Prop :=
  ∀ entry ∈ trace, entry.rule = .params -> forall free body rest entries,
    free < maxOpenBlocks -> entry.remainder = body ++ rest ->
      BlockText free body rest entries -> (entries.map Prod.fst).Nodup

theorem RepeatsNoName.of_subset {part trace : List RuleEntry} (h : RepeatsNoName trace)
    (hpart : part ⊆ trace) : RepeatsNoName part :=
  fun entry hentry => h entry (hpart hentry)

/-! ## Visits -/

def RuleEntry.place (entry : RuleEntry) : Nat × Rule :=
  (entry.depth, entry.rule)

/-- The results of the texts at the entries of expressions, each as an input of its own. -/
def replays (entries : List RuleEntry) : List (Except ParseError Node) :=
  (entries.filter fun entry => entry.rule = .expression).map fun entry =>
    (parse entry.remainder).result

/-- The entries are those of a walk, and at each expression the next call is found again. -/
structure Visits (entries : List RuleEntry) (walk : List (Nat × Rule)) (calls : List Call) :
    Prop where
  places : entries.map RuleEntry.place = walk
  replayed : replays entries = calls.map fun call => .ok (.translate call)

namespace Visits

variable {entries : List RuleEntry} {walk : List (Nat × Rule)} {calls : List Call}

theorem nil : Visits [] [] [] :=
  ⟨rfl, rfl⟩

theorem append {others : List RuleEntry} {further : List (Nat × Rule)} {more : List Call}
    (h : Visits entries walk calls) (hothers : Visits others further more) :
    Visits (entries ++ others) (walk ++ further) (calls ++ more) := by
  constructor
  · rw [List.map_append, h.places, hothers.places]
  · have happend : replays (entries ++ others) = replays entries ++ replays others := by
      simp [replays]
    rw [happend, h.replayed, hothers.replayed, List.map_append]

theorem cons_rule {depth : Nat} {rule : Rule} (hrule : rule ≠ .expression) (text : Text)
    (h : Visits entries walk calls) :
    Visits (⟨depth, rule, text⟩ :: entries) ((depth, rule) :: walk) calls := by
  constructor
  · rw [List.map_cons, h.places]
    rfl
  · rw [← h.replayed]
    simp [replays, hrule]

theorem cons_call {depth : Nat} {text : Text} {call : Call}
    (hcall : (parse text).result = .ok (.translate call)) (h : Visits entries walk calls) :
    Visits (⟨depth, .expression, text⟩ :: entries) ((depth, .expression) :: walk)
      (call :: calls) := by
  constructor
  · rw [List.map_cons, h.places]
    rfl
  · rw [List.map_cons, ← h.replayed, ← hcall]
    simp [replays]

end Visits

/-- A call that is nested in an input is the tree of the text that begins with it. -/
theorem CallText.parse_rest {free : Nat} {front rest : Text} {call : Call}
    (h : CallText free front rest call) (hfree : free <= maxOpenBlocks) :
    (parse (front ++ rest)).result = .ok (.translate call) :=
  parse_result_ok_iff.2 ⟨rest, (h.mono hfree).readExpression_outcome⟩

/-- A block that repeats no name has the entries of its text. -/
theorem Params.toList_ofList {entries : List (Text × Value)}
    (h : (entries.map Prod.fst).Nodup) : (ofList entries).toList = entries := by
  rw [← insertAll_nil_params, toList_insertAll (by simpa [names, toList] using h)]
  rfl

mutual

/-- The trace of a call that repeats no name visits the call. -/
theorem CallText.visits :
    forall {free : Nat} {front rest : Text} {call : Call}, CallText free front rest call ->
      free <= maxOpenBlocks ->
      RepeatsNoName (readExpression free (front ++ rest)).entries ->
      Visits (readExpression free (front ++ rest)).entries (call.walk (expressionDepth free))
        call.calls
  | _, _, _, _, .bare hkey hrest => by
      intro hfree _
      have hparse := (CallText.bare hkey hrest).parse_rest hfree
      rw [readExpression_bare (callKey?_of_bare hkey hrest)
        (fun hbrace => (hrest _ hbrace).2 rfl)]
      exact Visits.nil.cons_call hparse
  | _, _, _, _, @CallText.block free key body rest entries hkey hbody => by
      intro hfree honce
      have hparse := (CallText.block hkey hbody).parse_rest hfree
      have hwithin : free <= maxOpenBlocks := Nat.le_of_succ_le hfree
      have hdepth := expressionDepth_succ hfree
      have hbound : entries.length < (body ++ rest).length :=
        Nat.lt_of_lt_of_le hbody.length_lt (by simp)
      rw [hbody.readExpression_entries hkey] at honce ⊢
      have hnames : (entries.map Prod.fst).Nodup :=
        honce _ (List.mem_cons_of_mem _ List.mem_cons_self) rfl free body rest entries hfree
          rfl hbody
      have hparams := honce.of_subset
        (List.subset_cons_of_subset _ (List.subset_cons_self _ _))
      have hvisits := hbody.visits hwithin hdepth (body ++ rest) .nil hbound rfl hparams
      rw [Call.walk, Call.calls, Params.walk_eq_flatMap, Params.calls_eq_flatMap,
        Params.toList_ofList hnames]
      exact (hvisits.cons_rule (by decide) _).cons_call hparse

/-- The trace of a body visits the values of its entries, each behind its parameter. -/
theorem BlockText.visits :
    forall {free depth : Nat} {body rest : Text} {entries : List (Text × Value)},
      BlockText free body rest entries -> free <= maxOpenBlocks ->
      depth + 1 = expressionDepth free ->
      forall (bound : Text) {text : Text} (params : Params), entries.length < bound.length ->
        skipSpacing text = skipSpacing (body ++ rest) ->
        RepeatsNoName (readParams (readExpression free) depth bound params text).entries ->
        Visits (readParams (readExpression free) depth bound params text).entries
          (entries.flatMap fun entry => (depth, .param) :: entry.2.walk (depth + 1))
          (entries.flatMap fun entry => entry.2.calls)
  | _, _, _, _, _, .close hspace => by
      intro _ _ bound text params hbound htext _
      cases bound with
      | nil => exact absurd hbound (by simp)
      | cons b bound =>
          rw [List.append_assoc, skipSpacing_append hspace] at htext
          rw [readParams_close_entries htext]
          exact .nil
  | _, _, _, _, _, .entry hspace hheader hvalue hseparator hbody => by
      intro hfree hdepth bound text params hbound htext honce
      cases bound with
      | nil => exact absurd hbound (by simp)
      | cons b bound =>
          simp only [List.append_assoc] at htext
          rw [skipSpacing_entry hspace hheader] at htext
          rw [readParams_entry_entries hheader htext hvalue.avoids_spacing
            hvalue.readValue_outcome] at honce ⊢
          have hboth := honce.of_subset (List.subset_cons_self _ _)
          have hfirst := hvalue.visits hfree (hboth.of_subset (List.subset_append_left _ _))
          have hlater := hbody.visits hfree hdepth bound _ (by simpa using hbound)
            (skipSpacing_skipSeparator hseparator hbody.head?_ne_comma)
            (hboth.of_subset (List.subset_append_right _ _))
          rw [List.flatMap_cons, List.flatMap_cons, hdepth]
          rw [hdepth] at hlater
          exact (hfirst.append hlater).cons_rule (by decide) _

theorem ValueText.visits :
    forall {free : Nat} {front rest : Text} {value : Value}, ValueText free front rest value ->
      free <= maxOpenBlocks ->
      RepeatsNoName (readValue (readExpression free) (front ++ rest)).entries ->
      Visits (readValue (readExpression free) (front ++ rest)).entries
        (value.walk (expressionDepth free)) value.calls
  | _, _, _, _, .literal hraw => by
      intro _ _
      rw [readValue_literal_entries hraw]
      exact .nil
  | _, _, _, _, .nested hcall => by
      intro hfree honce
      rw [readValue_nested_entries hcall.head?_ne_quote hcall.readExpression_outcome]
        at honce ⊢
      exact hcall.visits hfree honce

end

/-! ## Whole inputs -/

/--
A trace is the order in which an input is read.  It begins with the input itself.
No entry lies below more than 384 rules, three for each block that may be open,
and its depth tells its rule.  The next entry is one level deeper at most, and
what is left there is a last part of what was left before.  If no block repeats a
name, the trace of a call is the walk through it, and what is left at each
expression gives, as an input of its own, the call that the walk has come to.
-/
theorem trace_walks_through_tree (input : Text) :
    (parse input).trace.head? = some ⟨0, .expression, input⟩ /\
    (∀ entry ∈ (parse input).trace, entry.depth <= 384 /\
      entry.rule = Rule.atDepth entry.depth /\ entry.remainder <:+ input) /\
    (parse input).trace.IsChain (fun earlier later =>
      later.depth <= earlier.depth + 1 /\ later.remainder <:+ earlier.remainder) /\
    (forall call, (parse input).result = .ok (.translate call) ->
      RepeatsNoName (parse input).trace ->
        (parse input).trace.map RuleEntry.place = call.walk 0 /\
        replays (parse input).trace = call.calls.map fun call => .ok (.translate call)) := by
  rw [parse_trace]
  have hordered := readExpression_ordered (Nat.le_refl maxOpenBlocks) input
  refine ⟨head?_readExpression_entries maxOpenBlocks input, ?_, hordered.chain, ?_⟩
  · intro entry hentry
    exact (hordered.placed entry hentry).2
  · intro call hcall honce
    obtain ⟨rest, hread⟩ := parse_result_ok_iff.1 hcall
    obtain ⟨front, rfl, hfront⟩ := readExpression_translate_iff.1 hread
    have hvisits := hfront.visits (Nat.le_refl maxOpenBlocks) honce
    exact ⟨hvisits.places, hvisits.replayed⟩

/-- The names of the block that is written behind an opening brace, as far as it is read. -/
def blockNames (inner : Text) : List Text :=
  ((readParams (readExpression 127) 2 inner .nil inner).entries.filter
    fun entry => entry.depth = 2).map RuleEntry.name

theorem BlockText.blockNames_eq {free : Nat} {body rest : Text} {entries : List (Text × Value)}
    (h : BlockText free body rest entries) (hfree : free < maxOpenBlocks) :
    blockNames (body ++ rest) = entries.map Prod.fst := by
  have hbody : BlockText 127 body rest entries := h.mono (Nat.le_pred_of_lt hfree)
  exact hbody.names_entries (by decide) rfl (body ++ rest) .nil
    (Nat.lt_of_lt_of_le h.length_lt (by simp)) rfl

/-- Whether a trace repeats no name can be read off the texts at its blocks. -/
theorem repeatsNoName_of_blockNames {trace : List RuleEntry}
    (h : ∀ entry ∈ trace, entry.rule = .params -> (blockNames entry.remainder).Nodup) :
    RepeatsNoName trace := by
  intro entry hentry hrule free body rest entries hfree hremainder hbody
  rw [← hbody.blockNames_eq hfree, ← hremainder]
  exact h entry hentry hrule

/-- Two blocks in each other that use one name each, and a key alone. -/
def nestedBlocks : Text :=
  ['i', '1', '8', 'n', ':', 'a', '{', 'x', ':', ' ',
    'i', '1', '8', 'n', ':', 'b', '{', 'x', ':', '\x22', '}', '\x22', '}', ' ',
      'y', ':', 'i', '1', '8', 'n', ':', 'c', '}', '!']

def nestedCall : Call :=
  .block ['b'] (.cons ['x'] (.literal ['\x22', '}', '\x22']) .nil)

/-- The walk goes down to the inner block and comes back to the outer one. -/
theorem nestedBlocks_walked :
    ((parse nestedBlocks).result = .ok (.translate (.block ['a']
        (.cons ['x'] (.nested nestedCall) (.cons ['y'] (.nested (.bare ['c'])) .nil)))) /\
      RepeatsNoName (parse nestedBlocks).trace) /\
    (parse nestedBlocks).trace.map RuleEntry.place =
      [(0, .expression), (1, .params), (2, .param), (3, .expression), (4, .params), (5, .param),
        (2, .param), (3, .expression)] /\
    replays (parse nestedBlocks).trace = [(parse nestedBlocks).result,
      .ok (.translate nestedCall), .ok (.translate (.bare ['c']))] := by
  have hcall : (parse nestedBlocks).result = .ok (.translate (.block ['a']
      (.cons ['x'] (.nested nestedCall) (.cons ['y'] (.nested (.bare ['c'])) .nil)))) := by
    rfl
  have honce : RepeatsNoName (parse nestedBlocks).trace :=
    repeatsNoName_of_blockNames (by decide +kernel)
  obtain ⟨hplaces, hreplays⟩ := (trace_walks_through_tree nestedBlocks).2.2.2 _ hcall honce
  refine ⟨⟨hcall, honce⟩, hplaces, ?_⟩
  rw [hcall]
  exact hreplays

end TranslationKeys
