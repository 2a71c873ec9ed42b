import TranslationKeys.Proofs.Reports

/-!
# Where a failure is found

A failure is found at the first place where its input goes wrong.  Up to that
place the input can still be completed: a few closing braces, perhaps behind an
empty literal, make it a written form of a call.

A derivation that breaks off says which blocks are open there.  Each of them
needs one brace, and its entries so far stay as they are, because the character
behind them is either the old one or one that ends a key.
-/

namespace TranslationKeys

open Lexeme

/-! ## Derivations that break off -/

def BeginsParam (text : Text) : Prop :=
  exists name header value, IsHeader name header /\ text = header ++ value

def BeginsLiteral (text : Text) : Prop :=
  exists raw rest, IsLiteral raw /\ text = raw ++ rest

mutual

/--
The text `front` is the start of a call, inside which `free` blocks may be open,
and cannot go on with `rest`.
-/
inductive StuckCall (kind : Diagnostic.Kind) : Nat -> Text -> Text -> Prop where
  | deep {key inner : Text} (hkind : kind = .nestingTooDeep) (hkey : IsKey key) :
      StuckCall kind 0 (marker ++ key) ('{' :: inner)
  | block {free : Nat} {key front rest : Text} (hkey : IsKey key)
      (hbody : StuckBlock kind free front rest) :
      StuckCall kind (free + 1) (marker ++ (key ++ '{' :: front)) rest

/-- The text `front` is the start of what follows an opening brace. -/
inductive StuckBlock (kind : Diagnostic.Kind) : Nat -> Text -> Text -> Prop where
  | header {free : Nat} {space rest : Text} {c : Char} (hkind : kind = .malformedKey)
      (hspace : IsSpace space) (hc : isSpacing c = false) (hbrace : c ≠ '}')
      (hparam : ¬ BeginsParam (c :: rest)) :
      StuckBlock kind free space (c :: rest)
  | value {free : Nat} {space name header front rest : Text} (hspace : IsSpace space)
      (hheader : IsHeader name header) (hvalue : StuckValue kind free front rest) :
      StuckBlock kind free (space ++ (header ++ front)) rest
  | entry {free : Nat} {space name header front separator body rest : Text} {value : Value}
      (hspace : IsSpace space) (hheader : IsHeader name header)
      (hvalue : ValueText free front (separator ++ (body ++ rest)) value)
      (hseparator : IsSeparator separator) (hbody : StuckBlock kind free body rest) :
      StuckBlock kind free (space ++ (header ++ (front ++ (separator ++ body)))) rest

inductive StuckValue (kind : Diagnostic.Kind) : Nat -> Text -> Text -> Prop where
  | literal {free : Nat} {rest : Text} (hkind : kind = .malformedStringLiteral)
      (hliteral : ¬ BeginsLiteral ('\x22' :: rest)) :
      StuckValue kind free [] ('\x22' :: rest)
  | nested {free : Nat} {front rest : Text} (hcall : StuckCall kind free front rest) :
      StuckValue kind free front rest

end

/-! ## Completion -/

/-- What is missing at the place of a failure besides closing braces. -/
def patch : Diagnostic.Kind -> Text
  | .malformedStringLiteral => ['\x22', '\x22']
  | _ => []

def braces (count : Nat) : Text :=
  List.replicate count '}'

theorem braces_succ (count : Nat) : braces (count + 1) = braces count ++ ['}'] :=
  List.replicate_succ'

/-- At the place of a failure a key may end once the failure is repaired. -/
theorem endsKey_patch (kind : Diagnostic.Kind) (count : Nat) (after : Text) :
    EndsKey (patch kind ++ (braces (count + 1) ++ after)) := by
  cases kind with
  | malformedStringLiteral => exact .quote _
  | missingTerminator | malformedKey | nestingTooDeep | trailingInput => exact .brace _

/-- How many braces may be needed: all that are free where no more may be opened. -/
def Closes (kind : Diagnostic.Kind) (free count : Nat) : Prop :=
  count <= free /\ (kind = .nestingTooDeep -> count = free)

theorem Closes.succ {kind : Diagnostic.Kind} {free count : Nat} (h : Closes kind free count) :
    Closes kind (free + 1) (count + 1) :=
  ⟨Nat.succ_le_succ h.1, fun hkind => congrArg Nat.succ (h.2 hkind)⟩

theorem Closes.zero {kind : Diagnostic.Kind} (hkind : kind ≠ .nestingTooDeep) (free : Nat) :
    Closes kind free 0 :=
  ⟨Nat.zero_le free, fun hdeep => absurd hdeep hkind⟩

mutual

theorem StuckCall.repair {kind : Diagnostic.Kind} :
    forall {free : Nat} {front rest : Text}, StuckCall kind free front rest ->
      exists count call, Closes kind free count /\ (kind ≠ .nestingTooDeep -> 1 <= count) /\
        forall after, EndsKey after ->
          CallText free (front ++ (patch kind ++ braces count)) after call
  | _, _, _, @StuckCall.deep _ key _ hkind hkey => by
      refine ⟨0, .bare key, ⟨Nat.le_refl 0, fun _ => rfl⟩, fun hne => absurd hkind hne, ?_⟩
      intro after hafter
      subst hkind
      simpa [patch, braces] using CallText.bare hkey hafter
  | _, _, _, @StuckCall.block _ _ key _ _ hkey hbody => by
      obtain ⟨count, entries, hcount, hentries⟩ := hbody.repair
      refine ⟨count + 1, .block key (.ofList entries), hcount.succ,
        fun _ => Nat.succ_pos count, ?_⟩
      intro after _
      simpa using CallText.block hkey (hentries after)

/-- The start of a body is completed by one brace more. -/
theorem StuckBlock.repair {kind : Diagnostic.Kind} :
    forall {free : Nat} {front rest : Text}, StuckBlock kind free front rest ->
      exists count entries, Closes kind free count /\
        forall after, BlockText free (front ++ (patch kind ++ braces (count + 1))) after entries
  | free, _, _, .header hkind hspace _ _ _ => by
      subst hkind
      exact ⟨0, [], .zero (by decide) free, fun after => .close hspace⟩
  | _, _, _, @StuckBlock.value _ _ _ name _ _ _ hspace hheader hvalue => by
      obtain ⟨count, value, hcount, hfront⟩ := hvalue.repair
      refine ⟨count, [(name, value)], hcount, ?_⟩
      intro after
      have hentry := BlockText.entry hspace hheader (hfront _ (.brace after)) .nil
        (.close .nil)
      simpa [braces_succ] using hentry
  | _, _, _, @StuckBlock.entry _ _ _ name _ _ _ _ _ value hspace hheader hvalue
      hseparator hbody => by
      obtain ⟨count, entries, hcount, hentries⟩ := hbody.repair
      refine ⟨count, (name, value) :: entries, hcount, ?_⟩
      intro after
      have hfront := hvalue.change_rest (fun hends => by
        rw [← List.append_assoc] at hends
        exact hends.append (endsKey_patch kind count after))
      have hentry := BlockText.entry hspace hheader (by simpa using hfront) hseparator
        (hentries after)
      simpa using hentry

theorem StuckValue.repair {kind : Diagnostic.Kind} :
    forall {free : Nat} {front rest : Text}, StuckValue kind free front rest ->
      exists count value, Closes kind free count /\
        forall after, EndsKey after ->
          ValueText free (front ++ (patch kind ++ braces count)) after value
  | free, _, _, .literal hkind _ => by
      subst hkind
      exact ⟨0, _, .zero (by decide) free, fun after _ => .literal ⟨[], .nil, rfl⟩⟩
  | _, _, _, .nested hcall => by
      obtain ⟨count, call, hcount, _, hfront⟩ := hcall.repair
      exact ⟨count, .nested call, hcount, fun after hafter => .nested (hfront after hafter)⟩

end

/-! ## From failures to derivations that break off -/

/-- What a failure refuses: the text it leaves, behind the brace of one block too many. -/
def Finding.refused (failure : Finding) : Text :=
  match failure.kind with
  | .nestingTooDeep => '{' :: failure.rest
  | _ => failure.rest

theorem Finding.refused_eq_rest {failure : Finding} (h : failure.kind ≠ .nestingTooDeep) :
    failure.refused = failure.rest := by
  unfold refused
  split
  · rename_i hdeep
    exact absurd hdeep h
  · rfl

/-- Every failure other than a missing brace breaks off a derivation. -/
def FailsStuck (free : Nat) (nested : Text -> Reading Node) : Prop :=
  forall {text failure}, (nested text).outcome = .error failure ->
    failure.kind ≠ .missingTerminator ->
      exists front, text = front ++ failure.refused /\
        StuckCall failure.kind free front failure.refused

section Stuck

variable {free depth : Nat} {nested : Text -> Reading Node} {text : Text} {failure : Finding}

theorem stuckValue_of_readValue (hnested : FailsStuck free nested)
    (h : (readValue nested text).outcome = .error failure)
    (hkind : failure.kind ≠ .missingTerminator) :
    exists front, text = front ++ failure.refused /\
      StuckValue failure.kind free front failure.refused := by
  rcases readValue_cases nested text with
    ⟨raw, rest, _, _, hread⟩ | ⟨rest, rfl, hnone, hread⟩ | ⟨_, hread⟩
  · rw [hread] at h
    cases h
  · rw [hread] at h
    cases h
    refine ⟨[], rfl, .literal rfl ?_⟩
    rintro ⟨raw, after, hliteral, htext⟩
    rw [stringLiteral?_eq_some_iff.2 ⟨htext, hliteral⟩] at hnone
    cases hnone
  · rw [hread] at h
    rcases Reading.andThen_outcome_error_iff.1 h with hfailed | ⟨node, rest, _, hvalue⟩
    · obtain ⟨front, htext, hcall⟩ := hnested hfailed hkind
      exact ⟨front, htext, .nested hcall⟩
    · cases node with
      | literal plain =>
          cases hvalue
          exact absurd rfl hkind
      | translate call => cases hvalue

/-- A parameter that cannot be read has no header, or a value that breaks off. -/
theorem stuck_of_readParam (hnested : FailsStuck free nested)
    (h : (readParam nested depth text).outcome = .error failure)
    (hkind : failure.kind ≠ .missingTerminator) :
    (failure = ⟨.malformedKey, text⟩ /\ ¬ BeginsParam text) \/
      exists name header front, IsHeader name header /\
        text = header ++ (front ++ failure.refused) /\
        StuckValue failure.kind free front failure.refused := by
  rcases readParam_cases nested depth text with
    ⟨hnone, hread⟩ | ⟨name, header, value, hheader, rfl, hread⟩
  · rw [hread] at h
    cases h
    refine Or.inl ⟨rfl, ?_⟩
    rintro ⟨name, header, value, hheader, rfl⟩
    rw [paramName?_header hheader] at hnone
    cases hnone
  · rw [hread, Reading.entered_outcome] at h
    rcases Reading.andThen_outcome_error_iff.1 h with hfailed | ⟨_, rest, _, hdone⟩
    · obtain ⟨front, rfl, hfront⟩ := stuckValue_of_readValue hnested hfailed hkind
      exact Or.inr ⟨name, header, front, hheader, rfl, hfront⟩
    · cases hdone

/-- A failure among parameters is in the first one that breaks off, behind complete ones. -/
theorem stuckBlock_of_readParams (hreads : ReadsCallText free nested)
    (hnested : FailsStuck free nested) {bound : Text} {params : Params}
    (h : (readParams nested depth bound params text).outcome = .error failure)
    (hkind : failure.kind ≠ .missingTerminator) :
    exists front, text = front ++ failure.refused /\
      StuckBlock failure.kind free front failure.refused := by
  induction bound generalizing params text with
  | nil =>
      cases h
      exact absurd rfl hkind
  | cons b bound ih =>
      obtain ⟨space, hspace, htext⟩ := skipSpacing_sound text
      rcases readParams_cons_cases nested depth b bound params text with
        ⟨_, hread⟩ | ⟨rest, _, hread⟩ | ⟨c, more, hmore, hbrace, hread⟩
      · rw [hread] at h
        cases h
        exact absurd rfl hkind
      · rw [hread] at h
        cases h
      · rw [hread] at h
        rw [hmore] at htext
        rcases Reading.andThen_outcome_error_iff.1 h with
          hparam | ⟨⟨name, value⟩, rest, hparam, hlater⟩
        · rcases stuck_of_readParam hnested hparam hkind with
            ⟨rfl, hnone⟩ | ⟨name, header, front, hheader, hcut, hvalue⟩
          · have hc : isSpacing c = false := avoids_skipSpacing text c (by rw [hmore]; rfl)
            exact ⟨space, htext, .header rfl hspace hc hbrace hnone⟩
          · refine ⟨_, ?_, .value hspace hheader hvalue⟩
            rw [htext, hcut]
            simp only [List.append_assoc]
        · obtain ⟨header, front, separator, hheader, hseparator, hvalue, hcut⟩ :=
            param_of_readParam hreads hparam
          obtain ⟨body, rfl, hbody⟩ := ih hlater
          refine ⟨_, ?_, .entry hspace hheader hvalue hseparator hbody⟩
          rw [htext, hcut]
          simp only [List.append_assoc]

theorem readExpression_stuck (free : Nat) : FailsStuck free (readExpression free) := by
  induction free using Nat.strongRecOn with
  | ind free ih =>
      intro text failure h hkind
      rcases readExpression_error_cases h with
        ⟨key, inner, rfl, hkey, rfl⟩ | ⟨within, depth, key, inner, rfl, hkey, hblock⟩
      · obtain ⟨rfl, hisKey, _⟩ := callKey?_eq_some_iff.1 hkey
        exact ⟨marker ++ key, by simp [Finding.refused], .deep rfl hisKey⟩
      · obtain ⟨rfl, hisKey, _⟩ := callKey?_eq_some_iff.1 hkey
        have hwithin : FailsStuck within (readExpression within) :=
          ih within (Nat.lt_succ_self within)
        have hreads : ReadsCallText within (readExpression within) :=
          readExpression_sound within
        rcases Reading.andThen_outcome_error_iff.1 hblock with
          hparams | ⟨params, stop, hparams, hclose⟩
        · obtain ⟨front, rfl, hbody⟩ := stuckBlock_of_readParams hreads hwithin hparams hkind
          exact ⟨marker ++ (key ++ '{' :: front), by simp, .block hisKey hbody⟩
        · -- The parameters end in front of a brace, so closing the block cannot fail.
          obtain ⟨_, _, after, rfl, _, _, _⟩ := blockText_of_readParams hreads hparams
          cases hclose

end Stuck

/-! ## Whole inputs -/

/-- True of a text that is a call from start to end. -/
def ParsesCleanly (text : Text) : Prop :=
  (exists call, (parse text).result = .ok (.translate call)) /\ (parse text).diagnostics = []

theorem CallText.parsesCleanly {front : Text} {call : Call}
    (h : CallText maxOpenBlocks front [] call) : ParsesCleanly front := by
  have hread := h.readExpression_outcome
  rw [List.append_nil] at hread
  obtain ⟨hresult, hdiagnostics⟩ := parse_of_nothing_left hread
  exact ⟨⟨call, hresult⟩, hdiagnostics⟩

/-- An input that fails is repaired in front of the text that it refuses. -/
theorem repair_of_parse_error {input : Text} {kind : Diagnostic.Kind} {offset : Nat}
    (h : (parse input).result = .error ⟨kind, offset⟩) (hkind : kind ≠ .missingTerminator) :
    exists front rest count, input = front ++ Finding.refused ⟨kind, rest⟩ /\
      offset = offsetOf input rest /\ Closes kind maxOpenBlocks count /\
        (kind ≠ .nestingTooDeep -> 1 <= count) /\
          ParsesCleanly (front ++ (patch kind ++ braces count)) := by
  obtain ⟨⟨_, rest⟩, hfailed, heq⟩ := parse_result_error_iff.1 h
  cases heq
  obtain ⟨front, hinput, hstuck⟩ := readExpression_stuck maxOpenBlocks hfailed hkind
  obtain ⟨count, call, hcount, hpositive, hcall⟩ := hstuck.repair
  exact ⟨front, rest, count, hinput, rfl, hcount, hpositive, (hcall [] .nil).parsesCleanly⟩

/-- A failure that refuses no brace is repaired at its own offset. -/
theorem repair_at_offset {input : Text} {kind : Diagnostic.Kind} {offset : Nat}
    (h : (parse input).result = .error ⟨kind, offset⟩) (hkind : kind ≠ .missingTerminator)
    (hdeep : kind ≠ .nestingTooDeep) :
    exists front rest count, Text.cut? input offset = some (front, rest) /\
      1 <= count /\ count <= maxOpenBlocks /\
        ParsesCleanly (front ++ (patch kind ++ braces count)) := by
  obtain ⟨front, rest, count, rfl, rfl, hcount, hpositive, hclean⟩ :=
    repair_of_parse_error h hkind
  have hrefused : Finding.refused ⟨kind, rest⟩ = rest := Finding.refused_eq_rest hdeep
  refine ⟨front, rest, count, ?_, hpositive hdeep, hcount.1, hclean⟩
  rw [hrefused, offsetOf_append, Text.cut?_append]

/--
A failure is found at the first place where its input goes wrong.  Cut there,
the input is completed by closing braces.  Where a literal is refused, an empty
literal comes before them.  Where a block is one too many, its brace is cut off
as well, and all blocks that may be open are closed.
-/
theorem failure_is_first_fault (input : Text) :
    (forall offset, (parse input).result = .error ⟨.malformedKey, offset⟩ ->
      exists front rest count, Text.cut? input offset = some (front, rest) /\
        1 <= count /\ count <= maxOpenBlocks /\ ParsesCleanly (front ++ braces count)) /\
    (forall offset, (parse input).result = .error ⟨.malformedStringLiteral, offset⟩ ->
      exists front rest count, Text.cut? input offset = some (front, rest) /\
        1 <= count /\ count <= maxOpenBlocks /\
          ParsesCleanly (front ++ (['\x22', '\x22'] ++ braces count))) /\
    (forall offset, (parse input).result = .error ⟨.nestingTooDeep, offset⟩ ->
      1 <= offset /\ exists front rest,
        Text.cut? input (offset - 1) = some (front, '{' :: rest) /\
          ParsesCleanly (front ++ braces maxOpenBlocks)) := by
  refine ⟨?_, ?_, ?_⟩
  · intro offset h
    exact @repair_at_offset input .malformedKey offset h (by decide) (by decide)
  · intro offset h
    exact @repair_at_offset input .malformedStringLiteral offset h (by decide) (by decide)
  · intro offset h
    obtain ⟨front, rest, count, rfl, rfl, hcount, _, hclean⟩ :=
      repair_of_parse_error h (by decide)
    have hoffset : offsetOf (front ++ Finding.refused ⟨.nestingTooDeep, rest⟩) rest =
        Text.byteLength front + 1 := by
      change offsetOf (front ++ '{' :: rest) rest = _
      rw [List.append_cons, offsetOf_append, Text.byteLength_append]
      rfl
    rw [hcount.2 rfl] at hclean
    rw [hoffset]
    exact ⟨Nat.le_add_left 1 _, front, rest, Text.cut?_append front ('{' :: rest), hclean⟩

/-- An inner block that goes on with a mark where a name must stand. -/
def unnamedEntry : Text :=
  ['i', '1', '8', 'n', ':', 'a', '{', 'x', ':',
    'i', '1', '8', 'n', ':', 'b', '{', 'y', ':', '\x22', '1', '\x22', ',', '?', '}', '}']

def openLiteral : Text :=
  ['i', '1', '8', 'n', ':', 'a', '{', 'x', ':', '\x22', '\\', '\x22']

def oneBlockTooMany : Text :=
  (List.replicate 129 ['i', '1', '8', 'n', ':', 'a', '{', 'x', ':']).flatten

/-- Each kind of failure occurs and is repaired at its offset. -/
theorem faults_are_repaired :
    ((parse unnamedEntry).result = .error ⟨.malformedKey, 22⟩ /\
      exists front rest count, Text.cut? unnamedEntry 22 = some (front, rest) /\
        1 <= count /\ count <= maxOpenBlocks /\ ParsesCleanly (front ++ braces count)) /\
    ((parse openLiteral).result = .error ⟨.malformedStringLiteral, 9⟩ /\
      exists front rest count, Text.cut? openLiteral 9 = some (front, rest) /\
        1 <= count /\ count <= maxOpenBlocks /\
          ParsesCleanly (front ++ (['\x22', '\x22'] ++ braces count))) /\
    ((parse oneBlockTooMany).result = .error ⟨.nestingTooDeep, 1159⟩ /\
      1 <= 1159 /\ exists front rest,
        Text.cut? oneBlockTooMany (1159 - 1) = some (front, '{' :: rest) /\
          ParsesCleanly (front ++ braces maxOpenBlocks)) := by
  have hkey : (parse unnamedEntry).result = .error ⟨.malformedKey, 22⟩ := by rfl
  have hliteral : (parse openLiteral).result = .error ⟨.malformedStringLiteral, 9⟩ := by rfl
  have hdeep : (parse oneBlockTooMany).result = .error ⟨.nestingTooDeep, 1159⟩ := by
    decide +kernel
  exact ⟨⟨hkey, (failure_is_first_fault unnamedEntry).1 22 hkey⟩,
    ⟨hliteral, (failure_is_first_fault openLiteral).2.1 9 hliteral⟩,
    ⟨hdeep, (failure_is_first_fault oneBlockTooMany).2.2 1159 hdeep⟩⟩

end TranslationKeys
