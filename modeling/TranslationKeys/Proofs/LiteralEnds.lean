import Mathlib.Algebra.Group.Nat.Even
import TranslationKeys.Proofs.Lexemes

/-!
# Where a string literal ends

A string literal has a pattern: a quote, a run of plain characters, any number of
backslashes that each take one character and a run of plain characters along, and
a quote.  A search for a pattern tries one way to match after another, longer
repetitions first, and goes back when it is stuck.  Here it never has to: there is
one way at most, and it ends at the first quote that no backslash takes along.

The runs in the pattern are separated by backslashes, and a plain character is
none.  So a run that is cut short leaves a character with which nothing can go on.
-/

namespace TranslationKeys.Lexeme

/-! ## Patterns -/

/--
The ways to match at the start of a text, in the order in which they are tried.
A way is what it takes, and the text after that.
-/
abbrev Ways :=
  Text -> List (Text × Text)

namespace Ways

/-- A match with a second match right behind it. -/
def followedBy (first second : Ways) : Ways := fun text =>
  (first text).flatMap fun way =>
    (second way.2).map fun next => (way.1 ++ next.1, next.2)

/--
Any number of matches in a row, longer rows first.  A match that takes nothing is
not repeated.
-/
def repeated (step : Ways) (text : Text) : List (Text × Text) :=
  ((step text).flatMap fun way =>
    if way.2.length < text.length then
      (repeated step way.2).map fun next => (way.1 ++ next.1, next.2)
    else
      []) ++ [([], text)]
termination_by text.length

end Ways

/-- A pattern of texts. -/
inductive Pattern where
  /-- One character of a class. -/
  | one (member : Char -> Bool)
  | sequence (first second : Pattern)
  | star (body : Pattern)

namespace Pattern

def ways : Pattern -> Ways
  | .one _, [] => []
  | .one member, c :: rest => if member c then [([c], rest)] else []
  | .sequence first second, text => Ways.followedBy first.ways second.ways text
  | .star body, text => Ways.repeated body.ways text

/-- What a search at the start of a text finds: the first way, with the text after it. -/
def match? (pattern : Pattern) (text : Text) : Option (Text × Text) :=
  (pattern.ways text).head?

/-- True of the texts that a pattern takes as a whole. -/
def Fits (pattern : Pattern) (text : Text) : Prop :=
  (text, []) ∈ pattern.ways text

end Pattern

/-! ## Ways in a row -/

namespace Ways

/-- The same ways with one more character in front of what they take. -/
def taking (c : Char) (ways : List (Text × Text)) : List (Text × Text) :=
  ways.map fun way => (c :: way.1, way.2)

theorem followedBy_assoc (first second third : Ways) :
    (first.followedBy second).followedBy third =
      first.followedBy (second.followedBy third) := by
  funext text
  simp [followedBy, List.flatMap_assoc, List.map_flatMap, List.flatMap_map, Function.comp_def]

theorem mem_followedBy_iff {first second : Ways} {text : Text} {way : Text × Text} :
    way ∈ first.followedBy second text <->
      exists front more, front ∈ first text /\ more ∈ second front.2 /\
        way = (front.1 ++ more.1, more.2) := by
  simp only [followedBy, List.mem_flatMap, List.mem_map]
  constructor
  · rintro ⟨front, hfront, more, hmore, rfl⟩
    exact ⟨front, more, hfront, hmore, rfl⟩
  · rintro ⟨front, more, hfront, hmore, rfl⟩
    exact ⟨front, hfront, more, hmore, rfl⟩

/-- Every way splits the text that it is a way through. -/
def Split (ways : Ways) : Prop :=
  forall text, ∀ way ∈ ways text, text = way.1 ++ way.2

theorem Split.followedBy {first second : Ways} (hfirst : first.Split) (hsecond : second.Split) :
    (first.followedBy second).Split := by
  intro text way hway
  obtain ⟨front, more, hfront, hmore, rfl⟩ := mem_followedBy_iff.1 hway
  rw [hfirst text front hfront, hsecond front.2 more hmore, List.append_assoc]

theorem Split.repeated {step : Ways} (hstep : step.Split) : Split step.repeated := by
  intro text
  fun_induction Ways.repeated step text with
  | case1 text ih =>
      intro way hway
      rw [List.mem_append, List.mem_flatMap, List.mem_singleton] at hway
      rcases hway with ⟨front, hfront, hmem⟩ | rfl
      · split at hmem
        · rename_i hless
          obtain ⟨more, hmore, rfl⟩ := List.mem_map.1 hmem
          rw [hstep text front hfront, List.append_assoc, ← ih front hless more hmore]
        · cases hmem
      · rfl

/-- A step that takes something at each turn: all its rows are a step and a row, or empty. -/
theorem repeated_followedBy {step : Ways}
    (htakes : forall text, ∀ way ∈ step text, way.2.length < text.length) (next : Ways)
    (text : Text) :
    followedBy step.repeated next text =
      step.followedBy (followedBy step.repeated next) text ++ next text := by
  have hrows : step.repeated text = step.followedBy step.repeated text ++ [([], text)] := by
    rw [repeated, followedBy]
    congr 1
    apply List.flatMap_congr
    intro way hway
    simp [htakes text way hway]
  rw [← followedBy_assoc]
  simp [followedBy, hrows]

end Ways

namespace Pattern

variable {member : Char -> Bool} {c : Char} {rest text : Text}

theorem ways_split (pattern : Pattern) : Ways.Split pattern.ways := by
  induction pattern with
  | one member =>
      intro text way hway
      cases text with
      | nil => cases hway
      | cons c rest =>
          simp only [ways, List.mem_ite_nil_right, List.mem_singleton] at hway
          rw [hway.2]
          rfl
  | sequence first second hfirst hsecond => exact hfirst.followedBy hsecond
  | star body hbody => exact hbody.repeated

theorem one_takes (member : Char -> Bool) (text : Text) :
    ∀ way ∈ (one member).ways text, way.2.length < text.length := by
  cases text with
  | nil => simp [ways]
  | cons c rest => cases hc : member c <;> simp [ways, hc]

theorem one_followedBy (hc : member c = true) (next : Ways) :
    (one member).ways.followedBy next (c :: rest) = Ways.taking c (next rest) := by
  simp [Ways.followedBy, ways, hc, Ways.taking]

theorem one_of_avoids (h : Avoids member text) : (one member).ways text = [] := by
  cases text with
  | nil => rfl
  | cons c rest => simp [ways, h c rfl]

theorem one_followedBy_of_avoids (h : Avoids member text) (next : Ways) :
    (one member).ways.followedBy next text = [] := by
  simp [Ways.followedBy, one_of_avoids h]

end Pattern

/-! ## The pattern of a string literal -/

def isQuote (c : Char) : Bool :=
  c == '\x22'

def isBackslash (c : Char) : Bool :=
  c == '\\'

/-- True of the characters that stand for themselves between quotes. -/
def isPlain (c : Char) : Bool :=
  !isQuote c && !isBackslash c

def plainRun : Pattern :=
  .star (.one isPlain)

/-- A backslash, whatever character it takes along, and plain characters. -/
def escapedRun : Pattern :=
  .sequence (.one isBackslash) (.sequence (.one fun _ => true) plainRun)

/-- What is left of a literal behind plain characters. -/
def literalEnd : Pattern :=
  .sequence (.star escapedRun) (.one isQuote)

/-- What is left of a literal behind its first quote. -/
def literalRest : Pattern :=
  .sequence plainRun literalEnd

def literalPattern : Pattern :=
  .sequence (.one isQuote) literalRest

/-! ## No way back -/

theorem escapedRun_takes (text : Text) :
    ∀ way ∈ escapedRun.ways text, way.2.length < text.length := by
  intro way hway
  obtain ⟨front, more, hfront, hmore, rfl⟩ := Ways.mem_followedBy_iff.1 hway
  have hless := Pattern.one_takes isBackslash text front hfront
  have hsplit := congrArg List.length (Pattern.ways_split _ front.2 more hmore)
  rw [List.length_append] at hsplit
  change more.2.length < text.length
  omega

/-- Behind plain characters a literal goes on with one more, or ends. -/
theorem plainRun_followedBy (next : Ways) (text : Text) :
    plainRun.ways.followedBy next text =
      (Pattern.one isPlain).ways.followedBy (plainRun.ways.followedBy next) text ++ next text :=
  Ways.repeated_followedBy (Pattern.one_takes isPlain) next text

theorem literalEnd_ways (text : Text) :
    literalEnd.ways text =
      escapedRun.ways.followedBy literalEnd.ways text ++ (Pattern.one isQuote).ways text :=
  Ways.repeated_followedBy escapedRun_takes (Pattern.one isQuote).ways text

theorem avoids_of_head {member : Char -> Bool} {c : Char} (hc : member c = false)
    (rest : Text) : Avoids member (c :: rest) := by
  intro d hd
  cases hd
  exact hc

theorem escapedRun_of_avoids {text : Text} (h : Avoids isBackslash text) (next : Ways) :
    escapedRun.ways.followedBy next text = [] := by
  change Ways.followedBy (Ways.followedBy _ _) next text = []
  rw [Ways.followedBy_assoc, Pattern.one_followedBy_of_avoids h]

theorem escapedRun_followedBy (escaped : Char) (next : Ways) (rest : Text) :
    escapedRun.ways.followedBy next ('\\' :: escaped :: rest) =
      Ways.taking '\\' (Ways.taking escaped (plainRun.ways.followedBy next rest)) := by
  change Ways.followedBy (Ways.followedBy _ (Ways.followedBy _ _)) next _ = _
  rw [Ways.followedBy_assoc, Ways.followedBy_assoc, Pattern.one_followedBy rfl,
    Pattern.one_followedBy rfl]

theorem literalRest_ways (text : Text) :
    literalRest.ways text =
      (Pattern.one isPlain).ways.followedBy literalRest.ways text ++
        (escapedRun.ways.followedBy literalEnd.ways text ++ (Pattern.one isQuote).ways text) := by
  rw [← literalEnd_ways]
  exact plainRun_followedBy literalEnd.ways text

theorem literalRest_plain {c : Char} (hc : isPlain c = true) (rest : Text) :
    literalRest.ways (c :: rest) = Ways.taking c (literalRest.ways rest) := by
  have hboth : isQuote c = false /\ isBackslash c = false := by simpa [isPlain] using hc
  rw [literalRest_ways, Pattern.one_followedBy hc,
    escapedRun_of_avoids (avoids_of_head hboth.2 rest),
    Pattern.one_of_avoids (avoids_of_head hboth.1 rest), List.append_nil, List.append_nil]

theorem literalRest_escaped (escaped : Char) (rest : Text) :
    literalRest.ways ('\\' :: escaped :: rest) =
      Ways.taking '\\' (Ways.taking escaped (literalRest.ways rest)) := by
  rw [literalRest_ways, Pattern.one_followedBy_of_avoids (avoids_of_head rfl _),
    escapedRun_followedBy, Pattern.one_of_avoids (avoids_of_head rfl _), List.append_nil,
    List.nil_append]
  rfl

/-- Behind its first quote a literal has one way at most: through the quote that is found. -/
theorem literalRest_ways_eq (text : Text) :
    literalRest.ways text = (throughQuote? text).toList := by
  fun_induction throughQuote? text with
  | case1 => rw [literalRest_ways]; rfl
  | case2 rest => rw [literalRest_ways]; rfl
  | case3 => rw [literalRest_ways]; rfl
  | case4 escaped rest ih =>
      rw [literalRest_escaped, ih]
      cases throughQuote? rest <;> rfl
  | case5 c rest hquote hend hslash ih =>
      have hne := ne_backslash_of_no_escape hend hslash
      have hc : isPlain c = true := by
        simp [isPlain, isQuote, isBackslash, hne, show c ≠ '\x22' from hquote]
      rw [literalRest_plain hc, ih]
      cases throughQuote? rest <;> rfl

theorem literalPattern_ways (text : Text) :
    literalPattern.ways text = (stringLiteral? text).toList := by
  unfold stringLiteral?
  split
  · rename_i rest
    change (Pattern.one isQuote).ways.followedBy literalRest.ways ('\x22' :: rest) = _
    rw [Pattern.one_followedBy rfl, literalRest_ways_eq]
    cases throughQuote? rest <;> rfl
  · rename_i hquote
    apply Pattern.one_followedBy_of_avoids
    intro c hc
    obtain ⟨rest, rfl⟩ := List.head?_eq_some_iff.1 hc
    simpa [isQuote] using fun heq => hquote rest (by rw [heq])

/-! ## Scanning -/

/--
True when a backslash takes the character behind a text along.  The text is
scanned from its start, and every backslash that is not taken along itself takes
the next character along, whatever it is.
-/
def takesNext (scanned : Text) : Bool :=
  scanned.foldl (fun taken c => !taken && isBackslash c) false

/-- No quote of a text ends a literal, because each is taken along. -/
def QuotesTaken (text : Text) : Prop :=
  forall front more, text = front ++ '\x22' :: more -> takesNext front = true

theorem takesNext_concat (scanned : Text) (c : Char) :
    takesNext (scanned ++ [c]) = (!takesNext scanned && isBackslash c) := by
  simp [takesNext]

theorem takesNext_cons {c : Char} (hc : isBackslash c = false) (rest : Text) :
    takesNext (c :: rest) = takesNext rest := by
  simp [takesNext, hc]

theorem takesNext_escaped (c : Char) (rest : Text) :
    takesNext ('\\' :: c :: rest) = takesNext rest := by
  simp [takesNext, isBackslash]

theorem takesNext_of_getLast? {front : Text} (h : front.getLast? ≠ some '\\') :
    takesNext front = false := by
  rcases List.eq_nil_or_concat front with rfl | ⟨init, c, rfl⟩
  · rfl
  · have hc : c ≠ '\\' := by simpa using h
    simp [takesNext_concat, isBackslash, hc]

/-- A run of backslashes takes the next character along exactly when it is odd. -/
theorem takesNext_backslashes {front : Text} (hfront : front.getLast? ≠ some '\\') (count : Nat) :
    takesNext (front ++ List.replicate count '\\') = false <-> Even count := by
  induction count with
  | zero => simp [takesNext_of_getLast? hfront]
  | succ count ih =>
      rw [List.replicate_succ', ← List.append_assoc, takesNext_concat, Nat.even_add_one, ← ih]
      simp [isBackslash]

/-! ## Texts without a free quote -/

theorem QuotesTaken.nil : QuotesTaken [] := by
  intro front more h
  simp at h

/-- A character in front that takes nothing along changes nothing, unless it is a quote. -/
theorem quotesTaken_cons_iff {c : Char} (hc : isBackslash c = false) {rest : Text} :
    QuotesTaken (c :: rest) <-> c ≠ '\x22' /\ QuotesTaken rest := by
  constructor
  · intro h
    refine ⟨?_, ?_⟩
    · rintro rfl
      cases h [] rest rfl
    · rintro front more rfl
      rw [← takesNext_cons hc]
      exact h (c :: front) more rfl
  · rintro ⟨hquote, h⟩ front more hsplit
    cases front with
    | nil =>
        cases hsplit
        exact absurd rfl hquote
    | cons d front =>
        cases hsplit
        rw [takesNext_cons hc]
        exact h front more rfl

theorem quotesTaken_escaped_iff {c : Char} {rest : Text} :
    QuotesTaken ('\\' :: c :: rest) <-> QuotesTaken rest := by
  constructor
  · rintro h front more rfl
    rw [← takesNext_escaped c]
    exact h ('\\' :: c :: front) more rfl
  · rintro h (_ | ⟨d, _ | ⟨e, front⟩⟩) more hsplit
    · cases hsplit
    · cases hsplit
      rfl
    · cases hsplit
      rw [takesNext_escaped]
      exact h front more rfl

theorem QuotesTaken.concat {text : Text} (h : QuotesTaken text) {c : Char}
    (hc : c ≠ '\x22') : QuotesTaken (text ++ [c]) := by
  intro front more hsplit
  rcases List.eq_nil_or_concat more with rfl | ⟨init, d, rfl⟩
  · exact absurd (List.append_inj_right' hsplit rfl) (by simpa using hc)
  · have hlast : text ++ [c] = (front ++ '\x22' :: init) ++ [d] := by simpa using hsplit
    exact h front init (List.append_inj_left' hlast rfl)

theorem QuotesTaken.append_backslashes {text : Text} (h : QuotesTaken text) (count : Nat) :
    QuotesTaken (text ++ List.replicate count '\\') := by
  induction count with
  | zero => simpa using h
  | succ count ih =>
      rw [List.replicate_succ', ← List.append_assoc]
      exact ih.concat (by decide)

/-- The scan finds nothing exactly when no quote is free. -/
theorem throughQuote?_eq_none_iff {text : Text} :
    throughQuote? text = none <-> QuotesTaken text := by
  fun_induction throughQuote? text with
  | case1 => simp [QuotesTaken.nil]
  | case2 rest =>
      constructor
      · intro h
        cases h
      · intro h
        cases h [] rest rfl
  | case3 =>
      refine ⟨fun _ => ?_, fun _ => rfl⟩
      rintro (_ | ⟨d, _ | ⟨e, front⟩⟩) more hsplit <;> cases hsplit
  | case4 escaped rest ih => rw [Option.map_eq_none_iff, ih, quotesTaken_escaped_iff]
  | case5 c rest hquote hend hslash ih =>
      have hc := beq_eq_false_iff_ne.2 (ne_backslash_of_no_escape hend hslash)
      rw [Option.map_eq_none_iff, ih, quotesTaken_cons_iff hc]
      exact ⟨fun h => ⟨hquote, h⟩, fun h => h.2⟩

theorem not_quotesTaken_iff {text : Text} :
    ¬ QuotesTaken text <->
      exists body after, text = body ++ '\x22' :: after /\ takesNext body = false := by
  simp [QuotesTaken]

theorem LiteralBody.holds_no_free_quote {body : Text} (h : LiteralBody body) :
    takesNext body = false /\ QuotesTaken body := by
  induction h with
  | nil => exact ⟨rfl, .nil⟩
  | plain hquote hslash _ ih =>
      have hc := beq_eq_false_iff_ne.2 hslash
      exact ⟨(takesNext_cons hc _).trans ih.1, (quotesTaken_cons_iff hc).2 ⟨hquote, ih.2⟩⟩
  | escaped c _ ih =>
      exact ⟨(takesNext_escaped c _).trans ih.1, quotesTaken_escaped_iff.2 ih.2⟩

/-- Between two quotes stands a text behind which a quote is free, and in which none is. -/
theorem literalBody_iff {body : Text} :
    LiteralBody body <-> takesNext body = false /\ QuotesTaken body := by
  constructor
  · exact LiteralBody.holds_no_free_quote
  · rintro ⟨htakes, hquotes⟩
    -- A quote behind the text is free, so the scan finds a first one, which is no earlier one.
    have hfree : ¬ QuotesTaken (body ++ ['\x22']) :=
      not_quotesTaken_iff.2 ⟨body, [], rfl, htakes⟩
    cases hfound : throughQuote? (body ++ ['\x22']) with
    | none => exact absurd (throughQuote?_eq_none_iff.1 hfound) hfree
    | some found =>
        obtain ⟨through, behind⟩ := found
        obtain ⟨first, hfirst, rfl⟩ := literalBody_of_throughQuote? hfound
        have hsplit := throughQuote?_sound hfound
        rcases List.eq_nil_or_concat behind with rfl | ⟨more, c, rfl⟩
        · rw [List.append_nil, List.append_cancel_right_eq] at hsplit
          rwa [hsplit]
        · have hlast : body ++ ['\x22'] = (first ++ '\x22' :: more) ++ [c] := by
            simpa using hsplit
          have htaken := hquotes first more (List.append_inj_left' hlast rfl)
          rw [hfirst.holds_no_free_quote.1] at htaken
          cases htaken

/-- A literal ends behind the first free quote. -/
theorem stringLiteral?_quote_iff {rest raw after : Text} :
    stringLiteral? ('\x22' :: rest) = some (raw, after) <->
      exists body, raw = '\x22' :: (body ++ ['\x22']) /\ rest = body ++ '\x22' :: after /\
        takesNext body = false /\ QuotesTaken body := by
  rw [stringLiteral?_eq_some_iff]
  constructor
  · rintro ⟨hsplit, body, hbody, rfl⟩
    exact ⟨body, rfl, by simpa using hsplit, literalBody_iff.1 hbody⟩
  · rintro ⟨body, rfl, rfl, hbody⟩
    exact ⟨by simp, body, literalBody_iff.2 hbody, rfl⟩

/-- A literal stands behind a quote exactly when one of the quotes after it is free. -/
theorem exists_stringLiteral?_iff {rest : Text} :
    (exists raw after, stringLiteral? ('\x22' :: rest) = some (raw, after)) <->
      exists body after, rest = body ++ '\x22' :: after /\ takesNext body = false := by
  rw [← not_quotesTaken_iff, ← throughQuote?_eq_none_iff, stringLiteral?]
  cases throughQuote? rest <;> simp

theorem isLiteral_iff_fits {text : Text} : IsLiteral text <-> literalPattern.Fits text := by
  rw [Pattern.Fits, literalPattern_ways, Option.mem_toList, stringLiteral?_eq_some_iff]
  simp

/-- The literal that stands first is the only prefix of a text that is a literal. -/
theorem isLiteral_prefix_iff {text raw after front : Text}
    (h : stringLiteral? text = some (raw, after)) (hfront : front <+: text) :
    IsLiteral front <-> front = raw := by
  constructor
  · intro hliteral
    obtain ⟨more, hmore⟩ := hfront
    rw [stringLiteral?_eq_some_iff.2 ⟨hmore.symm, hliteral⟩] at h
    cases h
    rfl
  · rintro rfl
    exact (stringLiteral?_eq_some_iff.1 h).2

/--
A string literal ends at the first quote that no backslash takes along.

Its pattern has no other way through a text.  A text that starts with a quote
starts with a literal exactly when a quote behind the first one is free, and the
literal then goes through the first of these.  The pattern fits no other prefix of
the text, and the literal stays the same whatever follows it.  A run of
backslashes in front of a quote lets it end the literal exactly when their number
is even.
-/
theorem literal_ends_at_first_free_quote (rest : Text) :
    (literalPattern.match? ('\x22' :: rest) = stringLiteral? ('\x22' :: rest) /\
      ∀ way ∈ literalPattern.ways ('\x22' :: rest),
        stringLiteral? ('\x22' :: rest) = some way) /\
    ((exists raw after, stringLiteral? ('\x22' :: rest) = some (raw, after)) <->
      exists body after, rest = body ++ '\x22' :: after /\ takesNext body = false) /\
    (forall raw after, stringLiteral? ('\x22' :: rest) = some (raw, after) ->
      (exists body, raw = '\x22' :: (body ++ ['\x22']) /\ rest = body ++ '\x22' :: after /\
        takesNext body = false /\ QuotesTaken body) /\
      (forall front, front <+: '\x22' :: rest -> (literalPattern.Fits front <-> front = raw)) /\
      (forall more, stringLiteral? (raw ++ more) = some (raw, more))) /\
    (forall front count after, rest = front ++ (List.replicate count '\\' ++ '\x22' :: after) ->
      front.getLast? ≠ some '\\' -> QuotesTaken front ->
        (stringLiteral? ('\x22' :: rest) =
            some ('\x22' :: (front ++ (List.replicate count '\\' ++ ['\x22'])), after) <->
          Even count)) := by
  refine ⟨⟨?_, ?_⟩, ?_, ?_, ?_⟩
  · rw [Pattern.match?, literalPattern_ways, Option.head?_toList]
  · rw [literalPattern_ways]
    intro way hway
    exact Option.mem_toList.1 hway
  · exact exists_stringLiteral?_iff
  · intro raw after hraw
    refine ⟨stringLiteral?_quote_iff.1 hraw, ?_, ?_⟩
    · intro front hfront
      rw [← isLiteral_iff_fits, isLiteral_prefix_iff hraw hfront]
    · intro more
      exact stringLiteral?_eq_some_iff.2 ⟨rfl, (stringLiteral?_eq_some_iff.1 hraw).2⟩
  · rintro front count after rfl hfront hquotes
    rw [stringLiteral?_quote_iff, ← takesNext_backslashes hfront]
    constructor
    · rintro ⟨body, hraw, _, htakes, _⟩
      have hclosed : (front ++ List.replicate count '\\') ++ ['\x22'] = body ++ ['\x22'] := by
        simpa using hraw
      rwa [List.append_cancel_right hclosed]
    · intro htakes
      exact ⟨front ++ List.replicate count '\\', by simp, by simp, htakes,
        hquotes.append_backslashes count⟩

example : stringLiteral? ['\x22', 'a', '\\', '\x22', '}'] = none :=
  rfl

/-- A literal that ends in two backslashes, in front of a letter and another quote. -/
def twoBackslashes : Text :=
  ['\x22', 'a', '\\', '\\', '\x22']

theorem twoBackslashes_end_literal :
    stringLiteral? (twoBackslashes ++ ['b', '\x22']) = some (twoBackslashes, ['b', '\x22']) /\
      (forall front, front <+: twoBackslashes ++ ['b', '\x22'] ->
        (literalPattern.Fits front <-> front = twoBackslashes)) /\
      (forall more, stringLiteral? (twoBackslashes ++ more) = some (twoBackslashes, more)) /\
      ['a'].getLast? ≠ some '\\' /\ QuotesTaken ['a'] /\
      (stringLiteral? (twoBackslashes ++ ['b', '\x22']) = some (twoBackslashes, ['b', '\x22']) <->
        Even 2) := by
  have hfound : stringLiteral? (twoBackslashes ++ ['b', '\x22']) =
      some (twoBackslashes, ['b', '\x22']) := by rfl
  have hlast : ['a'].getLast? ≠ some '\\' := by decide
  have hquotes : QuotesTaken ['a'] := (quotesTaken_cons_iff rfl).2 ⟨by decide, .nil⟩
  obtain ⟨_, _, hends, hbackslashes⟩ :=
    literal_ends_at_first_free_quote ['a', '\\', '\\', '\x22', 'b', '\x22']
  obtain ⟨_, hprefix, hmore⟩ := hends _ _ hfound
  exact ⟨hfound, hprefix, hmore, hlast, hquotes, hbackslashes ['a'] 2 _ rfl hlast hquotes⟩

end TranslationKeys.Lexeme
