import TranslationKeys.Proofs.CutValues
import TranslationKeys.Proofs.Described

/-!
# The first problem of a configuration

A configuration is decoded from left to right, and the first problem ends it.  So a
value of the wrong shape is the problem of each text that goes on behind it, unless
it is a number that may go on itself.
-/

namespace TranslationKeys.Config

open RawJson
open Decoder
open Lexeme (Avoids)

variable {α β : Type} {rule : KeyRule} {text more rest : Text}

/-! ## Values of the wrong type -/

theorem describeValue_numeral {first : Char} (h : first = '-' \/ first.isDigit = true) :
    describeValue first = (do
      let number <- numeral .cutOff first
      match number.describe? with
      | some words => return words
      | none => throw .malformed) := by
  have hne := beq_eq_false_of_beginsNumber h
  unfold describeValue
  rw [hne 'n' (by decide), hne 't' (by decide), hne 'f' (by decide), hne '\x22' (by decide),
    hne '[' (by decide), hne '{' (by decide), beginsNumber_eq_true_iff.2 h]
  rfl

theorem describeValue_steady {first : Char} (h : ¬ (first = '-' \/ first.isDigit = true)) :
    Steady (describeValue first) := by
  unfold describeValue
  rw [if_neg (beginsNumber_eq_true_iff.not.2 h)]
  refine .ite ((literal_steady _).bind fun _ => .pure _) ?_
  refine .ite ((literal_steady _).bind fun _ => .pure _) ?_
  refine .ite ((literal_steady _).bind fun _ => .pure _) ?_
  refine .ite (keptString_steady.bind fun _ => .pure _) ?_
  exact .ite (.pure _) (.ite (.pure _) (.throw _))

theorem rejectType_fails (first : Char) (expected text : Text) :
    exists error, (rejectType first expected : Decoder α) text = .error error := by
  cases hresult : (rejectType first expected : Decoder α) text with
  | error error => exact ⟨error, rfl⟩
  | ok taken => exact (rejectType_ok_iff.1 hresult).elim

/-- A value of the wrong type is rejected at once, but for a number that may go on. -/
theorem rejectType_extends {leeway : Leeway} {first : Char} {expected : Text}
    (hrefused : EndsInDigit (first :: text) -> leeway.refused) :
    ExtendsAt leeway (rejectType first expected : Decoder α) text more := by
  by_cases hfirst : first = '-' \/ first.isDigit = true
  · have hnumeral : ExtendsAt ⟨EndsInDigit (first :: text), False, False⟩
        (numeral .cutOff first) text more := by
      refine (numeral_extends hfirst fun _ => Or.inl rfl).mono (fun _ value hvalue => ?_) id id
      obtain ⟨number, hnumber, htext⟩ := number_of_numeral hfirst hvalue
      rw [htext, List.append_nil]
      exact endsInDigit_of_isNumber hnumber
    have hfails : exists error, (rejectType first expected : Decoder α) (text ++ more) =
        .error error := rejectType_fails first expected _
    unfold rejectType at hfails ⊢
    rw [describeValue_numeral hfirst, bind_assoc] at hfails ⊢
    obtain ⟨other, hother⟩ := hfails
    refine hnumeral.bind False.elim False.elim (fun hend number _ => ?_) fun number rest _ _ => ?_
    · rw [hother]
      cases number.describe? with
      | none => exact .refused (hrefused hend) _ _
      | some words => exact .refused (hrefused hend) _ _
    · cases number.describe? with
      | none => exact (Steady.throw _).extendsAt _ _
      | some words => exact (Steady.throw _).extendsAt _ _
  · exact (describeValue_steady hfirst).bind_extendsAt fun _ _ _ _ =>
      (Steady.throw _).extendsAt _ _

/-! ## Values of settings -/

/-- More text changes nothing but a text that is cut off, or one that ends in a digit. -/
def Guarded (decoder : Decoder α) : Prop :=
  forall (leeway : Leeway) (text more : Text), (EndsInDigit text -> leeway.refused) ->
    ExtendsAt leeway decoder text more

theorem Guarded.of_steady {decoder : Decoder α} (h : Steady decoder) : Guarded decoder :=
  fun _ text more _ => h.extendsAt text more

theorem Guarded.bind {first : Decoder α} {next : α -> Decoder β} (hfirst : Guarded first)
    (hnext : forall value, Guarded (next value)) : Guarded (first >>= next) := by
  intro leeway text more hrefused
  refine ExtendsAt.bind (hfirst ⟨False, leeway.refused, False⟩ text more hrefused) id False.elim
    (fun h => h.elim) fun value rest _ hrest => ?_
  exact hnext value leeway rest more fun hend => hrefused (hend.of_isSuffix hrest)

theorem Guarded.ite {condition : Prop} [Decidable condition] {first second : Decoder α}
    (hfirst : Guarded first) (hsecond : Guarded second) :
    Guarded (if condition then first else second) := by
  split
  · exact hfirst
  · exact hsecond

theorem Guarded.pure (value : α) : Guarded (pure value : Decoder α) :=
  .of_steady (.pure value)

theorem Guarded.throw (error : DecodeError) : Guarded (throw error : Decoder α) :=
  .of_steady (.throw error)

/-- Behind the first character of a value, where the value itself may end in a digit. -/
theorem guarded_takeToken {next : Char -> Decoder α}
    (hnext : forall (leeway : Leeway) (first : Char) (text more : Text),
      (EndsInDigit (first :: text) -> leeway.refused) ->
        ExtendsAt leeway (next first) text more) : Guarded (takeToken >>= next) := by
  intro leeway text more hrefused
  refine takeToken_steady.bind_extendsAt fun first rest htoken _ => ?_
  have hblank := (takeToken_ok_iff.1 htoken).1
  exact hnext leeway first rest more fun hend => hrefused (hend.of_isSuffix hblank.isSuffix)

theorem decodeBoolean_guarded : Guarded decodeBoolean := by
  refine guarded_takeToken fun leeway first text more hrefused => ?_
  split
  · exact ((literal_steady _).bind fun _ => .pure _).extendsAt _ _
  · split
    · exact ((literal_steady _).bind fun _ => .pure _).extendsAt _ _
    · exact rejectType_extends hrefused

theorem decodeNull_guarded : Guarded decodeNull := by
  refine guarded_takeToken fun leeway first text more hrefused => ?_
  split
  · exact (literal_steady _).extendsAt _ _
  · exact rejectType_extends hrefused

theorem decodeFormatName_steady : Steady decodeFormatName := by
  refine keptString_steady.bind fun name => ?_
  cases ReportFormat.ofName? name with
  | none => exact .throw _
  | some format => exact .pure _

theorem KeyRule.reject_extends {leeway : Leeway} {first : Char}
    (hrefused : EndsInDigit (first :: text) -> leeway.refused) :
    ExtendsAt leeway (rule.reject first : Decoder α) text more := by
  cases rule with
  | key => exact (Steady.throw _).extendsAt _ _
  | value expected => exact rejectType_extends hrefused

theorem decodeFormatKey_guarded : Guarded (decodeFormatKey rule) := by
  refine guarded_takeToken fun leeway first text more hrefused => ?_
  split
  · exact decodeFormatName_steady.extendsAt _ _
  · exact KeyRule.reject_extends hrefused

theorem decodeFormatObject_guarded : Guarded (decodeFormatObject rule) :=
  decodeFormatKey_guarded.bind fun _ =>
    (Guarded.of_steady (expectToken_steady _)).bind fun _ =>
      decodeNull_guarded.bind fun _ =>
        (Guarded.of_steady (expectToken_steady _)).bind fun _ => .pure _

theorem decodeFormat_guarded : Guarded (decodeFormat rule) :=
  (Guarded.of_steady takeToken_steady).bind fun _ =>
    .ite (.of_steady decodeFormatName_steady) (.ite decodeFormatObject_guarded (.throw _))

/-! ## Arrays -/

theorem nextItem?_guarded (first : Bool) {item : Decoder α} (hitem : Guarded item) :
    Guarded (nextItem? first item) := by
  have hsome : Guarded (some <$> item) := by
    rw [map_eq_pure_bind]
    exact hitem.bind fun _ => .pure _
  refine (Guarded.of_steady peekToken_steady).bind fun c => .ite (.pure _) (.ite hsome (.ite ?_ ?_))
  · exact (Guarded.of_steady take_steady).bind fun _ =>
      (Guarded.of_steady peekToken_steady).bind fun _ =>
        (Guarded.of_steady (require_steady _)).bind fun _ => hsome
  · exact .throw _

theorem decodeArray_guarded : Guarded (decodeArray rule) :=
  (nextItem?_guarded true decodeFormat_guarded).bind fun _ =>
    (nextItem?_guarded false decodeBoolean_guarded).bind fun _ =>
      (nextItem?_guarded false decodeBoolean_guarded).bind fun _ =>
        (Guarded.of_steady (expectToken_steady _)).bind fun _ => .pure _

/-! ## Members -/

/-- A text ends inside the number of an unknown member, or of a value inside its value. -/
def EndsInUnknownNumber (text : Text) : Prop :=
  exists path key, EndsInNumber text (path ++ [.member key]) /\
    ∀ name ∈ settingNames, ¬ Unescapes key name

theorem checkNew_steady (name : Text) (old : Option α) : Steady (checkNew name old) :=
  .ite (.throw _) (.pure _)

theorem knownField_guarded {item : Decoder α} (hitem : Guarded item) (name : Text)
    (old : Option α) (update : α -> Fields) :
    Guarded (do
      checkNew name old
      expectToken ':'
      let value <- item
      return update value : Decoder Fields) :=
  (Guarded.of_steady (checkNew_steady name old)).bind fun _ =>
    (Guarded.of_steady (expectToken_steady _)).bind fun _ => hitem.bind fun _ => .pure _

theorem decodeNamed_extends {leeway : Leeway} {fields : Fields} {name : Text}
    (hended : leeway.ended) (hrefused : EndsInDigit text -> leeway.refused)
    (hunfinished : name ∉ settingNames -> forall place path, IsBlank text (':' :: place) ->
      EndsInNumber place path -> leeway.unfinished) :
    ExtendsAt leeway (decodeNamed rule fields name) text more := by
  unfold decodeNamed
  split
  · exact knownField_guarded decodeFormat_guarded _ _ _ leeway text more hrefused
  · split
    · exact knownField_guarded decodeBoolean_guarded _ _ _ leeway text more hrefused
    · split
      · exact knownField_guarded decodeBoolean_guarded _ _ _ leeway text more hrefused
      · rename_i hformat htrace hdeny
        have hunknown : name ∉ settingNames := by
          simp only [beq_iff_eq] at hformat htrace hdeny
          simp only [settingNames, List.mem_cons, List.not_mem_nil, or_false, not_or]
          exact ⟨hformat, htrace, hdeny⟩
        refine (expectToken_steady ':').bind_extendsAt fun _ place hcolon _ => ?_
        refine skipValue_extends.bind False.elim ?_ (fun _ _ _ => .ended hended _ _)
          fun _ _ _ _ => (Steady.pure _).extendsAt _ _
        rintro ⟨path, hpath⟩
        exact hunfinished hunknown place path ((expectToken_ok_iff rfl).1 hcolon) hpath

theorem decodeField_extends {leeway : Leeway} {start : Text} (fields : Fields)
    (hquote : IsBlank start ('\x22' :: text)) (hended : leeway.ended)
    (hrefused : EndsInDigit text -> leeway.refused)
    (hunfinished : forall key place path, IsKey key start place ->
      (∀ name ∈ settingNames, ¬ Unescapes key name) -> EndsInNumber place path ->
        leeway.unfinished) :
    ExtendsAt leeway (decodeField rule fields) text more := by
  rw [decodeField_eq]
  refine keptString_steady.bind_extendsAt fun name rest hname hrest => ?_
  obtain ⟨key, hkey, rfl⟩ := keptString_ok_iff.1 hname
  refine decodeNamed_extends hended (fun hend => hrefused (hend.of_isSuffix hrest)) ?_
  intro hunknown place path hcolon
  refine hunfinished key place path ⟨rest, hkey.isBody, hquote, hcolon⟩ ?_
  rintro other hother hkey'
  exact hunknown (hkey.unique hkey' ▸ hother)

theorem decodeField_isSuffix {fields next : Fields}
    (h : decodeField rule fields text = .ok (next, rest)) : rest <:+ text := by
  have hextends : ExtendsAt ⟨True, True, True⟩ (decodeField rule fields) text [] :=
    decodeField_extends fields (.refl _) trivial (fun _ => trivial) fun _ _ _ _ _ _ => trivial
  exact hextends.isSuffix h

/-- A member of an object, from its quote on. -/
def decodeMember (rule : KeyRule) (fields : Fields) : Decoder Fields := do
  expectToken '\x22'
  decodeField rule fields

theorem decodeMember_length_le {fields next : Fields}
    (h : decodeMember rule fields text = .ok (next, rest)) : rest.length <= text.length := by
  obtain ⟨_, between, hquote, hfield⟩ := bind_ok_iff.1 h
  have hblank := (expectToken_ok_iff rfl).1 hquote
  exact ((decodeField_isSuffix hfield).trans hblank.mark_isSuffix).length_le

theorem decodeFields_nil (bound : Text) (fields : Fields) :
    decodeFields rule bound fields [] = .error .cutOff := by
  cases bound <;> rfl

theorem decodeFields_congr {bound other : Text} {fields : Fields}
    (hbound : text.length <= bound.length) (hother : text.length <= other.length) :
    decodeFields rule bound fields text = decodeFields rule other fields text := by
  induction bound generalizing text other fields with
  | nil =>
      have hnil : text = [] := List.eq_nil_of_length_eq_zero (Nat.le_zero.1 hbound)
      rw [hnil, decodeFields_nil, decodeFields_nil]
  | cons c bound ih =>
      cases other with
      | nil =>
          have hnil : text = [] := List.eq_nil_of_length_eq_zero (Nat.le_zero.1 hother)
          rw [hnil, decodeFields_nil, decodeFields_nil]
      | cons d other =>
          rw [decodeFields_cons, decodeFields_cons]
          refine bind_congr_of_ok fun mark after htoken => ?_
          have hafter := takeToken_length_lt htoken
          split
          · rfl
          · split
            · refine bind_congr_of_ok fun next rest hmember => ?_
              have hrest := decodeMember_length_le hmember
              rw [List.length_cons] at hbound hother
              exact ih (by omega) (by omega)
            · rfl

/-- The members after the first one are one of them and those behind it. -/
theorem decodeMore_eq (fields : Fields) :
    decodeMore rule fields = (do
      let mark <- takeToken
      if mark == '}' then return fields
      else if mark == ',' then
        let next <- decodeMember rule fields
        decodeMore rule next
      else throw .malformed) := by
  funext text
  cases text with
  | nil => rfl
  | cons c text =>
      unfold decodeMore
      rw [decodeFields_cons]
      refine bind_congr_of_ok fun mark after htoken => ?_
      have hafter := takeToken_length_lt htoken
      split
      · rfl
      · split
        · refine bind_congr_of_ok fun next rest hmember => ?_
          have hrest := decodeMember_length_le hmember
          rw [List.length_cons] at hafter
          exact decodeFields_congr (by omega) (Nat.le_refl _)
        · rfl

/-! ## Objects -/

theorem endsInUnknownNumber_of_isAt {whole place : Text} {key : Text} {path : List Step}
    (hplace : IsAt whole [.member key] place) (hkey : ∀ name ∈ settingNames, ¬ Unescapes key name)
    (h : EndsInNumber place path) : EndsInUnknownNumber whole := by
  obtain ⟨last, front, hlast, hblank, hcut⟩ := h
  exact ⟨path, key, ⟨last, front, hplace.trans hlast, hblank, hcut⟩, hkey⟩

/-- What more text may change: a value of the wrong type that ends in a digit, and a number. -/
def leewayAt (whole : Text) : Leeway :=
  ⟨False, EndsInDigit whole, EndsInUnknownNumber whole⟩

section Objects

variable {whole start : Text}

/-- The text stands behind a member of the object that the whole text begins with. -/
def FollowsMember (whole text : Text) : Prop :=
  exists key place document, IsAt whole [.member key] place /\ Begins document place text

theorem followsMember_of_decodeMember {fields next : Fields}
    (hplace : forall key place, IsKey key start place -> IsAt whole [.member key] place)
    (h : decodeMember rule fields start = .ok (next, rest)) (hrest : Avoids continuesNumber rest) :
    FollowsMember whole rest := by
  obtain ⟨key, name, place, document, hkey, hbegins, -⟩ := (decodeMember_ok_iff hrest).1 h
  exact ⟨key, place, document, hplace key place hkey, hbegins⟩

/-- A member goes on as its value does, and the members behind it as is assumed. -/
theorem decodeField_decodeMore_extends {fields : Fields} (hsuffix : text <:+ whole)
    (hquote : IsBlank start ('\x22' :: text))
    (hplace : forall key place, IsKey key start place -> IsAt whole [.member key] place)
    (hmore : forall next rest, rest <:+ text -> (Avoids continuesNumber rest ->
      FollowsMember whole rest) -> ExtendsAt (leewayAt whole) (decodeMore rule next) rest more) :
    ExtendsAt (leewayAt whole) (decodeField rule fields >>= decodeMore rule) text more := by
  have hfield : ExtendsAt ⟨True, EndsInDigit whole, EndsInUnknownNumber whole⟩
      (decodeField rule fields) text more := by
    refine decodeField_extends fields hquote trivial (fun hend => hend.of_isSuffix hsuffix) ?_
    rintro key place path hkey hunknown hnumber
    exact endsInUnknownNumber_of_isAt (hplace key place hkey) hunknown hnumber
  refine hfield.bind id id (fun _ next _ => .cutOff _) fun next rest hnext hrest => ?_
  have hmember : decodeMember rule fields start = .ok (next, rest) :=
    bind_ok_iff.2 ⟨(), text, (expectToken_ok_iff rfl).2 hquote, hnext⟩
  exact hmore next rest hrest (followsMember_of_decodeMember hplace hmember)

/-- The run lemma for the members: each of them stands behind the one in front of it. -/
theorem decodeMore_extends {fields : Fields} (hsuffix : text <:+ whole)
    (h : Avoids continuesNumber text -> FollowsMember whole text) :
    ExtendsAt (leewayAt whole) (decodeMore rule fields) text more := by
  induction hlength : text.length using Nat.strongRecOn generalizing text fields with
  | ind length ih =>
      rw [decodeMore_eq]
      refine takeToken_steady.bind_extendsAt fun mark after htoken hafter => ?_
      split
      · exact (Steady.pure _).extendsAt _ _
      · split
        · rename_i hmark
          have hcomma := (takeToken_ok_iff.1 htoken).1
          rw [beq_iff_eq.1 hmark] at hcomma
          have hends := ends_of_isBlank (by decide) hcomma
          obtain ⟨last, before, document, hbefore, hbegins⟩ := h hends
          rw [decodeMember, bind_assoc]
          refine (expectToken_steady _).bind_extendsAt fun _ behind hquote hbehind => ?_
          refine decodeField_decodeMore_extends (hbehind.trans (hafter.trans hsuffix))
            ((expectToken_ok_iff rfl).1 hquote)
            (fun key place hkey => hbefore.next hbegins hcomma rfl hkey) ?_
          intro next rest hrest hfollows
          have hlt := takeToken_length_lt htoken
          have hle := (hrest.trans hbehind).length_le
          exact ih rest.length (by omega) (hrest.trans (hbehind.trans (hafter.trans hsuffix)))
            hfollows rfl
        · exact (Steady.throw _).extendsAt _ _

theorem decodeObject_extends (hopen : IsBlank whole ('{' :: text)) :
    ExtendsAt (leewayAt whole) (decodeObject rule) text more := by
  refine takeToken_steady.bind_extendsAt fun c after htoken hafter => ?_
  split
  · exact (Steady.pure _).extendsAt _ _
  · split
    · rename_i hc
      have hquote := (takeToken_ok_iff.1 htoken).1
      rw [beq_iff_eq.1 hc] at hquote
      have hsuffix : after <:+ whole := hafter.trans hopen.mark_isSuffix
      have hmembers : ExtendsAt (leewayAt whole)
          (decodeField rule .empty >>= decodeMore rule) after more :=
        decodeField_decodeMore_extends hsuffix hquote
          (fun key place hkey => IsAt.whole.first hopen hkey)
          fun next rest hrest => decodeMore_extends (hrest.trans hsuffix)
      rw [← bind_assoc]
      exact hmembers.bind id id (fun h => h.elim) fun _ _ _ _ => (Steady.pure _).extendsAt _ _
    · exact (Steady.throw _).extendsAt _ _

end Objects

/-! ## Whole texts -/

/-- More text changes the settings only where a digit or an unknown number stands last. -/
theorem decodeConfig_extends (text more : Text) :
    ExtendsAt (leewayAt text) (decodeConfig rule) text more := by
  refine takeToken_steady.bind_extendsAt fun c after htoken hafter => ?_
  have hblank := (takeToken_ok_iff.1 htoken).1
  split
  · rename_i hc
    rw [beq_iff_eq.1 hc] at hblank
    exact decodeObject_extends hblank
  · split
    · exact decodeArray_guarded _ after more fun hend => hend.of_isSuffix hafter
    · exact rejectType_extends fun hend => hend.of_isSuffix hblank.isSuffix

theorem decodeBy_of_error {error : DecodeError} (h : decodeConfig rule text = .error error) :
    decodeBy rule text = .error error := by
  have hwhole : decodeWhole rule text = .error error := bind_of_error h _
  change (fun taken : Config × Text => taken.1) <$> decodeWhole rule text = _
  rw [hwhole]
  rfl

/-- Behind the settings nothing of the wrong shape is found. -/
theorem decodeBy_of_ok {config : Config} (h : decodeConfig rule text = .ok (config, rest)) :
    decodeBy rule text = .ok config \/ decodeBy rule text = .error .malformed := by
  have hwhole : decodeWhole rule text = (atEnd >>= fun _ => pure config) rest := bind_of_ok h _
  change (fun taken : Config × Text => taken.1) <$> decodeWhole rule text = _ \/
    (fun taken : Config × Text => taken.1) <$> decodeWhole rule text = _
  rw [hwhole]
  have hend : atEnd rest = require (rest.dropWhile isJsonSpace).isEmpty
      (rest.dropWhile isJsonSpace) := rfl
  cases hempty : (rest.dropWhile isJsonSpace).isEmpty with
  | true =>
      rw [hempty] at hend
      exact Or.inl (by rw [bind_of_ok hend]; rfl)
  | false =>
      rw [hempty] at hend
      exact Or.inr (by rw [bind_of_error hend]; rfl)

theorem decodeBy_wrongShape_iff {message : Text} :
    decodeBy rule text = .error (.wrongShape message) <->
      decodeConfig rule text = .error (.wrongShape message) := by
  constructor
  · intro h
    cases hconfig : decodeConfig rule text with
    | error error =>
        cases (decodeBy_of_error hconfig).symm.trans h
        rfl
    | ok taken =>
        rcases decodeBy_of_ok hconfig with hok | hmalformed
        · cases h.symm.trans hok
        · cases h.symm.trans hmalformed
  · exact decodeBy_of_error

/--
The first problem wins.  A text that is rejected for a value of the wrong shape is
rejected with the same words however it goes on, unless its last character is a
digit.  No syntax error, repeated field or bad value behind the problem is seen.
It makes no difference what is read for the name of a format in an object.
-/
theorem first_problem_wins {rule : KeyRule} {text message : Text}
    (h : decodeBy rule text = .error (.wrongShape message))
    (hlast : ∀ c ∈ text.getLast?, c.isDigit = false) (more : Text) :
    decodeBy rule (text ++ more) = .error (.wrongShape message) := by
  rw [decodeBy_wrongShape_iff] at h ⊢
  have hextends : ExtendsAt (leewayAt text) (decodeConfig rule) text more :=
    decodeConfig_extends text more
  unfold ExtendsAt at hextends
  generalize decodeConfig rule (text ++ more) = result at hextends ⊢
  rw [h] at hextends
  cases hextends with
  | problem => rfl
  | refused hdigit =>
      obtain ⟨front, c, rfl, hc⟩ : EndsInDigit text := hdigit
      rw [hlast c (by simp)] at hc
      cases hc

/--
A format of an unknown name, where a second format and an open brace follow, and an
array for the name of a format, which has the wrong type if any value is read there.
-/
theorem unknownFormat_wins :
    let text := "\x7b \"format\": \"xml\"".toList
    let message := "unknown variant `xml`, expected `text` or `json`".toList
    let rule := KeyRule.value "variant identifier".toList
    let unnamed := "\x7b \"format\": \x7b [".toList
    let expected := "invalid type: sequence, expected variant identifier".toList
    (decode text = .error (.wrongShape message) /\
        (∀ c ∈ text.getLast?, c.isDigit = false) /\
        decode (text ++ ", \"format\": 1 \x7b".toList) = .error (.wrongShape message)) /\
      decodeBy rule unnamed = .error (.wrongShape expected) /\
        (∀ c ∈ unnamed.getLast?, c.isDigit = false) /\
        decodeBy rule (unnamed ++ "\"text\"] \x7d".toList) = .error (.wrongShape expected) := by
  have htext : decode "\x7b \"format\": \"xml\"".toList = .error (.wrongShape
      "unknown variant `xml`, expected `text` or `json`".toList) := by
    decide +kernel
  have hlast : ∀ c ∈ ("\x7b \"format\": \"xml\"".toList).getLast?, c.isDigit = false := by
    intro c hc
    obtain rfl : '\x22' = c := Option.some.inj hc
    rfl
  have hunnamed : decodeBy (.value "variant identifier".toList)
      "\x7b \"format\": \x7b [".toList = .error (.wrongShape
        "invalid type: sequence, expected variant identifier".toList) := by
    decide +kernel
  have hopen : ∀ c ∈ ("\x7b \"format\": \x7b [".toList).getLast?, c.isDigit = false := by
    intro c hc
    obtain rfl : '[' = c := Option.some.inj hc
    rfl
  exact ⟨⟨htext, hlast, first_problem_wins htext hlast _⟩,
    hunnamed, hopen, first_problem_wins hunnamed hopen _⟩

end TranslationKeys.Config
